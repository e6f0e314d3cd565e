import WebCrawl.FileLines

/-!
# The file with the paths

`getFileOfPaths` makes a linked list of the lines that are not empty.  The first
line makes a node for `P`, and `curPath` is the last node, which the next line
goes behind.  `P` has no value until then, so a file without such a line gives
back a pointer that was never set.  Nodes have the places at which they were
allocated for their addresses, and allocation succeeds.
-/

namespace WebCrawl

structure PathNode where
  content : CString
  next : Option Nat
  deriving DecidableEq

/-- The variables of `getFileOfPaths`; `P` is `none` as long as it has no value. -/
structure PathsReader where
  nodes : List PathNode
  P : Option Nat
  curPath : Option Nat
  flag : Bool
  N : Int

/-- What `getFileOfPaths` returns and leaves behind. -/
structure PathsFile where
  nodes : List PathNode
  P : Option Nat
  N : Int
  deriving DecidableEq

def newPathNode (content : CString) : PathNode where
  content := content
  next := none

/-- What is done with the line in the buffer. -/
def addPath (str : List Char) (reader : PathsReader) : Outcome PathsReader :=
  let address := reader.nodes.length
  if strlen str = 0 then .returns reader
  else if reader.flag then
    match reader.curPath with
    | none => .faults
    | some curPath => .returns
      { reader with
        nodes := reader.nodes.modify curPath (fun node => { node with next := some address })
          ++ [newPathNode (CString.ofBlock str)]
        curPath := some address
        N := toInt (reader.N + 1) }
  else .returns
    { nodes := reader.nodes ++ [newPathNode (CString.ofBlock str)]
      P := some address
      curPath := some address
      flag := true
      N := toInt (reader.N + 1) }

/-- `return P`, which is undefined when `P` was not set. -/
def returnPaths (reader : PathsReader) : Outcome PathsFile :=
  match reader.P with
  | none => .faults
  | some P => .returns ⟨reader.nodes, some P, reader.N⟩

/-- The loop over the lines. -/
def readPaths : Nat → List Char → Nat → PathsReader → Outcome PathsFile
  | 0, _, _, _ => .unfinished
  | fuel + 1, file, size, reader => do
      match ← readLine growSize size file with
      | none => return ⟨reader.nodes, none, reader.N⟩
      | some line =>
          let reader ← addPath (line.str ++ ['\x00']) reader
          if line.atEnd then returnPaths reader
          else readPaths fuel line.file line.size reader

/-- The file is `none` when it cannot be opened. -/
def getFileOfPaths (fuel : Nat) (docfile : Option (List Char)) (size : Nat) :
    Outcome PathsFile :=
  match docfile with
  | none => .returns ⟨[], none, 0⟩
  | some file =>
      readPaths fuel file size
        { nodes := [], P := none, curPath := none, flag := false, N := 0 }

/-- `freePaths`, which gives the addresses of the nodes in the order in which
they are freed. -/
def freePaths (nodes : List PathNode) : Nat → Option Nat → Outcome (List Nat)
  | _, none => .returns []
  | 0, some _ => .unfinished
  | fuel + 1, some pPath =>
      match nodes[pPath]? with
      | none => .faults
      | some node => do
          let freed ← freePaths nodes fuel node.next
          return freed ++ [pPath]

/-- A pointer to a list that holds the given lines. -/
def HoldsPaths (nodes : List PathNode) : Option Nat → List (List Char) → Prop
  | path, [] => path = none
  | path, line :: lines =>
      ∃ address node, path = some address ∧ nodes[address]? = some node ∧
        node.content.chars = line ∧ HoldsPaths nodes node.next lines

/-- The lines that are paths. -/
def pathLines (file : List Char) : List (List Char) :=
  (fileLines file).filter (· ≠ [])

/-- The result is the list of the lines that are not empty, with their number,
and all of its nodes are freed by `freePaths`, each once. -/
structure ListsPaths (file : List Char) (found : PathsFile) : Prop where
  holds : HoldsPaths found.nodes found.P (pathLines file)
  number : found.N = (pathLines file).length
  frees : ∃ freed, Outcome.Settles (freePaths found.nodes · found.P) (.returns freed) ∧
    freed.Perm (List.range found.nodes.length)

section Lists

/-- The nodes that a list of contents has, from an address on. -/
def chain (start : Nat) : List CString → List PathNode
  | [] => []
  | [content] => [newPathNode content]
  | content :: next :: more =>
      ⟨content, some (start + 1)⟩ :: chain (start + 1) (next :: more)

def chainHead (start : Nat) : List CString → Option Nat
  | [] => none
  | _ :: _ => some start

theorem chain_cons (start : Nat) (content : CString) (more : List CString) :
    chain start (content :: more) =
      ⟨content, chainHead (start + 1) more⟩ :: chain (start + 1) more := by
  cases more with
  | nil => rfl
  | cons => rfl

theorem chain_length (start : Nat) (contents : List CString) :
    (chain start contents).length = contents.length := by
  induction contents generalizing start with
  | nil => rfl
  | cons content more ih => rw [chain_cons, List.length_cons, List.length_cons, ih]

/-- Setting the link of the last node and appending a node lengthens the list. -/
theorem chain_append (start : Nat) (content : CString) (more : List CString)
    (last : CString) :
    (chain start (content :: more)).modify more.length
        (fun node => { node with next := some (start + more.length + 1) }) ++
      [newPathNode last] = chain start (content :: more ++ [last]) := by
  induction more generalizing start content with
  | nil => rfl
  | cons next more ih =>
      have later := ih (start + 1) next
      have samePlace : start + (more.length + 1) + 1 = start + 1 + more.length + 1 := by
        omega
      rw [List.length_cons, samePlace]
      exact congrArg (PathNode.mk content (some (start + 1)) :: ·) later

theorem chain_holds (before : List PathNode) (contents : List CString) :
    HoldsPaths (before ++ chain before.length contents)
      (chainHead before.length contents) (contents.map CString.chars) := by
  induction contents generalizing before with
  | nil => rfl
  | cons content more ih =>
      have later := ih (before ++ [⟨content, chainHead (before.length + 1) more⟩])
      rw [List.length_append, List.length_singleton, List.append_assoc,
        List.singleton_append, ← chain_cons] at later
      refine ⟨before.length, ⟨content, chainHead (before.length + 1) more⟩, rfl, ?_, rfl,
        later⟩
      rw [chain_cons]
      simp

theorem freePaths_chain (before : List PathNode) (contents : List CString) :
    Outcome.Settles
      (freePaths (before ++ chain before.length contents) ·
        (chainHead before.length contents))
      (.returns (List.range' before.length contents.length).reverse) := by
  induction contents generalizing before with
  | nil =>
      refine (Outcome.Settles.const _).congr fun fuel => ?_
      cases fuel <;> rfl
  | cons content more ih =>
      have later := ih (before ++ [⟨content, chainHead (before.length + 1) more⟩])
      rw [List.length_append, List.length_singleton, List.append_assoc,
        List.singleton_append, ← chain_cons] at later
      have node : (before ++ chain before.length (content :: more))[before.length]? =
          some ⟨content, chainHead (before.length + 1) more⟩ := by
        rw [chain_cons]
        simp
      refine Outcome.Settles.of_succ rfl ?_
      rw [List.length_cons, List.range'_succ, List.reverse_cons]
      have both := @Outcome.Settles.bind_returns _ _ _
        (fun freed _ => .returns (freed ++ [before.length])) _ _ later (Outcome.Settles.const _)
      refine both.congr fun fuel => ?_
      simp only [chainHead, freePaths, node]
      rfl

end Lists

section Reading

variable {file line : List Char} {size : Nat}

/-- The variables after the nodes for some contents were made. -/
def readerOf (contents : List CString) : PathsReader where
  nodes := chain 0 contents
  P := chainHead 0 contents
  curPath := chainHead (contents.length - 1) contents
  flag := !contents.isEmpty
  N := toInt contents.length

theorem addPath_empty (reader : PathsReader) :
    addPath ([] ++ ['\x00']) reader = .returns reader :=
  rfl

theorem addPath_line (nulFree : '\x00' ∉ line) (nonempty : line ≠ [])
    (contents : List CString) :
    addPath (line ++ ['\x00']) (readerOf contents) =
      .returns (readerOf (contents ++ [CString.ofBlock line])) := by
  have string : cstr (line ++ ['\x00']) = line := cstr_append_nul nulFree
  have notEmpty : strlen (line ++ ['\x00']) ≠ 0 := by
    rw [strlen, string]
    exact fun none => nonempty (List.eq_nil_of_length_eq_zero none)
  have content : CString.ofBlock (line ++ ['\x00']) = CString.ofBlock line := by
    ext1
    rw [CString.ofBlock_chars, CString.ofBlock_chars, string, cstr_of_nulFree nulFree]
  have counted : ∀ length : Nat, toInt (toInt length + 1) = toInt (length + 1 : Nat) :=
    fun length => toInt_toInt_add length 1
  rw [addPath, if_neg notEmpty, content]
  cases contents with
  | nil => rfl
  | cons first more =>
      have lengthened := chain_append 0 first more (CString.ofBlock line)
      rw [Nat.zero_add] at lengthened
      simp only [readerOf, chain_length, List.isEmpty_cons, Bool.not_false, ↓reduceIte,
        chainHead, List.length_cons, Nat.add_sub_cancel, lengthened, counted,
        List.cons_append, List.length_append, List.length_nil, Nat.zero_add]

def pathContents (file : List Char) : List CString :=
  (pathLines file).map CString.ofBlock

theorem pathContents_last (noNewline : ∀ ch ∈ line, isNewline ch = false) :
    pathContents line = if line = [] then [] else [CString.ofBlock line] := by
  rw [pathContents, pathLines, fileLines_last noNewline]
  by_cases empty : line = []
  · simp [empty]
  · simp [empty]

theorem pathContents_next (noNewline : ∀ ch ∈ line, isNewline ch = false)
    (rest : List Char) :
    pathContents (line ++ '\n' :: rest) =
      (if line = [] then [] else [CString.ofBlock line]) ++ pathContents rest := by
  rw [pathContents, pathContents, pathLines, pathLines, fileLines_next noNewline]
  by_cases empty : line = []
  · simp [empty]
  · simp [empty]

theorem addPath_eq (nulFree : '\x00' ∉ line) (contents : List CString) :
    addPath (line ++ ['\x00']) (readerOf contents) = .returns
      (readerOf (contents ++ if line = [] then [] else [CString.ofBlock line])) := by
  by_cases empty : line = []
  · rw [if_pos empty, empty, addPath_empty, List.append_nil]
  · rw [if_neg empty, addPath_line nulFree empty]

/-- One round of the loop. -/
theorem readPaths_line (positive : 0 < size) (nulFree : '\x00' ∉ line)
    (noNewline : ∀ ch ∈ line, isNewline ch = false) (ending : Option (List Char))
    (contents : List CString) :
    ∃ next, 0 < next ∧ ∀ fuel,
      readPaths (fuel + 1) (line ++ lineEnd ending) size (readerOf contents) =
        let reader := readerOf (contents ++ if line = [] then [] else [CString.ofBlock line])
        match ending with
        | none => returnPaths reader
        | some rest => readPaths fuel rest next reader := by
  obtain ⟨next, nextPositive, read⟩ := readLine_growSize positive noNewline ending
  refine ⟨next, nextPositive, fun fuel => ?_⟩
  rw [readPaths, read, Outcome.returns_bind]
  simp only [addPath_eq nulFree, Outcome.returns_bind]
  cases ending with
  | none => rfl
  | some rest => rfl

theorem readPaths_settles (positive : 0 < size) (nulFree : '\x00' ∉ file)
    (contents : List CString) :
    Outcome.Settles (readPaths · file size (readerOf contents))
      (returnPaths (readerOf (contents ++ pathContents file))) := by
  induction file using line_induction generalizing size contents with
  | last line noNewline =>
      obtain ⟨_, _, round⟩ := readPaths_line positive nulFree noNewline none contents
      rw [lineEnd, List.append_nil] at round
      refine Outcome.Settles.of_round rfl fun fuel => ?_
      rw [round, pathContents_last noNewline]
  | next line rest noNewline ih =>
      simp only [List.mem_append, List.mem_cons, not_or] at nulFree
      obtain ⟨next, nextPositive, round⟩ :=
        readPaths_line positive nulFree.1 noNewline (some rest) contents
      rw [lineEnd] at round
      refine Outcome.Settles.of_succ rfl ?_
      rw [pathContents_next noNewline, ← List.append_assoc]
      exact (ih nextPositive nulFree.2.2 _).congr round

theorem getFileOfPaths_settles (positive : 0 < size) (nulFree : '\x00' ∉ file) :
    Outcome.Settles (getFileOfPaths · (some file) size)
      (returnPaths (readerOf (pathContents file))) :=
  readPaths_settles positive nulFree []

theorem returnPaths_readerOf (first : CString) (more : List CString) :
    returnPaths (readerOf (first :: more)) = .returns
      ⟨chain 0 (first :: more), some 0, toInt (first :: more).length⟩ := by
  simp only [returnPaths, readerOf, chainHead]

theorem pathContents_chars (nulFree : '\x00' ∉ file) :
    (pathContents file).map CString.chars = pathLines file := by
  have same : ∀ line ∈ pathLines file, (CString.ofBlock line).chars = line := by
    intro line member
    have isLine : line ∈ fileLines file := (List.mem_filter.mp member).1
    exact cstr_of_nulFree fun nul => nulFree (mem_of_mem_fileLines isLine nul)
  rw [pathContents, List.map_map]
  exact (List.map_congr_left same).trans (List.map_id _)

/-- The lines are listed as they should exactly when there is one, and an `int`
can count them. -/
theorem getFileOfPaths_iff (positive : 1 ≤ size) (nulFree : '\x00' ∉ file) :
    (∃ found, Outcome.Settles (getFileOfPaths · (some file) size) (.returns found) ∧
        ListsPaths file found) ↔
      1 ≤ (pathLines file).length ∧ (pathLines file).length < 2 ^ 31 := by
  have settles := getFileOfPaths_settles positive nulFree
  have sameChars := pathContents_chars nulFree
  rw [← sameChars, List.length_map]
  cases contents : pathContents file with
  | nil =>
      rw [contents] at settles
      constructor
      · rintro ⟨found, returned, _⟩
        cases settles.unique returned
      · rintro ⟨some, _⟩
        exact absurd some (by decide)
  | cons first more =>
      rw [contents] at settles sameChars
      rw [returnPaths_readerOf] at settles
      have counted := toInt_eq_iff (first :: more).length
      constructor
      · rintro ⟨found, returned, lists⟩
        cases settles.unique returned
        have number := lists.number
        rw [← sameChars, List.length_map] at number
        dsimp only at number
        exact ⟨Nat.succ_pos more.length, counted.mp number⟩
      · rintro ⟨_, isInt⟩
        refine ⟨_, settles, ?_, ?_, ?_⟩
        · rw [← sameChars]
          exact chain_holds [] (first :: more)
        · rw [← sameChars, List.length_map]
          dsimp only
          exact counted.mpr isInt
        · refine ⟨_, freePaths_chain [] (first :: more), ?_⟩
          rw [chain_length, List.length_nil, ← List.range_eq_range']
          exact List.reverse_perm _

/-- Two paths among empty lines. -/
def pathsContent : List Char :=
  "\n/a\n\n/b".toList

theorem getFileOfPaths_iff_paths :
    ∃ found, Outcome.Settles (getFileOfPaths · (some pathsContent) 1) (.returns found) ∧
      ListsPaths pathsContent found :=
  (getFileOfPaths_iff (by decide) (by decide)).mpr ⟨by decide, by decide⟩

/-- A file with no path: `P` is returned without a value. -/
theorem getFileOfPaths_noPath :
    ¬ ∀ (file : List Char) (size : Nat), 1 ≤ size → '\x00' ∉ file →
      ∃ found, Outcome.Settles (getFileOfPaths · (some file) size) (.returns found) ∧
        ListsPaths file found := by
  intro lists
  obtain ⟨found, settles, _⟩ := lists ['\n'] 16 (by decide) (by decide)
  have faults : Outcome.Settles (getFileOfPaths · (some ['\n']) 16) .faults :=
    getFileOfPaths_settles (by decide) (by decide)
  cases settles.unique faults

end Reading

end WebCrawl
