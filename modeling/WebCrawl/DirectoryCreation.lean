import WebCrawl.ContentProcessing
import WebCrawl.LexicalPath

/-!
# Creating the directories of a path

`mkdirs` ends the path at each of its slashes in turn, asks for the directory
that the path names then, and puts the slash back.  It leaves the path as it was,
except for one slash at its end, and asks for the prefixes before the other
slashes, the shortest first.  So each is asked for after its parent, and all of
them exist in the end if a file system makes what it is asked for.
-/

namespace WebCrawl

open LexicalPath (directory)

/-- The loop over the path in memory, with the directories that it asked for. -/
def mkdirsLoop : Nat → List Char → Nat → List CString → Outcome (List Char × List CString)
  | 0, _, _, _ => .unfinished
  | fuel + 1, dir, p, made =>
      match dir[p]? with
      | none => .faults
      | some ch =>
          if ch = '\x00' then .returns (dir, made)
          else if ch = '/' then
            let dir := dir.set p '\x00'
            let made := made ++ [CString.ofBlock dir]
            let dir := dir.set p '/'
            mkdirsLoop fuel dir (p + 1) made
          else mkdirsLoop fuel dir (p + 1) made

/-- `mkdirs` on the memory from the start of the path on. -/
def mkdirsInPlace (fuel : Nat) (dir : List Char) : Outcome (List Char × List CString) :=
  let len := strlen dir
  if len = 0 then .faults
  else
    let dir := if dir[len - 1]? = some '/' then dir.set (len - 1) '\x00' else dir
    mkdirsLoop fuel dir 1 []

/-- The prefixes before the slashes of a path, except before one at its start. -/
def slashPrefixes (dir : CString) : List CString :=
  ((List.range dir.chars.length).filter fun place =>
    1 ≤ place && dir.chars[place]? = some '/').map dir.take

/-- The prefixes of a path before slashes behind a part of it. -/
def prefixesBehind (front : List Char) : List Char → List CString
  | [] => []
  | ch :: more =>
      if ch = '/' then CString.ofBlock front :: prefixesBehind (front ++ [ch]) more
      else prefixesBehind (front ++ [ch]) more

section Memory

theorem mkdirsLoop_eq {front back rest : List Char} (nulFree : '\x00' ∉ front ++ back)
    (made : List CString) :
    Outcome.Settles
      (mkdirsLoop · (front ++ back ++ '\x00' :: rest) front.length made)
      (.returns (front ++ back ++ '\x00' :: rest, made ++ prefixesBehind front back)) := by
  induction back generalizing front made with
  | nil =>
      refine .of_round rfl fun fuel => ?_
      rw [mkdirsLoop, List.append_nil]
      simp [prefixesBehind]
  | cons ch back ih =>
      have longer : front ++ ch :: back = front ++ [ch] ++ back := by simp
      rw [longer] at nulFree ⊢
      have later := @ih (front ++ [ch]) nulFree
      rw [List.length_append, List.length_singleton] at later
      have memory : front ++ [ch] ++ back ++ '\x00' :: rest =
          front ++ ch :: (back ++ '\x00' :: rest) := by
        simp
      have stored : ∀ old new, (front ++ old :: (back ++ '\x00' :: rest)).set front.length new =
          front ++ new :: (back ++ '\x00' :: rest) := by
        simp
      have here : (front ++ ch :: (back ++ '\x00' :: rest))[front.length]? = some ch := by
        simp
      have notNul : ch ≠ '\x00' := by
        rintro rfl
        simp at nulFree
      have frontNulFree : '\x00' ∉ front := by
        intro nul
        simp [nul] at nulFree
      rw [memory] at later ⊢
      by_cases slash : ch = '/'
      · subst ch
        have prefixed : CString.ofBlock (front ++ '\x00' :: (back ++ '\x00' :: rest)) =
            CString.ofBlock front := by
          ext1
          rw [CString.ofBlock_chars, CString.ofBlock_chars, cstr_append_nul_eq]
        rw [prefixesBehind, if_pos rfl, List.append_cons made]
        refine .of_succ rfl ((later (made ++ [CString.ofBlock front])).congr fun fuel => ?_)
        simp only [mkdirsLoop, here, notNul, ↓reduceIte, stored, prefixed]
      · rw [prefixesBehind, if_neg slash]
        refine .of_succ rfl ((later made).congr fun fuel => ?_)
        simp only [mkdirsLoop, here, notNul, slash, ↓reduceIte]

theorem prefixesBehind_chars {text front back : List Char} (split : text = front ++ back)
    (nulFree : '\x00' ∉ text) :
    (prefixesBehind front back).map CString.chars =
      ((List.range' front.length back.length).filter fun place =>
        text[place]? = some '/').map text.take := by
  induction back generalizing front with
  | nil => rfl
  | cons ch back ih =>
      have later := @ih (front ++ [ch]) (by simpa using split)
      rw [List.length_append, List.length_singleton] at later
      have here : text[front.length]? = some ch := by simp [split]
      have frontNulFree : '\x00' ∉ front := by
        intro nul
        simp [split, nul] at nulFree
      have taken : text.take front.length = (CString.ofBlock front).chars := by
        rw [split, List.take_left, CString.ofBlock_chars, cstr_of_nulFree frontNulFree]
      rw [List.length_cons, List.range'_succ, prefixesBehind, List.filter_cons, here]
      by_cases slash : ch = '/'
      · subst ch
        simp [later, taken]
      · simp [slash, later]

/-- The places of the slashes behind the first character. -/
theorem slashPrefixes_eq {dir : CString} {first : Char} {more : List Char}
    (chars : dir.chars = first :: more) : slashPrefixes dir = prefixesBehind [first] more := by
  have places : (List.range dir.chars.length).filter (fun place =>
      1 ≤ place && dir.chars[place]? = some '/') =
      (List.range' 1 more.length).filter fun place => dir.chars[place]? = some '/' := by
    rw [chars, List.length_cons, List.range_eq_range', List.range'_succ,
      List.filter_cons_of_neg (by simp)]
    apply List.filter_congr
    intro place member
    have behind : 1 ≤ place := (List.mem_range'_1.mp member).1
    simp [behind]
  have sameChars : (slashPrefixes dir).map CString.chars =
      (prefixesBehind [first] more).map CString.chars := by
    rw [prefixesBehind_chars (by simpa using chars) dir.nulFree, slashPrefixes, List.map_map,
      places]
    rfl
  exact List.map_injective_iff.mpr (fun _ _ => CString.ext) sameChars

theorem mkdirs_eq {dir : CString} (nonempty : dir.chars ≠ []) :
    mkdirs dir = .returns (cutSlash dir, slashPrefixes (cutSlash dir)) :=
  if_neg nonempty

/-- What is in memory after `mkdirs`: the path without a slash at its end. -/
def memoryAfter (dir : CString) (rest : List Char) : List Char :=
  (cutSlash dir).chars ++
    List.replicate (dir.chars.length + 1 - (cutSlash dir).chars.length) '\x00' ++ rest

theorem mkdirsLoop_path {path : CString} {first : Char} {more : List Char}
    (chars : path.chars = first :: more) (rest : List Char) :
    Outcome.Settles (mkdirsLoop · (path.chars ++ '\x00' :: rest) 1 [])
      (.returns (path.chars ++ '\x00' :: rest, slashPrefixes path)) := by
  have together : path.chars = [first] ++ more := chars
  rw [slashPrefixes_eq chars, together]
  exact mkdirsLoop_eq (together ▸ path.nulFree) []

/-- The loop in memory does what `mkdirs` is described by. -/
theorem mkdirsInPlace_eq {dir : CString} (nonempty : dir.chars ≠ []) (rest : List Char) :
    Outcome.Settles (mkdirsInPlace · (dir.chars ++ '\x00' :: rest))
      (.returns (memoryAfter dir rest, slashPrefixes (cutSlash dir))) := by
  have length : strlen (dir.chars ++ '\x00' :: rest) = dir.chars.length := by
    rw [strlen, cstr_append_nul dir.nulFree]
  have positive : 0 < dir.chars.length := List.length_pos_of_ne_nil nonempty
  have last : (dir.chars ++ '\x00' :: rest)[dir.chars.length - 1]? = dir.chars.getLast? := by
    rw [List.getLast?_eq_getElem?, List.getElem?_append_left (by omega)]
  have notEmpty : dir.chars.length ≠ 0 := Nat.ne_of_gt positive
  simp only [mkdirsInPlace, length, notEmpty, ↓reduceIte, last]
  by_cases ends : dir.chars.getLast? = some '/'
  · obtain ⟨front, split⟩ := List.getLast?_eq_some_iff.mp ends
    have cut : (cutSlash dir).chars = front := cutSlash_chars split
    have stored : (dir.chars ++ '\x00' :: rest).set (dir.chars.length - 1) '\x00' =
        (cutSlash dir).chars ++ '\x00' :: ('\x00' :: rest) := by
      simp [cut, split]
    have after : memoryAfter dir rest =
        (cutSlash dir).chars ++ '\x00' :: ('\x00' :: rest) := by
      have two : front.length + 1 + 1 - front.length = 2 := by omega
      rw [memoryAfter, cut, split, List.length_append, List.length_singleton, two]
      simp [List.replicate_succ]
    rw [if_pos ends, stored, after]
    cases chars : (cutSlash dir).chars with
    | nil =>
        have nothing : slashPrefixes (cutSlash dir) = [] := by
          rw [slashPrefixes, chars]
          rfl
        rw [nothing]
        exact .of_round rfl fun fuel => rfl
    | cons first more =>
        have made := mkdirsLoop_path chars ('\x00' :: rest)
        rwa [chars] at made
  · have uncut : cutSlash dir = dir := if_neg ends
    have after : memoryAfter dir rest = dir.chars ++ '\x00' :: rest := by
      rw [memoryAfter, uncut, Nat.add_sub_cancel_left]
      simp
    obtain ⟨first, more, chars⟩ := List.exists_cons_of_ne_nil nonempty
    rw [if_neg ends, uncut, after]
    exact mkdirsLoop_path chars rest

end Memory

section Directories

/-- The path of the directory that a path leads into last: what is before its
last slash, the root, or the current directory. -/
def parentPath (path : CString) : CString :=
  let front := directory path.chars
  if front = [] then ⟨['.'], by decide⟩
  else if front = ['/'] then ⟨['/'], by decide⟩
  else CString.ofBlock front.dropLast

/-- A file system as `mkdir` changes it: directories stay, nothing but
directories is added, and a path whose parent is a directory becomes one unless
it names something else. -/
structure FileSystem (State : Type) where
  isDirectory : State → CString → Prop
  isOther : State → CString → Prop
  mkdir : CString → State → State
  root : ∀ state, isDirectory state ⟨['/'], by decide⟩
  current : ∀ state, isDirectory state ⟨['.'], by decide⟩
  keeps : ∀ {state made path}, isDirectory state path → isDirectory (mkdir made state) path
  noOther : ∀ {state made path}, isOther (mkdir made state) path → isOther state path
  makes : ∀ {state path}, path.chars ≠ [] → isDirectory state (parentPath path) →
    ¬ isOther state path → isDirectory (mkdir path state) path

/-- The state after directories were asked for, one after the other. -/
def FileSystem.mkdirAll {State : Type} (system : FileSystem State) (paths : List CString)
    (state : State) : State :=
  paths.foldl (fun state path => system.mkdir path state) state

variable {State : Type} {system : FileSystem State} {state : State}

theorem mkdirAll_keeps (paths : List CString) {path : CString}
    (here : system.isDirectory state path) :
    system.isDirectory (system.mkdirAll paths state) path := by
  induction paths generalizing state with
  | nil => exact here
  | cons made paths ih => exact ih (system.keeps here)

theorem parentPath_letter {path longer : CString} {ch : Char} (letter : ch ≠ '/')
    (chars : longer.chars = path.chars ++ [ch]) : parentPath longer = parentPath path := by
  have same : directory longer.chars = directory path.chars := by
    simp [directory, chars, letter]
  rw [parentPath, parentPath, same]

theorem parentPath_slash {path longer : CString} (nonempty : path.chars ≠ [])
    (chars : longer.chars = path.chars ++ ['/']) : parentPath longer = path := by
  have whole : directory longer.chars = path.chars ++ ['/'] := by
    simp [directory, chars]
  have notRoot : path.chars ++ ['/'] ≠ ['/'] := by simpa using nonempty
  rw [parentPath, whole]
  simp only [List.append_eq_nil_iff, List.cons_ne_self, and_false, ↓reduceIte, notRoot,
    List.dropLast_concat]
  ext1
  exact cstr_of_nulFree path.nulFree

theorem parentPath_first (first : Char) (state : State) :
    system.isDirectory state (parentPath (CString.ofBlock [first])) := by
  by_cases slash : first = '/'
  · subst first
    have root : parentPath (CString.ofBlock ['/']) = ⟨['/'], by decide⟩ := by decide
    rw [root]
    exact system.root state
  · have none : directory (CString.ofBlock [first]).chars = [] := by
      by_cases nul : first = '\x00'
      · simp [directory, cstr, nul]
      · simp [directory, cstr, nul, slash]
    rw [parentPath, none]
    exact system.current state

/-- The directories of a path are made when the parent of its first part is one. -/
theorem mkdirAll_prefixesBehind {front back : List Char} (nonempty : front ≠ [])
    (nulFree : '\x00' ∉ front ++ back)
    (parent : system.isDirectory state (parentPath (CString.ofBlock front)))
    (free : ∀ path ∈ prefixesBehind front back, ¬ system.isOther state path) :
    ∀ path ∈ prefixesBehind front back,
      system.isDirectory (system.mkdirAll (prefixesBehind front back) state) path := by
  induction back generalizing front state with
  | nil => simp [prefixesBehind]
  | cons ch back ih =>
      have longer : front ++ ch :: back = front ++ [ch] ++ back := by simp
      rw [longer] at nulFree
      have shortNulFree : '\x00' ∉ front ++ [ch] := fun nul =>
        nulFree (List.mem_append_left back nul)
      have frontNulFree : '\x00' ∉ front := fun nul =>
        shortNulFree (List.mem_append_left [ch] nul)
      have front_chars : (CString.ofBlock front).chars = front :=
        cstr_of_nulFree frontNulFree
      have chars : (CString.ofBlock (front ++ [ch])).chars =
          (CString.ofBlock front).chars ++ [ch] := by
        rw [front_chars]
        exact cstr_of_nulFree shortNulFree
      by_cases slash : ch = '/'
      · subst ch
        rw [prefixesBehind, if_pos rfl, List.forall_mem_cons] at free
        rw [prefixesBehind, if_pos rfl, List.forall_mem_cons]
        have made := system.makes (by rwa [front_chars]) parent free.1
        have next : parentPath (CString.ofBlock (front ++ ['/'])) = CString.ofBlock front :=
          parentPath_slash (by rwa [front_chars]) chars
        have kept := mkdirAll_keeps (prefixesBehind (front ++ ['/']) back) made
        refine ⟨kept, ih (by simp) nulFree (next ▸ made) ?_⟩
        exact fun path member other => free.2 path member (system.noOther other)
      · rw [prefixesBehind, if_neg slash] at free ⊢
        exact ih (by simp) nulFree (parentPath_letter slash chars ▸ parent) free

/-- `mkdirs` leaves the path without a slash at its end, asks for the prefixes
before the other slashes, and all of them are directories when it returns. -/
theorem mkdirs_creates (system : FileSystem State) (state : State) {dir : CString}
    (nonempty : dir.chars ≠ []) (rest : List Char) :
    Outcome.Settles (mkdirsInPlace · (dir.chars ++ '\x00' :: rest))
        (.returns (memoryAfter dir rest, slashPrefixes (cutSlash dir))) ∧
      ((∀ path ∈ slashPrefixes (cutSlash dir), ¬ system.isOther state path) →
        ∀ path ∈ slashPrefixes (cutSlash dir),
          system.isDirectory (system.mkdirAll (slashPrefixes (cutSlash dir)) state) path) := by
  refine ⟨mkdirsInPlace_eq nonempty rest, ?_⟩
  cases chars : (cutSlash dir).chars with
  | nil => simp [slashPrefixes, chars]
  | cons first more =>
      rw [slashPrefixes_eq chars]
      have nulFree : '\x00' ∉ [first] ++ more := by
        have same : (cutSlash dir).chars = [first] ++ more := chars
        exact same ▸ (cutSlash dir).nulFree
      exact mkdirAll_prefixesBehind (by simp) nulFree (parentPath_first first state)

/-- Directories alone, by where their paths lead. -/
abbrev Tree :=
  List (Bool × LexicalPath.Place (List Char))

/-- Starts and what is above them exist always. -/
def Tree.isDirectory (tree : Tree) (path : CString) : Prop :=
  path.chars ≠ [] ∧ ((LexicalPath.resolve path.chars).names = [] ∨
    (LexicalPath.isAbsolute path.chars, LexicalPath.resolve path.chars) ∈ tree)

instance (tree : Tree) (path : CString) : Decidable (tree.isDirectory path) :=
  inferInstanceAs (Decidable (_ ∧ _))

def Tree.mkdir (path : CString) (tree : Tree) : Tree :=
  if tree.isDirectory (parentPath path) then
    (LexicalPath.isAbsolute path.chars, LexicalPath.resolve path.chars) :: tree
  else tree

/-- A file system without files. -/
def treeSystem : FileSystem Tree where
  isDirectory := Tree.isDirectory
  isOther := fun _ _ => False
  mkdir := Tree.mkdir
  root := fun _ => ⟨by decide, Or.inl (by decide)⟩
  current := fun _ => ⟨by decide, Or.inl (by decide)⟩
  keeps := by
    rintro tree made path ⟨nonempty, leads⟩
    refine ⟨nonempty, leads.imp_right fun member => ?_⟩
    rw [Tree.mkdir]
    split
    · exact List.mem_cons_of_mem _ member
    · exact member
  noOther := id
  makes := by
    rintro tree path nonempty parent _
    refine ⟨nonempty, Or.inr ?_⟩
    rw [Tree.mkdir, if_pos parent]
    exact List.mem_cons_self

def deepPath : CString :=
  ⟨"/a//b/c/".toList, by decide⟩

theorem mkdirs_creates_deep :
    Outcome.Settles (mkdirsInPlace · (deepPath.chars ++ ['\x00']))
        (.returns (memoryAfter deepPath [], slashPrefixes (cutSlash deepPath))) ∧
      ∀ path ∈ slashPrefixes (cutSlash deepPath),
        (treeSystem.mkdirAll (slashPrefixes (cutSlash deepPath)) []).isDirectory path := by
  have creates := mkdirs_creates treeSystem [] (by decide : deepPath.chars ≠ []) []
  exact ⟨creates.1, creates.2 fun _ _ => id⟩

end Directories

end WebCrawl
