import WebCrawl.FirstOccurrences
import WebCrawl.PostingList
import WebCrawl.ScanSelection

/-!
# Counting by file and the extreme counts

A worker answers `maxcount` and `mincount` from the posting list of the word:
`createCountResults` classifies its nodes by file, `maxFinder` or `minFinder`
brings the largest or the smallest result to the head of the list.  The nodes
of a list are its places, so an exchange of what two nodes hold is an update at
two places.
-/

namespace WebCrawl

structure CountResult where
  fileName : CString
  wordFrq : Int
  deriving DecidableEq

def newCountResNode (fileName : CString) : CountResult where
  fileName := fileName
  wordFrq := 1

/-- The inner loop of `createCountResults`: the result of the file counts one
more, or a new one is appended. -/
def countFile (file : CString) : List CountResult → List CountResult
  | [] => []
  | curRes :: next =>
      if curRes.fileName = file then
        { curRes with wordFrq := toInt (curRes.wordFrq + 1) } :: next
      else if next = [] then [curRes, newCountResNode file]
      else curRes :: countFile file next

/-- The loop of `createCountResults` over the posting list. -/
def countLoop (flag : Nat) (cRes : List CountResult) :
    List PlistNode → List CountResult
  | [] => cRes
  | post :: next =>
      if flag = 0 then countLoop (flag + 1) [newCountResNode post.file] next
      else countLoop flag (countFile post.file cRes) next

def createCountResults (post : List PlistNode) : List CountResult :=
  countLoop 0 [] post

/-- The candidate of a finder: the place of a node and what it holds. -/
structure Candidate where
  place : Nat
  node : CountResult

/-- The loop of the finders, from the node at a place on. -/
def finderLoop (replaces : Int → Int → Bool) (candidate : Candidate)
    (flag place : Nat) : List CountResult → Candidate × Nat
  | [] => (candidate, flag)
  | current :: next =>
      if replaces candidate.node.wordFrq current.wordFrq then
        finderLoop replaces ⟨place, current⟩ 1 (place + 1) next
      else finderLoop replaces candidate flag (place + 1) next

def finder (replaces : Int → Int → Bool) : List CountResult → List CountResult
  | [] => []
  | cRes :: next =>
      let (candidate, flag) := finderLoop replaces ⟨0, cRes⟩ 0 1 next
      if flag = 1 then
        ((cRes :: next).set 0 candidate.node).set candidate.place cRes
      else cRes :: next

def maxFinder : List CountResult → List CountResult :=
  finder fun largest next => largest ≤ next

def minFinder : List CountResult → List CountResult :=
  finder fun smallest next => smallest > next

section Counting

/-- One result for each file in the order of their first nodes, with the number
of nodes of the file. -/
def tally (files : List CString) : List CountResult :=
  files.eraseDups.map fun file => ⟨file, toInt (files.count file)⟩

theorem countFile_present {file : CString} {files : List CString}
    (count : CString → Int) (distinct : files.Nodup) (present : file ∈ files) :
    countFile file (files.map fun name => ⟨name, toInt (count name)⟩) =
      files.map fun name =>
        ⟨name, toInt (count name + if name = file then 1 else 0)⟩ := by
  induction files with
  | nil => simp at present
  | cons first files ih =>
      obtain ⟨firstAbsent, distinct⟩ := List.nodup_cons.mp distinct
      rw [List.map_cons, List.map_cons, countFile]
      by_cases same : first = file
      · subst first
        have others : ∀ name ∈ files, name ≠ file := by
          rintro name member rfl
          exact firstAbsent member
        rw [if_pos rfl, if_pos rfl, toInt_toInt_add]
        congr 1
        refine List.map_congr_left fun name member => ?_
        rw [if_neg (others name member), add_zero]
      · have later : file ∈ files := (List.mem_cons.mp present).resolve_left (Ne.symm same)
        have nonempty : ¬ (files.map fun name =>
            (⟨name, toInt (count name)⟩ : CountResult)) = [] := by
          rw [List.map_eq_nil_iff]
          exact List.ne_nil_of_mem later
        rw [if_neg same, if_neg nonempty, if_neg same, add_zero, ih distinct later]

theorem countFile_absent {file : CString} {results : List CountResult}
    (nonempty : results ≠ [])
    (absent : ∀ result ∈ results, result.fileName ≠ file) :
    countFile file results = results ++ [newCountResNode file] := by
  induction results with
  | nil => exact absurd rfl nonempty
  | cons first results ih =>
      rw [List.forall_mem_cons] at absent
      rw [countFile, if_neg absent.1]
      by_cases last : results = []
      · simp [last]
      · rw [if_neg last, ih last absent.2, List.cons_append]

theorem mem_tally {files : List CString} {result : CountResult} :
    result ∈ tally files ↔ result.fileName ∈ files ∧
      result.wordFrq = toInt (files.count result.fileName) := by
  obtain ⟨fileName, wordFrq⟩ := result
  simp only [tally, List.mem_map, List.mem_eraseDups, CountResult.mk.injEq]
  constructor
  · rintro ⟨file, member, rfl, counted⟩
    exact ⟨member, counted.symm⟩
  · rintro ⟨member, counted⟩
    exact ⟨fileName, member, rfl, counted.symm⟩

theorem tally_mem {files : List CString} {file : CString} (member : file ∈ files) :
    (⟨file, toInt (files.count file)⟩ : CountResult) ∈ tally files :=
  List.mem_map_of_mem (List.mem_eraseDups.mpr member)

theorem tally_concat (files : List CString) (file : CString) (nonempty : files ≠ []) :
    countFile file (tally files) = tally (files ++ [file]) := by
  have counts : ∀ name, ((files ++ [file]).count name : Int) =
      files.count name + if name = file then 1 else 0 := by
    intro name
    rw [List.count_append, List.count_singleton]
    by_cases same : name = file
    · simp [same]
    · simp [same, Ne.symm same]
  rw [tally, tally, FirstOccurrences.eraseDups_concat]
  simp only [counts]
  by_cases met : file ∈ files
  · rw [if_pos met, countFile_present (fun name => (files.count name : Int))
      (FirstOccurrences.nodup_eraseDups files) (List.mem_eraseDups.mpr met)]
  · have others : ∀ name ∈ files.eraseDups, name ≠ file := by
      rintro name member rfl
      exact met (List.mem_eraseDups.mp member)
    rw [if_neg met, countFile_absent]
    · have fresh : files.count file = 0 := List.count_eq_zero.mpr met
      have last : (⟨file, toInt ((files.count file : Int) +
          if file = file then 1 else 0)⟩ : CountResult) = newCountResNode file := by
        have one : toInt (((0 : Nat) : Int) + 1) = 1 := by decide
        rw [if_pos (Eq.refl file), fresh, one]
        rfl
      rw [List.map_append, List.map_singleton, last]
      refine congrArg (· ++ _) (List.map_congr_left fun name member => ?_)
      rw [if_neg (others name member), add_zero]
    · obtain ⟨first, firstMem⟩ := List.exists_mem_of_ne_nil files nonempty
      rw [Ne, List.map_eq_nil_iff]
      exact List.ne_nil_of_mem (List.mem_eraseDups.mpr firstMem)
    · intro result member
      exact others _ (List.mem_eraseDups.mpr (mem_tally.mp member).1)

theorem countLoop_tally (flag : Nat) (files : List CString) (post : List PlistNode)
    (flagged : flag ≠ 0) (nonempty : files ≠ []) :
    countLoop flag (tally files) post = tally (files ++ post.map PlistNode.file) := by
  induction post generalizing files with
  | nil => simp [countLoop]
  | cons node post ih =>
      rw [countLoop, if_neg flagged, tally_concat files node.file nonempty,
        ih _ (by simp), List.map_cons, List.append_assoc]
      rfl

/-- The results are one for each file, in the order of the first nodes, with
the number of nodes of the file. -/
theorem createCountResults_eq_tally (post : List PlistNode) :
    createCountResults post = tally (post.map PlistNode.file) := by
  cases post with
  | nil => rfl
  | cons node post =>
      have first : [newCountResNode node.file] = tally [node.file] := by
        simp [tally, newCountResNode, List.eraseDups_cons, toInt]
      rw [createCountResults, countLoop, if_pos rfl, first,
        countLoop_tally _ _ _ (by decide) (by simp)]
      rfl

/-- One result for each file, in the order of their first nodes, with the sum of
what the nodes of the file count; none for an empty posting list. -/
structure AddsUp (post : List PlistNode) (results : List CountResult) : Prop where
  files : results.map CountResult.fileName = (post.map PlistNode.file).eraseDups
  counts : ∀ result ∈ results, result.wordFrq = frequency result.fileName post
  null : post = [] → results = []

/-- What the nodes of each file count adds up to their number. -/
def SingleCounts (post : List PlistNode) : Prop :=
  ∀ file ∈ post.map PlistNode.file,
    frequency file post = toInt ((post.map PlistNode.file).count file)

/-- `createCountResults` counts nodes, and not the occurrences that the nodes
count: its results add up exactly when these are as many, for each file. -/
theorem createCountResults_addsUp_iff (post : List PlistNode) :
    AddsUp post (createCountResults post) ↔ SingleCounts post := by
  rw [createCountResults_eq_tally]
  constructor
  · intro addsUp file member
    have counted := addsUp.counts _ (tally_mem member)
    dsimp only at counted
    exact counted.symm
  · intro single
    refine ⟨by simp [tally, Function.comp_def], ?_, ?_⟩
    · intro result member
      obtain ⟨listed, counted⟩ := mem_tally.mp member
      have sum := single result.fileName listed
      rw [counted, sum]
    · rintro rfl
      rfl

theorem count_le_frequency {file : CString} {post : List PlistNode}
    (positive : ∀ node ∈ post, 1 ≤ node.wordFrq) :
    (post.map PlistNode.file).count file ≤ frequency file post ∧
      (frequency file post = (post.map PlistNode.file).count file ↔
        ∀ node ∈ post, node.file = file → node.wordFrq = 1) := by
  induction post with
  | nil => simp [frequency]
  | cons node post ih =>
      rw [List.forall_mem_cons] at positive
      obtain ⟨enough, exactly⟩ := ih positive.2
      have one := positive.1
      rw [List.forall_mem_cons, ← exactly, List.map_cons, List.count_cons]
      by_cases same : node.file = file
      · have counts : frequency file (node :: post) =
            node.wordFrq + frequency file post := by
          simp [frequency, same]
        simp only [same, beq_self_eq_true, if_true, forall_const, counts]
        omega
      · have counts : frequency file (node :: post) = frequency file post := by
          simp [frequency, same]
        simp only [same, counts, false_implies, true_and]
        simpa [same] using enough

/-- The nodes of an index count at least one occurrence each, so that theirs add
up to their number only when no text has the word twice. -/
theorem singleCounts_iff {post : List PlistNode}
    (positive : ∀ node ∈ post, 1 ≤ node.wordFrq) (small : post.length < 2 ^ 31) :
    SingleCounts post ↔ ∀ node ∈ post, node.wordFrq = 1 := by
  have counted : ∀ file, toInt ((post.map PlistNode.file).count file) =
      (post.map PlistNode.file).count file := by
    intro file
    have within : (post.map PlistNode.file).count file ≤ post.length := by
      rw [← List.length_map PlistNode.file]
      exact List.count_le_length
    exact toInt_of_range (by omega) (by omega)
  constructor
  · intro single node member
    have sum := single node.file (List.mem_map_of_mem member)
    rw [counted] at sum
    exact (count_le_frequency positive).2.mp sum node member rfl
  · intro ones file _
    rw [counted]
    exact (count_le_frequency positive).2.mpr fun node member _ => ones node member

end Counting

def poem : CString :=
  ⟨"texts/poem".toList, by decide⟩

def letter : CString :=
  ⟨"texts/letter".toList, by decide⟩

/-- A word three times in one line of the poem and once in two lines of the
letter. -/
def repeatedWord : List PlistNode :=
  [⟨poem, 0, 3⟩, ⟨letter, 0, 1⟩, ⟨letter, 1, 1⟩]

/-- The letter is reported as the file with the most occurrences. -/
theorem createCountResults_counts_lines :
    frequency poem repeatedWord = 3 ∧ frequency letter repeatedWord = 2 ∧
    maxFinder (createCountResults repeatedWord) = [⟨letter, 2⟩, ⟨poem, 1⟩] ∧
    ¬ AddsUp repeatedWord (createCountResults repeatedWord) := by
  refine ⟨by decide, by decide, by decide, fun addsUp => ?_⟩
  have counted := addsUp.counts ⟨poem, 1⟩ (by decide)
  exact absurd counted (by decide)

end WebCrawl
