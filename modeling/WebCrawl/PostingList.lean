import WebCrawl.CString
import WebCrawl.IntCounters
import Mathlib.Algebra.BigOperators.Group.List.Basic
import Mathlib.Logic.Function.Iterate

/-!
# Posting lists

The index of a word is a list with one node for each text of each file in which
the word occurs.  The words of a text are its maximal runs of characters other
than blanks.  Counting the occurrences in one text appends one node to the list,
and the nodes of other files stay as they are.  A count is an `int`.
-/

namespace WebCrawl

structure PlistNode where
  file : CString
  textId : Int
  wordFrq : Int
  deriving DecidableEq

def newPlistNode (textId : Int) (file : CString) : PlistNode where
  file := file
  textId := textId
  wordFrq := 1

/-- The loop over an index after a word was parsed: the node of the text counts
one more, or a new one is appended. -/
def addOccurrence (textId : Int) (file : CString) :
    List PlistNode → Option (List PlistNode)
  | [] => some [newPlistNode textId file]
  | node :: next =>
      if node.textId = textId ∧ node.file = file then do
        let wordFrq ← increment node.wordFrq
        return { node with wordFrq := wordFrq } :: next
      else do
        let next ← addOccurrence textId file next
        return node :: next

/-- The index that the loop leaves behind when no count overflows. -/
def countOccurrence (textId : Int) (file : CString) : List PlistNode → List PlistNode
  | [] => [newPlistNode textId file]
  | node :: next =>
      if node.textId = textId ∧ node.file = file then
        { node with wordFrq := node.wordFrq + 1 } :: next
      else node :: countOccurrence textId file next

/-- What the first node of a text counts, and 0 when there is none. -/
def textFrq (textId : Int) (file : CString) : List PlistNode → Int
  | [] => 0
  | node :: next =>
      if node.textId = textId ∧ node.file = file then node.wordFrq
      else textFrq textId file next

/-- The characters that end a word. -/
def isBlank (ch : Char) : Bool :=
  ch = ' ' || ch = '\t'

def textWords (text : List Char) : List (List Char) :=
  (text.splitOnP isBlank).filter (· ≠ [])

/-- The nodes of a file for a word: one for each text in which it occurs, in
order, with the number of its occurrences. -/
def occurrences (file : CString) (start : Nat) (contents : List (List Char))
    (word : List Char) : List PlistNode :=
  (contents.zipIdx start).filterMap fun (content, textId) =>
    let wordFrq := (textWords content).count word
    if wordFrq = 0 then none else some ⟨file, textId, wordFrq⟩

section Words

variable {word text rest : List Char} {blank : Char}

theorem textWords_nil : textWords [] = [] := by
  simp [textWords, List.splitOnP_nil]

theorem textWords_blank (isBlankChar : isBlank blank = true) (text rest : List Char) :
    textWords (text ++ blank :: rest) = textWords text ++ textWords rest := by
  rw [textWords, List.splitOnP_append_cons text rest isBlankChar, List.filter_append]
  rfl

theorem textWords_word (nonempty : word ≠ [])
    (noBlank : ∀ ch ∈ word, isBlank ch = false) : textWords word = [word] := by
  rw [textWords, List.splitOnP_eq_singleton noBlank]
  simp [nonempty]

/-- A text is one word, empty, or continues behind a first blank. -/
theorem text_cases (text : List Char) :
    (∀ ch ∈ text, isBlank ch = false) ∨
      ∃ word blank rest, text = word ++ blank :: rest ∧
        (∀ ch ∈ word, isBlank ch = false) ∧ isBlank blank = true := by
  induction text with
  | nil => exact Or.inl (by simp)
  | cons ch text ih =>
      cases isBlankChar : isBlank ch with
      | true => exact Or.inr ⟨[], ch, text, rfl, by simp, isBlankChar⟩
      | false =>
          rcases ih with noBlank | ⟨word, blank, rest, rfl, noBlank, ends⟩
          · exact Or.inl (by simpa [isBlankChar] using noBlank)
          · exact Or.inr ⟨ch :: word, blank, rest, rfl,
              by simpa [isBlankChar] using noBlank, ends⟩

/-- The letters of the words are the characters that are no blanks. -/
theorem flatten_textWords (text : List Char) :
    (textWords text).flatten = text.filter (!isBlank ·) := by
  induction size : text.length using Nat.strong_induction_on generalizing text with
  | _ length ih =>
      rcases text_cases text with noBlank | ⟨word, blank, rest, rfl, noBlank, ends⟩
      · have letters : text.filter (!isBlank ·) = text :=
          List.filter_eq_self.mpr fun ch member => by simp [noBlank ch member]
        by_cases none : text = []
        · subst none
          rw [textWords_nil]
          rfl
        · rw [textWords_word none noBlank, letters, List.flatten_singleton]
      · have smaller : rest.length < length := by
          rw [← size, List.length_append, List.length_cons]
          omega
        have letters : word.filter (!isBlank ·) = word :=
          List.filter_eq_self.mpr fun ch member => by simp [noBlank ch member]
        have first : (textWords word).flatten = word := by
          by_cases none : word = []
          · subst none
            rw [textWords_nil]
            rfl
          · rw [textWords_word none noBlank, List.flatten_singleton]
        rw [textWords_blank ends, List.flatten_append, first, ih rest.length smaller rest rfl,
          List.filter_append, letters, List.filter_cons_of_neg (by simp [ends])]

theorem textWords_append_blanks {text blanks : List Char}
    (areBlanks : ∀ ch ∈ blanks, isBlank ch = true) :
    textWords (text ++ blanks) = textWords text := by
  induction blanks generalizing text with
  | nil => rw [List.append_nil]
  | cons blank blanks ih =>
      rw [List.forall_mem_cons] at areBlanks
      have nothing := @ih [] areBlanks.2
      rw [List.nil_append] at nothing
      rw [textWords_blank areBlanks.1, nothing, textWords_nil, List.append_nil]

theorem mem_textWords {word text : List Char} (member : word ∈ textWords text) :
    word ≠ [] ∧ ∀ ch ∈ word, isBlank ch = false := by
  refine ⟨by simpa using (List.mem_filter.mp member).2, fun ch isChar => ?_⟩
  have isLetter : ch ∈ text.filter (!isBlank ·) := by
    rw [← flatten_textWords]
    exact List.mem_flatten.mpr ⟨word, member, isChar⟩
  simpa using (List.mem_filter.mp isLetter).2

end Words

section Counting

variable {file : CString} {index : List PlistNode} {textId : Int}

theorem addOccurrence_returnsIff (textId : Int) (file : CString) (index : List PlistNode) :
    ReturnsIff (addOccurrence textId file index) (textFrq textId file index + 1 < 2 ^ 31)
      (countOccurrence textId file index) := by
  induction index with
  | nil => exact (returnsIff_some _).of_iff (by simp [textFrq])
  | cons node next ih =>
      by_cases same : node.textId = textId ∧ node.file = file
      · simpa [addOccurrence, countOccurrence, textFrq, same, Option.map_eq_bind] using
          (increment_returnsIff node.wordFrq).map fun wordFrq =>
            { node with wordFrq := wordFrq } :: next
      · simpa [addOccurrence, countOccurrence, textFrq, same, Option.map_eq_bind] using
          ih.map (node :: ·)

theorem textFrq_countOccurrence {other : Int} {otherFile : CString}
    (index : List PlistNode) :
    textFrq other otherFile (countOccurrence textId file index) =
      textFrq other otherFile index +
        if textId = other ∧ file = otherFile then 1 else 0 := by
  induction index with
  | nil => simp [countOccurrence, newPlistNode, textFrq]
  | cons node next ih =>
      by_cases same : node.textId = textId ∧ node.file = file
      · by_cases asked : textId = other ∧ file = otherFile
        · simp [countOccurrence, textFrq, same, asked]
        · simp [countOccurrence, textFrq, same, asked]
      · by_cases asked : node.textId = other ∧ node.file = otherFile
        · have different : ¬ (textId = other ∧ file = otherFile) := fun equal =>
            same ⟨asked.1.trans equal.1.symm, asked.2.trans equal.2.symm⟩
          rw [countOccurrence, if_neg same, textFrq, textFrq, if_pos asked, if_pos asked,
            if_neg different, add_zero]
        · rw [countOccurrence, if_neg same, textFrq, textFrq, if_neg asked, if_neg asked, ih]

theorem textFrq_eq_zero (otherFiles : ∀ node ∈ index, node.file ≠ file) :
    textFrq textId file index = 0 := by
  induction index with
  | nil => rfl
  | cons node next ih =>
      rw [List.forall_mem_cons] at otherFiles
      rw [textFrq, if_neg fun same => otherFiles.1 same.2, ih otherFiles.2]

theorem countOccurrence_ne_nil (index : List PlistNode) :
    countOccurrence textId file index ≠ [] := by
  cases index with
  | nil => simp [countOccurrence]
  | cons => rw [countOccurrence]; split <;> simp

theorem countOccurrence_append
    (fresh : ∀ node ∈ index, ¬ (node.textId = textId ∧ node.file = file))
    (more : List PlistNode) :
    countOccurrence textId file (index ++ more) =
      index ++ countOccurrence textId file more := by
  induction index with
  | nil => rfl
  | cons node index ih =>
      rw [List.forall_mem_cons] at fresh
      rw [List.cons_append, countOccurrence, if_neg fresh.1, ih fresh.2]
      rfl

theorem iterate_countOccurrence
    (fresh : ∀ node ∈ index, ¬ (node.textId = textId ∧ node.file = file))
    (wordFrq : Nat) :
    (countOccurrence textId file)^[wordFrq + 1] index =
      index ++ [⟨file, textId, wordFrq + 1⟩] := by
  induction wordFrq with
  | zero => simpa [countOccurrence, newPlistNode] using countOccurrence_append fresh []
  | succ wordFrq ih =>
      rw [Function.iterate_succ_apply', ih, countOccurrence_append fresh]
      simp [countOccurrence]

theorem filter_countOccurrence (index : List PlistNode) :
    (countOccurrence textId file index).filter (·.file ≠ file) =
      index.filter (·.file ≠ file) := by
  induction index with
  | nil => simp [countOccurrence, newPlistNode]
  | cons node index ih =>
      rw [countOccurrence]
      split
      next same => simp [same.2]
      next => rw [List.filter_cons, List.filter_cons, ih]

/-- The number of occurrences that an index has for a file. -/
def frequency (file : CString) (index : List PlistNode) : Int :=
  ((index.filter (·.file = file)).map PlistNode.wordFrq).sum

theorem frequency_filter (index : List PlistNode) :
    frequency file (index.filter (·.file = file)) = frequency file index := by
  simp [frequency]

theorem frequency_eq_zero (otherFiles : ∀ node ∈ index, node.file ≠ file) :
    frequency file index = 0 := by
  rw [frequency, List.filter_eq_nil_iff.mpr (by simpa using otherFiles)]
  rfl

theorem frequency_countOccurrence (textId : Int) (index : List PlistNode) :
    frequency file (countOccurrence textId file index) = frequency file index + 1 := by
  induction index with
  | nil => simp [countOccurrence, newPlistNode, frequency]
  | cons node index ih =>
      rw [countOccurrence]
      split
      next same =>
        simp [frequency, same.2]
        omega
      next =>
        by_cases sameFile : node.file = file
        · simp [frequency, sameFile] at ih ⊢
          omega
        · simpa [frequency, sameFile] using ih

end Counting

end WebCrawl
