import WebCrawl.WordLoading

/-!
# Loading the texts of a file

A word ends at a blank or at the end of its text.  Either way the text loads
its words one after the other, so `createTrieFromTextMap` enters the words of
all texts in order.  It returns exactly when none of its counters overflows, which
can be told from the words and the trie that it starts with.
-/

namespace WebCrawl

open SiblingTrie (follow update find_update_same find_update_other)

section Texts

variable {textId : Int} {fileName : CString}

theorem parseLetter_resultFlag {ch : Char} {loader after : Loader}
    (parsed : parseLetter ch loader = some after) : after.resultFlag = true := by
  obtain ⟨counter, _, parsed⟩ := Option.bind_eq_some_iff.mp parsed
  split at parsed
  · rw [← Option.some.inj parsed]
  · dsimp only at parsed
    by_cases create : loader.newContFlag = 1
    · rw [if_pos create] at parsed
      obtain ⟨_, moved⟩ := Option.ite_none_left_eq_some.mp parsed
      rw [← Option.some.inj moved]
    · rw [if_neg create] at parsed
      obtain ⟨found, _, moved⟩ := Option.bind_eq_some_iff.mp parsed
      rw [← Option.some.inj moved]

theorem endWord_resultFlag {loader after : Loader}
    (ended : endWord textId fileName loader = some after) : after.resultFlag = false := by
  obtain ⟨numberOfWords, _, ended⟩ := Option.bind_eq_some_iff.mp ended
  split at ended
  · obtain ⟨index, _, ended⟩ := Option.bind_eq_some_iff.mp ended
    obtain ⟨words, _, reset⟩ := Option.bind_eq_some_iff.mp ended
    rw [← Option.some.inj reset]
  · cases ended

theorem loadText_letter {ch : Char} {rest : List Char} (letter : isBlank ch = false)
    (more : rest ≠ []) (loader : Loader) :
    loadText textId fileName (ch :: rest) loader =
      (parseLetter ch loader).bind (loadText textId fileName rest) := by
  simp [loadText, letter, more]

theorem loadText_lastWord {word : List Char} (nonempty : word ≠ [])
    (noBlank : ∀ ch ∈ word, isBlank ch = false) (loader : Loader) :
    loadText textId fileName word loader =
      (parseWord word loader).bind (endWord textId fileName) := by
  induction word generalizing loader with
  | nil => exact absurd rfl nonempty
  | cons ch rest ih =>
      rw [List.forall_mem_cons] at noBlank
      by_cases last : rest = []
      · subst last
        cases parsed : parseLetter ch loader with
        | none => simp [loadText, parseWord, noBlank.1, parsed]
        | some after =>
            simp [loadText, parseWord, noBlank.1, parsed,
              parseLetter_resultFlag parsed]
      · rw [loadText_letter noBlank.1 last, parseWord, Option.bind_assoc]
        exact congrArg _ (funext (ih last noBlank.2))

theorem loadText_blank {blank : Char} (isBlankChar : isBlank blank = true)
    (rest : List Char) {loader : Loader} (between : loader.resultFlag = false) :
    loadText textId fileName (blank :: rest) loader =
      loadText textId fileName rest loader := by
  simp [loadText, isBlankChar, between]

theorem loadText_endWord {blank : Char} (isBlankChar : isBlank blank = true)
    (rest : List Char) {loader : Loader} (inWord : loader.resultFlag = true) :
    loadText textId fileName (blank :: rest) loader =
      (endWord textId fileName loader).bind (loadText textId fileName rest) := by
  cases ended : endWord textId fileName loader with
  | none => simp [loadText, isBlankChar, inWord, ended]
  | some after =>
      simp [loadText, isBlankChar, inWord, ended, endWord_resultFlag ended]

theorem loadText_word {word : List Char} (nonempty : word ≠ [])
    (noBlank : ∀ ch ∈ word, isBlank ch = false) {blank : Char}
    (isBlankChar : isBlank blank = true) (rest : List Char) (loader : Loader) :
    loadText textId fileName (word ++ blank :: rest) loader =
      ((parseWord word loader).bind (endWord textId fileName)).bind
        (loadText textId fileName rest) := by
  induction word generalizing loader with
  | nil => exact absurd rfl nonempty
  | cons ch later ih =>
      rw [List.forall_mem_cons] at noBlank
      rw [List.cons_append, loadText_letter noBlank.1 (by simp), parseWord]
      cases parsed : parseLetter ch loader with
      | none => rfl
      | some after =>
          rw [Option.bind_some, Option.bind_some]
          by_cases last : later = []
          · subst last
            exact loadText_endWord isBlankChar rest (parseLetter_resultFlag parsed)
          · exact ih last noBlank.2 after

/-- The words of a text with its number. -/
def numberedWords (textId : Nat) (text : List Char) : List (Nat × List Char) :=
  (textWords text).map (textId, ·)

/-- Words with the numbers of their texts, one after the other. -/
def Loader.enterAll (fileName : CString) (loader : Loader)
    (words : List (Nat × List Char)) : Loader :=
  words.foldl (fun loader (textId, word) => loader.enter textId fileName word) loader

/-- No counter overflows when words are entered one after the other. -/
def Loader.CountsAll (fileName : CString) : Loader → List (Nat × List Char) → Prop
  | _, [] => True
  | loader, (textId, word) :: more =>
      loader.Counts textId fileName word ∧
        CountsAll fileName (loader.enter textId fileName word) more

theorem AtRoot.resultFlag {loader : Loader} (atRoot : AtRoot loader) :
    loader.resultFlag = false := by
  rw [atRoot.between]
  rfl

variable (fileName) in
/-- A text enters its words, one after the other. -/
theorem loadText_returnsIff (textId : Nat) (text : List Char) {loader : Loader}
    (atRoot : AtRoot loader) :
    ReturnsIff (loadText textId fileName text loader)
      (loader.CountsAll fileName (numberedWords textId text))
      (loader.enterAll fileName (numberedWords textId text)) := by
  induction size : text.length using Nat.strong_induction_on generalizing text loader with
  | _ length ih =>
      rcases text_cases text with noBlank | ⟨word, blank, rest, rfl, noBlank, ends⟩
      · by_cases none : text = []
        · subst none
          rw [numberedWords, textWords_nil]
          exact returnsIff_some loader
        · rw [loadText_lastWord none noBlank, numberedWords, textWords_word none noBlank]
          exact (parseWord_atRoot atRoot none).of_iff (and_true _).to_iff.symm
      · have smaller : rest.length < length := by
          rw [← size, List.length_append, List.length_cons]
          omega
        by_cases none : word = []
        · subst none
          rw [List.nil_append, loadText_blank ends rest atRoot.resultFlag, numberedWords,
            ← List.nil_append (blank :: rest), textWords_blank ends, textWords_nil,
            List.nil_append]
          exact ih rest.length smaller rest atRoot rfl
        · rw [loadText_word none noBlank ends, numberedWords, textWords_blank ends,
            textWords_word none noBlank]
          exact (parseWord_atRoot atRoot none).bind fun _ =>
            ih rest.length smaller rest (enter_atRoot atRoot none) rfl

end Texts

section Entries

variable (fileName : CString)

/-- The words of texts that are numbered from `start` on. -/
def wordsFrom (start : Nat) (texts : List (List Char)) : List (Nat × List Char) :=
  (texts.zipIdx start).flatMap fun (text, textId) => numberedWords textId text

/-- Words that are entered into the trie as they are. -/
def enterWords (trieRoot : TrieNode)
    (words : List (Nat × List Char)) : TrieNode :=
  words.foldl
    (fun trie (textId, word) => update (countOccurrence textId fileName) word trie) trieRoot

/-- The words of a call. -/
def enterFile (trieRoot : TrieNode) : List (Nat × List Char) → TrieNode
  | [] => trieRoot
  | (textId, word) :: more =>
      enterWords fileName (startWord (countOccurrence textId fileName) word trieRoot) more

/-- The words of a call as they are filed. -/
def filedEntries (trieRoot : TrieNode) : List (Nat × List Char) → List (Nat × List Char)
  | [] => []
  | (textId, word) :: more => (textId, filedWord trieRoot word) :: more

/-- What the first word of a call leaves of the trie. -/
def groundTrie (trieRoot : TrieNode) : List (Nat × List Char) → TrieNode
  | [] => trieRoot
  | (_, word) :: _ => cutRoot word.tail trieRoot

theorem enterFile_eq (trieRoot : TrieNode) (entries : List (Nat × List Char)) :
    enterFile fileName trieRoot entries =
      enterWords fileName (groundTrie trieRoot entries) (filedEntries trieRoot entries) := by
  cases entries with
  | nil => rfl
  | cons entry entries =>
      rw [enterFile, startWord_eq]
      rfl

theorem numberedWords_nonempty (textId : Nat) (text : List Char) :
    ∀ entry ∈ numberedWords textId text, entry.2 ≠ [] := by
  intro entry member
  obtain ⟨word, wordMember, rfl⟩ := List.mem_map.mp member
  exact (mem_textWords wordMember).1

theorem wordsFrom_nonempty (start : Nat) (texts : List (List Char)) :
    ∀ entry ∈ wordsFrom start texts, entry.2 ≠ [] := by
  intro entry member
  obtain ⟨_, _, ofText⟩ := List.mem_flatMap.mp member
  exact numberedWords_nonempty _ _ entry ofText

theorem filedEntries_nonempty {entries : List (Nat × List Char)}
    (nonempty : ∀ entry ∈ entries, entry.2 ≠ []) (trieRoot : TrieNode) :
    ∀ entry ∈ filedEntries trieRoot entries, entry.2 ≠ [] := by
  cases entries with
  | nil => exact nonempty
  | cons entry entries =>
      rw [List.forall_mem_cons] at nonempty
      exact List.forall_mem_cons.mpr ⟨filedWord_ne_nil nonempty.1 trieRoot, nonempty.2⟩

theorem wordsFrom_cons (start : Nat) (text : List Char) (texts : List (List Char)) :
    wordsFrom start (text :: texts) =
      numberedWords start text ++ wordsFrom (start + 1) texts := by
  simp [wordsFrom, List.zipIdx_cons]

theorem wordsFrom_words (start : Nat) (texts : List (List Char)) :
    (wordsFrom start texts).map Prod.snd = texts.flatMap textWords := by
  induction texts generalizing start with
  | nil => rfl
  | cons text texts ih =>
      rw [wordsFrom_cons, List.map_append, ih, List.flatMap_cons, numberedWords,
        List.map_map]
      simp [Function.comp_def]

/-- The letters of words. -/
def lettersOf (entries : List (Nat × List Char)) : Nat :=
  (entries.map (·.2.length)).sum

theorem lettersOf_append (entries more : List (Nat × List Char)) :
    lettersOf (entries ++ more) = lettersOf entries + lettersOf more := by
  rw [lettersOf, List.map_append, List.sum_append]
  rfl

theorem lettersOf_wordsFrom (start : Nat) (texts : List (List Char)) :
    lettersOf (wordsFrom start texts) = texts.flatten.countP (!isBlank ·) := by
  have lengths : (wordsFrom start texts).map (·.2.length) =
      (texts.flatMap textWords).map List.length := by
    rw [← wordsFrom_words start, List.map_map]
    rfl
  rw [lettersOf, lengths, ← List.length_flatten, List.flatMap, List.flatten_flatten,
    List.map_map, List.countP_eq_length_filter, List.filter_flatten]
  congr 3
  exact funext flatten_textWords

end Entries

end WebCrawl
