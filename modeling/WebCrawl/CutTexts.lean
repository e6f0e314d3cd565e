import WebCrawl.IndexExtension
import Mathlib.Data.List.Count

/-!
# Texts that are cut

A text that is too long for an `int` is read up to some place only.  When as many
words are read as the text has, at most the last of them is cut.  The index tells
whether two texts with the same words were cut in the same way.
-/

namespace WebCrawl

open SiblingTrie (find_update_same)

section Words

/-- Letters behind a text make its last word longer, or are a word of their own. -/
theorem textWords_append_letters {letters : List Char}
    (areLetters : ∀ ch ∈ letters, isBlank ch = false) (text : List Char) :
    (∃ earlier last, textWords text = earlier ++ [last] ∧
        textWords (text ++ letters) = earlier ++ [last ++ letters]) ∨
      textWords (text ++ letters) = textWords text ++ textWords letters := by
  induction size : text.length using Nat.strong_induction_on generalizing text with
  | _ length ih =>
      rcases text_cases text with noBlank | ⟨word, blank, rest, rfl, noBlank, ends⟩
      · by_cases none : text = []
        · subst none
          exact Or.inr (by rw [textWords_nil, List.nil_append, List.nil_append])
        · have longer : ∀ ch ∈ text ++ letters, isBlank ch = false :=
            List.forall_mem_append.mpr ⟨noBlank, areLetters⟩
          refine Or.inl ⟨[], text, textWords_word none noBlank, ?_⟩
          exact textWords_word (List.append_ne_nil_of_left_ne_nil none letters) longer
      · have smaller : rest.length < length := by
          rw [← size, List.length_append, List.length_cons]
          omega
        rw [List.append_assoc, List.cons_append, textWords_blank ends, textWords_blank ends]
        rcases ih rest.length smaller rest rfl with ⟨earlier, last, before, after⟩ | apart
        · refine Or.inl ⟨textWords word ++ earlier, last, ?_, ?_⟩
          · rw [before, List.append_assoc]
          · rw [after, List.append_assoc]
        · exact Or.inr (by rw [apart, List.append_assoc])

/-- A part of a text with as many words as the text cuts at most the last one. -/
theorem textWords_cut {part rest : List Char}
    (sameNumber : (textWords part).length = (textWords (part ++ rest)).length) :
    textWords part = textWords (part ++ rest) ∨
      ∃ earlier last whole, textWords part = earlier ++ [last] ∧
        textWords (part ++ rest) = earlier ++ [whole] ∧ last <+: whole := by
  obtain ⟨letters, blanks, rfl, areLetters, split⟩ : ∃ letters blanks,
      rest = letters ++ blanks ∧ (∀ ch ∈ letters, isBlank ch = false) ∧
        textWords (part ++ (letters ++ blanks)) =
          textWords (part ++ letters) ++ textWords blanks := by
    rcases text_cases rest with noBlank | ⟨word, blank, more, rfl, noBlank, ends⟩
    · exact ⟨rest, [], by simp, noBlank, by rw [textWords_nil, List.append_nil, List.append_nil]⟩
    · refine ⟨word, blank :: more, rfl, noBlank, ?_⟩
      have first := @textWords_blank blank ends [] more
      rw [textWords_nil, List.nil_append, List.nil_append] at first
      rw [← List.append_assoc, textWords_blank ends, first]
  rw [split] at sameNumber ⊢
  rcases textWords_append_letters areLetters part with ⟨earlier, last, before, after⟩ | apart
  · have nothing : textWords blanks = [] := by
      rw [before, after] at sameNumber
      simpa using sameNumber
    rw [nothing, List.append_nil]
    exact Or.inr ⟨earlier, last, last ++ letters, before, after, List.prefix_append last letters⟩
  · rw [apart, List.append_assoc, List.length_append] at sameNumber
    have nothing : textWords letters ++ textWords blanks = [] :=
      List.eq_nil_of_length_eq_zero (by omega)
    exact Or.inl (by rw [apart, List.append_assoc, nothing, List.append_nil])

/-- Words that differ at most in how much of the last one there is. -/
def CutAlike (words others : List (List Char)) : Prop :=
  words = others ∨ ∃ earlier last other, words = earlier ++ [last] ∧
    others = earlier ++ [other] ∧ (last <+: other ∨ other <+: last)

theorem CutAlike.symm {words others : List (List Char)} (alike : CutAlike words others) :
    CutAlike others words := by
  rcases alike with rfl | ⟨earlier, last, other, rfl, rfl, prefixes⟩
  · exact Or.inl rfl
  · exact Or.inr ⟨earlier, other, last, rfl, rfl, prefixes.symm⟩

theorem CutAlike.length_eq {words others : List (List Char)} (alike : CutAlike words others) :
    words.length = others.length := by
  rcases alike with rfl | ⟨earlier, last, other, rfl, rfl, _⟩
  · rfl
  · simp

/-- As words with their numbers of occurrences they differ when they differ. -/
theorem CutAlike.eq_of_perm {words others : List (List Char)} (alike : CutAlike words others)
    (same : words.Perm others) : words = others := by
  rcases alike with rfl | ⟨earlier, last, other, rfl, rfl, _⟩
  · rfl
  · have one := (List.perm_append_left_iff earlier).mp same
    rw [List.singleton_perm_singleton.mp one]

/-- First words that differ are the only ones. -/
theorem CutAlike.of_cons {word other : List Char} {later otherLater : List (List Char)}
    (alike : CutAlike (word :: later) (other :: otherLater)) (different : word ≠ other) :
    later = [] ∧ otherLater = [] ∧ (word <+: other ∨ other <+: word) := by
  rcases alike with equal | ⟨earlier, last, otherLast, isLast, isOtherLast, prefixes⟩
  · exact absurd (List.cons.inj equal).1 different
  · cases earlier with
    | nil =>
        obtain ⟨rfl, rfl⟩ := List.cons.inj isLast
        obtain ⟨rfl, rfl⟩ := List.cons.inj isOtherLast
        exact ⟨rfl, rfl, prefixes⟩
    | cons first earlier =>
        exact absurd ((List.cons.inj isLast).1.trans (List.cons.inj isOtherLast).1.symm) different

theorem cutAlike_of_parts {text other part otherPart : List Char}
    (isPart : part <+: text) (isOtherPart : otherPart <+: other)
    (sameWords : textWords text = textWords other)
    (number : (textWords part).length = (textWords text).length)
    (otherNumber : (textWords otherPart).length = (textWords other).length) :
    CutAlike (textWords part) (textWords otherPart) := by
  obtain ⟨rest, rfl⟩ := isPart
  obtain ⟨otherRest, rfl⟩ := isOtherPart
  rcases textWords_cut number with whole | ⟨earlier, last, word, cut, whole, isPrefix⟩
  · rcases textWords_cut otherNumber with
      otherWhole | ⟨earlier, last, word, otherCut, otherWhole, isPrefix⟩
    · exact Or.inl (by rw [whole, sameWords, otherWhole])
    · exact Or.inr ⟨earlier, word, last, by rw [whole, sameWords, otherWhole], otherCut,
        Or.inr isPrefix⟩
  · rcases textWords_cut otherNumber with
      otherWhole | ⟨otherEarlier, otherLast, otherWord, otherCut, otherWhole, otherPrefix⟩
    · exact Or.inr ⟨earlier, last, word, cut, by rw [otherWhole, ← sameWords, whole],
        Or.inl isPrefix⟩
    · rw [whole, otherWhole] at sameWords
      obtain ⟨rfl, sameLast⟩ := List.append_inj' sameWords rfl
      obtain rfl := List.singleton_inj.mp sameLast
      exact Or.inr ⟨earlier, last, otherLast, cut, otherCut,
        List.prefix_or_prefix_of_prefix isPrefix otherPrefix⟩

end Words

section Index

variable {fileName : CString} {trieRoot : TrieNode} {texts others : List (List Char)}

theorem textFrq_enterWords {entries : List (Nat × List Char)}
    (nonempty : ∀ entry ∈ entries, entry.2 ≠ []) (trie : TrieNode) (entry : Nat × List Char) :
    textFrq entry.1 fileName ((enterWords fileName trie entries).find entry.2) =
      textFrq entry.1 fileName (trie.find entry.2) + entries.count entry := by
  induction entries generalizing trie with
  | nil => simp [enterWords]
  | cons first entries ih =>
      rw [List.forall_mem_cons] at nonempty
      have later := ih nonempty.2
        (SiblingTrie.update (countOccurrence first.1 fileName) first.2 trie)
      rw [textFrq_update nonempty.1] at later
      refine later.trans ?_
      rw [List.count_cons, beq_eq_decide]
      by_cases same : first = entry
      · simp [same]
        omega
      · simp [same]

/-- What the index counts of a word in a text after a call. -/
theorem textFrq_enterFile {entries : List (Nat × List Char)}
    (nonempty : ∀ entry ∈ entries, entry.2 ≠ []) (entry : Nat × List Char) :
    textFrq entry.1 fileName ((enterFile fileName trieRoot entries).find entry.2) =
      textFrq entry.1 fileName ((groundTrie trieRoot entries).find entry.2) +
        (filedEntries trieRoot entries).count entry := by
  rw [enterFile_eq, textFrq_enterWords (filedEntries_nonempty nonempty trieRoot)]

theorem count_wordsFrom_eq_zero {start textId : Nat} (earlier : textId < start)
    (texts : List (List Char)) (word : List Char) :
    (wordsFrom start texts).count (textId, word) = 0 := by
  refine List.count_eq_zero.mpr fun member => ?_
  obtain ⟨⟨text, number⟩, isText, ofText⟩ := List.mem_flatMap.mp member
  obtain ⟨_, _, same⟩ := List.mem_map.mp ofText
  have later : start ≤ number := List.le_snd_of_mem_zipIdx isText
  have sameNumber : number = textId := (Prod.mk.inj same).1
  omega

theorem count_numberedWords (textId : Nat) (text word : List Char) :
    (numberedWords textId text).count (textId, word) = (textWords text).count word :=
  List.count_map_of_injective _ _ (fun _ _ same => (Prod.mk.inj same).2) word

/-- Texts that were cut are the same words when all words are counted alike. -/
theorem map_textWords_of_counts
    (alike : List.Forall₂ (fun text other => CutAlike (textWords text) (textWords other))
      texts others) (start : Nat)
    (counts : ∀ entry, (wordsFrom start texts).count entry = (wordsFrom start others).count entry) :
    texts.map textWords = others.map textWords := by
  induction alike generalizing start with
  | nil => rfl
  | @cons text other texts others here _ ih =>
      simp only [wordsFrom_cons, List.count_append] at counts
      have same : textWords text = textWords other := by
        refine here.eq_of_perm (List.perm_iff_count.mpr fun word => ?_)
        have count := counts (start, word)
        rwa [count_numberedWords, count_numberedWords,
          count_wordsFrom_eq_zero (Nat.lt_succ_self start),
          count_wordsFrom_eq_zero (Nat.lt_succ_self start)] at count
      have later : ∀ entry, (wordsFrom (start + 1) texts).count entry =
          (wordsFrom (start + 1) others).count entry := by
        intro entry
        have count := counts entry
        rw [numberedWords, numberedWords, same] at count
        omega
      rw [List.map_cons, List.map_cons, same, ih (start + 1) later]

/-- Behind two first words of which one is cut the index of the shorter one is the same. -/
theorem find_cutRoot_filedWord {longer : List Char} (more : longer.tail ≠ [])
    (word : List Char) :
    (cutRoot longer.tail trieRoot).find (filedWord trieRoot word) =
      (cutRoot word.tail trieRoot).find (filedWord trieRoot word) := by
  cases trieRoot with
  | null => rfl
  | node letter next cont index =>
      cases word with
      | nil => simp [filedWord]
      | cons ch rest =>
          by_cases last : rest = []
          · simp [filedWord, rootLetter, cutRoot, SiblingTrie.find, last]
          · simp [filedWord, rootLetter, cutRoot, SiblingTrie.find, last, more]

/-- A first word and a part of it are told apart by the index. -/
theorem index_tells_cut {start : Nat} {word longer : List Char} (nonempty : word ≠ [])
    (isPrefix : word <+: longer) (different : word ≠ longer)
    (counts : ∀ entry : Nat × List Char,
      textFrq entry.1 fileName ((cutRoot word.tail trieRoot).find entry.2) +
          ((start, filedWord trieRoot word) :: wordsFrom (start + 1) texts).count entry =
        textFrq entry.1 fileName ((cutRoot longer.tail trieRoot).find entry.2) +
          (((start, filedWord trieRoot longer) ::
            wordsFrom (start + 1) others).count entry : Int)) :
    False := by
  have shorter : word.length < longer.length := by
    refine lt_of_le_of_ne isPrefix.length_le fun same => different ?_
    exact isPrefix.eq_of_length same
  have some := List.length_pos_of_ne_nil nonempty
  have more : longer.tail ≠ [] := by
    refine List.ne_nil_of_length_pos ?_
    rw [List.length_tail]
    omega
  have otherEntry : (start, filedWord trieRoot longer) ≠ (start, filedWord trieRoot word) := by
    intro same
    have lengths := congrArg (fun entry : Nat × List Char => entry.2.length) same
    simp only [length_filedWord] at lengths
    omega
  have count := counts (start, filedWord trieRoot word)
  dsimp only at count
  rw [find_cutRoot_filedWord more, List.count_cons_self, List.count_cons_of_ne otherEntry,
    count_wordsFrom_eq_zero (Nat.lt_succ_self start),
    count_wordsFrom_eq_zero (Nat.lt_succ_self start)] at count
  omega

theorem wordsFrom_first {start : Nat} {text word : List Char} {later : List (List Char)}
    (split : textWords text = word :: later) (texts : List (List Char)) :
    wordsFrom start (text :: texts) =
      (start, word) :: (later.map (start, ·) ++ wordsFrom (start + 1) texts) := by
  rw [wordsFrom_cons, numberedWords, split]
  rfl

/-- The index tells what was read of the texts. -/
theorem map_textWords_of_index
    (alike : List.Forall₂ (fun text other => CutAlike (textWords text) (textWords other))
      texts others) (start : Nat)
    (sameIndex : enterFile fileName trieRoot (wordsFrom start texts) =
      enterFile fileName trieRoot (wordsFrom start others)) :
    texts.map textWords = others.map textWords := by
  induction alike generalizing start with
  | nil => rfl
  | @cons text other texts others here rest ih =>
      have counts : ∀ entry : Nat × List Char, _ := fun entry =>
        (@textFrq_enterFile fileName trieRoot _
          (wordsFrom_nonempty start (text :: texts)) entry).symm.trans
        ((congrArg (fun trie => textFrq entry.1 fileName (SiblingTrie.find trie entry.2))
          sameIndex).trans (textFrq_enterFile (wordsFrom_nonempty start (other :: others)) entry))
      cases split : textWords text with
      | nil =>
          have none : textWords other = [] := by
            have length := here.length_eq
            rw [split] at length
            exact List.eq_nil_of_length_eq_zero length.symm
          rw [wordsFrom_cons, wordsFrom_cons, numberedWords, numberedWords, split, none]
            at sameIndex
          rw [List.map_cons, List.map_cons, split, none, ih (start + 1) sameIndex]
      | cons word later =>
          obtain ⟨otherWord, otherLater, otherSplit⟩ : ∃ otherWord otherLater,
              textWords other = otherWord :: otherLater := by
            refine List.exists_cons_of_ne_nil fun none => ?_
            have length := here.length_eq
            rw [split, none] at length
            cases length
          rw [wordsFrom_first split, wordsFrom_first otherSplit] at counts
          by_cases same : word = otherWord
          · subst otherWord
            refine map_textWords_of_counts (.cons here rest) start fun entry => ?_
            have count := counts entry
            rw [wordsFrom_first split, wordsFrom_first otherSplit, List.count_cons,
              List.count_cons]
            simp only [groundTrie, filedEntries, List.count_cons] at count
            omega
          · rw [split, otherSplit] at here
            obtain ⟨rfl, rfl, prefixes⟩ := here.of_cons same
            have nonempty : word ≠ [] := (mem_textWords (split ▸ List.mem_cons_self)).1
            have otherNonempty : otherWord ≠ [] :=
              (mem_textWords (otherSplit ▸ List.mem_cons_self)).1
            rcases prefixes with isPrefix | isPrefix
            · exact (index_tells_cut nonempty isPrefix same counts).elim
            · exact (index_tells_cut otherNonempty isPrefix (Ne.symm same)
                fun entry => (counts entry).symm).elim

end Index

end WebCrawl
