import WebCrawl.CutTexts

/-!
# What indexing depends on and what it keeps

Two lists of texts with the same words give the same index, wherever their
blanks are, as long as no counter overflows and the same part of their words is
read.  Whatever the texts are, the index stays well formed when the call returns:
siblings have different letters, every node leads to an index, and an index has one
node for each text of a file.
-/

namespace WebCrawl

open SiblingTrie (AllNodes IndexedBelow Occupied update occupied_iff_allNodes)

section Words

def numberOfTextWords (content : CString) : Nat :=
  (textWords content.chars).length

/-- The words of a text that are read. -/
def wordsRead (content : CString) : List (List Char) :=
  textWords (newText content).read

/-- A call for texts of which no word is counted yet gives this index, and all words of
the texts are counted. -/
def CountsAllWords (fileName : CString) (trieRoot : TrieNode) (words : Int)
    (contents : List CString) (newRoot : TrieNode) : Prop :=
  createTrieFromTextMap (contents.map newText) fileName trieRoot words = some
    { trieRoot := newRoot
      texts := contents.map fun content => ⟨content, numberOfTextWords content⟩
      words := words + (contents.map numberOfTextWords).sum }

/-- Two lists of texts give the same index, and their words are counted. -/
def IndexedAlike (fileName : CString) (trieRoot : TrieNode) (words : Int)
    (contents others : List CString) : Prop :=
  ∃ newRoot, CountsAllWords fileName trieRoot words contents newRoot ∧
    CountsAllWords fileName trieRoot words others newRoot

/-- Of two lists of texts the same words are read, of each text as many as it has. -/
structure ReadAlike (contents others : List CString) : Prop where
  words : contents.map wordsRead = others.map wordsRead
  number : ∀ content ∈ contents, (wordsRead content).length = numberOfTextWords content

instance (contents others : List CString) : Decidable (ReadAlike contents others) :=
  decidable_of_iff
    (contents.map wordsRead = others.map wordsRead ∧
      ∀ content ∈ contents, (wordsRead content).length = numberOfTextWords content)
    ⟨fun ⟨words, number⟩ => ⟨words, number⟩, fun ⟨words, number⟩ => ⟨words, number⟩⟩

variable {fileName : CString} {trieRoot newRoot : TrieNode} {words : Int}
  {contents others : List CString}

theorem map_read_newText (contents : List CString) :
    ((contents.map newText).map Text.read).map textWords = contents.map wordsRead := by
  induction contents with
  | nil => rfl
  | cons content contents ih =>
      rw [List.map_cons, List.map_cons, List.map_cons, List.map_cons, ih, wordsRead]

/-- The words of texts are counted when as many as they have are read. -/
theorem countsAllWords_iff :
    CountsAllWords fileName trieRoot words contents newRoot ↔
      CallFits (contents.map newText) fileName trieRoot words ∧
        newRoot = enterFile fileName trieRoot
          (wordsFrom 0 ((contents.map newText).map Text.read)) ∧
        ∀ content ∈ contents, (wordsRead content).length = numberOfTextWords content := by
  have counted : contents.map (fun content => (⟨content, numberOfTextWords content⟩ : Text)) =
      (contents.map newText).map Text.counted ↔
        ∀ content ∈ contents, (wordsRead content).length = numberOfTextWords content := by
    rw [List.map_map, List.map_inj_left]
    refine forall₂_congr fun content _ => ?_
    simp only [Function.comp_apply, Text.counted, newText, zero_add, Text.mk.injEq,
      Int.natCast_inj, true_and, wordsRead]
    exact eq_comm
  rw [CountsAllWords, createTrieFromTextMap_returnsIff, Loaded.mk.injEq, counted]
  refine and_congr_right fun _ => and_congr_right fun _ => and_iff_left_of_imp fun number => ?_
  have sums : (contents.map numberOfTextWords) = contents.map (wordsRead · |>.length) :=
    List.map_congr_left fun content member => (number content member).symm
  rw [sums, List.flatMap_map, List.length_flatMap]
  rfl

/-- Texts of which all words are read, if not to their ends, are cut alike. -/
theorem forall₂_cutAlike
    (sameWords : contents.map (textWords ·.chars) = others.map (textWords ·.chars))
    (number : ∀ content ∈ contents, (wordsRead content).length = numberOfTextWords content)
    (otherNumber : ∀ other ∈ others, (wordsRead other).length = numberOfTextWords other) :
    List.Forall₂ (fun content other => CutAlike (wordsRead content) (wordsRead other))
      contents others := by
  have isPart : ∀ content, (newText content).read <+: content.chars := by
    intro content
    rw [Text.read]
    exact List.take_prefix _ _
  induction contents generalizing others with
  | nil =>
      rw [List.map_nil, eq_comm, List.map_eq_nil_iff] at sameWords
      rw [sameWords]
      exact .nil
  | cons content contents ih =>
      cases others with
      | nil => cases sameWords
      | cons other others =>
          rw [List.map_cons, List.map_cons, List.cons.injEq] at sameWords
          rw [List.forall_mem_cons] at number otherNumber
          exact .cons (cutAlike_of_parts (isPart content) (isPart other) sameWords.1 number.1
            otherNumber.1) (ih sameWords.2 number.2 otherNumber.2)

theorem number_of_read
    (sameWords : contents.map (textWords ·.chars) = others.map (textWords ·.chars))
    (sameRead : contents.map wordsRead = others.map wordsRead)
    (number : ∀ content ∈ contents, (wordsRead content).length = numberOfTextWords content) :
    ∀ other ∈ others, (wordsRead other).length = numberOfTextWords other := by
  induction contents generalizing others with
  | nil =>
      rw [List.map_nil, eq_comm, List.map_eq_nil_iff] at sameWords
      simp [sameWords]
  | cons content contents ih =>
      cases others with
      | nil => cases sameWords
      | cons other others =>
          rw [List.map_cons, List.map_cons, List.cons.injEq] at sameWords sameRead
          rw [List.forall_mem_cons] at number ⊢
          refine ⟨?_, ih sameWords.2 sameRead.2 number.2⟩
          rw [← sameRead.1, number.1, numberOfTextWords, numberOfTextWords, sameWords.1]

/-- Only the words of the texts matter to the index, provided that no counter overflows
and that the same words are read, of each text as many as it has. -/
theorem createTrieFromTextMap_sameWords_iff (fileName : CString) (trieRoot : TrieNode)
    (words : Int) {contents others : List CString}
    (sameWords : contents.map (textWords ·.chars) = others.map (textWords ·.chars)) :
    IndexedAlike fileName trieRoot words contents others ↔
      CallFits (contents.map newText) fileName trieRoot words ∧
        CallFits (others.map newText) fileName trieRoot words ∧ ReadAlike contents others := by
  simp only [IndexedAlike, countsAllWords_iff]
  constructor
  · rintro ⟨_, ⟨fits, rfl, number⟩, otherFits, sameIndex, otherNumber⟩
    refine ⟨fits, otherFits, ?_, number⟩
    have alike := forall₂_cutAlike sameWords number otherNumber
    rw [← map_read_newText, ← map_read_newText]
    refine map_textWords_of_index ?_ 0 sameIndex
    rw [List.forall₂_map_left_iff, List.forall₂_map_left_iff, List.forall₂_map_right_iff,
      List.forall₂_map_right_iff]
    exact alike
  · rintro ⟨fits, otherFits, read⟩
    have same := read.words
    rw [← map_read_newText, ← map_read_newText] at same
    refine ⟨_, ⟨fits, rfl, read.number⟩, otherFits, by rw [wordsFrom_congr 0 same], ?_⟩
    exact number_of_read sameWords read.words read.number

/-- Two texts, with and without blanks around their words. -/
theorem createTrieFromTextMap_sameWords_blanks :
    IndexedAlike firstFile firstTrie 1
      (["ab c".toList, []].pmap CString.mk (by decide))
      ([" ab\t c ".toList, "\t".toList].pmap CString.mk (by decide)) :=
  (createTrieFromTextMap_sameWords_iff firstFile firstTrie 1 (by decide)).mpr
    ⟨by decide, by decide, by decide⟩

/-- A word with so many blanks behind it that an `int` cannot hold the length. -/
def paddedWord (blanks : Nat) : CString :=
  ⟨'a' :: List.replicate blanks ' ', fun member => by
    rcases List.mem_cons.mp member with equal | member
    · cases equal
    · cases List.eq_of_mem_replicate member⟩

/-- The word is not counted when the blanks make the text too long. -/
theorem createTrieFromTextMap_counts_blanks :
    ¬ ∀ (fileName : CString) (trieRoot : TrieNode) (words : Int) (contents others : List CString),
      contents.map (textWords ·.chars) = others.map (textWords ·.chars) →
      IndexedAlike fileName trieRoot words contents others := by
  intro alike
  have words : textWords (paddedWord (2 ^ 31 - 1)).chars = [['a']] := by
    have blanks : ∀ ch ∈ List.replicate (2 ^ 31 - 1) ' ', isBlank ch = true := by
      intro ch member
      rw [List.eq_of_mem_replicate member]
      rfl
    exact (@textWords_append_blanks ['a'] _ blanks).trans (by decide)
  have indexed := alike firstFile .null 0 [paddedWord (2 ^ 31 - 1)] [⟨['a'], by decide⟩]
    (by rw [List.map_singleton, List.map_singleton, words]; decide)
  obtain ⟨_, padded, _⟩ := indexed
  obtain ⟨_, _, number⟩ := countsAllWords_iff.mp padded
  have length : (newText (paddedWord (2 ^ 31 - 1))).textLength = -2 ^ 31 := by
    rw [Text.textLength, newText, paddedWord, List.length_cons, List.length_replicate]
    decide
  have nothing : wordsRead (paddedWord (2 ^ 31 - 1)) = [] := by
    rw [wordsRead, Text.read, length, Int.toNat_of_nonpos (by decide), List.take_zero,
      textWords_nil]
  have counted := number _ List.mem_cons_self
  rw [nothing, numberOfTextWords, words] at counted
  cases counted

end Words

section Invariant

/-- An index has at most one node for a text of a file, which counts some
occurrence. -/
structure ValidIndex (index : List PlistNode) : Prop where
  oneForText : (index.map fun node => (node.textId, node.file)).Nodup
  positive : ∀ node ∈ index, 1 ≤ node.wordFrq

/-- What holds of a trie between two calls. -/
structure ValidTrie (trieRoot : TrieNode) : Prop where
  differentLetters : AllNodes (·.letters.Nodup) trieRoot
  indexedBelow : AllNodes IndexedBelow trieRoot
  validIndexes : AllNodes (ValidIndex ·.rootIndex) trieRoot

theorem validIndex_nil : ValidIndex [] :=
  ⟨List.nodup_nil, by simp⟩

variable {textId : Int} {fileName : CString}

theorem texts_countOccurrence (index : List PlistNode) :
    (countOccurrence textId fileName index).map (fun node => (node.textId, node.file)) =
      if (textId, fileName) ∈ index.map (fun node => (node.textId, node.file)) then
        index.map fun node => (node.textId, node.file)
      else index.map (fun node => (node.textId, node.file)) ++ [(textId, fileName)] := by
  induction index with
  | nil => simp [countOccurrence, newPlistNode]
  | cons node next ih =>
      by_cases same : node.textId = textId ∧ node.file = fileName
      · simp [countOccurrence, same]
      · have other : ¬ (textId, fileName) = (node.textId, node.file) := by
          rintro equal
          exact same ⟨(Prod.mk.inj equal).1.symm, (Prod.mk.inj equal).2.symm⟩
        rw [countOccurrence, if_neg same, List.map_cons, List.map_cons, ih]
        by_cases found : (textId, fileName) ∈ next.map fun node => (node.textId, node.file)
        · rw [if_pos found, if_pos (List.mem_cons_of_mem _ found)]
        · rw [if_neg found, if_neg (by simpa [other] using found), List.cons_append]

/-- Counting one occurrence more keeps an index valid. -/
theorem ValidIndex.countOccurrence {index : List PlistNode} (valid : ValidIndex index) :
    ValidIndex (countOccurrence textId fileName index) := by
  obtain ⟨oneForText, positive⟩ := valid
  constructor
  · rw [texts_countOccurrence]
    exact SiblingTrie.nodup_append_missing oneForText
  · induction index with
    | nil => simp [WebCrawl.countOccurrence, newPlistNode]
    | cons node next ih =>
        rw [List.forall_mem_cons] at positive
        rw [WebCrawl.countOccurrence]
        split
        · refine List.forall_mem_cons.mpr ⟨?_, positive.2⟩
          have one := positive.1
          dsimp only
          omega
        · exact List.forall_mem_cons.mpr
            ⟨positive.1, ih (List.nodup_cons.mp oneForText).2 positive.2⟩

variable {trieRoot : TrieNode}

theorem cutRoot_letters (rest : List Char)
    (different : AllNodes (·.letters.Nodup) trieRoot) :
    AllNodes (·.letters.Nodup) (cutRoot rest trieRoot) := by
  cases trieRoot with
  | null => exact different
  | node letter next cont index =>
      refine ⟨different.1, different.2.1, ?_⟩
      split
      · exact different.2.2
      · trivial

theorem cutRoot_validIndexes (rest : List Char)
    (valid : AllNodes (ValidIndex ·.rootIndex) trieRoot) :
    AllNodes (ValidIndex ·.rootIndex) (cutRoot rest trieRoot) := by
  cases trieRoot with
  | null => exact valid
  | node letter next cont index =>
      refine ⟨valid.1, valid.2.1, ?_⟩
      split
      · exact valid.2.2
      · trivial

/-- A word in the middle of a call keeps the trie valid. -/
theorem ValidTrie.update (valid : ValidTrie trieRoot) (textId : Int)
    (fileName : CString) (word : List Char) :
    ValidTrie (update (WebCrawl.countOccurrence textId fileName) word trieRoot) := by
  have occupied : Occupied trieRoot := (occupied_iff_allNodes trieRoot).mpr valid.indexedBelow
  constructor
  · exact valid.differentLetters.update_letters
  · exact (occupied_iff_allNodes _).mp (occupied.update countOccurrence_ne_nil)
  · exact valid.validIndexes.update_index validIndex_nil fun _ => ValidIndex.countOccurrence

/-- The first word of a call keeps the trie valid, though it may cut what was
below the root. -/
theorem ValidTrie.startWord (valid : ValidTrie trieRoot) (textId : Int)
    (fileName : CString) (word : List Char) :
    ValidTrie (startWord (WebCrawl.countOccurrence textId fileName) word trieRoot) := by
  have occupied : Occupied trieRoot := (occupied_iff_allNodes trieRoot).mpr valid.indexedBelow
  have indexed := startWord_occupied (@countOccurrence_ne_nil fileName textId) occupied word
  cases word with
  | nil => exact valid
  | cons ch rest =>
      rw [startWord_eq] at indexed ⊢
      constructor
      · exact (cutRoot_letters rest valid.differentLetters).update_letters
      · exact (occupied_iff_allNodes _).mp indexed
      · exact (cutRoot_validIndexes rest valid.validIndexes).update_index validIndex_nil
          fun _ => ValidIndex.countOccurrence

theorem ValidTrie.enterWords (valid : ValidTrie trieRoot)
    (entries : List (Nat × List Char)) :
    ValidTrie (enterWords fileName trieRoot entries) := by
  induction entries generalizing trieRoot with
  | nil => exact valid
  | cons entry entries ih => exact ih (valid.update entry.1 fileName entry.2)

theorem ValidTrie.enterFile (valid : ValidTrie trieRoot)
    (entries : List (Nat × List Char)) :
    ValidTrie (enterFile fileName trieRoot entries) := by
  cases entries with
  | nil => exact valid
  | cons entry entries =>
      exact (valid.startWord entry.1 fileName entry.2).enterWords entries

/-- A call keeps the trie valid exactly when it returns, that is when no counter
overflows. -/
theorem createTrieFromTextMap_valid_iff (texts : List Text) (fileName : CString)
    (words : Int) (valid : ValidTrie trieRoot) :
    (∃ loaded, createTrieFromTextMap texts fileName trieRoot words = some loaded ∧
        ValidTrie loaded.trieRoot) ↔ CallFits texts fileName trieRoot words := by
  rw [(createTrieFromTextMap_returnsIff texts fileName trieRoot words).exists_iff]
  exact and_iff_left (valid.enterFile _)

theorem firstTrie_valid : ValidTrie firstTrie := by
  constructor
  · simp [firstTrie, AllNodes, SiblingTrie.letters]
  · simp [firstTrie, AllNodes, IndexedBelow]
  · refine ⟨validIndex_nil, trivial, ⟨?_, ?_⟩, trivial, trivial⟩
    · simp [SiblingTrie.rootIndex]
    · simp [SiblingTrie.rootIndex]

/-- A call whose first word goes below another letter. -/
theorem createTrieFromTextMap_valid_second :
    ∃ loaded, createTrieFromTextMap [secondText] secondFile firstTrie 1 = some loaded ∧
      ValidTrie loaded.trieRoot :=
  (createTrieFromTextMap_valid_iff [secondText] secondFile 1 firstTrie_valid).mpr (by decide)

/-- The trie of a file whose word was counted as often as an `int` can. -/
def fullTrie : TrieNode :=
  .node 'a' .null .null [⟨firstFile, 0, 2 ^ 31 - 1⟩]

theorem fullTrie_valid : ValidTrie fullTrie := by
  constructor
  · simp [fullTrie, AllNodes, SiblingTrie.letters]
  · simp [fullTrie, AllNodes, IndexedBelow]
  · refine ⟨⟨?_, ?_⟩, trivial, trivial⟩
    · simp [SiblingTrie.rootIndex]
    · simp [SiblingTrie.rootIndex]

/-- One more occurrence overflows the count. -/
theorem createTrieFromTextMap_overflows :
    ¬ ∀ (texts : List Text) (fileName : CString) (trieRoot : TrieNode) (words : Int),
      ValidTrie trieRoot →
      ∃ loaded, createTrieFromTextMap texts fileName trieRoot words = some loaded ∧
        ValidTrie loaded.trieRoot := by
  intro keeps
  obtain ⟨loaded, called, _⟩ :=
    keeps [⟨⟨['a'], by decide⟩, 0⟩] firstFile fullTrie 0 fullTrie_valid
  exact absurd called (by rw [show createTrieFromTextMap _ _ _ _ = none by decide]; simp)

end Invariant

end WebCrawl
