import WebCrawl.IndexCorrectness

/-!
# Indexing one more file

The tries that calls of `createTrieFromTextMap` build have a word at or below
every node, and hold nodes of the files of these calls only.  Indexing a file
that none of them was for keeps what was found and adds the occurrences in the
file exactly when its counters fit, its first word fits the trie and its texts are
read to their last word.
-/

namespace WebCrawl

open SiblingTrie (update find_update_same find_update_other Occupied)

/-- A trie that calls of `createTrieFromTextMap` built, and their files. -/
inductive BuiltFrom : List CString → TrieNode → Prop
  | null : BuiltFrom [] .null
  | call {files : List CString} {trieRoot : TrieNode} {texts : List Text}
      {fileName : CString} {words : Int} {loaded : Loaded}
      (built : BuiltFrom files trieRoot)
      (called : createTrieFromTextMap texts fileName trieRoot words = some loaded) :
      BuiltFrom (fileName :: files) loaded.trieRoot

section Built

variable {fileName : CString} {trieRoot : TrieNode}
  {entries : List (Nat × List Char)}

theorem startWord_occupied {change : List PlistNode → List PlistNode}
    (adds : ∀ index, change index ≠ []) (occupied : Occupied trieRoot)
    (word : List Char) : Occupied (startWord change word trieRoot) := by
  cases word with
  | nil => exact occupied
  | cons ch rest =>
      cases trieRoot with
      | null => exact Occupied.update adds occupied
      | node letter next cont index =>
          obtain ⟨_, nextOccupied, contOccupied⟩ := occupied
          change Occupied (resume change 1 rest (.node letter next cont index))
          rw [resume]
          by_cases last : rest = []
          · rw [if_pos last]
            exact ⟨Or.inr (adds index), nextOccupied, contOccupied⟩
          · rw [if_neg last, if_pos rfl]
            exact ⟨Or.inl (SiblingTrie.update_ne_null last .null), nextOccupied,
              Occupied.update adds trivial⟩

theorem enterWords_occupied (occupied : Occupied trieRoot)
    (entries : List (Nat × List Char)) :
    Occupied (enterWords fileName trieRoot entries) := by
  induction entries generalizing trieRoot with
  | nil => exact occupied
  | cons entry entries ih => exact ih (Occupied.update countOccurrence_ne_nil occupied)

theorem enterFile_occupied (occupied : Occupied trieRoot)
    (entries : List (Nat × List Char)) :
    Occupied (enterFile fileName trieRoot entries) := by
  cases entries with
  | nil => exact occupied
  | cons entry entries =>
      exact enterWords_occupied
        (startWord_occupied countOccurrence_ne_nil occupied entry.2) entries

theorem BuiltFrom.occupied {files : List CString} (built : BuiltFrom files trieRoot) :
    Occupied trieRoot := by
  induction built with
  | null => trivial
  | call built called ih =>
      rw [((createTrieFromTextMap_returnsIff _ _ _ _) _).mp called |>.2]
      exact enterFile_occupied ih _

theorem mem_of_mem_countEntries {word : List Char} {index : List PlistNode}
    {node : PlistNode} (otherFile : node.file ≠ fileName)
    (member : node ∈ countEntries fileName word index entries) : node ∈ index := by
  have kept : node ∈ (countEntries fileName word index entries).filter
      (·.file ≠ fileName) :=
    List.mem_filter.mpr ⟨member, by simpa using otherFile⟩
  rw [filter_countEntries] at kept
  exact (List.mem_filter.mp kept).1

theorem mem_find_of_mem_find_enterFile {word : List Char} {node : PlistNode}
    (nonempty : ∀ entry ∈ entries, entry.2 ≠ []) (otherFile : node.file ≠ fileName)
    (member : node ∈ (enterFile fileName trieRoot entries).find word) :
    node ∈ trieRoot.find word := by
  rw [find_enterFile nonempty] at member
  exact mem_find_of_mem_find_groundTrie (mem_of_mem_countEntries otherFile member)

theorem BuiltFrom.file_mem {files : List CString} (built : BuiltFrom files trieRoot)
    {word : List Char} {node : PlistNode} (member : node ∈ trieRoot.find word) :
    node.file ∈ files := by
  induction built with
  | null => simp at member
  | @call files trieRoot texts fileName words loaded built called ih =>
      rw [((createTrieFromTextMap_returnsIff _ _ _ _) _).mp called |>.2] at member
      by_cases sameFile : node.file = fileName
      · rw [sameFile]
        exact List.mem_cons_self
      · exact List.mem_cons_of_mem fileName
          (ih (mem_find_of_mem_find_enterFile (wordsFrom_nonempty 0 _) sameFile member))

end Built

section Extending

variable {files : List CString} {trieRoot : TrieNode}

/-- Indexing a file: other files keep their nodes, and the file gets one for
each text in which the word occurs. -/
structure IndexesFile (fileName : CString) (texts : List Text)
    (before after : TrieNode) : Prop where
  others : ∀ word, (searchWordInTrie after word).filter (·.file ≠ fileName) =
    searchWordInTrie before word
  own : ∀ word, (searchWordInTrie after word).filter (·.file = fileName) =
    occurrences fileName 0 (texts.map (·.content.chars)) word

theorem indexesFile_of_fits {fileName : CString} (texts : List Text)
    (newFile : ∀ word, ∀ node ∈ trieRoot.find word, node.file ≠ fileName)
    (fits : FirstWordFits trieRoot
      (texts.flatMap fun text => textWords text.content.chars)) :
    IndexesFile fileName texts trieRoot
      (enterFile fileName trieRoot (wordsFrom 0 (texts.map (·.content.chars)))) := by
  have found : ∀ word, searchWordInTrie (enterFile fileName trieRoot
      (wordsFrom 0 (texts.map (·.content.chars)))) word =
      searchWordInTrie trieRoot word ++
        occurrences fileName 0 (texts.map (·.content.chars)) word := by
    intro word
    apply searchWordInTrie_enterFile
    · simpa [List.flatMap_map] using fits
    · exact newFile word
  have old : ∀ word, ∀ node ∈ searchWordInTrie trieRoot word,
      node.file ≠ fileName := by
    intro word
    rw [searchWordInTrie_eq_find]
    exact newFile word
  have own : ∀ word, ∀ node ∈ occurrences fileName 0 (texts.map (·.content.chars)) word,
      node.file = fileName :=
    fun word node member => (mem_occurrences.mp member).1
  constructor
  · intro word
    rw [found, List.filter_append, List.filter_eq_self.mpr (by simpa using old word),
      List.filter_eq_nil_iff.mpr (by simpa using own word), List.append_nil]
  · intro word
    rw [found, List.filter_append, List.filter_eq_nil_iff.mpr (by simpa using old word),
      List.filter_eq_self.mpr (by simpa using own word), List.nil_append]

/-- A file that the trie does not know is counted as often as its words are filed. -/
theorem frequency_enterFile {fileName : CString} {entries : List (Nat × List Char)}
    (newFile : ∀ word, ∀ node ∈ trieRoot.find word, node.file ≠ fileName)
    (nonempty : ∀ entry ∈ entries, entry.2 ≠ []) (word : List Char) :
    frequency fileName ((enterFile fileName trieRoot entries).find word) =
      ((filedEntries trieRoot entries).map Prod.snd).count word := by
  rw [find_enterFile nonempty, frequency_countEntries,
    frequency_eq_zero fun node member =>
      newFile word node (mem_find_of_mem_find_groundTrie member), zero_add]

/-- A word that was entered under another letter is one too few. -/
theorem frequency_misfit {fileName : CString} {textId : Nat} {ch : Char} {rest : List Char}
    {more : List (Nat × List Char)}
    (newFile : ∀ word, ∀ node ∈ trieRoot.find word, node.file ≠ fileName)
    (otherLetter : rootLetter ch trieRoot ≠ ch)
    (nonempty : ∀ entry ∈ (textId, ch :: rest) :: more, entry.2 ≠ []) :
    frequency fileName
        ((enterFile fileName trieRoot ((textId, ch :: rest) :: more)).find (ch :: rest)) <
      (((textId, ch :: rest) :: more).map Prod.snd).count (ch :: rest) := by
  have otherWord : rootLetter ch trieRoot :: rest ≠ ch :: rest := fun equal =>
    otherLetter (List.cons.inj equal).1
  rw [frequency_enterFile newFile nonempty, filedEntries, filedWord, List.map_cons,
    List.map_cons, List.count_cons_of_ne otherWord, List.count_cons_self]
  omega

/-- What was below the root is lost when the root is cut. -/
theorem exists_lost {rest : List Char} (occupied : Occupied trieRoot)
    (cut : cutRoot rest trieRoot ≠ trieRoot) :
    ∃ word, (cutRoot rest trieRoot).find word = [] ∧ trieRoot.find word ≠ [] := by
  cases trieRoot with
  | null => exact absurd rfl cut
  | node letter next cont index =>
      have last : rest ≠ [] := by
        rintro rfl
        exact cut (by simp [cutRoot])
      have continued : cont ≠ .null := by
        rintro rfl
        exact cut (by simp [cutRoot])
      obtain ⟨below, nonempty, found⟩ := occupied.2.2.exists_word continued
      exact ⟨letter :: below, by simp [cutRoot, SiblingTrie.find, last, nonempty],
        by simpa [SiblingTrie.find, nonempty] using found⟩

variable {fileName : CString} {texts : List Text}

theorem IndexesFile.frequency_eq {before after : TrieNode}
    (indexes : IndexesFile fileName texts before after) (word : List Char) :
    frequency fileName (after.find word) =
      (texts.flatMap fun text => textWords text.content.chars).count word := by
  rw [← searchWordInTrie_eq_find, ← frequency_filter, indexes.own, frequency_occurrences,
    List.flatMap_map]

theorem firstWordFits_of_indexesFile (occupied : Occupied trieRoot)
    (newFile : ∀ word, ∀ node ∈ trieRoot.find word, node.file ≠ fileName)
    (indexes : IndexesFile fileName texts trieRoot
      (enterFile fileName trieRoot (wordsFrom 0 (texts.map (·.content.chars))))) :
    FirstWordFits trieRoot (texts.flatMap fun text => textWords text.content.chars) := by
  have sameWords := wordsFrom_words 0 (texts.map (·.content.chars))
  rw [List.flatMap_map] at sameWords
  have nonempty := wordsFrom_nonempty 0 (texts.map (·.content.chars))
  have counts := indexes.frequency_eq
  rw [← sameWords] at counts ⊢
  cases entries : wordsFrom 0 (texts.map (·.content.chars)) with
  | nil => cases trieRoot <;> trivial
  | cons entry more =>
      obtain ⟨textId, first⟩ := entry
      rw [entries] at nonempty counts indexes
      cases first with
      | nil => exact absurd rfl (List.forall_mem_cons.mp nonempty).1
      | cons ch rest =>
          refine firstWordFits_cons.mpr ⟨?_, ?_⟩
          · by_contra otherLetter
            exact Int.ne_of_lt (frequency_misfit newFile otherLetter nonempty) (counts _)
          · by_contra cut
            obtain ⟨word, lost, found⟩ := exists_lost occupied cut
            have kept := indexes.others word
            rw [searchWordInTrie_eq_find, searchWordInTrie_eq_find, find_enterFile nonempty,
              filter_countEntries, groundTrie, List.tail_cons, lost] at kept
            exact found kept.symm

theorem length_filedWord (trie : TrieNode) (word : List Char) :
    (filedWord trie word).length = word.length := by
  cases word <;> rfl

theorem lettersOf_filedEntries (trie : TrieNode) (entries : List (Nat × List Char)) :
    lettersOf (filedEntries trie entries) = lettersOf entries := by
  cases entries with
  | nil => rfl
  | cons entry entries =>
      simp [lettersOf, filedEntries, length_filedWord]

/-- The texts are read whole when all their words have no more letters than what is read. -/
theorem readWhole_of_flatten
    (letters : (texts.flatMap fun text => textWords text.content.chars).flatten.length ≤
      (texts.flatMap (textWords ·.read)).flatten.length) :
    ∀ text ∈ texts, text.ReadWhole := by
  have fewer : ∀ text : Text, (textWords text.read).flatten.length ≤
      (textWords text.content.chars).flatten.length := by
    intro text
    have part : text.read.Sublist text.content.chars := by
      rw [Text.read]
      exact List.take_sublist _ _
    rw [flatten_textWords, flatten_textWords]
    exact (part.filter _).length_le
  have all : ∀ texts : List Text, (texts.flatMap (textWords ·.read)).flatten.length ≤
      (texts.flatMap fun text => textWords text.content.chars).flatten.length := by
    intro texts
    induction texts with
    | nil => exact Nat.le_refl 0
    | cons text texts ih =>
        simp only [List.flatMap_cons, List.flatten_append, List.length_append]
        exact Nat.add_le_add (fewer text) ih
  induction texts with
  | nil => simp
  | cons text texts ih =>
      simp only [List.flatMap_cons, List.flatten_append, List.length_append] at letters
      have here := fewer text
      have later := all texts
      exact List.forall_mem_cons.mpr
        ⟨text.readWhole_of_letters (by omega), ih (by omega)⟩

theorem readWhole_of_indexesFile
    (newFile : ∀ word, ∀ node ∈ trieRoot.find word, node.file ≠ fileName)
    (indexes : IndexesFile fileName texts trieRoot
      (enterFile fileName trieRoot (wordsFrom 0 (texts.map Text.read)))) :
    ∀ text ∈ texts, text.ReadWhole := by
  have nonempty := wordsFrom_nonempty 0 (texts.map Text.read)
  have same : ((filedEntries trieRoot (wordsFrom 0 (texts.map Text.read))).map Prod.snd).Perm
      (texts.flatMap fun text => textWords text.content.chars) := by
    refine List.perm_iff_count.mpr fun word => Int.natCast_inj.mp ?_
    rw [← indexes.frequency_eq, frequency_enterFile newFile nonempty]
  have lengths : ∀ entries : List (Nat × List Char),
      (entries.map Prod.snd).flatten.length = lettersOf entries := by
    intro entries
    rw [List.length_flatten, List.map_map]
    rfl
  have letters := same.flatten.length_eq
  rw [lengths, lettersOf_filedEntries, ← lengths, wordsFrom_words, List.flatMap_map] at letters
  exact readWhole_of_flatten (le_of_eq letters.symm)

/-- Indexing one more file leaves the files so far alone, and counts the words of
the new one, exactly when the counters fit, its first word fits and it is read whole. -/
theorem createTrieFromTextMap_indexesFile_iff (built : BuiltFrom files trieRoot)
    (newFile : fileName ∉ files) (texts : List Text) (words : Int) :
    (∃ loaded, createTrieFromTextMap texts fileName trieRoot words = some loaded ∧
        IndexesFile fileName texts trieRoot loaded.trieRoot) ↔
      CountersFit texts words ∧
        FirstWordFits trieRoot (texts.flatMap fun text => textWords text.content.chars) ∧
        ∀ text ∈ texts, text.ReadWhole := by
  have otherFiles : ∀ word, ∀ node ∈ trieRoot.find word, node.file ≠ fileName := by
    rintro word node member rfl
    exact newFile (built.file_mem member)
  rw [(createTrieFromTextMap_returnsIff texts fileName trieRoot words).exists_iff,
    callFits_iff_countersFit otherFiles]
  refine and_congr_right fun _ => ?_
  dsimp only
  constructor
  · intro indexes
    have whole := readWhole_of_indexesFile otherFiles indexes
    rw [wordsFrom_congr 0 (map_read_of_readWhole whole)] at indexes
    exact ⟨firstWordFits_of_indexesFile built.occupied otherFiles indexes, whole⟩
  · rintro ⟨fits, whole⟩
    rw [wordsFrom_congr 0 (map_read_of_readWhole whole)]
    exact indexesFile_of_fits texts otherFiles fits

def firstFile : CString :=
  ⟨"a/first".toList, by decide⟩

def secondFile : CString :=
  ⟨"b/second".toList, by decide⟩

/-- The trie of a first file, whose text is `ab`. -/
def firstTrie : TrieNode :=
  .node 'a' .null (.node 'b' .null .null [⟨firstFile, 0, 1⟩]) []

theorem firstTrie_built : BuiltFrom [firstFile] firstTrie :=
  @BuiltFrom.call [] .null [⟨⟨"ab".toList, by decide⟩, 0⟩] firstFile 0
    ⟨firstTrie, [⟨⟨"ab".toList, by decide⟩, 1⟩], 1⟩ .null (by decide)

/-- A second file that starts with the word `a`. -/
def fittingText : Text :=
  ⟨⟨"a xy".toList, by decide⟩, 0⟩

theorem createTrieFromTextMap_indexesFile_fitting :
    ∃ loaded, createTrieFromTextMap [fittingText] secondFile firstTrie 1 =
        some loaded ∧
      IndexesFile secondFile [fittingText] firstTrie loaded.trieRoot :=
  (createTrieFromTextMap_indexesFile_iff firstTrie_built
    (by decide : secondFile ∉ [firstFile]) [fittingText] 1).mpr
      ⟨by decide, by decide, by decide⟩

/-- A second file whose first word does not start with the letter of the root. -/
def secondText : Text :=
  ⟨⟨"xy".toList, by decide⟩, 0⟩

/-- The word `ab` of the first file is lost, and `xy` is entered as `ay`. -/
theorem createTrieFromTextMap_loses_word :
    ¬ ∀ files trieRoot fileName texts words loaded,
      BuiltFrom files trieRoot → fileName ∉ files →
      createTrieFromTextMap texts fileName trieRoot words = some loaded →
      IndexesFile fileName texts trieRoot loaded.trieRoot := by
  intro keeps
  have called : createTrieFromTextMap [secondText] secondFile firstTrie 1 = some
      ⟨.node 'a' .null (.node 'y' .null .null [⟨secondFile, 0, 1⟩]) [],
        [secondText.counted], 2⟩ := by
    decide
  have indexes := keeps [firstFile] firstTrie secondFile [secondText] 1 _
    firstTrie_built (by decide) called
  exact absurd (indexes.others "ab".toList) (by decide)

end Extending

end WebCrawl
