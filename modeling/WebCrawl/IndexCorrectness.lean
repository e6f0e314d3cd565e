import WebCrawl.CallCounters

/-!
# What is found in the index

Searching a word after the texts of a file were loaded gives the nodes that
were there before, followed by the occurrences of the word in the texts.  This
needs a first word that fits the root: otherwise the word is entered under the
letter of the root, or what was below the root is lost.  It also needs that the
counters fit and that the texts are read to their last word.
-/

namespace WebCrawl

open SiblingTrie (update find_update_same find_update_other Occupied)

section Searching

variable {fileName : CString} {word : List Char}

/-- One word is counted among the words of texts. -/
def countEntries (fileName : CString) (word : List Char) (index : List PlistNode)
    (entries : List (Nat × List Char)) : List PlistNode :=
  entries.foldl
    (fun index (textId, other) =>
      if other = word then countOccurrence textId fileName index else index) index

theorem countEntries_cons (entry : Nat × List Char) (entries : List (Nat × List Char))
    (index : List PlistNode) :
    countEntries fileName word index (entry :: entries) =
      countEntries fileName word
        (if entry.2 = word then countOccurrence entry.1 fileName index else index)
        entries :=
  rfl

theorem find_enterWords {entries : List (Nat × List Char)}
    (nonempty : ∀ entry ∈ entries, entry.2 ≠ []) (trieRoot : TrieNode) :
    (enterWords fileName trieRoot entries).find word =
      countEntries fileName word (trieRoot.find word) entries := by
  induction entries generalizing trieRoot with
  | nil => rfl
  | cons entry entries ih =>
      rw [List.forall_mem_cons] at nonempty
      have entered := ih nonempty.2
        (update (countOccurrence entry.1 fileName) entry.2 trieRoot)
      rw [countEntries_cons]
      by_cases same : entry.2 = word
      · subst word
        rw [find_update_same nonempty.1] at entered
        rw [if_pos rfl]
        exact entered
      · rw [find_update_other (Ne.symm same)] at entered
        rw [if_neg same]
        exact entered

/-- The first word is searched under the letter of the root, and in what the
root has left. -/
theorem find_enterFile {entries : List (Nat × List Char)}
    (nonempty : ∀ entry ∈ entries, entry.2 ≠ []) (trieRoot : TrieNode) :
    (enterFile fileName trieRoot entries).find word =
      countEntries fileName word ((groundTrie trieRoot entries).find word)
        (filedEntries trieRoot entries) := by
  rw [enterFile_eq, find_enterWords (filedEntries_nonempty nonempty trieRoot)]

theorem countEntries_numberedWords (textId : Nat) (text : List Char)
    (index : List PlistNode) :
    countEntries fileName word index (numberedWords textId text) =
      (countOccurrence textId fileName)^[(textWords text).count word] index := by
  rw [numberedWords]
  induction textWords text generalizing index with
  | nil => rfl
  | cons other words ih =>
      rw [List.map_cons, countEntries_cons, ih]
      by_cases same : other = word
      · rw [if_pos same, same, List.count_cons_self, Function.iterate_succ_apply]
      · rw [if_neg same, List.count_cons_of_ne same]

theorem countEntries_append (entries more : List (Nat × List Char))
    (index : List PlistNode) :
    countEntries fileName word index (entries ++ more) =
      countEntries fileName word (countEntries fileName word index entries) more :=
  List.foldl_append

/-- Counting a file whose nodes so far belong to earlier texts appends the
nodes of the texts that are counted. -/
theorem countEntries_wordsFrom {start : Nat} {index : List PlistNode}
    (contents : List (List Char))
    (earlier : ∀ node ∈ index, node.file = fileName → node.textId < start) :
    countEntries fileName word index (wordsFrom start contents) =
      index ++ occurrences fileName start contents word := by
  induction contents generalizing start index with
  | nil => simp [wordsFrom, countEntries, occurrences]
  | cons content contents ih =>
      have fresh : ∀ node ∈ index, ¬ (node.textId = start ∧ node.file = fileName) := by
        rintro node member ⟨sameText, sameFile⟩
        have before := earlier node member sameFile
        omega
      rw [wordsFrom_cons, countEntries_append, countEntries_numberedWords]
      cases frequency : (textWords content).count word with
      | zero =>
          rw [Function.iterate_zero_apply, ih]
          · simp [occurrences, List.zipIdx_cons, frequency]
          · intro node member sameFile
            have before := earlier node member sameFile
            omega
      | succ wordFrq =>
          rw [iterate_countOccurrence fresh wordFrq, ih]
          · simp [occurrences, List.zipIdx_cons, frequency]
          · intro node member sameFile
            rcases List.mem_append.mp member with old | new
            · have before := earlier node old sameFile
              omega
            · rw [List.mem_singleton.mp new]
              dsimp only
              omega

theorem filter_countEntries (entries : List (Nat × List Char))
    (index : List PlistNode) :
    (countEntries fileName word index entries).filter (·.file ≠ fileName) =
      index.filter (·.file ≠ fileName) := by
  induction entries generalizing index with
  | nil => rfl
  | cons entry entries ih =>
      rw [countEntries_cons, ih]
      by_cases same : entry.2 = word
      · rw [if_pos same, filter_countOccurrence]
      · rw [if_neg same]

theorem frequency_countEntries (entries : List (Nat × List Char))
    (index : List PlistNode) :
    frequency fileName (countEntries fileName word index entries) =
      frequency fileName index + (entries.map Prod.snd).count word := by
  induction entries generalizing index with
  | nil => simp [countEntries]
  | cons entry entries ih =>
      rw [countEntries_cons, ih, List.map_cons]
      by_cases same : entry.2 = word
      · rw [if_pos same, same, List.count_cons_self, frequency_countOccurrence]
        omega
      · rw [if_neg same, List.count_cons_of_ne same]

theorem frequency_occurrences (start : Nat) (contents : List (List Char)) :
    frequency fileName (occurrences fileName start contents word) =
      (contents.flatMap textWords).count word := by
  have counted := @countEntries_wordsFrom fileName word start [] contents (by simp)
  rw [List.nil_append] at counted
  rw [← counted, frequency_countEntries, wordsFrom_words]
  exact zero_add _

theorem mem_occurrences {start : Nat} {contents : List (List Char)} {node : PlistNode} :
    node ∈ occurrences fileName start contents word ↔
      node.file = fileName ∧ 0 < node.wordFrq ∧
        ∃ content, ∃ textId : Nat, node.textId = textId ∧
          (content, textId) ∈ contents.zipIdx start ∧
            node.wordFrq = (textWords content).count word := by
  constructor
  · intro member
    obtain ⟨⟨content, textId⟩, isText, counted⟩ := List.mem_filterMap.mp member
    obtain ⟨occurs, isNode⟩ := Option.ite_none_left_eq_some.mp counted
    rw [← Option.some.inj isNode]
    exact ⟨rfl, Int.natCast_pos.mpr (Nat.pos_of_ne_zero occurs), content, textId, rfl, isText,
      rfl⟩
  · rintro ⟨sameFile, positive, content, textId, isTextId, isText, counted⟩
    have occurs : (textWords content).count word ≠ 0 := by omega
    refine List.mem_filterMap.mpr ⟨(content, textId), isText, ?_⟩
    simp only [if_neg occurs, ← counted, ← sameFile, ← isTextId]

theorem occurrences_sorted (start : Nat) (contents : List (List Char)) :
    (occurrences fileName start contents word).Pairwise (·.textId < ·.textId) := by
  induction contents generalizing start with
  | nil => exact List.Pairwise.nil
  | cons content contents ih =>
      by_cases none : (textWords content).count word = 0
      · simpa [occurrences, List.zipIdx_cons, none] using ih (start + 1)
      · have later : ∀ node ∈ occurrences fileName (start + 1) contents word,
            start < node.textId := by
          intro node member
          obtain ⟨_, _, _, textId, isTextId, isText, _⟩ := mem_occurrences.mp member
          have later : start + 1 ≤ textId := List.le_snd_of_mem_zipIdx isText
          omega
        have unfolded : occurrences fileName start (content :: contents) word =
            ⟨fileName, start, (textWords content).count word⟩ ::
              occurrences fileName (start + 1) contents word := by
          simp [occurrences, List.zipIdx_cons, none]
        rw [unfolded]
        exact List.pairwise_cons.mpr ⟨later, ih (start + 1)⟩

end Searching

section Fitting

variable {fileName : CString} {trieRoot : TrieNode} {word : List Char}

/-- The first word of a call fits the trie: there is none, the trie is empty, or
the word starts with the letter of the root, below which it goes only when
nothing is there. -/
def FirstWordFits : TrieNode → List (List Char) → Prop
  | .null, _ | _, [] => True
  | .node letter _ cont _, word :: _ =>
      word.head? = some letter ∧ (word.length = 1 ∨ cont = .null)

instance : (trieRoot : TrieNode) → (words : List (List Char)) →
    Decidable (FirstWordFits trieRoot words)
  | .null, [] | .null, _ :: _ | .node .., [] => .isTrue trivial
  | .node letter _ cont _, word :: _ =>
      inferInstanceAs
        (Decidable (word.head? = some letter ∧ (word.length = 1 ∨ cont = .null)))

theorem firstWordFits_null (words : List (List Char)) : FirstWordFits .null words := by
  cases words <;> trivial

theorem firstWordFits_cons {ch : Char} {rest : List Char} {more : List (List Char)} :
    FirstWordFits trieRoot ((ch :: rest) :: more) ↔
      rootLetter ch trieRoot = ch ∧ cutRoot rest trieRoot = trieRoot := by
  cases trieRoot with
  | null => simp [FirstWordFits, rootLetter, cutRoot]
  | node letter next cont index =>
      by_cases last : rest = []
      · simp [FirstWordFits, rootLetter, cutRoot, last, eq_comm]
      · simp [FirstWordFits, rootLetter, cutRoot, last, eq_comm]

theorem find_enterFile_of_fits {entries : List (Nat × List Char)}
    (nonempty : ∀ entry ∈ entries, entry.2 ≠ [])
    (fits : FirstWordFits trieRoot (entries.map Prod.snd)) :
    (enterFile fileName trieRoot entries).find word =
      countEntries fileName word (trieRoot.find word) entries := by
  cases entries with
  | nil => rfl
  | cons entry entries =>
      obtain ⟨textId, first⟩ := entry
      rw [List.forall_mem_cons] at nonempty
      cases first with
      | nil => exact absurd rfl nonempty.1
      | cons ch rest =>
          obtain ⟨sameLetter, sameTrie⟩ := firstWordFits_cons.mp fits
          rw [find_enterFile (List.forall_mem_cons.mpr nonempty), groundTrie, filedEntries,
            filedWord, sameLetter]
          exact congrArg (fun trie => countEntries _ _ (SiblingTrie.find trie _) _) sameTrie

/-- What a search finds after a call whose first word fits. -/
theorem searchWordInTrie_enterFile {contents : List (List Char)}
    (fits : FirstWordFits trieRoot (contents.flatMap textWords))
    (newFile : ∀ node ∈ trieRoot.find word, node.file ≠ fileName) :
    searchWordInTrie (enterFile fileName trieRoot (wordsFrom 0 contents)) word =
      searchWordInTrie trieRoot word ++ occurrences fileName 0 contents word := by
  rw [← wordsFrom_words 0] at fits
  rw [searchWordInTrie_eq_find, searchWordInTrie_eq_find,
    find_enterFile_of_fits (wordsFrom_nonempty 0 contents) fits,
    countEntries_wordsFrom]
  intro node member sameFile
  exact absurd sameFile (newFile node member)

end Fitting

section Reading

variable {text : Text} {fileName : CString}

/-- What the loop over a text does not read has no letters. -/
def Text.ReadWhole (text : Text) : Prop :=
  ∀ ch ∈ text.unread, isBlank ch = true

instance (text : Text) : Decidable text.ReadWhole :=
  List.decidableBAll _ _

theorem Text.read_append_unread (text : Text) :
    text.read ++ text.unread = text.content.chars :=
  List.take_append_drop text.textLength.toNat text.content.chars

theorem Text.ReadWhole.textWords_read (whole : text.ReadWhole) :
    textWords text.read = textWords text.content.chars := by
  rw [← text.read_append_unread, textWords_append_blanks whole]

/-- A text is read whole when its words have no more letters than what is read. -/
theorem Text.readWhole_of_letters
    (letters : (textWords text.content.chars).flatten.length ≤
      (textWords text.read).flatten.length) : text.ReadWhole := by
  rw [flatten_textWords, flatten_textWords, ← text.read_append_unread, List.filter_append,
    List.length_append] at letters
  have nothing : text.unread.filter (!isBlank ·) = [] :=
    List.eq_nil_of_length_eq_zero (by omega)
  exact fun ch member => by simpa using List.filter_eq_nil_iff.mp nothing ch member

theorem map_read_of_readWhole {texts : List Text} (whole : ∀ text ∈ texts, text.ReadWhole) :
    (texts.map Text.read).map textWords =
      (texts.map (·.content.chars)).map textWords := by
  rw [List.map_map, List.map_map]
  refine List.map_congr_left fun text member => ?_
  rw [Function.comp_apply, (whole text member).textWords_read]
  rfl

theorem occurrences_congr {contents others : List (List Char)} (start : Nat)
    (sameWords : contents.map textWords = others.map textWords) (word : List Char) :
    occurrences fileName start contents word = occurrences fileName start others word := by
  induction contents generalizing start others with
  | nil =>
      rw [List.map_nil, eq_comm, List.map_eq_nil_iff] at sameWords
      rw [sameWords]
  | cons content contents ih =>
      cases others with
      | nil => cases sameWords
      | cons other others =>
          rw [List.map_cons, List.map_cons, List.cons.injEq] at sameWords
          have later := ih (start + 1) sameWords.2
          rw [occurrences, occurrences] at later
          simp only [occurrences, List.zipIdx_cons, List.filterMap_cons, sameWords.1, later]

theorem wordsFrom_congr {contents others : List (List Char)} (start : Nat)
    (sameWords : contents.map textWords = others.map textWords) :
    wordsFrom start contents = wordsFrom start others := by
  induction contents generalizing start others with
  | nil =>
      rw [List.map_nil, eq_comm, List.map_eq_nil_iff] at sameWords
      rw [sameWords]
  | cons content contents ih =>
      cases others with
      | nil => cases sameWords
      | cons other others =>
          rw [List.map_cons, List.map_cons, List.cons.injEq] at sameWords
          rw [wordsFrom_cons, wordsFrom_cons, numberedWords, sameWords.1,
            ih (start + 1) sameWords.2]
          rfl

end Reading

/-- The index of one file: for every word, its occurrences in the texts. -/
def Indexes (fileName : CString) (texts : List Text) (trieRoot : TrieNode) : Prop :=
  ∀ word, word ≠ [] → (∀ ch ∈ word, isBlank ch = false) →
    (searchWordInTrie trieRoot word).Pairwise (·.textId < ·.textId) ∧
    ∀ node, node ∈ searchWordInTrie trieRoot word ↔
      node.file = fileName ∧ 0 < node.wordFrq ∧
        ∃ (textId : Nat) (text : Text), node.textId = textId ∧ texts[textId]? = some text ∧
          node.wordFrq = (textWords text.content.chars).count word

section Indexing

variable {fileName : CString} {texts : List Text}

theorem mem_occurrences_texts {read : Text → List Char} {word : List Char} {node : PlistNode} :
    node ∈ occurrences fileName 0 (texts.map read) word ↔
      node.file = fileName ∧ 0 < node.wordFrq ∧
        ∃ (textId : Nat) (text : Text), node.textId = textId ∧ texts[textId]? = some text ∧
          node.wordFrq = (textWords (read text)).count word := by
  rw [mem_occurrences]
  simp [List.mem_zipIdx_iff_getElem?]

theorem searchWordInTrie_newTrie (word : List Char) :
    searchWordInTrie (enterFile fileName .null (wordsFrom 0 (texts.map Text.read))) word =
      occurrences fileName 0 (texts.map Text.read) word := by
  rw [searchWordInTrie_enterFile (firstWordFits_null _)]
  · simp [searchWordInTrie]
  · simp

theorem readWhole_of_indexes
    (indexes : Indexes fileName texts
      (enterFile fileName .null (wordsFrom 0 (texts.map Text.read)))) :
    ∀ text ∈ texts, text.ReadWhole := by
  intro text member
  obtain ⟨textId, isText⟩ := List.mem_iff_getElem?.mp member
  -- A word has as many nodes for the text, whether it is counted in what was read or in all.
  have counts : ∀ word, (textWords text.read).count word =
      (textWords text.content.chars).count word := by
    intro word
    by_cases isWord : word ≠ [] ∧ ∀ ch ∈ word, isBlank ch = false
    · have found := (indexes word isWord.1 isWord.2).2
      simp only [searchWordInTrie_newTrie, mem_occurrences_texts] at found
      have forNode : ∀ wordFrq : Nat, 0 < wordFrq →
          (wordFrq = (textWords text.read).count word ↔
            wordFrq = (textWords text.content.chars).count word) := by
        intro wordFrq positive
        simpa only [isText, positive, Option.some.injEq, exists_and_left, exists_eq_left',
          Int.natCast_pos, Int.natCast_inj, true_and] using found ⟨fileName, textId, wordFrq⟩
      have fromRead := forNode ((textWords text.read).count word)
      have fromAll := forNode ((textWords text.content.chars).count word)
      omega
    · rw [List.count_eq_zero.mpr fun isMember => isWord (mem_textWords isMember),
        List.count_eq_zero.mpr fun isMember => isWord (mem_textWords isMember)]
  have letters := (List.perm_iff_count.mpr counts).flatten.length_eq
  exact text.readWhole_of_letters (le_of_eq letters.symm)

/-- A call without a trie indexes its texts exactly when its counters fit and all texts are
read to their last word. -/
theorem createTrieFromTextMap_indexes_iff (texts : List Text) (fileName : CString)
    (words : Int) :
    (∃ loaded, createTrieFromTextMap texts fileName .null words = some loaded ∧
        Indexes fileName texts loaded.trieRoot) ↔
      CountersFit texts words ∧ ∀ text ∈ texts, text.ReadWhole := by
  rw [(createTrieFromTextMap_returnsIff texts fileName .null words).exists_iff,
    callFits_iff_countersFit (by simp)]
  refine and_congr_right fun _ => ⟨readWhole_of_indexes, fun whole word _ _ => ?_⟩
  have found := @searchWordInTrie_newTrie fileName texts word
  rw [occurrences_congr 0 (map_read_of_readWhole whole)] at found
  rw [found]
  exact ⟨occurrences_sorted 0 _, fun node => mem_occurrences_texts⟩

/-- A text of one word. -/
def letterText (length : Nat) : Text :=
  newText ⟨List.replicate length 'a', fun member => by
    cases List.eq_of_mem_replicate member⟩

/-- The length of the word is the first that an `int` cannot hold: the loop over the text
reads nothing, and the word is not in the index. -/
theorem createTrieFromTextMap_skips_text :
    ¬ ∀ (texts : List Text) (fileName : CString) (words : Int),
      ∃ loaded, createTrieFromTextMap texts fileName .null words = some loaded ∧
        Indexes fileName texts loaded.trieRoot := by
  intro indexes
  have indexed := indexes [letterText (2 ^ 31)] ⟨[], List.not_mem_nil⟩ 0
  rw [(createTrieFromTextMap_returnsIff _ _ _ _).exists_iff] at indexed
  dsimp only at indexed
  have whole := readWhole_of_indexes indexed.2 (letterText (2 ^ 31)) List.mem_cons_self
  have length : (letterText (2 ^ 31)).textLength = -2 ^ 31 := by
    rw [Text.textLength, letterText, newText, List.length_replicate]
    decide
  have unread : 'a' ∈ (letterText (2 ^ 31)).unread := by
    rw [Text.unread, length, Int.toNat_of_nonpos (by decide), List.drop_zero, letterText, newText,
      List.mem_replicate]
    exact ⟨Nat.ne_of_gt (Nat.two_pow_pos 31), rfl⟩
  exact absurd (whole 'a' unread) (by decide)

end Indexing

end WebCrawl
