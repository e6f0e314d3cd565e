import WebCrawl.TextLoading

/-!
# The counters of a call

A call of `createTrieFromTextMap` counts letters, words and occurrences with
`int`s.  It returns exactly when the totals fit: those of the call can be told from
its texts, and those of the posting lists also from the trie that it starts with.
-/

namespace WebCrawl

open SiblingTrie (update find_update_same find_update_other)

section Frequencies

variable {fileName : CString} {trie : TrieNode} {entry : Nat × List Char}
  {entries more : List (Nat × List Char)}

/-- What the posting lists count of words when these are filed in a trie. -/
def FrequenciesFit (fileName : CString) (trie : TrieNode)
    (entries : List (Nat × List Char)) : Prop :=
  ∀ entry ∈ entries,
    textFrq entry.1 fileName (trie.find entry.2) + entries.count entry < 2 ^ 31

instance (fileName : CString) (trie : TrieNode) (entries : List (Nat × List Char)) :
    Decidable (FrequenciesFit fileName trie entries) :=
  inferInstanceAs (Decidable (∀ entry ∈ entries, _))

theorem textFrq_update (nonempty : entry.2 ≠ []) (other : Nat × List Char) :
    textFrq other.1 fileName
        ((update (countOccurrence entry.1 fileName) entry.2 trie).find other.2) =
      textFrq other.1 fileName (trie.find other.2) + if entry = other then 1 else 0 := by
  obtain ⟨textId, word⟩ := entry
  obtain ⟨otherId, otherWord⟩ := other
  by_cases sameWord : word = otherWord
  · subst otherWord
    rw [find_update_same nonempty, textFrq_countOccurrence]
    simp
  · rw [find_update_other (Ne.symm sameWord), if_neg fun same => sameWord (Prod.mk.inj same).2,
      add_zero]

/-- The counts fit when the first word can be counted and then the others. -/
theorem frequenciesFit_cons (nonempty : entry.2 ≠ []) :
    FrequenciesFit fileName trie (entry :: entries) ↔
      textFrq entry.1 fileName (trie.find entry.2) + 1 < 2 ^ 31 ∧
        FrequenciesFit fileName
          (update (countOccurrence entry.1 fileName) entry.2 trie) entries := by
  have later : ∀ other : Nat × List Char,
      textFrq other.1 fileName
          ((update (countOccurrence entry.1 fileName) entry.2 trie).find other.2) +
        (entries.count other : Int) =
      textFrq other.1 fileName (trie.find other.2) + ((entry :: entries).count other : Int) := by
    intro other
    rw [textFrq_update nonempty, List.count_cons, beq_eq_decide]
    by_cases same : entry = other
    · simp [same]
      omega
    · simp [same]
  simp only [FrequenciesFit, later, List.forall_mem_cons]
  refine and_congr_left fun others => ?_
  rw [List.count_cons_self]
  constructor
  · intro fits
    omega
  · intro fits
    by_cases again : entry ∈ entries
    · have all := others entry again
      rw [List.count_cons_self] at all
      exact all
    · rw [List.count_eq_zero.mpr again]
      omega

end Frequencies

section Words

variable {fileName : CString} {loader : Loader} {entry : Nat × List Char}
  {entries more : List (Nat × List Char)}

def Loader.filedAll (loader : Loader) : List (Nat × List Char) → List (Nat × List Char)
  | [] => []
  | (textId, word) :: more => (textId, loader.filed word) :: more

def Loader.groundAll (loader : Loader) : List (Nat × List Char) → TrieNode
  | [] => loader.trieRoot
  | (_, word) :: _ => loader.ground word

/-- What the posting lists count of the words that a loader enters. -/
def Loader.Frequencies (fileName : CString) (loader : Loader)
    (entries : List (Nat × List Char)) : Prop :=
  FrequenciesFit fileName (loader.groundAll entries) (loader.filedAll entries)

theorem enter_started (atRoot : AtRoot loader) (nonempty : entry.2 ≠ []) :
    (loader.enter entry.1 fileName entry.2).counter ≠ 0 := by
  have letters := List.length_pos_of_ne_nil nonempty
  have counted := atRoot.counted
  change loader.counter + entry.2.length ≠ 0
  omega

theorem filedAll_started (started : loader.counter ≠ 0) (entries : List (Nat × List Char)) :
    loader.filedAll entries = entries ∧ loader.groundAll entries = loader.trieRoot := by
  cases entries with
  | nil => exact ⟨rfl, rfl⟩
  | cons entry entries =>
      rw [Loader.filedAll, Loader.groundAll, Loader.filed, Loader.ground, if_neg started,
        if_neg started]
      exact ⟨rfl, rfl⟩

theorem frequencies_cons (atRoot : AtRoot loader) (nonempty : entry.2 ≠ []) :
    loader.Frequencies fileName (entry :: entries) ↔
      textFrq entry.1 fileName ((loader.ground entry.2).find (loader.filed entry.2)) + 1 <
          2 ^ 31 ∧
        (loader.enter entry.1 fileName entry.2).Frequencies fileName entries := by
  obtain ⟨filed, ground⟩ :=
    filedAll_started (@enter_started fileName _ _ atRoot nonempty) entries
  rw [Loader.Frequencies, Loader.Frequencies, filed, ground]
  exact frequenciesFit_cons (filed_ne_nil nonempty loader)

theorem enterAll_atRoot (atRoot : AtRoot loader)
    (nonempty : ∀ entry ∈ entries, entry.2 ≠ []) :
    AtRoot (loader.enterAll fileName entries) := by
  induction entries generalizing loader with
  | nil => exact atRoot
  | cons entry entries ih =>
      rw [List.forall_mem_cons] at nonempty
      exact ih (enter_atRoot atRoot nonempty.1) nonempty.2

theorem frequencies_append (atRoot : AtRoot loader)
    (nonempty : ∀ entry ∈ entries, entry.2 ≠ []) :
    loader.Frequencies fileName (entries ++ more) ↔
      loader.Frequencies fileName entries ∧
        (loader.enterAll fileName entries).Frequencies fileName more := by
  induction entries generalizing loader with
  | nil => exact (and_iff_right (fun entry member => absurd member List.not_mem_nil)).symm
  | cons entry entries ih =>
      rw [List.forall_mem_cons] at nonempty
      rw [List.cons_append, frequencies_cons atRoot nonempty.1,
        frequencies_cons atRoot nonempty.1, ih (enter_atRoot atRoot nonempty.1) nonempty.2,
        and_assoc]
      rfl

/-- Words can be entered one after the other exactly when all their totals fit. -/
theorem countsAll_iff (atRoot : AtRoot loader)
    (nonempty : ∀ entry ∈ entries, entry.2 ≠ []) :
    loader.CountsAll fileName entries ↔
      CountsOn loader.counter (lettersOf entries) ∧
        CountsOn loader.numberOfWords entries.length ∧
        CountsOn loader.words entries.length ∧ loader.Frequencies fileName entries := by
  induction entries generalizing loader with
  | nil =>
      refine iff_of_true trivial ⟨Or.inl rfl, Or.inl rfl, Or.inl rfl, ?_⟩
      exact fun entry member => absurd member List.not_mem_nil
  | cons entry entries ih =>
      rw [List.forall_mem_cons] at nonempty
      have letters : lettersOf (entry :: entries) = entry.2.length + lettersOf entries := rfl
      rw [Loader.CountsAll, ih (enter_atRoot atRoot nonempty.1) nonempty.2,
        frequencies_cons atRoot nonempty.1, letters, countsOn_add, List.length_cons,
        Nat.add_comm entries.length, countsOn_add, countsOn_add, countsOn_one, countsOn_one]
      constructor
      · rintro ⟨⟨lettersOn, numbers, frequency, words⟩, lettersLater, numbersLater,
          wordsLater, frequencies⟩
        exact ⟨⟨lettersOn, lettersLater⟩, ⟨numbers, numbersLater⟩, ⟨words, wordsLater⟩,
          frequency, frequencies⟩
      · rintro ⟨⟨lettersOn, lettersLater⟩, ⟨numbers, numbersLater⟩, ⟨words, wordsLater⟩,
          frequency, frequencies⟩
        exact ⟨⟨lettersOn, numbers, frequency, words⟩, lettersLater, numbersLater, wordsLater,
          frequencies⟩

end Words

/-- A text after its words were counted. -/
def Text.counted (text : Text) : Text :=
  { text with numberOfWords := text.numberOfWords + (textWords text.read).length }

/-- The running total of the words of the texts. -/
def TotalsFit : Int → List Text → Prop
  | _, [] => True
  | totalWords, curText :: texts =>
      IsInt (totalWords + curText.counted.numberOfWords) ∧
        TotalsFit (totalWords + curText.counted.numberOfWords) texts

instance : (totalWords : Int) → (texts : List Text) → Decidable (TotalsFit totalWords texts)
  | _, [] => .isTrue trivial
  | totalWords, curText :: texts =>
      have := instDecidableTotalsFit (totalWords + curText.counted.numberOfWords) texts
      inferInstanceAs (Decidable (IsInt (totalWords + curText.counted.numberOfWords) ∧
        TotalsFit (totalWords + curText.counted.numberOfWords) texts))

/-- The counters of a call do not overflow, those of the posting lists apart. -/
structure CountersFit (texts : List Text) (words : Int) : Prop where
  numberOfTexts : texts.length < 2 ^ 31
  letters : (texts.flatMap Text.read).countP (!isBlank ·) < 2 ^ 31
  counted : CountsOn words (texts.flatMap (textWords ·.read)).length
  numbers : ∀ text ∈ texts, CountsOn text.numberOfWords (textWords text.read).length
  totals : TotalsFit 0 texts

/-- No counter of a call overflows. -/
structure CallFits (texts : List Text) (fileName : CString) (trieRoot : TrieNode)
    (words : Int) : Prop where
  counters : CountersFit texts words
  frequencies : FrequenciesFit fileName
    (groundTrie trieRoot (wordsFrom 0 (texts.map Text.read)))
    (filedEntries trieRoot (wordsFrom 0 (texts.map Text.read)))

theorem countersFit_iff (texts : List Text) (words : Int) :
    CountersFit texts words ↔
      texts.length < 2 ^ 31 ∧ (texts.flatMap Text.read).countP (!isBlank ·) < 2 ^ 31 ∧
        CountsOn words (texts.flatMap (textWords ·.read)).length ∧
        (∀ text ∈ texts, CountsOn text.numberOfWords (textWords text.read).length) ∧
        TotalsFit 0 texts := by
  constructor
  · rintro ⟨numberOfTexts, letters, counted, numbers, totals⟩
    exact ⟨numberOfTexts, letters, counted, numbers, totals⟩
  · rintro ⟨numberOfTexts, letters, counted, numbers, totals⟩
    exact ⟨numberOfTexts, letters, counted, numbers, totals⟩

instance (texts : List Text) (words : Int) : Decidable (CountersFit texts words) :=
  decidable_of_iff' _ (countersFit_iff texts words)

instance (texts : List Text) (fileName : CString) (trieRoot : TrieNode) (words : Int) :
    Decidable (CallFits texts fileName trieRoot words) :=
  decidable_of_iff
    (CountersFit texts words ∧ FrequenciesFit fileName
      (groundTrie trieRoot (wordsFrom 0 (texts.map Text.read)))
      (filedEntries trieRoot (wordsFrom 0 (texts.map Text.read))))
    ⟨fun ⟨counters, frequencies⟩ => ⟨counters, frequencies⟩,
      fun ⟨counters, frequencies⟩ => ⟨counters, frequencies⟩⟩

section Texts

variable {fileName : CString}

/-- A loader with other counts for the texts. -/
def Loader.recount (numberOfWords totalWords : Int) (loader : Loader) : Loader :=
  { loader with numberOfWords := numberOfWords, totalWords := totalWords }

theorem recount_totalWords (loader : Loader) (numberOfWords totalWords : Int) :
    (loader.recount numberOfWords totalWords).totalWords = totalWords :=
  rfl

theorem recount_numberOfWords (loader : Loader) (numberOfWords totalWords : Int) :
    (loader.recount numberOfWords totalWords).numberOfWords = numberOfWords :=
  rfl

theorem recount_counter (loader : Loader) (numberOfWords totalWords : Int) :
    (loader.recount numberOfWords totalWords).counter = loader.counter :=
  rfl

theorem recount_words (loader : Loader) (numberOfWords totalWords : Int) :
    (loader.recount numberOfWords totalWords).words = loader.words :=
  rfl

theorem recount_recount (loader : Loader) (numberOfWords totalWords newNumber newTotal : Int) :
    (loader.recount numberOfWords totalWords).recount newNumber newTotal =
      loader.recount newNumber newTotal :=
  rfl

theorem AtRoot.recount {loader : Loader} (atRoot : AtRoot loader)
    (numberOfWords totalWords : Int) : AtRoot (loader.recount numberOfWords totalWords) where
  between := by
    rw [atRoot.between]
    rfl
  counted := atRoot.counted
  isNode := atRoot.isNode

theorem enterAll_recount (loader : Loader) (numberOfWords totalWords : Int)
    (words : List (Nat × List Char)) :
    (loader.recount numberOfWords totalWords).enterAll fileName words =
      (loader.enterAll fileName words).recount (numberOfWords + words.length) totalWords := by
  induction words generalizing loader numberOfWords with
  | nil => simp [Loader.enterAll]
  | cons entry words ih =>
      have later := ih (loader.enter entry.1 fileName entry.2) (numberOfWords + 1)
      rw [Int.add_right_comm, Int.add_assoc] at later
      exact later

theorem enterAll_counts (loader : Loader) (words : List (Nat × List Char)) :
    (loader.enterAll fileName words).counter = loader.counter + lettersOf words ∧
      (loader.enterAll fileName words).words = loader.words + words.length := by
  induction words generalizing loader with
  | nil => simp [Loader.enterAll, lettersOf]
  | cons entry words ih =>
      obtain ⟨counter, counted⟩ := ih (loader.enter entry.1 fileName entry.2)
      refine ⟨counter.trans ?_, counted.trans ?_⟩
      · change loader.counter + entry.2.length + lettersOf words = _
        rw [Int.add_assoc, ← Int.natCast_add]
        rfl
      · change loader.words + 1 + words.length = _
        rw [List.length_cons]
        omega

theorem enterAll_append (loader : Loader) (words more : List (Nat × List Char)) :
    loader.enterAll fileName (words ++ more) =
      (loader.enterAll fileName words).enterAll fileName more :=
  List.foldl_append

/-- The words are entered as they are filed. -/
theorem enterAll_trieRoot {loader : Loader} (atRoot : AtRoot loader)
    {entries : List (Nat × List Char)} (nonempty : ∀ entry ∈ entries, entry.2 ≠ []) :
    (loader.enterAll fileName entries).trieRoot =
      enterWords fileName (loader.groundAll entries) (loader.filedAll entries) := by
  induction entries generalizing loader with
  | nil => rfl
  | cons entry entries ih =>
      rw [List.forall_mem_cons] at nonempty
      obtain ⟨filed, ground⟩ :=
        filedAll_started (@enter_started fileName _ _ atRoot nonempty.1) entries
      have later := ih (@enter_atRoot entry.1 fileName _ atRoot _ nonempty.1) nonempty.2
      rw [filed, ground] at later
      exact later

/-- The loader behind a text. -/
def Loader.nextText (fileName : CString) (textId : Nat) (curText : Text) (loader : Loader) :
    Loader :=
  (loader.enterAll fileName (numberedWords textId curText.read)).recount
    curText.counted.numberOfWords (loader.totalWords + curText.counted.numberOfWords)

theorem nextText_atRoot {loader : Loader} (atRoot : AtRoot loader) (textId : Nat)
    (curText : Text) : AtRoot (loader.nextText fileName textId curText) :=
  (enterAll_atRoot atRoot (numberedWords_nonempty textId curText.read)).recount _ _

theorem frequencies_recount (loader : Loader) (numberOfWords totalWords : Int)
    (entries : List (Nat × List Char)) :
    (loader.recount numberOfWords totalWords).Frequencies fileName entries ↔
      loader.Frequencies fileName entries := by
  cases entries <;> exact Iff.rfl

/-- The counters of a loader do not overflow when it reads texts. -/
structure Loader.Fits (fileName : CString) (start : Nat) (texts : List Text)
    (loader : Loader) : Prop where
  letters : CountsOn loader.counter (lettersOf (wordsFrom start (texts.map Text.read)))
  counted : CountsOn loader.words (wordsFrom start (texts.map Text.read)).length
  frequencies : loader.Frequencies fileName (wordsFrom start (texts.map Text.read))
  numbers : ∀ text ∈ texts, CountsOn text.numberOfWords (textWords text.read).length
  totals : TotalsFit loader.totalWords texts

theorem fits_cons {loader : Loader} (atRoot : AtRoot loader) (start : Nat) (curText : Text)
    (texts : List Text) :
    loader.Fits fileName start (curText :: texts) ↔
      (loader.recount curText.numberOfWords loader.totalWords).CountsAll fileName
          (numberedWords start curText.read) ∧
        IsInt (loader.totalWords + curText.counted.numberOfWords) ∧
          (loader.nextText fileName start curText).Fits fileName (start + 1) texts := by
  have nonempty := numberedWords_nonempty start curText.read
  have length : (numberedWords start curText.read).length = (textWords curText.read).length := by
    rw [numberedWords, List.length_map]
  obtain ⟨counter, words⟩ :=
    @enterAll_counts fileName loader (numberedWords start curText.read)
  have nextCounter : (loader.nextText fileName start curText).counter =
      loader.counter + lettersOf (numberedWords start curText.read) := by
    rw [Loader.nextText, recount_counter, counter]
  have nextWords : (loader.nextText fileName start curText).words =
      loader.words + (textWords curText.read).length := by
    rw [Loader.nextText, recount_words, words, length]
  have nextTotal : (loader.nextText fileName start curText).totalWords =
      loader.totalWords + curText.counted.numberOfWords := by
    rw [Loader.nextText, recount_totalWords]
  have later := @frequencies_recount fileName
    (loader.enterAll fileName (numberedWords start curText.read))
  have first : (loader.recount curText.numberOfWords loader.totalWords).CountsAll fileName
        (numberedWords start curText.read) ↔
      CountsOn loader.counter (lettersOf (numberedWords start curText.read)) ∧
        CountsOn curText.numberOfWords (textWords curText.read).length ∧
          CountsOn loader.words (textWords curText.read).length ∧
            loader.Frequencies fileName (numberedWords start curText.read) := by
    rw [countsAll_iff (atRoot.recount _ _) nonempty, frequencies_recount, length]
    rfl
  rw [first]
  constructor
  · rintro ⟨letters, counted, frequencies, numbers, totals⟩
    rw [List.map_cons, wordsFrom_cons] at letters counted frequencies
    rw [lettersOf_append, countsOn_add] at letters
    rw [List.length_append, countsOn_add, length] at counted
    rw [frequencies_append atRoot nonempty] at frequencies
    rw [List.forall_mem_cons] at numbers
    refine ⟨⟨letters.1, numbers.1, counted.1, frequencies.1⟩, totals.1, ?_, ?_, ?_, numbers.2, ?_⟩
    · rw [nextCounter]
      exact letters.2
    · rw [nextWords]
      exact counted.2
    · exact (later _ _ _).mpr frequencies.2
    · rw [nextTotal]
      exact totals.2
  · rintro ⟨⟨letters, number, counted, frequencies⟩, total, fits⟩
    constructor
    · rw [List.map_cons, wordsFrom_cons, lettersOf_append, countsOn_add, ← nextCounter]
      exact ⟨letters, fits.letters⟩
    · rw [List.map_cons, wordsFrom_cons, List.length_append, countsOn_add, length, ← nextWords]
      exact ⟨counted, fits.counted⟩
    · rw [List.map_cons, wordsFrom_cons, frequencies_append atRoot nonempty]
      exact ⟨frequencies, (later _ _ _).mp fits.frequencies⟩
    · exact List.forall_mem_cons.mpr ⟨number, fits.numbers⟩
    · rw [TotalsFit, ← nextTotal]
      exact ⟨total, fits.totals⟩

theorem loadTexts_cons (textId : Nat) (curText : Text) (texts : List Text)
    (loader : Loader) :
    loadTexts fileName textId (curText :: texts) loader =
      (loadText textId fileName curText.read
        (loader.recount curText.numberOfWords loader.totalWords)).bind fun loader =>
        (addInt loader.totalWords loader.numberOfWords).bind fun totalWords =>
          (loadTexts fileName (textId + 1) texts
            (loader.recount loader.numberOfWords totalWords)).map fun (last, texts) =>
              (last, { curText with numberOfWords := loader.numberOfWords } :: texts) := by
  simp only [Option.map_eq_bind]
  rfl

/-- Texts enter their words in order. -/
theorem loadTexts_returnsIff (texts : List Text) (start : Nat) {loader : Loader}
    (atRoot : AtRoot loader) :
    ∃ numberOfWords totalWords, ReturnsIff (loadTexts fileName start texts loader)
      (loader.Fits fileName start texts)
      ((loader.enterAll fileName (wordsFrom start (texts.map Text.read))).recount
        numberOfWords totalWords, texts.map Text.counted) := by
  induction texts generalizing start loader with
  | nil =>
      refine ⟨loader.numberOfWords, loader.totalWords, (returnsIff_some _).of_iff ?_⟩
      refine iff_of_true trivial ⟨Or.inl rfl, Or.inl rfl, ?_, by simp, trivial⟩
      exact fun entry member => absurd member List.not_mem_nil
  | cons curText texts ih =>
      obtain ⟨numberOfWords, totalWords, later⟩ := ih (start + 1)
        (@nextText_atRoot fileName _ atRoot start curText)
      refine ⟨numberOfWords, totalWords, ?_⟩
      have first := loadText_returnsIff fileName start curText.read
        (atRoot.recount curText.numberOfWords loader.totalWords)
      have counted : curText.numberOfWords + (numberedWords start curText.read).length =
          curText.counted.numberOfWords := by
        rw [numberedWords, List.length_map]
        rfl
      rw [loadTexts_cons, List.map_cons, List.map_cons, wordsFrom_cons, enterAll_append]
      refine ReturnsIff.of_iff ?_ (fits_cons atRoot start curText texts).symm
      refine first.bind fun _ => ?_
      rw [enterAll_recount, counted, recount_totalWords, recount_numberOfWords]
      refine (addInt_returnsIff _ _).bind fun _ => ?_
      rw [Loader.nextText, enterAll_recount, recount_recount] at later
      rw [recount_recount]
      exact later.map fun (last, texts) => (last, curText.counted :: texts)

variable {texts : List Text} {trieRoot : TrieNode} {words : Int}

theorem between_filedAll (entries : List (Nat × List Char)) :
    (Loader.between trieRoot 0 0 words 0).groundAll entries = groundTrie trieRoot entries ∧
      (Loader.between trieRoot 0 0 words 0).filedAll entries =
        filedEntries trieRoot entries := by
  cases entries <;> exact ⟨rfl, rfl⟩

theorem wordsFrom_length (start : Nat) (texts : List Text) :
    (wordsFrom start (texts.map Text.read)).length =
      (texts.flatMap (textWords ·.read)).length := by
  rw [← List.length_map Prod.snd, wordsFrom_words, List.flatMap_map]

theorem callFits_iff :
    CallFits texts fileName trieRoot words ↔ texts.length < 2 ^ 31 ∧
      (Loader.between trieRoot 0 0 words 0).Fits fileName 0 texts := by
  obtain ⟨ground, filed⟩ :=
    @between_filedAll trieRoot words (wordsFrom 0 (texts.map Text.read))
  have letters : CountsOn 0 (lettersOf (wordsFrom 0 (texts.map Text.read))) ↔
      (texts.flatMap Text.read).countP (!isBlank ·) < 2 ^ 31 := by
    rw [lettersOf_wordsFrom, CountsOn, ← List.flatMap]
    omega
  constructor
  · rintro ⟨counters, frequencies⟩
    refine ⟨counters.numberOfTexts, letters.mpr counters.letters, ?_, ?_, counters.numbers,
      counters.totals⟩
    · rw [wordsFrom_length]
      exact counters.counted
    · rw [Loader.Frequencies, ground, filed]
      exact frequencies
  · rintro ⟨isInt, fits⟩
    have frequencies := fits.frequencies
    have counted := fits.counted
    rw [Loader.Frequencies, ground, filed] at frequencies
    rw [wordsFrom_length] at counted
    exact ⟨⟨isInt, letters.mp fits.letters, counted, fits.numbers, fits.totals⟩, frequencies⟩

/-- What a call of `createTrieFromTextMap` does: it enters all words that it reads in
order and counts them, unless a counter overflows. -/
theorem createTrieFromTextMap_returnsIff (texts : List Text) (fileName : CString)
    (trieRoot : TrieNode) (words : Int) :
    ReturnsIff (createTrieFromTextMap texts fileName trieRoot words)
      (CallFits texts fileName trieRoot words)
      { trieRoot := enterFile fileName trieRoot (wordsFrom 0 (texts.map Text.read))
        texts := texts.map Text.counted
        words := words + (texts.flatMap (textWords ·.read)).length } := by
  have atRoot : AtRoot (.between trieRoot 0 0 words 0) :=
    ⟨rfl, le_rfl, fun started => absurd rfl started⟩
  obtain ⟨ground, filed⟩ :=
    @between_filedAll trieRoot words (wordsFrom 0 (texts.map Text.read))
  have entered := @enterAll_trieRoot fileName _ atRoot _
    (wordsFrom_nonempty 0 (texts.map Text.read))
  rw [ground, filed, ← enterFile_eq] at entered
  have counted := (@enterAll_counts fileName (.between trieRoot 0 0 words 0)
    (wordsFrom 0 (texts.map Text.read))).2
  rw [wordsFrom_length] at counted
  obtain ⟨numberOfWords, totalWords, loads⟩ :=
    @loadTexts_returnsIff fileName texts 0 _ atRoot
  have called : createTrieFromTextMap texts fileName trieRoot words =
      if texts.length < 2 ^ 31 then
        (loadTexts fileName 0 texts (.between trieRoot 0 0 words 0)).map
          fun (loader, texts) => ⟨loader.trieRoot, texts, loader.words⟩
      else none := by
    rw [createTrieFromTextMap, Option.map_eq_bind]
    rfl
  have returns := loads.map fun (loader, texts) => Loaded.mk loader.trieRoot texts loader.words
  dsimp only at returns
  rw [recount_words, counted] at returns
  rw [called, ← entered, callFits_iff]
  exact returns.guard

theorem length_le_lettersOf {entries : List (Nat × List Char)}
    (nonempty : ∀ entry ∈ entries, entry.2 ≠ []) : entries.length ≤ lettersOf entries := by
  induction entries with
  | nil => exact le_rfl
  | cons entry entries ih =>
      rw [List.forall_mem_cons] at nonempty
      have some := List.length_pos_of_ne_nil nonempty.1
      have rest := ih nonempty.2
      have letters : lettersOf (entry :: entries) = entry.2.length + lettersOf entries := rfl
      rw [List.length_cons, letters]
      omega

theorem find_cutRoot (rest word : List Char) :
    (cutRoot rest trieRoot).find word = trieRoot.find word ∨
      (cutRoot rest trieRoot).find word = [] := by
  cases trieRoot with
  | null => exact Or.inl rfl
  | node letter next cont index =>
      by_cases last : rest = []
      · exact Or.inl (by simp [cutRoot, last])
      cases word with
      | nil => exact Or.inr (by simp)
      | cons first later =>
          by_cases same : letter = first
          · by_cases ends : later = []
            · exact Or.inl (by simp [cutRoot, SiblingTrie.find, same, ends])
            · exact Or.inr (by simp [cutRoot, SiblingTrie.find, last, same, ends])
          · exact Or.inl (by simp [cutRoot, SiblingTrie.find, same])

theorem mem_find_of_mem_find_cutRoot {rest word : List Char} {node : PlistNode}
    (member : node ∈ (cutRoot rest trieRoot).find word) : node ∈ trieRoot.find word := by
  rcases find_cutRoot rest word with same | nothing
  · rwa [same] at member
  · rw [nothing] at member
    cases member

theorem mem_find_of_mem_find_groundTrie {entries : List (Nat × List Char)} {word : List Char}
    {node : PlistNode} (member : node ∈ (groundTrie trieRoot entries).find word) :
    node ∈ trieRoot.find word := by
  cases entries with
  | nil => exact member
  | cons => exact mem_find_of_mem_find_cutRoot member

/-- A file that the trie does not know has no counts that could overflow. -/
theorem callFits_iff_countersFit
    (newFile : ∀ word, ∀ node ∈ trieRoot.find word, node.file ≠ fileName) :
    CallFits texts fileName trieRoot words ↔ CountersFit texts words := by
  refine ⟨CallFits.counters, fun counters => ⟨counters, fun entry member => ?_⟩⟩
  have nothing := @textFrq_eq_zero fileName _ entry.1 fun node found =>
    newFile entry.2 node
      (@mem_find_of_mem_find_groundTrie trieRoot (wordsFrom 0 (texts.map Text.read)) _ _ found)
  have within : (filedEntries trieRoot (wordsFrom 0 (texts.map Text.read))).count entry ≤
      (wordsFrom 0 (texts.map Text.read)).length := by
    refine List.count_le_length.trans_eq ?_
    cases wordsFrom 0 (texts.map Text.read) <;> rfl
  have letters := length_le_lettersOf (wordsFrom_nonempty 0 (texts.map Text.read))
  have few := counters.letters
  rw [lettersOf_wordsFrom, ← List.flatMap] at letters
  rw [nothing]
  omega

end Texts

end WebCrawl
