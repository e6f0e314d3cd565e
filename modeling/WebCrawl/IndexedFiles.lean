import WebCrawl.IndexExtension
import Mathlib.Data.List.Induction

/-!
# Indexing several files

A worker indexes one file after the other, each call of `createTrieFromTextMap` with
the trie of the call before it.  The root of that trie keeps the letter of the very
first word, so whether the first word of the next file fits can be told from the
words alone.  One that does not fit is never made good: the file or an earlier one
has some word too seldom from there on.
-/

namespace WebCrawl

open SiblingTrie (update find_update_same find_update_other Occupied)

/-- A file to be indexed, with its lines. -/
structure TextFile where
  fileName : CString
  texts : List Text
  deriving DecidableEq

namespace TextFile

def contents (file : TextFile) : List (List Char) :=
  file.texts.map (·.content.chars)

/-- The loops over the lines of a file reach all words. -/
def ReadWhole (file : TextFile) : Prop :=
  ∀ text ∈ file.texts, text.ReadWhole

instance (file : TextFile) : Decidable file.ReadWhole :=
  inferInstanceAs (Decidable (∀ text ∈ file.texts, text.ReadWhole))

/-- The words of a file in their order. -/
def words (file : TextFile) : List (List Char) :=
  file.contents.flatMap textWords

def occurrences (file : TextFile) (word : List Char) : List PlistNode :=
  WebCrawl.occurrences file.fileName 0 file.contents word

end TextFile

/-- The trie that one call for each file has built, whatever the calls counted. -/
inductive Indexed : List TextFile → TrieNode → Prop
  | null : Indexed [] .null
  | call {files : List TextFile} {file : TextFile} {trieRoot : TrieNode} {words : Int}
      {loaded : Loaded} (indexed : Indexed files trieRoot)
      (called : createTrieFromTextMap file.texts file.fileName trieRoot words = some loaded) :
      Indexed (files ++ [file]) loaded.trieRoot

/-- A search gives the occurrences in all files, in the order of the files. -/
def Complete (files : List TextFile) (trieRoot : TrieNode) : Prop :=
  ∀ word, searchWordInTrie trieRoot word = files.flatMap (·.occurrences word)

/-- The first word of a file fits behind the words of the files before it: it starts
with the letter of the very first word, and either it is this letter alone or no word
went below it. -/
def FitsBehind : List (List Char) → List (List Char) → Prop
  | [], _ | _, [] => True
  | first :: earlier, word :: _ =>
      word.head? = first.head? ∧ (word.length = 1 ∨
        ∀ other ∈ first :: earlier, other.head? = first.head? → other.length = 1)

instance : (earlier words : List (List Char)) → Decidable (FitsBehind earlier words)
  | [], [] | [], _ :: _ | _ :: _, [] => .isTrue trivial
  | first :: earlier, word :: _ =>
      inferInstanceAs (Decidable (word.head? = first.head? ∧ (word.length = 1 ∨
        ∀ other ∈ first :: earlier, other.head? = first.head? → other.length = 1)))

def FilesFit : List (List Char) → List TextFile → Prop
  | _, [] => True
  | earlier, file :: files =>
      FitsBehind earlier file.words ∧ FilesFit (earlier ++ file.words) files

instance : (earlier : List (List Char)) → (files : List TextFile) →
    Decidable (FilesFit earlier files)
  | _, [] => .isTrue trivial
  | earlier, file :: files =>
      have := instDecidableFilesFit (earlier ++ file.words) files
      inferInstanceAs
        (Decidable (FitsBehind earlier file.words ∧ FilesFit (earlier ++ file.words) files))

theorem filesFit_concat {earlier : List (List Char)} {files : List TextFile}
    {file : TextFile} :
    FilesFit earlier (files ++ [file]) ↔ FilesFit earlier files ∧
      FitsBehind (earlier ++ files.flatMap TextFile.words) file.words := by
  induction files generalizing earlier with
  | nil => simp [FilesFit]
  | cons first files ih =>
      rw [List.cons_append, FilesFit, FilesFit, ih, List.flatMap_cons, List.append_assoc,
        and_assoc]

section Root

variable {change : List PlistNode → List PlistNode} {trieRoot : TrieNode}
  {words : List (List Char)} {fileName : CString}

/-- The root of a trie into which words were entered: it has the letter of the first
one, and nothing below it while this letter is all that its words have. -/
def RootOf : List (List Char) → TrieNode → Prop
  | [], trieRoot => trieRoot = .null
  | first :: words, trieRoot =>
      ∃ letter next cont index, trieRoot = .node letter next cont index ∧
        first.head? = some letter ∧
        (cont = .null ↔ ∀ word ∈ first :: words, word.head? = some letter → word.length = 1)

/-- Only a word that starts with the letter of the root changes what is below it. -/
theorem update_root {letter ch : Char} {next cont : TrieNode} {index : List PlistNode}
    (rest : List Char) :
    ∃ newNext newIndex, update change (ch :: rest) (.node letter next cont index) =
      .node letter newNext (if letter = ch then update change rest cont else cont)
        newIndex := by
  by_cases same : letter = ch
  · exact ⟨next, _, by simp [update, SiblingTrie.alter, same]; rfl⟩
  · exact ⟨_, index, by simp [update, SiblingTrie.alter, same]; rfl⟩

theorem update_eq_null_iff {word : List Char} :
    update change word trieRoot = .null ↔ word = [] ∧ trieRoot = .null := by
  constructor
  · intro none
    have empty : word = [] := by
      by_contra nonempty
      exact SiblingTrie.update_ne_null nonempty trieRoot none
    rw [empty] at none
    exact ⟨empty, none⟩
  · rintro ⟨rfl, rfl⟩
    rfl

theorem RootOf.update (root : RootOf words trieRoot) {word : List Char}
    (nonempty : word ≠ []) :
    RootOf (words ++ [word]) (SiblingTrie.update change word trieRoot) := by
  obtain ⟨ch, rest, rfl⟩ := List.exists_cons_of_ne_nil nonempty
  cases words with
  | nil =>
      change trieRoot = .null at root
      refine ⟨ch, .null, SiblingTrie.update change rest .null, _, by rw [root]; rfl, rfl, ?_⟩
      simp [update_eq_null_iff]
  | cons first earlier =>
      obtain ⟨letter, next, cont, index, rfl, firstLetter, below⟩ := root
      obtain ⟨newNext, newIndex, updated⟩ := @update_root change letter ch next cont index rest
      refine ⟨letter, newNext, _, newIndex, updated, firstLetter, ?_⟩
      have split : (∀ word ∈ first :: (earlier ++ [ch :: rest]), word.head? = some letter →
            word.length = 1) ↔
          (cont = .null ∧ (letter = ch → rest = [])) := by
        rw [below, ← List.cons_append, List.forall_mem_append, List.forall_mem_singleton]
        simp [eq_comm]
      refine Iff.trans ?_ split.symm
      by_cases same : letter = ch
      · simp [same, update_eq_null_iff, and_comm]
      · simp [same]

theorem RootOf.enterWords (root : RootOf words trieRoot) {entries : List (Nat × List Char)}
    (nonempty : ∀ entry ∈ entries, entry.2 ≠ []) :
    RootOf (words ++ entries.map Prod.snd) (enterWords fileName trieRoot entries) := by
  induction entries generalizing words trieRoot with
  | nil => simpa [WebCrawl.enterWords] using root
  | cons entry entries ih =>
      rw [List.forall_mem_cons] at nonempty
      have entered := ih (@RootOf.update (countOccurrence entry.1 fileName) _ _ root _ nonempty.1)
        nonempty.2
      rw [List.append_assoc] at entered
      exact entered

theorem RootOf.fits_iff {earlier : List (List Char)} (root : RootOf earlier trieRoot) :
    FirstWordFits trieRoot words ↔ FitsBehind earlier words := by
  cases earlier with
  | nil =>
      change trieRoot = .null at root
      rw [root]
      exact iff_of_true (firstWordFits_null words) (by cases words <;> trivial)
  | cons first earlier =>
      obtain ⟨letter, next, cont, index, rfl, firstLetter, below⟩ := root
      cases words with
      | nil => exact Iff.rfl
      | cons word words => rw [FirstWordFits, FitsBehind, firstLetter, below]

/-- When the first word fits, a call enters all words as they are. -/
theorem enterFile_eq_enterWords {entries : List (Nat × List Char)}
    (fits : FirstWordFits trieRoot (entries.map Prod.snd))
    (nonempty : ∀ entry ∈ entries, entry.2 ≠ []) :
    enterFile fileName trieRoot entries = enterWords fileName trieRoot entries := by
  cases entries with
  | nil => rfl
  | cons entry entries =>
      obtain ⟨textId, first⟩ := entry
      cases first with
      | nil => exact absurd rfl (List.forall_mem_cons.mp nonempty).1
      | cons ch rest =>
          obtain ⟨sameLetter, sameTrie⟩ := firstWordFits_cons.mp fits
          rw [enterFile, startWord_eq, filedWord, sameLetter, List.tail_cons, sameTrie]
          rfl

end Root

section Counting

variable {files : List TextFile} {file other : TextFile} {trieRoot : TrieNode}
  {word : List Char}

/-- Some word of a file is found less often than it occurs in it. -/
def Deficient (files : List TextFile) (trieRoot : TrieNode) : Prop :=
  ∃ file ∈ files, ∃ word ∈ file.words,
    frequency file.fileName (trieRoot.find word) < file.words.count word

theorem frequency_other {otherName fileName : CString} (different : otherName ≠ fileName)
    (index : List PlistNode) :
    frequency otherName (index.filter (·.file ≠ fileName)) = frequency otherName index := by
  have same : (index.filter (·.file ≠ fileName)).filter (·.file = otherName) =
      index.filter (·.file = otherName) := by
    rw [List.filter_filter]
    refine List.filter_congr fun node _ => ?_
    by_cases isOther : node.file = otherName
    · simp [isOther, different]
    · simp [isOther]
  rw [frequency, frequency, same]

/-- A call leaves what a search finds of other files, or takes it all away. -/
theorem find_enterFile_others {fileName : CString} {entries : List (Nat × List Char)}
    (nonempty : ∀ entry ∈ entries, entry.2 ≠ []) (word : List Char) :
    ((enterFile fileName trieRoot entries).find word).filter (·.file ≠ fileName) =
        (trieRoot.find word).filter (·.file ≠ fileName) ∨
      ((enterFile fileName trieRoot entries).find word).filter (·.file ≠ fileName) = [] := by
  rw [find_enterFile nonempty, filter_countEntries]
  cases entries with
  | nil => exact Or.inl rfl
  | cons entry entries =>
      rcases @find_cutRoot trieRoot entry.2.tail word with same | nothing
      · exact Or.inl (by rw [groundTrie, same])
      · exact Or.inr (by rw [groundTrie, nothing, List.filter_nil])

/-- What is missing in the trie stays missing when another file is indexed. -/
theorem Deficient.enterFile {fileName : CString} {entries : List (Nat × List Char)}
    (deficient : Deficient files trieRoot) (newFile : fileName ∉ files.map TextFile.fileName)
    (nonempty : ∀ entry ∈ entries, entry.2 ≠ []) :
    Deficient files (enterFile fileName trieRoot entries) := by
  obtain ⟨file, member, word, isWord, missing⟩ := deficient
  refine ⟨file, member, word, isWord, ?_⟩
  have different : file.fileName ≠ fileName := fun same =>
    newFile (List.mem_map.mpr ⟨file, member, same⟩)
  rw [← frequency_other different] at missing ⊢
  rcases @find_enterFile_others trieRoot _ _ nonempty word with kept | gone
  · rwa [kept]
  · rw [gone]
    exact Int.natCast_pos.mpr (List.count_pos_iff.mpr isWord)

theorem Complete.file_mem (complete : Complete files trieRoot) {node : PlistNode}
    (member : node ∈ trieRoot.find word) : node.file ∈ files.map TextFile.fileName := by
  rw [← searchWordInTrie_eq_find, complete word] at member
  obtain ⟨file, isFile, occurs⟩ := List.mem_flatMap.mp member
  exact List.mem_map.mpr ⟨file, isFile, (mem_occurrences.mp occurs).1.symm⟩

theorem frequency_occurrences_other (different : other.fileName ≠ file.fileName)
    (word : List Char) : frequency file.fileName (other.occurrences word) = 0 :=
  frequency_eq_zero fun _ member => by
    rw [(mem_occurrences.mp member).1]
    exact different

theorem frequency_append (fileName : CString) (index more : List PlistNode) :
    frequency fileName (index ++ more) = frequency fileName index + frequency fileName more := by
  simp [frequency]

/-- Of every file a complete trie has each word as often as the file. -/
theorem Complete.frequency_eq (complete : Complete files trieRoot)
    (distinct : (files.map TextFile.fileName).Nodup) (member : file ∈ files)
    (word : List Char) :
    frequency file.fileName (trieRoot.find word) = file.words.count word := by
  rw [← searchWordInTrie_eq_find, complete word]
  clear complete
  induction files with
  | nil => exact absurd member List.not_mem_nil
  | cons first files ih =>
      rw [List.map_cons, List.nodup_cons] at distinct
      rw [List.flatMap_cons, frequency_append]
      rcases List.mem_cons.mp member with rfl | later
      · have others : frequency file.fileName (files.flatMap (·.occurrences word)) = 0 := by
          refine frequency_eq_zero fun node found same => distinct.1 ?_
          obtain ⟨other, isFile, occurs⟩ := List.mem_flatMap.mp found
          rw [(mem_occurrences.mp occurs).1] at same
          exact List.mem_map.mpr ⟨other, isFile, same⟩
        rw [others, add_zero]
        exact frequency_occurrences 0 file.contents
      · have different : first.fileName ≠ file.fileName := fun same =>
          distinct.1 (List.mem_map.mpr ⟨file, later, same.symm⟩)
        rw [frequency_occurrences_other different, zero_add]
        exact ih distinct.2 later

theorem Complete.not_deficient (complete : Complete files trieRoot)
    (distinct : (files.map TextFile.fileName).Nodup) : ¬ Deficient files trieRoot := by
  rintro ⟨file, member, word, _, missing⟩
  rw [complete.frequency_eq distinct member] at missing
  exact lt_irrefl _ missing

end Counting

section Calls

variable {files : List TextFile} {file : TextFile} {trieRoot : TrieNode}

theorem TextFile.words_eq (file : TextFile) :
    (wordsFrom 0 file.contents).map Prod.snd = file.words :=
  wordsFrom_words 0 file.contents

theorem TextFile.mem_words_of_mem_occurrences (file : TextFile) {node : PlistNode}
    {word : List Char} (member : node ∈ file.occurrences word) : word ∈ file.words := by
  obtain ⟨_, positive, content, textId, _, isText, counted⟩ := mem_occurrences.mp member
  rw [counted, Int.natCast_pos, List.count_pos_iff] at positive
  exact List.mem_flatMap.mpr ⟨content, List.fst_mem_of_mem_zipIdx isText, positive⟩

/-- A call whose first word fits adds the occurrences in its file. -/
theorem Complete.enterFile (complete : Complete files trieRoot)
    (newFile : file.fileName ∉ files.map TextFile.fileName)
    (fits : FirstWordFits trieRoot file.words) :
    Complete (files ++ [file])
      (enterFile file.fileName trieRoot (wordsFrom 0 file.contents)) := by
  intro word
  have otherFiles : ∀ node ∈ trieRoot.find word, node.file ≠ file.fileName := by
    rintro node member same
    exact newFile (same ▸ complete.file_mem member)
  rw [searchWordInTrie_enterFile fits otherFiles, complete word, List.flatMap_append,
    List.flatMap_singleton]
  rfl

/-- A call whose first word does not fit enters it under another letter or loses what
was below the root. -/
theorem Complete.deficient_enterFile (complete : Complete files trieRoot)
    (occupied : Occupied trieRoot) (newFile : file.fileName ∉ files.map TextFile.fileName)
    (misfit : ¬ FirstWordFits trieRoot file.words) :
    Deficient (files ++ [file])
      (WebCrawl.enterFile file.fileName trieRoot (wordsFrom 0 file.contents)) := by
  rw [← file.words_eq] at misfit
  have nonempty := wordsFrom_nonempty 0 file.contents
  cases entries : wordsFrom 0 file.contents with
  | nil =>
      rw [entries] at misfit
      exact absurd (by cases trieRoot <;> trivial) misfit
  | cons entry more =>
      obtain ⟨textId, first⟩ := entry
      rw [entries] at nonempty
      cases first with
      | nil => exact absurd rfl (List.forall_mem_cons.mp nonempty).1
      | cons ch rest =>
          rw [entries, List.map_cons, firstWordFits_cons, not_and_or] at misfit
          rcases misfit with otherLetter | cut
          · have tooFew := @frequency_misfit trieRoot file.fileName textId ch rest more
              (fun word node member same => newFile (same ▸ complete.file_mem member))
              otherLetter nonempty
            have isWord : ch :: rest ∈ file.words := by
              rw [← file.words_eq, entries]
              exact List.mem_cons_self
            rw [← entries, file.words_eq, entries] at tooFew
            exact ⟨file, List.mem_append_right files (List.mem_singleton_self file),
              ch :: rest, isWord, tooFew⟩
          · obtain ⟨word, lost, found⟩ := exists_lost occupied cut
            obtain ⟨node, member⟩ := List.exists_mem_of_ne_nil _ found
            rw [← searchWordInTrie_eq_find, complete word] at member
            obtain ⟨other, isFile, occurs⟩ := List.mem_flatMap.mp member
            have different : other.fileName ≠ file.fileName := fun same =>
              newFile (List.mem_map.mpr ⟨other, isFile, same⟩)
            have gone : frequency other.fileName ((WebCrawl.enterFile file.fileName trieRoot
                ((textId, ch :: rest) :: more)).find word) = 0 := by
              rw [← frequency_other different, find_enterFile nonempty,
                filter_countEntries, groundTrie, List.tail_cons, lost]
              rfl
            have isWord := other.mem_words_of_mem_occurrences occurs
            refine ⟨other, List.mem_append_left [file] isFile, word, isWord, ?_⟩
            rw [gone]
            exact Int.natCast_pos.mpr (List.count_pos_iff.mpr isWord)

/-- A call enters the words of its file when all of them are read. -/
theorem TextFile.ReadWhole.trieRoot_eq {words : Int} {loaded : Loaded} (whole : file.ReadWhole)
    (called : createTrieFromTextMap file.texts file.fileName trieRoot words = some loaded) :
    loaded.trieRoot = enterFile file.fileName trieRoot (wordsFrom 0 file.contents) := by
  obtain ⟨_, rfl⟩ := (createTrieFromTextMap_returnsIff _ _ _ _ _).mp called
  rw [wordsFrom_congr 0 (map_read_of_readWhole whole)]
  rfl

/-- The calls so far either all had a first word that fits, or left something out. -/
theorem Indexed.complete_or_deficient (indexed : Indexed files trieRoot)
    (distinct : (files.map TextFile.fileName).Nodup) (whole : ∀ file ∈ files, file.ReadWhole) :
    FilesFit [] files ∧ RootOf (files.flatMap TextFile.words) trieRoot ∧
        Occupied trieRoot ∧ Complete files trieRoot ∨
      ¬ FilesFit [] files ∧ Deficient files trieRoot := by
  induction indexed with
  | null =>
      refine Or.inl ⟨trivial, rfl, trivial, fun word => ?_⟩
      cases word <;> rfl
  | @call files file trieRoot words loaded indexed called ih =>
      rw [List.map_append, List.map_singleton, List.nodup_append] at distinct
      have newFile : file.fileName ∉ files.map TextFile.fileName := fun member =>
        distinct.2.2 _ member _ (List.mem_singleton_self _) rfl
      rw [List.forall_mem_append, List.forall_mem_singleton] at whole
      rw [whole.2.trieRoot_eq called, filesFit_concat, List.nil_append]
      rcases ih distinct.1 whole.1 with ⟨fit, root, occupied, complete⟩ | ⟨misfit, deficient⟩
      · rw [← root.fits_iff]
        by_cases fits : FirstWordFits trieRoot file.words
        · refine Or.inl ⟨⟨fit, fits⟩, ?_, enterFile_occupied occupied _,
            complete.enterFile newFile fits⟩
          have entryWords := file.words_eq
          rw [← entryWords] at fits
          have entered := @RootOf.enterWords trieRoot _ file.fileName root
            (wordsFrom 0 file.contents) (wordsFrom_nonempty 0 _)
          rw [entryWords, ← enterFile_eq_enterWords fits (wordsFrom_nonempty 0 _)] at entered
          rw [List.flatMap_append, List.flatMap_singleton]
          exact entered
        · exact Or.inr ⟨fun both => fits both.2,
            complete.deficient_enterFile occupied newFile fits⟩
      · obtain ⟨other, member, missing⟩ :=
          deficient.enterFile newFile (wordsFrom_nonempty 0 file.contents)
        exact Or.inr ⟨fun both => misfit both.1, other, List.mem_append_left [file] member,
          missing⟩

theorem Indexed.builtFrom (indexed : Indexed files trieRoot) :
    BuiltFrom (files.map TextFile.fileName).reverse trieRoot := by
  induction indexed with
  | null => exact .null
  | call _ called ih =>
      rw [List.map_append, List.map_singleton, List.reverse_append, List.reverse_singleton]
      exact ih.call called

/-- Files can be indexed one after the other when the counters of each call fit. -/
theorem exists_indexed (distinct : (files.map TextFile.fileName).Nodup)
    (fit : ∀ file ∈ files, CountersFit file.texts 0) : ∃ trieRoot, Indexed files trieRoot := by
  induction files using List.reverseRecOn with
  | nil => exact ⟨.null, .null⟩
  | append_singleton files file ih =>
      rw [List.map_append, List.map_singleton, List.nodup_append] at distinct
      rw [List.forall_mem_append, List.forall_mem_singleton] at fit
      obtain ⟨trieRoot, indexed⟩ := ih distinct.1 fit.1
      have newFile : ∀ word, ∀ node ∈ trieRoot.find word, node.file ≠ file.fileName := by
        intro word node member same
        have known := indexed.builtFrom.file_mem member
        rw [List.mem_reverse, same] at known
        exact distinct.2.2 _ known _ (List.mem_singleton_self _) rfl
      have fits := (callFits_iff_countersFit newFile).mpr fit.2
      exact ⟨_, indexed.call ((createTrieFromTextMap_returnsIff ..).mpr ⟨fits, rfl⟩)⟩

theorem Indexed.complete (indexed : Indexed files trieRoot)
    (distinct : (files.map TextFile.fileName).Nodup) (whole : ∀ file ∈ files, file.ReadWhole)
    (fit : FilesFit [] files) : Complete files trieRoot := by
  rcases indexed.complete_or_deficient distinct whole with ⟨_, _, _, complete⟩ | ⟨misfit, _⟩
  · exact complete
  · exact absurd fit misfit

/-- However many files are indexed, every search gives exactly the occurrences in all
of them, in their order, if and only if the first word of each file fits behind the
words of the files before it. -/
theorem index_complete_iff (indexed : Indexed files trieRoot)
    (distinct : (files.map TextFile.fileName).Nodup)
    (whole : ∀ file ∈ files, file.ReadWhole) :
    Complete files trieRoot ↔ FilesFit [] files := by
  refine ⟨fun complete => ?_, indexed.complete distinct whole⟩
  rcases indexed.complete_or_deficient distinct whole with ⟨fit, _⟩ | ⟨_, deficient⟩
  · exact fit
  · exact absurd deficient (complete.not_deficient distinct)

/-- Two files with one line each; the second starts with the letter of the root. -/
def fittingFiles : List TextFile :=
  [⟨firstFile, [⟨⟨"ab".toList, by decide⟩, 0⟩]⟩, ⟨secondFile, [fittingText]⟩]

theorem index_complete_iff_fitting :
    ∃ trieRoot, Indexed fittingFiles trieRoot ∧ Complete fittingFiles trieRoot := by
  obtain ⟨trieRoot, indexed⟩ := @exists_indexed fittingFiles (by decide) (by decide)
  exact ⟨trieRoot, indexed,
    (index_complete_iff indexed (by decide) (by decide)).mpr (by decide)⟩

end Calls

end WebCrawl
