import WebCrawl.IndexedFiles
import WebCrawl.IndexInvariant
import WebCrawl.TrieNodes

/-!
# The nodes of the index

The nodes that the calls of `createTrieFromTextMap` leave behind stand for the
prefixes of the words, one for each, when the first word of every file fits.
`freeTrie`, which a worker calls when it is told to end, frees them with their
posting lists, each once and none before what it leads to.  It needs a node to start
from, so it must not be called when nothing was indexed.
-/

namespace WebCrawl

open SiblingTrie (Link follow paths update mem_paths_update)

/-- What is freed: a place of the posting list at a pointer, or the node itself. -/
inductive Freed where
  | posting (links : List Link) (place : Nat)
  | node (links : List Link)
  deriving DecidableEq, Repr

def Freed.isNode : Freed → Bool
  | .node _ => true
  | .posting .. => false

/-- The pointer to the node that it belongs to. -/
def Freed.pointer : Freed → List Link
  | .posting links _ | .node links => links

/-- `freePlist`, which gives what it frees in that order. -/
def freePlist (links : List Link) : Nat → List PlistNode → Option (List Freed)
  | _, [] => none
  | place, _ :: next => do
      let freed ← (if next = [] then some [] else freePlist links (place + 1) next)
      return freed ++ [.posting links place]

def freeTrie (links : List Link) : TrieNode → Option (List Freed)
  | .null => none
  | .node _ next cont index => do
      let postings ← (if index = [] then some [] else freePlist links 0 index)
      let below ← (if cont = .null then some [] else freeTrie (links ++ [.cont]) cont)
      let after ← (if next = .null then some [] else freeTrie (links ++ [.next]) next)
      return postings ++ below ++ after ++ [.node links]

section Freeing

variable {trieRoot : TrieNode} {links : List Link}

/-- The places of a posting list, the last one first. -/
def freedPostings (links : List Link) (place count : Nat) : List Freed :=
  (List.range' place count).reverse.map (.posting links)

/-- The postings and nodes of a trie, each behind all that it leads to. -/
def freedNodes (links : List Link) : TrieNode → List Freed
  | .null => []
  | .node _ next cont index =>
      freedPostings links 0 index.length ++ freedNodes (links ++ [.cont]) cont ++
        freedNodes (links ++ [.next]) next ++ [.node links]

theorem freePlist_eq {index : List PlistNode} (nonempty : index ≠ []) (place : Nat) :
    freePlist links place index = some (freedPostings links place index.length) := by
  induction index generalizing place with
  | nil => exact absurd rfl nonempty
  | cons node next ih =>
      have split : freedPostings links place (next.length + 1) =
          freedPostings links (place + 1) next.length ++ [.posting links place] := by
        simp [freedPostings, List.range'_succ]
      rw [List.length_cons, split]
      by_cases last : next = []
      · subst last
        rfl
      · simp [freePlist, last, ih last]

theorem freeTrie_eq (isNode : trieRoot ≠ .null) (links : List Link) :
    freeTrie links trieRoot = some (freedNodes links trieRoot) := by
  induction trieRoot generalizing links with
  | null => exact absurd rfl isNode
  | node letter next cont index nextIH contIH =>
      have postings : (if index = [] then some [] else freePlist links 0 index) =
          some (freedPostings links 0 index.length) := by
        by_cases none : index = []
        · subst none
          rfl
        · rw [if_neg none, freePlist_eq none]
      have below : (if cont = .null then some [] else freeTrie (links ++ [.cont]) cont) =
          some (freedNodes (links ++ [.cont]) cont) := by
        by_cases none : cont = .null
        · subst none
          rfl
        · rw [if_neg none, contIH none]
      have after : (if next = .null then some [] else freeTrie (links ++ [.next]) next) =
          some (freedNodes (links ++ [.next]) next) := by
        by_cases none : next = .null
        · subst none
          rfl
        · rw [if_neg none, nextIH none]
      rw [freeTrie, postings, below, after]
      rfl

theorem mem_freedPostings {place count : Nat} {freed : Freed} :
    freed ∈ freedPostings links place count ↔
      ∃ other, place ≤ other ∧ other < place + count ∧ freed = .posting links other := by
  simp [freedPostings, List.mem_range'_1, eq_comm, and_assoc]

/-- What is freed for the node at a pointer: it and the places of its posting list. -/
def FreedAt (links more : List Link) (trieRoot : TrieNode) (freed : Freed) : Prop :=
  (freed = .node (links ++ more) ∧ follow more trieRoot ≠ .null) ∨
    ∃ place, freed = .posting (links ++ more) place ∧
      place < (follow more trieRoot).rootIndex.length

theorem freedAt_null {more : List Link} {freed : Freed} : ¬ FreedAt links more .null freed := by
  cases more <;> simp [FreedAt, follow, SiblingTrie.rootIndex]

theorem freedAt_cont {more : List Link} {freed : Freed} {letter : Char} {next cont : TrieNode}
    {index : List PlistNode} :
    FreedAt links (.cont :: more) (.node letter next cont index) freed ↔
      FreedAt (links ++ [.cont]) more cont freed := by
  simp [FreedAt, follow]

theorem freedAt_next {more : List Link} {freed : Freed} {letter : Char} {next cont : TrieNode}
    {index : List PlistNode} :
    FreedAt links (.next :: more) (.node letter next cont index) freed ↔
      FreedAt (links ++ [.next]) more next freed := by
  simp [FreedAt, follow]

theorem freedAt_here {freed : Freed} {letter : Char} {next cont : TrieNode}
    {index : List PlistNode} :
    FreedAt links [] (.node letter next cont index) freed ↔
      freed = .node links ∨ freed ∈ freedPostings links 0 index.length := by
  simp [FreedAt, follow, SiblingTrie.rootIndex, mem_freedPostings, and_comm]

theorem mem_freedNodes {freed : Freed} :
    freed ∈ freedNodes links trieRoot ↔ ∃ more, FreedAt links more trieRoot freed := by
  induction trieRoot generalizing links with
  | null => simp [freedNodes, freedAt_null]
  | node letter next cont index nextIH contIH =>
      simp only [freedNodes, List.mem_append, List.mem_singleton, nextIH, contIH]
      constructor
      · rintro (((postings | ⟨more, below⟩) | ⟨more, after⟩) | node)
        · exact ⟨[], freedAt_here.mpr (Or.inr postings)⟩
        · exact ⟨.cont :: more, freedAt_cont.mpr below⟩
        · exact ⟨.next :: more, freedAt_next.mpr after⟩
        · exact ⟨[], freedAt_here.mpr (Or.inl node)⟩
      · rintro ⟨more, reached⟩
        cases more with
        | nil =>
            rcases freedAt_here.mp reached with node | postings
            · exact Or.inr node
            · exact Or.inl (Or.inl (Or.inl postings))
        | cons link more =>
            cases link with
            | cont => exact Or.inl (Or.inl (Or.inr ⟨more, freedAt_cont.mp reached⟩))
            | next => exact Or.inl (Or.inr ⟨more, freedAt_next.mp reached⟩)

theorem FreedAt.pointer_eq {more : List Link} {freed : Freed}
    (reached : FreedAt links more trieRoot freed) : freed.pointer = links ++ more := by
  rcases reached with ⟨rfl, _⟩ | ⟨place, rfl, _⟩ <;> rfl

theorem freedPostings_nodup (place count : Nat) : (freedPostings links place count).Nodup :=
  (List.nodup_reverse.mpr List.nodup_range').map fun _ _ same => (Freed.posting.inj same).2

/-- Nothing is freed twice. -/
theorem freedNodes_nodup : (freedNodes links trieRoot).Nodup := by
  induction trieRoot generalizing links with
  | null => exact List.nodup_nil
  | node letter next cont index nextIH contIH =>
      have below : ∀ freed ∈ freedNodes (links ++ [.cont]) cont,
          ∃ more, freed.pointer = links ++ .cont :: more := by
        intro freed member
        obtain ⟨more, reached⟩ := mem_freedNodes.mp member
        exact ⟨more, by rw [reached.pointer_eq, List.append_assoc]; rfl⟩
      have after : ∀ freed ∈ freedNodes (links ++ [.next]) next,
          ∃ more, freed.pointer = links ++ .next :: more := by
        intro freed member
        obtain ⟨more, reached⟩ := mem_freedNodes.mp member
        exact ⟨more, by rw [reached.pointer_eq, List.append_assoc]; rfl⟩
      have here : ∀ freed ∈ freedPostings links 0 index.length, freed.pointer = links ∧
          freed ≠ .node links := by
        intro freed member
        obtain ⟨place, _, _, rfl⟩ := mem_freedPostings.mp member
        exact ⟨rfl, by simp⟩
      rw [freedNodes, List.nodup_append, List.nodup_append, List.nodup_append]
      refine ⟨⟨⟨freedPostings_nodup 0 _, contIH, ?_⟩, nextIH, ?_⟩, List.nodup_singleton _, ?_⟩
      · rintro freed posting _ node rfl
        obtain ⟨more, pointer⟩ := below freed node
        simp [(here freed posting).1] at pointer
      · rintro freed earlier _ node rfl
        obtain ⟨more, pointer⟩ := after freed node
        rcases List.mem_append.mp earlier with posting | other
        · simp [(here freed posting).1] at pointer
        · obtain ⟨_, otherPointer⟩ := below freed other
          simp [pointer] at otherPointer
      · rintro freed earlier _ last rfl
        rw [List.mem_singleton.mp last] at earlier
        rcases List.mem_append.mp earlier with earlier | node
        · rcases List.mem_append.mp earlier with posting | node
          · exact (here _ posting).2 rfl
          · obtain ⟨more, pointer⟩ := below _ node
            simp [Freed.pointer] at pointer
        · obtain ⟨more, pointer⟩ := after _ node
          simp [Freed.pointer] at pointer

theorem countP_freedNodes :
    (freedNodes links trieRoot).countP Freed.isNode = trieRoot.paths.length := by
  induction trieRoot generalizing links with
  | null => rfl
  | node letter next cont index nextIH contIH =>
      have noNode : (freedPostings links 0 index.length).countP Freed.isNode = 0 := by
        rw [List.countP_eq_zero]
        intro freed member
        obtain ⟨place, _, _, rfl⟩ := mem_freedPostings.mp member
        exact Bool.false_ne_true
      have one : [Freed.node links].countP Freed.isNode = 1 := rfl
      simp only [freedNodes, List.countP_append, noNode, nextIH, contIH, one, paths,
        List.length_cons, List.length_append, List.length_map]
      omega

/-- A node is freed behind everything that is reached through it. -/
theorem freedNodes_order {front more : List Link} {freed : Freed}
    (reached : FreedAt links (front ++ more) trieRoot freed)
    (other : freed ≠ .node (links ++ front)) :
    [freed, .node (links ++ front)].Sublist (freedNodes links trieRoot) := by
  induction front generalizing links trieRoot with
  | nil =>
      rw [List.append_nil] at other ⊢
      cases trieRoot with
      | null => exact absurd reached freedAt_null
      | node letter next cont index =>
          have member := mem_freedNodes.mpr ⟨_, reached⟩
          rw [freedNodes] at member ⊢
          rcases List.mem_append.mp member with earlier | last
          · exact (List.singleton_sublist.mpr earlier).append (List.Sublist.refl _)
          · exact absurd (List.mem_singleton.mp last) other
  | cons link front ih =>
      have split : links ++ link :: front = links ++ [link] ++ front := by simp
      cases trieRoot with
      | null => exact absurd reached freedAt_null
      | node letter next cont index =>
          rw [List.cons_append] at reached
          rw [split] at other ⊢
          cases link with
          | cont =>
              refine (ih (freedAt_cont.mp reached) other).trans ?_
              rw [freedNodes, List.append_assoc, List.append_assoc]
              exact (List.sublist_append_left _ _).trans (List.sublist_append_right _ _)
          | next =>
              refine (ih (freedAt_next.mp reached) other).trans ?_
              rw [freedNodes]
              exact (List.sublist_append_right _ _).trans (List.sublist_append_left _ _)

end Freeing

/-- All of a trie is freed, nothing twice, and each node behind what it leads to. -/
structure FreesAll (trieRoot : TrieNode) (freed : List Freed) : Prop where
  once : freed.Nodup
  all : ∀ item, item ∈ freed ↔ ∃ links, FreedAt [] links trieRoot item
  order : ∀ links more item, FreedAt [] (links ++ more) trieRoot item → item ≠ .node links →
    [item, .node links].Sublist freed
  nodes : freed.countP Freed.isNode = trieRoot.paths.length

theorem freedNodes_freesAll (trieRoot : TrieNode) : FreesAll trieRoot (freedNodes [] trieRoot) where
  once := freedNodes_nodup
  all _ := mem_freedNodes
  order _ _ _ reached other := freedNodes_order reached other
  nodes := countP_freedNodes

section Files

variable {files : List TextFile} {trieRoot : TrieNode} {path : List Char}

theorem mem_paths_enterWords {fileName : CString} {entries : List (Nat × List Char)} :
    path ∈ (enterWords fileName trieRoot entries).paths ↔
      path ∈ trieRoot.paths ∨ path ≠ [] ∧ ∃ word ∈ entries.map Prod.snd, path <+: word := by
  induction entries generalizing trieRoot with
  | nil => simp [enterWords]
  | cons entry entries ih =>
      have later := @ih (update (countOccurrence entry.1 fileName) entry.2 trieRoot)
      rw [mem_paths_update, or_assoc, ← and_or_left] at later
      refine later.trans ?_
      simp

/-- The calls keep the letters of siblings apart. -/
theorem Indexed.differentLetters (indexed : Indexed files trieRoot) :
    SiblingTrie.AllNodes (·.letters.Nodup) trieRoot := by
  have valid : ValidTrie trieRoot := by
    induction indexed with
    | null => exact ⟨trivial, trivial, trivial⟩
    | call _ called ih =>
        obtain ⟨_, rfl⟩ := (createTrieFromTextMap_returnsIff _ _ _ _ _).mp called
        exact ih.enterFile _
  exact valid.differentLetters

theorem RootOf.eq_null_iff {words : List (List Char)} (root : RootOf words trieRoot) :
    trieRoot = .null ↔ words = [] := by
  cases words with
  | nil => exact iff_of_true root rfl
  | cons first words =>
      obtain ⟨letter, next, cont, index, rfl, _⟩ := root
      simp

/-- The nodes behind files whose first words fit are those of the prefixes. -/
theorem Indexed.mem_paths (indexed : Indexed files trieRoot) (fit : FilesFit [] files)
    (whole : ∀ file ∈ files, file.ReadWhole) :
    RootOf (files.flatMap TextFile.words) trieRoot ∧ ∀ path, path ∈ trieRoot.paths ↔
      path ≠ [] ∧ ∃ word ∈ files.flatMap TextFile.words, path <+: word := by
  induction indexed with
  | null => exact ⟨rfl, fun path => by simp [paths]⟩
  | @call files file trieRoot words loaded _ called ih =>
      rw [filesFit_concat, List.nil_append] at fit
      rw [List.forall_mem_append, List.forall_mem_singleton] at whole
      obtain ⟨root, paths_iff⟩ := ih fit.1 whole.1
      have nonempty := wordsFrom_nonempty 0 file.contents
      have fits : FirstWordFits trieRoot ((wordsFrom 0 file.contents).map Prod.snd) := by
        rw [file.words_eq]
        exact root.fits_iff.mpr fit.2
      have entered := @enterFile_eq_enterWords trieRoot file.fileName _ fits nonempty
      have newRoot := @RootOf.enterWords trieRoot _ file.fileName root _ nonempty
      rw [file.words_eq] at newRoot
      rw [whole.2.trieRoot_eq called, entered, List.flatMap_append, List.flatMap_singleton]
      refine ⟨newRoot, fun path => ?_⟩
      rw [mem_paths_enterWords, paths_iff, file.words_eq, ← and_or_left]
      simp only [List.mem_append, or_and_right, exists_or]

/-- After any calls whose first words fit there is exactly one node for each prefix of the
words, and when a worker is told to end `freeTrie` frees all nodes and posting lists, each
once and no node before what it leads to; without any word it fails. -/
theorem index_nodes (indexed : Indexed files trieRoot) (fit : FilesFit [] files)
    (whole : ∀ file ∈ files, file.ReadWhole) :
    trieRoot.paths.Nodup ∧
      (∀ path, path ∈ trieRoot.paths ↔
        path ≠ [] ∧ ∃ file ∈ files, ∃ word ∈ file.words, path <+: word) ∧
      (freeTrie [] trieRoot = none ↔ ∀ file ∈ files, file.words = []) ∧
      ∀ freed, freeTrie [] trieRoot = some freed → FreesAll trieRoot freed := by
  obtain ⟨root, paths_iff⟩ := indexed.mem_paths fit whole
  refine ⟨SiblingTrie.paths_nodup indexed.differentLetters, fun path => ?_, ?_, ?_⟩
  · rw [paths_iff]
    refine and_congr_right fun _ => ⟨?_, ?_⟩
    · rintro ⟨word, member, isPrefix⟩
      obtain ⟨file, isFile, isWord⟩ := List.mem_flatMap.mp member
      exact ⟨file, isFile, word, isWord, isPrefix⟩
    · rintro ⟨file, isFile, word, isWord, isPrefix⟩
      exact ⟨word, List.mem_flatMap.mpr ⟨file, isFile, isWord⟩, isPrefix⟩
  · rw [← List.flatMap_eq_nil_iff, ← root.eq_null_iff]
    constructor
    · intro fails
      by_contra isNode
      rw [freeTrie_eq isNode] at fails
      cases fails
    · rintro rfl
      rfl
  · intro freed frees
    by_cases isNode : trieRoot = .null
    · rw [isNode] at frees
      cases frees
    · rw [freeTrie_eq isNode] at frees
      exact Option.some.inj frees ▸ freedNodes_freesAll trieRoot

theorem index_nodes_fitting :
    ∃ trieRoot freed, Indexed fittingFiles trieRoot ∧ ['a', 'b'] ∈ trieRoot.paths ∧
      freeTrie [] trieRoot = some freed ∧ FreesAll trieRoot freed := by
  obtain ⟨trieRoot, indexed⟩ := @exists_indexed fittingFiles (by decide) (by decide)
  obtain ⟨_, paths_iff, fails_iff, frees⟩ := index_nodes indexed (by decide) (by decide)
  have hasWord : ∃ file ∈ fittingFiles, ∃ word ∈ file.words, ['a', 'b'] <+: word := by decide
  have noFailure : freeTrie [] trieRoot ≠ none := by
    rw [ne_eq, fails_iff]
    decide
  obtain ⟨freed, isFreed⟩ := Option.ne_none_iff_exists'.mp noFailure
  exact ⟨trieRoot, freed, indexed, (paths_iff _).mpr ⟨by simp, hasWord⟩, isFreed,
    frees freed isFreed⟩

end Files

end WebCrawl
