import WebCrawl.SiblingTrie

/-!
# The nodes of a trie

A node of a trie stands for the word that its letter ends.  Changing the index of a
word adds the nodes of its prefixes that are missing.  When the letters of siblings
differ no two nodes stand for the same word.
-/

namespace SiblingTrie

variable {α β : Type*}

/-- What the nodes of a trie stand for. -/
def paths : SiblingTrie α β → List (List α)
  | null => []
  | node letter next cont _ => [letter] :: (cont.paths.map (letter :: ·) ++ next.paths)

section Paths

variable {trie : SiblingTrie α β} {path : List α}

theorem head_of_mem_paths (member : path ∈ trie.paths) :
    ∃ letter ∈ trie.letters, ∃ rest, path = letter :: rest := by
  induction trie with
  | null => cases member
  | node letter next cont index ih _ =>
      rcases List.mem_cons.mp member with rfl | member
      · exact ⟨letter, List.mem_cons_self, [], rfl⟩
      rcases List.mem_append.mp member with below | after
      · obtain ⟨rest, _, rfl⟩ := List.mem_map.mp below
        exact ⟨letter, List.mem_cons_self, rest, rfl⟩
      · obtain ⟨other, isLetter, rest, rfl⟩ := ih after
        exact ⟨other, List.mem_cons_of_mem letter isLetter, rest, rfl⟩

theorem nil_notMem_paths : [] ∉ trie.paths := by
  intro member
  obtain ⟨_, _, _, empty⟩ := head_of_mem_paths member
  cases empty

/-- No two nodes stand for the same word. -/
theorem paths_nodup (different : AllNodes (·.letters.Nodup) trie) : trie.paths.Nodup := by
  induction trie with
  | null => exact List.nodup_nil
  | node letter next cont index nextIH contIH =>
      obtain ⟨here, nextDifferent, contDifferent⟩ := different
      have notLater := (List.nodup_cons.mp here).1
      have below : (cont.paths.map (letter :: ·)).Nodup :=
        (contIH contDifferent).map fun _ _ same => (List.cons.inj same).2
      have elsewhere : ∀ path ∈ next.paths, path.head? ≠ some letter := by
        intro path member
        obtain ⟨other, isLetter, rest, rfl⟩ := head_of_mem_paths member
        rw [List.head?_cons, ne_eq, Option.some.injEq]
        rintro rfl
        exact notLater isLetter
      refine List.nodup_cons.mpr ⟨?_, List.nodup_append.mpr ⟨below, nextIH nextDifferent, ?_⟩⟩
      · intro again
        rcases List.mem_append.mp again with again | again
        · obtain ⟨rest, member, same⟩ := List.mem_map.mp again
          rw [(List.cons.inj same).2] at member
          exact nil_notMem_paths member
        · exact elsewhere _ again rfl
      · rintro path member _ other rfl
        obtain ⟨rest, _, rfl⟩ := List.mem_map.mp member
        exact elsewhere _ other rfl

theorem mem_paths_node {letter : α} {next cont : SiblingTrie α β} {index : List β} :
    path ∈ (node letter next cont index).paths ↔
      path = [letter] ∨ (∃ rest, path = letter :: rest ∧ rest ∈ cont.paths) ∨
        path ∈ next.paths := by
  simp [paths, and_comm, eq_comm]

variable [DecidableEq α]

theorem mem_paths_alter {letter : α} {onCont : SiblingTrie α β → SiblingTrie α β}
    {onIndex : List β → List β} {adds : List α → Prop}
    (cont_iff : ∀ cont path, path ∈ (onCont cont).paths ↔ path ∈ cont.paths ∨ adds path) :
    path ∈ (alter letter onCont onIndex trie).paths ↔
      path ∈ trie.paths ∨ path = [letter] ∨ ∃ rest, path = letter :: rest ∧ adds rest := by
  induction trie with
  | null =>
      have nothing : (null : SiblingTrie α β).paths = [] := rfl
      simp [alter, mem_paths_node, cont_iff, nothing]
  | node other next cont index ih _ =>
      by_cases same : other = letter
      · subst other
        rw [alter, if_pos rfl, mem_paths_node, mem_paths_node]
        simp only [cont_iff, and_or_left, exists_or]
        grind
      · rw [alter, if_neg same, mem_paths_node, mem_paths_node, ih]
        simp only [or_assoc]

/-- Changing the index of a word adds the nodes of its prefixes. -/
theorem mem_paths_update {change : List β → List β} {word : List α} :
    path ∈ (update change word trie).paths ↔
      path ∈ trie.paths ∨ path ≠ [] ∧ path <+: word := by
  induction word generalizing trie path with
  | nil => simp [update]
  | cons first rest ih =>
      rw [update, mem_paths_alter fun cont path => ih]
      refine or_congr_right ?_
      cases path with
      | nil => simp
      | cons letter later =>
          by_cases last : later = []
          · simp [last, eq_comm]
          · simp [last, eq_comm, List.cons_prefix_cons]

end Paths

end SiblingTrie
