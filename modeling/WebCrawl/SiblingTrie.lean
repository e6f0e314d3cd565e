import Mathlib.Data.List.Nodup

/-!
# Tries with sibling chains

A trie whose nodes are linked in two ways: `next` leads to another letter at
the same place of a word, `cont` to the letters that may follow.  Each node has
an index, which belongs to the word that ends there.  A word is found along the
first sibling with the right letter at each of its places, so changing the
index of one word changes the index of no other word, whatever the chains look
like.  Pointers into a trie are the links that lead from its root to a node.
-/

variable {α β : Type*}

inductive SiblingTrie (α β : Type*) where
  | null
  | node (letter : α) (next cont : SiblingTrie α β) (index : List β)
  deriving DecidableEq, Repr

namespace SiblingTrie

section Words

variable [DecidableEq α]

/-- The index of a word; the empty word and words that are not there have the
empty one. -/
def find : SiblingTrie α β → List α → List β
  | null, _ | _, [] => []
  | node letter next cont index, first :: rest =>
      if letter = first then
        if rest = [] then index else find cont rest
      else find next (first :: rest)

/-- Change the node of a letter in a chain of siblings, which is appended when
the letter is missing. -/
def alter (letter : α) (onCont : SiblingTrie α β → SiblingTrie α β)
    (onIndex : List β → List β) : SiblingTrie α β → SiblingTrie α β
  | null => node letter null (onCont null) (onIndex [])
  | node other next cont index =>
      if other = letter then node other next (onCont cont) (onIndex index)
      else node other (alter letter onCont onIndex next) cont index

def update (change : List β → List β) : List α → SiblingTrie α β → SiblingTrie α β
  | [], trie => trie
  | first :: rest, trie =>
      alter first (update change rest) (if rest = [] then change else id) trie

variable {change : List β → List β} {trie : SiblingTrie α β} {word other : List α}

@[simp]
theorem find_null (word : List α) : (null : SiblingTrie α β).find word = [] := by
  cases word <;> rfl

@[simp]
theorem find_nil (trie : SiblingTrie α β) : trie.find [] = [] := by
  cases trie <;> rfl

theorem find_alter_same {first : α} {rest : List α}
    {onCont : SiblingTrie α β → SiblingTrie α β} {onIndex : List β → List β}
    (trie : SiblingTrie α β) :
    ∃ cont index, (alter first onCont onIndex trie).find (first :: rest) =
        (if rest = [] then onIndex index else (onCont cont).find rest) ∧
      trie.find (first :: rest) = if rest = [] then index else cont.find rest := by
  induction trie with
  | null => exact ⟨null, [], by simp [alter, find], by simp⟩
  | node letter next cont index ih _ =>
      by_cases same : letter = first
      · exact ⟨cont, index, by simp [alter, find, same], by simp [find, same]⟩
      · simpa [alter, find, same] using ih

theorem find_alter_other {letter first : α} {rest : List α}
    {onCont : SiblingTrie α β → SiblingTrie α β} {onIndex : List β → List β}
    (different : letter ≠ first) (trie : SiblingTrie α β) :
    (alter letter onCont onIndex trie).find (first :: rest) =
      trie.find (first :: rest) := by
  induction trie with
  | null => simp [alter, find, different]
  | node other next cont index ih _ =>
      by_cases same : other = letter
      · subst other
        simp [alter, find, different]
      · by_cases here : other = first
        · subst here
          simp [alter, find, same]
        · simpa [alter, find, same, here] using ih

/-- Changing the index of a word changes what is found under it. -/
theorem find_update_same (nonempty : word ≠ []) (trie : SiblingTrie α β) :
    (update change word trie).find word = change (trie.find word) := by
  induction word generalizing trie with
  | nil => exact absurd rfl nonempty
  | cons first rest ih =>
      obtain ⟨cont, index, after, before⟩ := find_alter_same trie
      rw [update, after, before]
      by_cases last : rest = []
      · simp [last]
      · simp [last, ih last]

theorem find_update_other (different : other ≠ word) (trie : SiblingTrie α β) :
    (update change word trie).find other = trie.find other := by
  induction word generalizing trie other with
  | nil => rfl
  | cons first rest ih =>
      cases other with
      | nil => simp
      | cons letter later =>
          by_cases same : first = letter
          · subst letter
            have laterDifferent : later ≠ rest := fun equal =>
              different (by rw [equal])
            obtain ⟨cont, index, after, before⟩ := find_alter_same trie
            rw [update, after, before]
            by_cases last : later = []
            · have notLast : rest ≠ [] := fun equal =>
                laterDifferent (by rw [last, equal])
              simp [last, notLast]
            · simp [last, ih laterDifferent]
          · exact find_alter_other same trie

end Words

section Pointers

inductive Link where
  | next
  | cont
  deriving DecidableEq, Repr

/-- What a pointer points to, `null` when there is no such node. -/
def follow : List Link → SiblingTrie α β → SiblingTrie α β
  | [], trie => trie
  | _ :: _, null => null
  | .next :: links, node _ next _ _ => follow links next
  | .cont :: links, node _ _ cont _ => follow links cont

/-- Replace what a pointer points to. -/
def rewrite (change : SiblingTrie α β → SiblingTrie α β) :
    List Link → SiblingTrie α β → SiblingTrie α β
  | [], trie => change trie
  | _ :: _, null => null
  | .next :: links, node letter next cont index =>
      node letter (rewrite change links next) cont index
  | .cont :: links, node letter next cont index =>
      node letter next (rewrite change links cont) index

variable {change again : SiblingTrie α β → SiblingTrie α β}
variable {links : List Link} {trie : SiblingTrie α β}

theorem follow_append (links more : List Link) (trie : SiblingTrie α β) :
    follow (links ++ more) trie = follow more (follow links trie) := by
  induction links generalizing trie with
  | nil => rfl
  | cons link links ih =>
      cases trie with
      | null => cases more <;> rfl
      | node => cases link <;> exact ih _

theorem rewrite_append (links more : List Link) (trie : SiblingTrie α β) :
    rewrite change (links ++ more) trie = rewrite (rewrite change more) links trie := by
  induction links generalizing trie with
  | nil => rfl
  | cons link links ih =>
      cases trie with
      | null => rfl
      | node => cases link <;> simp [rewrite, ih]

theorem rewrite_rewrite (links : List Link) (trie : SiblingTrie α β) :
    rewrite again links (rewrite change links trie) =
      rewrite (again ∘ change) links trie := by
  induction links generalizing trie with
  | nil => rfl
  | cons link links ih =>
      cases trie with
      | null => rfl
      | node => cases link <;> simp [rewrite, ih]

/-- Only what the pointer points to matters for a replacement. -/
theorem rewrite_congr (same : change (follow links trie) = again (follow links trie)) :
    rewrite change links trie = rewrite again links trie := by
  induction links generalizing trie with
  | nil => exact same
  | cons link links ih =>
      cases trie with
      | null => rfl
      | node => cases link <;> simp [rewrite, ih same]

theorem follow_rewrite {target : SiblingTrie α β} (points : follow links trie = target)
    (isNode : target ≠ null) :
    follow links (rewrite change links trie) = change target := by
  induction links generalizing trie with
  | nil => rw [← points]; rfl
  | cons link links ih =>
      cases trie with
      | null => exact absurd points.symm isNode
      | node => cases link <;> exact ih points

end Pointers

section Occupied

/-- Every node has a word at or below it. -/
def Occupied : SiblingTrie α β → Prop
  | null => True
  | node _ next cont index =>
      (cont ≠ null ∨ index ≠ []) ∧ Occupied next ∧ Occupied cont

variable [DecidableEq α]

/-- A trie whose nodes are all occupied has a word, unless it is empty. -/
theorem Occupied.exists_word {trie : SiblingTrie α β} (occupied : Occupied trie)
    (isNode : trie ≠ null) : ∃ word, word ≠ [] ∧ trie.find word ≠ [] := by
  induction trie with
  | null => exact absurd rfl isNode
  | node letter next cont index _ ih =>
      by_cases ended : index = []
      · have continued : cont ≠ null := occupied.1.resolve_right (by simp [ended])
        obtain ⟨rest, nonempty, found⟩ := ih occupied.2.2 continued
        exact ⟨letter :: rest, by simp, by simpa [find, nonempty] using found⟩
      · exact ⟨[letter], by simp, by simpa [find] using ended⟩

theorem alter_ne_null {letter : α} {onCont : SiblingTrie α β → SiblingTrie α β}
    {onIndex : List β → List β} (trie : SiblingTrie α β) :
    alter letter onCont onIndex trie ≠ null := by
  cases trie with
  | null => simp [alter]
  | node => rw [alter]; split <;> simp

theorem update_ne_null {change : List β → List β} {word : List α}
    (nonempty : word ≠ []) (trie : SiblingTrie α β) : update change word trie ≠ null := by
  cases word with
  | nil => exact absurd rfl nonempty
  | cons => exact alter_ne_null trie

theorem Occupied.alter {letter : α} {onCont : SiblingTrie α β → SiblingTrie α β}
    {onIndex : List β → List β} {trie : SiblingTrie α β}
    (keeps : ∀ cont, Occupied cont → Occupied (onCont cont))
    (adds : ∀ cont index, onCont cont ≠ null ∨ onIndex index ≠ [])
    (occupied : Occupied trie) : Occupied (trie.alter letter onCont onIndex) := by
  induction trie with
  | null => exact ⟨adds _ _, trivial, keeps null trivial⟩
  | node other next cont index ih _ =>
      obtain ⟨here, nextOccupied, contOccupied⟩ := occupied
      rw [SiblingTrie.alter]
      split
      · exact ⟨adds _ _, nextOccupied, keeps cont contOccupied⟩
      · exact ⟨here, ih nextOccupied, contOccupied⟩

theorem Occupied.update {change : List β → List β} {word : List α}
    {trie : SiblingTrie α β} (adds : ∀ index, change index ≠ [])
    (occupied : Occupied trie) : Occupied (trie.update change word) := by
  induction word generalizing trie with
  | nil => exact occupied
  | cons first rest ih =>
      apply occupied.alter
      · exact fun _ => ih
      · intro cont index
        by_cases last : rest = []
        · exact Or.inr (by simpa [last] using adds index)
        · exact Or.inl (update_ne_null last cont)

end Occupied

section Nodes

/-- The letters of a chain of siblings. -/
def letters : SiblingTrie α β → List α
  | null => []
  | node letter next _ _ => letter :: letters next

/-- A condition on every node of a trie, which may look at the siblings after
the node and at what is below it. -/
def AllNodes (condition : SiblingTrie α β → Prop) : SiblingTrie α β → Prop
  | null => True
  | node letter next cont index =>
      condition (node letter next cont index) ∧
        AllNodes condition next ∧ AllNodes condition cont

/-- A node or one that its `cont` links lead to has an index. -/
def IndexedBelow : SiblingTrie α β → Prop
  | null => False
  | node _ _ cont index => index ≠ [] ∨ IndexedBelow cont

def rootIndex : SiblingTrie α β → List β
  | null => []
  | node _ _ _ index => index

theorem Occupied.indexedBelow {trie : SiblingTrie α β} (occupied : Occupied trie)
    (isNode : trie ≠ null) : IndexedBelow trie := by
  induction trie with
  | null => exact isNode rfl
  | node letter next cont index _ ih =>
      obtain ⟨here, _, contOccupied⟩ := occupied
      rcases here with continued | ended
      · exact Or.inr (ih contOccupied continued)
      · exact Or.inl ended

/-- All nodes are occupied exactly when each has an index at or below it. -/
theorem occupied_iff_allNodes (trie : SiblingTrie α β) :
    Occupied trie ↔ AllNodes IndexedBelow trie := by
  induction trie with
  | null => exact Iff.rfl
  | node letter next cont index nextIH contIH =>
      rw [AllNodes, ← nextIH, ← contIH]
      constructor
      · intro occupied
        exact ⟨occupied.indexedBelow (by simp), occupied.2⟩
      · rintro ⟨indexed, below⟩
        refine ⟨?_, below⟩
        rcases indexed with ended | continued
        · exact Or.inr ended
        · refine Or.inl ?_
          rintro rfl
          exact continued

theorem nodup_append_missing {letter : α} {letters : List α}
    [Decidable (letter ∈ letters)] (nodup : letters.Nodup) :
    (if letter ∈ letters then letters else letters ++ [letter]).Nodup := by
  split
  next => exact nodup
  next missing => simpa using List.Nodup.concat missing nodup

variable [DecidableEq α]

theorem letters_alter (letter : α) (onCont : SiblingTrie α β → SiblingTrie α β)
    (onIndex : List β → List β) (trie : SiblingTrie α β) :
    (alter letter onCont onIndex trie).letters =
      if letter ∈ trie.letters then trie.letters else trie.letters ++ [letter] := by
  induction trie with
  | null => simp [alter, letters]
  | node other next cont index ih _ =>
      by_cases same : other = letter
      · simp [alter, letters, same]
      · by_cases found : letter ∈ next.letters
        · simp [alter, letters, same, ih, found]
        · simp [alter, letters, same, ih, found, Ne.symm same]

theorem AllNodes.alter_letters {letter : α} {trie : SiblingTrie α β}
    {onCont : SiblingTrie α β → SiblingTrie α β} {onIndex : List β → List β}
    (keeps : ∀ cont, AllNodes (·.letters.Nodup) cont →
      AllNodes (·.letters.Nodup) (onCont cont))
    (different : AllNodes (·.letters.Nodup) trie) :
    AllNodes (·.letters.Nodup) (alter letter onCont onIndex trie) := by
  induction trie with
  | null => exact ⟨by simp [letters], trivial, keeps null trivial⟩
  | node other next cont index ih _ =>
      obtain ⟨here, nextDifferent, contDifferent⟩ := different
      rw [alter]
      split
      next => exact ⟨here, nextDifferent, keeps cont contDifferent⟩
      next otherLetter =>
        refine ⟨?_, ih nextDifferent, contDifferent⟩
        obtain ⟨notLater, laterNodup⟩ := List.nodup_cons.mp here
        rw [letters, letters_alter]
        refine List.nodup_cons.mpr ⟨?_, nodup_append_missing laterNodup⟩
        split
        · exact notLater
        · intro member
          rcases List.mem_append.mp member with later | last
          · exact notLater later
          · exact otherLetter (List.mem_singleton.mp last)

/-- Siblings stay different when the index of a word is changed. -/
theorem AllNodes.update_letters {change : List β → List β} {word : List α}
    {trie : SiblingTrie α β} (different : AllNodes (·.letters.Nodup) trie) :
    AllNodes (·.letters.Nodup) (update change word trie) := by
  induction word generalizing trie with
  | nil => exact different
  | cons first rest ih => exact different.alter_letters fun _ => ih

variable {good : List β → Prop}

theorem AllNodes.alter_index {letter : α} {trie : SiblingTrie α β}
    {onCont : SiblingTrie α β → SiblingTrie α β} {onIndex : List β → List β}
    (keeps : ∀ cont, AllNodes (good ·.rootIndex) cont →
      AllNodes (good ·.rootIndex) (onCont cont))
    (starts : good (onIndex [])) (changes : ∀ index, good index → good (onIndex index))
    (valid : AllNodes (good ·.rootIndex) trie) :
    AllNodes (good ·.rootIndex) (alter letter onCont onIndex trie) := by
  induction trie with
  | null => exact ⟨starts, trivial, keeps null trivial⟩
  | node other next cont index ih _ =>
      obtain ⟨here, nextValid, contValid⟩ := valid
      rw [alter]
      split
      · exact ⟨changes index here, nextValid, keeps cont contValid⟩
      · exact ⟨here, ih nextValid, contValid⟩

/-- Indexes stay good when a change that keeps them so is made to one. -/
theorem AllNodes.update_index {change : List β → List β} {word : List α}
    {trie : SiblingTrie α β} (empty : good [])
    (changes : ∀ index, good index → good (change index))
    (valid : AllNodes (good ·.rootIndex) trie) :
    AllNodes (good ·.rootIndex) (update change word trie) := by
  induction word generalizing trie with
  | nil => exact valid
  | cons first rest ih =>
      apply valid.alter_index
      · exact fun _ => ih
      · split
        · exact changes [] empty
        · exact empty
      · intro index here
        split
        · exact changes index here
        · exact here

end Nodes

end SiblingTrie
