import Mathlib.Data.List.Basic

/-!
# Selecting an element in one scan

A scan keeps a candidate and replaces it by a later element according to a test.
When the test is transitive and what a candidate rejects is in turn replaced by
whatever replaces the candidate, the candidate divides the elements seen: it
would replace all earlier ones and keeps its place against all later ones.  A
strict comparison selects the first extreme element and one that is not strict
the last.
-/

namespace ScanSelection

variable {α : Type*} {replaces : α → α → Prop}

/-- A test for which a scan needs to look at its candidate only. -/
structure Consistent (replaces : α → α → Prop) : Prop where
  trans : ∀ {first second third},
    replaces first second → replaces second third → replaces first third
  rejected : ∀ {candidate value next},
    ¬ replaces candidate value → replaces candidate next → replaces value next

/-- The candidate of a scan over the elements before it, itself and the elements
after it. -/
structure Selected (replaces : α → α → Prop) (before : List α) (candidate : α)
    (after : List α) : Prop where
  earlier : ∀ value ∈ before, replaces value candidate
  later : ∀ value ∈ after, ¬ replaces candidate value

theorem Selected.start (candidate : α) : Selected replaces [] candidate [] where
  earlier := by simp
  later := by simp

variable {before after : List α} {candidate next : α}

theorem Selected.replace (selected : Selected replaces before candidate after)
    (consistent : Consistent replaces) (better : replaces candidate next) :
    Selected replaces (before ++ candidate :: after) next [] where
  earlier := by
    intro value passed
    rcases List.mem_append.mp passed with earlier | here
    · exact consistent.trans (selected.earlier value earlier) better
    · rcases List.mem_cons.mp here with rfl | later
      · exact better
      · exact consistent.rejected (selected.later value later) better
  later := by simp

theorem Selected.keep (selected : Selected replaces before candidate after)
    (notBetter : ¬ replaces candidate next) :
    Selected replaces before candidate (after ++ [next]) where
  earlier := selected.earlier
  later := by
    intro value passed
    rcases List.mem_append.mp passed with later | last
    · exact selected.later value later
    · rwa [List.mem_singleton.mp last]

/-- Every other element would be replaced by the candidate or is rejected. -/
theorem Selected.mem_cases (selected : Selected replaces before candidate after)
    {value : α} (member : value ∈ before ++ candidate :: after) :
    value = candidate ∨ replaces value candidate ∨ ¬ replaces candidate value := by
  rcases List.mem_append.mp member with earlier | rest
  · exact Or.inr (Or.inl (selected.earlier value earlier))
  · rcases List.mem_cons.mp rest with here | later
    · exact Or.inl here
    · exact Or.inr (Or.inr (selected.later value later))

theorem Selected.earlier_place (selected : Selected replaces before candidate after)
    {place : Nat} {value : α} (inFront : place < before.length)
    (here : (before ++ candidate :: after)[place]? = some value) :
    replaces value candidate := by
  rw [List.getElem?_append_left inFront] at here
  exact selected.earlier value (List.mem_of_getElem? here)

theorem Selected.later_place (selected : Selected replaces before candidate after)
    {place : Nat} {value : α} (behind : before.length < place)
    (here : (before ++ candidate :: after)[place]? = some value) :
    ¬ replaces candidate value := by
  obtain ⟨offset, rfl⟩ : ∃ offset, place = before.length + (offset + 1) :=
    ⟨place - before.length - 1, by omega⟩
  rw [List.getElem?_append_right (by omega), Nat.add_sub_cancel_left,
    List.getElem?_cons_succ] at here
  exact selected.later value (List.mem_of_getElem? here)

/-- What a scan selects among the images of some of the values. -/
theorem Selected.of_filter_map {β : Type*} {values : List β} {keeps : β → Bool} {image : β → α}
    (selected : Selected replaces before candidate after)
    (split : (values.filter keeps).map image = before ++ candidate :: after) :
    ∃ front value back, values = front ++ value :: back ∧ keeps value = true ∧
      image value = candidate ∧
      (∀ other ∈ front, keeps other = true → replaces (image other) candidate) ∧
      ∀ other ∈ back, keeps other = true → ¬ replaces candidate (image other) := by
  obtain ⟨kept, keptRest, keptSplit, rfl, restImage⟩ := List.map_eq_append_iff.mp split
  obtain ⟨value, keptBack, rfl, rfl, rfl⟩ := List.map_eq_cons_iff.mp restImage
  obtain ⟨front, rest, rfl, rfl, restKept⟩ := List.filter_eq_append_iff.mp keptSplit
  obtain ⟨dropped, back, rfl, allDropped, isKept, rfl⟩ := List.filter_eq_cons_iff.mp restKept
  refine ⟨front ++ dropped, value, back, by simp, isKept, rfl, ?_, ?_⟩
  · intro other member otherKept
    rcases List.mem_append.mp member with inFront | isDropped
    · exact selected.earlier _
        (List.mem_map_of_mem (List.mem_filter.mpr ⟨inFront, otherKept⟩))
    · exact absurd otherKept (allDropped other isDropped)
  · intro other member otherKept
    exact selected.later _ (List.mem_map_of_mem (List.mem_filter.mpr ⟨member, otherKept⟩))

end ScanSelection
