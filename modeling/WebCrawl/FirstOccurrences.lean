import Mathlib.Data.List.Induction
import Mathlib.Data.List.Nodup

/-!
# First occurrences

`List.eraseDups` keeps each element of a list at its first occurrence.  A loop
that takes up what it has not met yet builds this list from the front, one
element of the input at a time.
-/

namespace FirstOccurrences

variable {α : Type*} [DecidableEq α]

theorem eraseDups_concat (values : List α) (value : α) :
    (values ++ [value]).eraseDups =
      if value ∈ values then values.eraseDups else values.eraseDups ++ [value] := by
  rw [List.eraseDups_append]
  by_cases met : value ∈ values
  · simp [List.removeAll, met]
  · simp [List.removeAll, met, List.eraseDups_cons]

theorem nodup_eraseDups (values : List α) : values.eraseDups.Nodup := by
  induction values using List.reverseRecOn with
  | nil => simp
  | append_singleton values value ih =>
      rw [eraseDups_concat]
      split
      next => exact ih
      next new =>
        rw [List.nodup_append]
        refine ⟨ih, List.nodup_singleton value, ?_⟩
        rintro met metMem _ valueMem rfl
        rw [List.mem_singleton.mp valueMem] at metMem
        exact new (List.mem_eraseDups.mp metMem)

/-- Put a value in front of a list unless it is known or in the list. -/
def takeUp (known listed : List α) (value : α) : List α :=
  if value ∈ known ∨ value ∈ listed then listed else value :: listed

/-- Taking up values one by one puts the new ones in front, each at its first
occurrence and the last one first. -/
theorem foldl_takeUp (known listed values : List α) :
    values.foldl (takeUp known) listed =
      (values.filter fun value => value ∉ known ∧ value ∉ listed).eraseDups.reverse ++
        listed := by
  induction values using List.reverseRecOn with
  | nil => simp
  | append_singleton values value ih =>
      rw [List.foldl_concat, ih, takeUp, List.filter_append]
      by_cases old : value ∈ known ∨ value ∈ listed
      · have dropped : [value].filter (fun value => value ∉ known ∧ value ∉ listed) = [] := by
          simpa [or_iff_not_imp_left] using old
        rw [dropped, List.append_nil, if_pos]
        exact old.imp_right (List.mem_append_right _)
      · have kept : [value].filter (fun value => value ∉ known ∧ value ∉ listed) =
            [value] := by
          simpa [not_or] using old
        rw [kept, eraseDups_concat]
        rw [not_or] at old
        by_cases met : value ∈ values
        · simp [met, old]
        · simp [met, old]

end FirstOccurrences
