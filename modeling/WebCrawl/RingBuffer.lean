import Mathlib.Data.List.Basic
import Mathlib.Data.List.Range
import Mathlib.Data.Nat.ModEq
import Mathlib.Logic.Function.Basic

/-!
# Ring buffers with one cell left free

A ring of `size` cells keeps its elements from the index `head` up to the
index `tail`, wrapping at the end, so that equal indices mean an empty ring and
a ring is full when one more element would make them equal.  The stored list
is read off as a window, and writing at `tail` or advancing `head` is appending
to that list or dropping its first element.
-/

namespace RingBuffer

variable {α : Type*}

/-- The contents of `count` cells from `start` on, wrapping at `size`. -/
def window (cells : Nat → α) (size start count : Nat) : List α :=
  (List.range count).map fun offset => cells ((start + offset) % size)

/-- The number of cells in use between the two indices. -/
def used (size head tail : Nat) : Nat :=
  if head ≤ tail then tail - head else tail + size - head

def advance (size index : Nat) : Nat :=
  (index + 1) % size

@[simp]
theorem window_zero (cells : Nat → α) (size start : Nat) :
    window cells size start 0 = [] :=
  rfl

@[simp]
theorem window_length (cells : Nat → α) (size start count : Nat) :
    (window cells size start count).length = count := by
  simp [window]

theorem mod_eq_ite {size index : Nat} (once : index < 2 * size) :
    index % size = if index < size then index else index - size := by
  split
  next inside => exact Nat.mod_eq_of_lt inside
  next outside =>
    rw [Nat.mod_eq_sub_mod (by omega), Nat.mod_eq_of_lt (by omega)]

section Indices

variable {size head tail : Nat}

theorem advance_lt (inside : tail < size) : advance size tail < size :=
  Nat.mod_lt _ (by omega)

theorem advance_eq_ite (inside : tail < size) :
    advance size tail = if tail + 1 < size then tail + 1 else 0 := by
  rw [advance, mod_eq_ite (by omega)]
  split <;> omega

theorem used_lt (headInside : head < size) (tailInside : tail < size) :
    used size head tail < size := by
  unfold used
  split <;> omega

theorem used_eq_zero_iff (headInside : head < size) :
    used size head tail = 0 ↔ head = tail := by
  unfold used
  split <;> omega

/-- The fullness test of the two indices: every cell but one is in use. -/
theorem advance_eq_head_iff (headInside : head < size)
    (tailInside : tail < size) :
    advance size tail = head ↔ used size head tail + 1 = size := by
  rw [advance_eq_ite tailInside]
  unfold used
  split <;> split <;> omega

theorem head_add_used (headInside : head < size) (tailInside : tail < size) :
    (head + used size head tail) % size = tail := by
  have small := used_lt headInside tailInside
  rw [mod_eq_ite (by omega)]
  unfold used
  split <;> split <;> omega

theorem used_advance_tail (headInside : head < size) (tailInside : tail < size)
    (room : used size head tail + 1 < size) :
    used size head (advance size tail) = used size head tail + 1 := by
  rw [advance_eq_ite tailInside]
  unfold used at room ⊢
  split at room <;> split <;> split <;> omega

theorem used_advance_head (headInside : head < size) (tailInside : tail < size)
    (nonempty : 0 < used size head tail) :
    used size (advance size head) tail + 1 = used size head tail := by
  rw [advance_eq_ite headInside]
  unfold used at nonempty ⊢
  split at nonempty <;> split <;> split <;> omega

end Indices

section Windows

variable {size start count : Nat}

/-- A write just behind the window appends to it: no cell of the window is
overwritten as long as the ring has room. -/
theorem window_update (cells : Nat → α) (value : α) (room : count < size) :
    window (Function.update cells ((start + count) % size) value) size start
        (count + 1) =
      window cells size start count ++ [value] := by
  have untouched : ∀ offset ∈ List.range count,
      Function.update cells ((start + count) % size) value
          ((start + offset) % size) =
        cells ((start + offset) % size) := by
    intro offset offsetMem
    have before : offset < count := List.mem_range.mp offsetMem
    apply Function.update_of_ne
    intro sameCell
    have wraps : offset ≡ count [MOD size] :=
      Nat.ModEq.add_left_cancel' start sameCell
    have equal := Nat.ModEq.eq_of_lt_of_lt wraps (by omega) room
    omega
  rw [window, List.range_succ, List.map_append, List.map_congr_left untouched]
  simp [window]

theorem window_succ (cells : Nat → α) (inside : start < size) :
    window cells size start (count + 1) =
      cells start :: window cells size (advance size start) count := by
  have shifted : ∀ offset ∈ List.range count,
      cells ((start + (offset + 1)) % size) =
        cells ((advance size start + offset) % size) := by
    intro offset _
    rw [advance, Nat.mod_add_mod]
    congr 2
    omega
  rw [window, List.range_succ_eq_map, List.map_cons, List.map_map, window,
    Nat.add_zero, Nat.mod_eq_of_lt inside]
  congr 1
  exact List.map_congr_left shifted

end Windows

end RingBuffer
