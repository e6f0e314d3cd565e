import WebCrawl.ConnectionQueue
import Mathlib.Data.Int.Order.Basic

/-!
# The socket queue as a list

A well-formed queue stores the list that its two indices delimit in the ring.
`Queue_push` appends to that list and `Queue_pop` removes its first element;
the fullness test leaves one cell of the ring free.
-/

namespace WebCrawl

namespace Queue

/-- Both indices point into a block of `size` cells. -/
structure WellFormed (oura : Queue) : Prop where
  embros_nonneg : 0 ≤ oura.embros
  embros_lt : oura.embros < oura.size
  piso_nonneg : 0 ≤ oura.piso
  piso_lt : oura.piso < oura.size
  length_buffer : oura.buffer.length = oura.size.toNat

def cells (oura : Queue) (index : Nat) : Cell :=
  (oura.buffer[index]?).join

def stored (oura : Queue) : Nat :=
  RingBuffer.used oura.size.toNat oura.embros.toNat oura.piso.toNat

/-- The stored elements, oldest first. -/
def contents (oura : Queue) : List Cell :=
  RingBuffer.window oura.cells oura.size.toNat oura.embros.toNat oura.stored

@[simp]
theorem contents_length (oura : Queue) :
    oura.contents.length = oura.stored := by
  simp [contents]

theorem create_wellFormed {size : Int} (positive : 0 < size) :
    (create size).WellFormed where
  embros_nonneg := le_refl _
  embros_lt := positive
  piso_nonneg := le_refl _
  piso_lt := positive
  length_buffer := by simp [create]

@[simp]
theorem contents_create (size : Int) : (create size).contents = [] := by
  simp [contents, stored, create, RingBuffer.used]

variable {oura : Queue}

theorem WellFormed.embros_toNat_lt (wellFormed : oura.WellFormed) :
    oura.embros.toNat < oura.size.toNat := by
  have nonneg := wellFormed.embros_nonneg
  have below := wellFormed.embros_lt
  omega

theorem WellFormed.piso_toNat_lt (wellFormed : oura.WellFormed) :
    oura.piso.toNat < oura.size.toNat := by
  have nonneg := wellFormed.piso_nonneg
  have below := wellFormed.piso_lt
  omega

/-- The truncated remainder of the source is the wrapping step of the ring. -/
theorem next_eq {index : Int} (nonneg : 0 ≤ index) (below : index < oura.size) :
    oura.next index =
      some (RingBuffer.advance oura.size.toNat index.toNat : Int) := by
  have sizeNonzero : oura.size ≠ 0 := by omega
  have remainder : (index + 1).tmod oura.size =
      (RingBuffer.advance oura.size.toNat index.toNat : Int) := by
    rw [Int.tmod_eq_emod_of_nonneg (by omega), RingBuffer.advance,
      Int.natCast_mod]
    congr 1 <;> omega
  rw [next, if_neg sizeNonzero, remainder]

theorem empty_iff (wellFormed : oura.WellFormed) :
    oura.empty = true ↔ oura.contents = [] := by
  have embrosNonneg := wellFormed.embros_nonneg
  have pisoNonneg := wellFormed.piso_nonneg
  rw [← List.length_eq_zero_iff, contents_length, stored,
    RingBuffer.used_eq_zero_iff wellFormed.embros_toNat_lt, empty,
    decide_eq_true_eq]
  omega

theorem full_eq (wellFormed : oura.WellFormed) :
    oura.full = some (decide (oura.contents.length + 1 = oura.size.toNat)) := by
  have embrosNonneg := wellFormed.embros_nonneg
  have isFull := RingBuffer.advance_eq_head_iff wellFormed.embros_toNat_lt
    wellFormed.piso_toNat_lt
  rw [full, next_eq wellFormed.piso_nonneg wellFormed.piso_lt,
    contents_length, stored]
  simp only [Option.bind_eq_bind, Option.bind_some, Option.pure_def,
    Option.some.injEq, decide_eq_decide]
  rw [← isFull]
  omega

theorem push_of_full (isFull : oura.full = some true) (element : Cell) :
    oura.push element = some (false, oura) := by
  simp [push, isFull]

/-- Storing an element changes one cell of the ring. -/
theorem cells_set {place : Nat} (inBlock : place < oura.buffer.length) (element : Cell)
    (piso : Int) :
    cells { oura with buffer := oura.buffer.set place element, piso := piso } =
      Function.update oura.cells place element := by
  funext index
  by_cases same : index = place
  · subst index
    simp [cells, inBlock]
  · simp [cells, Function.update_of_ne same, Ne.symm same]

/-- The element is stored behind the others, as long as one cell stays free. -/
theorem contents_set (wellFormed : oura.WellFormed)
    (roomLeft : oura.stored + 1 < oura.size.toNat) (element : Cell) :
    contents { oura with
      buffer := oura.buffer.set oura.piso.toNat element
      piso := (RingBuffer.advance oura.size.toNat oura.piso.toNat : Int) } =
      oura.contents ++ [element] := by
  have pisoInside := wellFormed.piso_toNat_lt
  have tailEq : oura.piso.toNat =
      (oura.embros.toNat + oura.stored) % oura.size.toNat :=
    (RingBuffer.head_add_used wellFormed.embros_toNat_lt pisoInside).symm
  have storedEq : stored { oura with
      buffer := oura.buffer.set oura.piso.toNat element
      piso := (RingBuffer.advance oura.size.toNat oura.piso.toNat : Int) } = oura.stored + 1 :=
    RingBuffer.used_advance_tail wellFormed.embros_toNat_lt pisoInside roomLeft
  rw [contents, contents, cells_set (by rwa [wellFormed.length_buffer]), storedEq, tailEq,
    RingBuffer.window_update _ _ (Nat.lt_of_succ_lt roomLeft)]

theorem roomLeft_of_not_full (wellFormed : oura.WellFormed) (room : oura.full = some false) :
    oura.stored + 1 < oura.size.toNat := by
  have below := RingBuffer.used_lt wellFormed.embros_toNat_lt wellFormed.piso_toNat_lt
  rw [full_eq wellFormed, contents_length] at room
  have notFull : oura.stored + 1 ≠ oura.size.toNat := by simpa using room
  unfold stored at notFull ⊢
  omega

theorem push_of_room (wellFormed : oura.WellFormed)
    (room : oura.full = some false) (element : Cell) :
    ∃ after, oura.push element = some (true, after) ∧ after.WellFormed ∧
      after.contents = oura.contents ++ [element] ∧
      after.size = oura.size := by
  have pisoNonneg := wellFormed.piso_nonneg
  have pisoLt := wellFormed.piso_lt
  have lengthEq := wellFormed.length_buffer
  refine ⟨{ oura with
    buffer := oura.buffer.set oura.piso.toNat element
    piso := (RingBuffer.advance oura.size.toNat oura.piso.toNat : Int) },
    ?_, ?_, contents_set wellFormed (roomLeft_of_not_full wellFormed room) element, rfl⟩
  · have inBlock : 0 ≤ oura.piso ∧ oura.piso < oura.buffer.length := by omega
    simp [push, room, inBlock, next_eq pisoNonneg pisoLt]
  · have advanced := RingBuffer.advance_lt wellFormed.piso_toNat_lt
    exact
      { embros_nonneg := wellFormed.embros_nonneg
        embros_lt := wellFormed.embros_lt
        piso_nonneg := by simp
        piso_lt := by simp only; omega
        length_buffer := by simpa using lengthEq }

theorem pop_of_empty (isEmpty : oura.empty = true) (element : Cell) :
    oura.pop element = some (false, element, oura) := by
  simp [pop, isEmpty]

theorem pop_of_nonempty (wellFormed : oura.WellFormed)
    (nonempty : oura.empty = false) (element : Cell) :
    ∃ value after, oura.pop element = some (true, value, after) ∧
      after.WellFormed ∧ oura.contents = value :: after.contents ∧
      after.size = oura.size := by
  have embrosNonneg := wellFormed.embros_nonneg
  have embrosLt := wellFormed.embros_lt
  have embrosInside := wellFormed.embros_toNat_lt
  have lengthEq := wellFormed.length_buffer
  have someStored : 0 < oura.stored := by
    apply Nat.pos_of_ne_zero
    intro noneStored
    have isEmpty := (empty_iff wellFormed).mpr
      (List.eq_nil_of_length_eq_zero (by simpa using noneStored))
    simp [isEmpty] at nonempty
  have storedEq := RingBuffer.used_advance_head embrosInside
    wellFormed.piso_toNat_lt someStored
  refine ⟨oura.cells oura.embros.toNat, { oura with
    embros := (RingBuffer.advance oura.size.toNat oura.embros.toNat : Int) },
    ?_, ?_, ?_, rfl⟩
  · have inBlock : 0 ≤ oura.embros ∧ oura.embros < oura.buffer.length := by
      omega
    simp [pop, nonempty, inBlock, next_eq embrosNonneg embrosLt, cells]
  · have advanced := RingBuffer.advance_lt embrosInside
    exact
      { embros_nonneg := by simp
        embros_lt := by simp only; omega
        piso_nonneg := wellFormed.piso_nonneg
        piso_lt := wellFormed.piso_lt
        length_buffer := lengthEq }
  · unfold contents stored
    simp only [Int.toNat_natCast]
    rw [← storedEq, RingBuffer.window_succ _ embrosInside]
    rfl

/-- A push that returns 0 changes nothing, and one that returns 1 only its cell
and `piso`. -/
theorem push_changes {after : Queue} {element : Cell} {pushed : Bool}
    (call : oura.push element = some (pushed, after)) :
    (pushed = false ∧ after = oura) ∨
      (pushed = true ∧ ∃ piso, after = { oura with
        buffer := oura.buffer.set oura.piso.toNat element, piso := piso }) := by
  unfold push at call
  obtain ⟨full, _, call⟩ := Option.bind_eq_some_iff.mp call
  split at call
  · cases call
    exact Or.inl ⟨rfl, rfl⟩
  split at call
  · obtain ⟨piso, _, call⟩ := Option.bind_eq_some_iff.mp call
    cases call
    exact Or.inr ⟨rfl, piso, rfl⟩
  · cases call

theorem pop_changes {after : Queue} {element value : Cell} {popped : Bool}
    (call : oura.pop element = some (popped, value, after)) :
    (popped = false ∧ value = element ∧ after = oura) ∨
      (popped = true ∧ ∃ embros, after = { oura with embros := embros }) := by
  unfold pop at call
  split at call
  · cases call
    exact Or.inl ⟨rfl, rfl, rfl⟩
  split at call
  · obtain ⟨embros, _, call⟩ := Option.bind_eq_some_iff.mp call
    cases call
    exact Or.inr ⟨rfl, embros, rfl⟩
  · cases call

theorem WellFormed.push_defined (wellFormed : oura.WellFormed)
    (element : Cell) :
    ∃ pushed after, oura.push element = some (pushed, after) ∧
      after.WellFormed ∧ after.size = oura.size := by
  cases isFull : decide (oura.contents.length + 1 = oura.size.toNat) with
  | true =>
      have refuses := push_of_full (by rw [full_eq wellFormed, isFull]) element
      exact ⟨_, _, refuses, wellFormed, rfl⟩
  | false =>
      obtain ⟨after, stores, afterWellFormed, _, sameSize⟩ :=
        push_of_room wellFormed (by rw [full_eq wellFormed, isFull]) element
      exact ⟨_, after, stores, afterWellFormed, sameSize⟩

theorem WellFormed.pop_defined (wellFormed : oura.WellFormed)
    (element : Cell) :
    ∃ popped value after, oura.pop element = some (popped, value, after) ∧
      after.WellFormed ∧ after.size = oura.size := by
  cases isEmpty : oura.empty with
  | true => exact ⟨_, _, _, pop_of_empty isEmpty element, wellFormed, rfl⟩
  | false =>
      obtain ⟨value, after, yields, afterWellFormed, _, sameSize⟩ :=
        pop_of_nonempty wellFormed isEmpty element
      exact ⟨_, value, after, yields, afterWellFormed, sameSize⟩

end Queue

end WebCrawl
