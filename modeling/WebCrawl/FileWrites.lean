import Mathlib.Data.List.Basic

/-!
# Writing files piece by piece

A file that is open for writing has an offset of its own: a write stores the
next piece of the writer's text there, whatever else has become of the file, and
what lies between its end and the offset becomes holes.  So a writer that has
the file for itself leaves a first part of its text, and several that open the
same file leave, at each place, a hole or what one of their texts has there.
-/

namespace FileWrites

variable {α : Type*} {hole : α} {file text : List α} {offset count : Nat}

def writeAt (hole : α) (file : List α) (offset : Nat) (piece : List α) : List α :=
  (file.take offset).rightpad offset hole ++ piece ++ file.drop (offset + piece.length)

theorem getElem?_writeAt (piece : List α) (place : Nat) :
    (writeAt hole file offset piece)[place]? =
      if place < offset then some (file[place]?.getD hole)
      else if place < offset + piece.length then piece[place - offset]?
      else file[place]? := by
  have length : ((file.take offset).rightpad offset hole).length = offset := by
    rw [List.length_rightpad, List.length_take]
    omega
  rw [writeAt, List.append_assoc, List.getElem?_append, length]
  split_ifs with before inside
  · rw [List.rightpad, List.getElem?_append, List.length_take]
    split_ifs with within
    · rw [List.getElem?_take_of_lt before,
        List.getElem?_eq_getElem (by omega : place < file.length)]
      rfl
    · rw [List.getElem?_replicate, if_pos (by omega),
        List.getElem?_eq_none (by omega : file.length ≤ place)]
      rfl
  · rw [List.getElem?_append_left (by omega)]
  · rw [List.getElem?_append_right (by omega), List.getElem?_drop]
    congr 1
    omega

/-- The next piece goes behind the first part of the same text. -/
theorem writeAt_part (within : offset ≤ text.length) :
    writeAt hole (text.take offset) offset ((text.drop offset).take count) =
      text.take (offset + count) := by
  have nothingBehind : (text.take offset).drop
      (offset + ((text.drop offset).take count).length) = [] :=
    List.drop_eq_nil_of_le (by rw [List.length_take]; omega)
  have noHole : offset - (text.take offset).length = 0 := by
    rw [List.length_take]
    omega
  rw [writeAt, nothingBehind, List.append_nil, List.take_take, Nat.min_self, List.rightpad,
    noHole, List.replicate_zero, List.append_nil, List.take_add]

/-- At each place the file has a hole or what one of the texts has there. -/
def Mixes (hole : α) (texts : List α → Prop) (file : List α) : Prop :=
  ∀ (place : Nat) value, file[place]? = some value →
    value = hole ∨ ∃ text, texts text ∧ text[place]? = some value

variable {texts more : List α → Prop}

theorem mixes_nil : Mixes hole texts [] := by
  intro place value found
  cases found

theorem Mixes.mono (mixes : Mixes hole texts file) (subset : ∀ text, texts text → more text) :
    Mixes hole more file := by
  intro place value found
  exact (mixes place value found).imp id fun ⟨text, isText, same⟩ =>
    ⟨text, subset text isText, same⟩

theorem Mixes.writeAt (mixes : Mixes hole texts file) (isText : texts text) :
    Mixes hole texts (writeAt hole file offset ((text.drop offset).take count)) := by
  intro place value found
  rw [getElem?_writeAt] at found
  split_ifs at found with before inside
  · cases old : file[place]? with
    | none =>
        rw [old] at found
        exact Or.inl (Option.some.inj found).symm
    | some stored =>
        rw [old] at found
        cases found
        exact mixes place stored old
  · rw [List.length_take] at inside
    rw [List.getElem?_take_of_lt (by omega), List.getElem?_drop,
      Nat.add_sub_cancel' (by omega)] at found
    exact Or.inr ⟨text, isText, found⟩
  · exact mixes place value found

end FileWrites
