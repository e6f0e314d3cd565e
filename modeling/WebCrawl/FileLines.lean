import WebCrawl.CString

/-!
# Reading a file line by line

`addFileToMaps`, `getFileOfPaths` and `inputString` read a line in the same way:
character by character into a buffer, which is extended as soon as it is full.
They differ in what becomes of its size, and in whether `realloc` can refuse.
A file has the lines between its newlines, so the last line may be empty.
-/

namespace WebCrawl

def isNewline (ch : Char) : Bool :=
  ch = '\n'

def fileLines (file : List Char) : List (List Char) :=
  file.splitOnP isNewline

/-- A line that was read: what the buffer holds before its terminator, whether
the file ended, and what is left of the file. -/
structure FileLine where
  str : List Char
  size : Nat
  atEnd : Bool
  file : List Char
  deriving DecidableEq

/-- The store of the terminator after the loop. -/
def terminateLine (size : Nat) (str : List Char) (atEnd : Bool) (file : List Char) :
    Outcome (Option FileLine) :=
  if size ≤ str.length then .faults else .returns (some ⟨str, size, atEnd, file⟩)

/-- The loop over the characters of a line.  There is no line when `realloc`
refuses. -/
def readLoop (grow : Nat → Option Nat) :
    List Char → Nat → List Char → Outcome (Option FileLine)
  | [], size, str => terminateLine size str true []
  | ch :: file, size, str =>
      if isNewline ch then terminateLine size str false file
      else if size ≤ str.length then .faults
      else
        let str := str ++ [ch]
        if str.length = size then
          match grow size with
          | none => .returns none
          | some size => readLoop grow file size str
        else readLoop grow file size str

def readLine (grow : Nat → Option Nat) (size : Nat) (file : List Char) :
    Outcome (Option FileLine) :=
  readLoop grow file size []

/-- `size += 16` for a `size_t`. -/
def growSize (size : Nat) : Option Nat :=
  some (size + 16)

/-- `size += 16` for an `int`, which turns negative, so that `realloc` refuses. -/
def growInt (size : Nat) : Option Nat :=
  if size + 16 < 2 ^ 31 then some (size + 16) else none

/-- What follows a line: nothing, or a newline and the rest of the file. -/
def lineEnd : Option (List Char) → List Char
  | none => []
  | some rest => '\n' :: rest

section Lines

variable {line : List Char}

theorem fileLines_last (noNewline : ∀ ch ∈ line, isNewline ch = false) :
    fileLines line = [line] :=
  List.splitOnP_eq_singleton noNewline

theorem fileLines_next (noNewline : ∀ ch ∈ line, isNewline ch = false)
    (rest : List Char) : fileLines (line ++ '\n' :: rest) = line :: fileLines rest :=
  List.splitOnP_append_cons_of_forall_mem noNewline '\n' rfl rest

/-- A file is its last line, or a line that a newline ends and the rest. -/
theorem line_cases (file : List Char) :
    ∃ line ending, file = line ++ lineEnd ending ∧ ∀ ch ∈ line, isNewline ch = false := by
  induction file with
  | nil => exact ⟨[], none, rfl, by simp⟩
  | cons ch file ih =>
      cases newline : isNewline ch with
      | true =>
          refine ⟨[], some file, ?_, by simp⟩
          have isEnd : ch = '\n' := by simpa [isNewline] using newline
          rw [isEnd, List.nil_append, lineEnd]
      | false =>
          obtain ⟨line, ending, rfl, noNewline⟩ := ih
          exact ⟨ch :: line, ending, rfl, List.forall_mem_cons.mpr ⟨newline, noNewline⟩⟩

/-- What holds of a last line, and of a file with one line more, holds of every
file. -/
@[elab_as_elim]
theorem line_induction {motive : List Char → Prop} (file : List Char)
    (last : ∀ line, (∀ ch ∈ line, isNewline ch = false) → motive line)
    (next : ∀ line rest, (∀ ch ∈ line, isNewline ch = false) → motive rest →
      motive (line ++ '\n' :: rest)) : motive file := by
  induction size : file.length using Nat.strong_induction_on generalizing file with
  | _ length ih =>
      obtain ⟨line, ending, rfl, noNewline⟩ := line_cases file
      cases ending with
      | none =>
          rw [lineEnd, List.append_nil]
          exact last line noNewline
      | some rest =>
          refine next line rest noNewline (ih rest.length ?_ rest rfl)
          rw [← size, lineEnd, List.length_append, List.length_cons]
          omega

theorem mem_of_mem_fileLines {file : List Char} {ch : Char}
    (isLine : line ∈ fileLines file) (member : ch ∈ line) : ch ∈ file := by
  induction file using line_induction with
  | last last noNewline =>
      rw [fileLines_last noNewline, List.mem_singleton] at isLine
      exact isLine ▸ member
  | next first rest noNewline ih =>
      rw [fileLines_next noNewline, List.mem_cons] at isLine
      rcases isLine with rfl | later
      · exact List.mem_append_left _ member
      · exact List.mem_append_right _ (List.mem_cons_of_mem _ (ih later))

end Lines

section Reading

variable {grow : Nat → Option Nat} {size : Nat} {line str : List Char}

theorem readLoop_end (room : str.length < size) (ending : Option (List Char)) :
    readLoop grow (lineEnd ending) size str =
      .returns (some ⟨str, size, ending.isNone, ending.getD []⟩) := by
  have stored : ¬ size ≤ str.length := by omega
  cases ending with
  | none => simp [lineEnd, readLoop, terminateLine, stored]
  | some rest => simp [lineEnd, readLoop, terminateLine, isNewline, stored]

theorem readLoop_char {ch : Char} (letter : isNewline ch = false)
    (room : str.length < size) (file : List Char) :
    readLoop grow (ch :: file) size str =
      if str.length + 1 = size then
        match grow size with
        | none => .returns none
        | some size => readLoop grow file size (str ++ [ch])
      else readLoop grow file size (str ++ [ch]) := by
  have stored : ¬ size ≤ str.length := by omega
  simp only [readLoop, letter, Bool.false_eq_true, ↓reduceIte, stored,
    List.length_append, List.length_cons, List.length_nil, Nat.zero_add]

/-- A line is read when the buffer can grow as long as the line lasts. -/
theorem readLoop_reads {valid : Nat → Prop} {length : Nat}
    (grows : ∀ size, valid size → size ≤ length →
      ∃ next, grow size = some next ∧ size < next ∧ valid next)
    (noNewline : ∀ ch ∈ line, isNewline ch = false)
    (within : str.length + line.length ≤ length) (room : str.length < size)
    (validSize : valid size) (ending : Option (List Char)) :
    ∃ last, valid last ∧ readLoop grow (line ++ lineEnd ending) size str =
      .returns (some ⟨str ++ line, last, ending.isNone, ending.getD []⟩) := by
  induction line generalizing str size with
  | nil => exact ⟨size, validSize, by simpa using readLoop_end room ending⟩
  | cons ch line ih =>
      rw [List.forall_mem_cons] at noNewline
      rw [List.length_cons] at within
      have longer : (str ++ [ch]).length = str.length + 1 := List.length_append
      have stillWithin : (str ++ [ch]).length + line.length ≤ length := by omega
      have together : str ++ ch :: line = str ++ [ch] ++ line := by simp
      rw [List.cons_append, readLoop_char noNewline.1 room, together]
      by_cases full : str.length + 1 = size
      · obtain ⟨next, granted, larger, validNext⟩ := grows size validSize (by omega)
        simp only [if_pos full, granted]
        exact ih noNewline.2 stillWithin (by omega) validNext
      · simp only [if_neg full]
        exact ih noNewline.2 stillWithin (by omega) validSize

/-- With a `size_t` every line is read. -/
theorem readLine_growSize (positive : 0 < size)
    (noNewline : ∀ ch ∈ line, isNewline ch = false) (ending : Option (List Char)) :
    ∃ next, 0 < next ∧ readLine growSize size (line ++ lineEnd ending) =
      .returns (some ⟨line, next, ending.isNone, ending.getD []⟩) := by
  have grows : ∀ size, 0 < size → size ≤ line.length →
      ∃ next, growSize size = some next ∧ size < next ∧ 0 < next := by
    intro size _ _
    exact ⟨size + 16, rfl, by omega, by omega⟩
  have within : ([] : List Char).length + line.length ≤ line.length := by simp
  exact readLoop_reads grows noNewline within positive positive ending

/-- The sizes that a buffer has when it starts with 16 and an `int` counts. -/
structure BlockSize (size : Nat) : Prop where
  blocks : 16 ∣ size
  positive : 0 < size
  isInt : size < 2 ^ 31

theorem BlockSize.grows (blockSize : BlockSize size) :
    growInt size = some (size + 16) ∧ BlockSize (size + 16) ∨
      growInt size = none ∧ size = 2 ^ 31 - 16 := by
  obtain ⟨⟨blocks, rfl⟩, positive, isInt⟩ := blockSize
  by_cases within : 16 * blocks + 16 < 2 ^ 31
  · exact Or.inl ⟨if_pos within, by omega, by omega, within⟩
  · exact Or.inr ⟨if_neg within, by omega⟩

/-- The longest line that is read when an `int` has the size of the buffer has
2147483631 characters. -/
theorem readLine_growInt (blockSize : BlockSize size)
    (noNewline : ∀ ch ∈ line, isNewline ch = false) (short : line.length < 2 ^ 31 - 16)
    (ending : Option (List Char)) :
    ∃ next, BlockSize next ∧ readLine growInt size (line ++ lineEnd ending) =
      .returns (some ⟨line, next, ending.isNone, ending.getD []⟩) := by
  have grows : ∀ size, BlockSize size → size ≤ line.length →
      ∃ next, growInt size = some next ∧ size < next ∧ BlockSize next := by
    intro size valid within
    rcases valid.grows with ⟨granted, next⟩ | ⟨_, largest⟩
    · exact ⟨size + 16, granted, by omega, next⟩
    · omega
  have within : ([] : List Char).length + line.length ≤ line.length := by simp
  exact readLoop_reads grows noNewline within blockSize.positive blockSize ending

theorem readLoop_refused (blockSize : BlockSize size)
    (noNewline : ∀ ch ∈ line, isNewline ch = false) (room : str.length < size)
    (long : 2 ^ 31 - 16 ≤ str.length + line.length) (more : List Char) :
    readLoop growInt (line ++ more) size str = .returns none := by
  induction line generalizing str size with
  | nil =>
      obtain ⟨⟨blocks, rfl⟩, _, isInt⟩ := blockSize
      rw [List.length_nil] at long
      omega
  | cons ch line ih =>
      rw [List.forall_mem_cons] at noNewline
      rw [List.length_cons] at long
      have longer : (str ++ [ch]).length = str.length + 1 := List.length_append
      have stillLong : 2 ^ 31 - 16 ≤ (str ++ [ch]).length + line.length := by omega
      rw [List.cons_append, readLoop_char noNewline.1 room]
      by_cases full : str.length + 1 = size
      · rcases blockSize.grows with ⟨granted, next⟩ | ⟨refused, _⟩
        · simp only [if_pos full, granted]
          exact ih next noNewline.2 (by omega) stillLong
        · simp only [if_pos full, refused]
      · rw [if_neg full]
        exact ih blockSize noNewline.2 (by omega) stillLong

theorem readLine_refused (blockSize : BlockSize size)
    (noNewline : ∀ ch ∈ line, isNewline ch = false) (long : 2 ^ 31 - 16 ≤ line.length)
    (more : List Char) : readLine growInt size (line ++ more) = .returns none :=
  @readLoop_refused size line [] blockSize noNewline blockSize.positive
    (by simpa using long) more

end Reading

end WebCrawl
