import WebCrawl.FileLines
import WebCrawl.TextIndex

/-!
# Files with numbered lines

`addFileToMaps` wants the number of each line before its first blank.  It copies
the number without a terminator and does not test whether there is a blank, so
it reads on behind a number that fills its place, and it cannot do without a
blank.  Numbers that leave the range of an `int` wrap around, and the memory for
the copy and the texts is there.
-/

namespace WebCrawl

/-- What `addFileToMaps` returns and leaves behind. -/
structure TextMap where
  texts : List Text
  N : Int
  bytes : Int
  deriving DecidableEq

/-- Whether `atoi` stops before the end of the characters. -/
def numberEnds (table : List Char) : Bool :=
  match table.dropWhile isspace with
  | '-' :: digits | '+' :: digits => !digits.all Char.isDigit
  | digits => !digits.all Char.isDigit

/-- `atoi` of characters with nothing behind them. -/
def atoiWithin (table : List Char) : Outcome Int :=
  if numberEnds table then .returns (atoi table) else .faults

/-- The number and the content of a line; there is none when the number is not
the next one. -/
def numberedText (str : List Char) (check : Int) : Outcome (Option Text) :=
  match str.dropWhile (!isBlank ·) with
  | [] => .faults
  | _ :: rest => do
      let number ← atoiWithin (str.takeWhile (!isBlank ·))
      if toInt (number - 1) ≠ check then return none
      else return some (newText (CString.ofBlock rest))

/-- The loop over the lines: `check` is the number of the last one. -/
def readTexts : Nat → List Char → Nat → Int → List Text → Int → Outcome (Option TextMap)
  | 0, _, _, _, _, _ => .unfinished
  | fuel + 1, file, size, check, texts, bytes => do
      match ← readLine growInt size file with
      | none => return none
      | some line =>
          let bytes := toInt (bytes + line.str.length)
          match ← numberedText (cstr (line.str ++ ['\x00'])) check with
          | none => return none
          | some text =>
              let check := toInt (check + 1)
              let texts := texts ++ [text]
              if line.atEnd then return some ⟨texts, toInt (check + 1), bytes⟩
              else readTexts fuel line.file line.size check texts bytes

/-- The file is `none` when it cannot be opened. -/
def addFileToMaps (fuel : Nat) (fileName : Option (List Char)) (bytes : Int) :
    Outcome (Option TextMap) :=
  match fileName with
  | none => .returns none
  | some file => readTexts fuel file 16 (-1) [] bytes

/-- Every line is its number, a blank and a rest. -/
def NumberedLines (lines rests : List (List Char)) : Prop :=
  lines.length = rests.length ∧
    ∀ (k : Nat) (line rest : List Char), lines[k]? = some line → rests[k]? = some rest →
      ∃ blank, isBlank blank = true ∧ line = decimal k ++ blank :: rest

/-- Numbered files are accepted with the rests of their lines, and all others
are refused. -/
structure AcceptsNumbered (file : List Char) (bytes : Int)
    (result : Outcome (Option TextMap)) : Prop where
  accepts : ∀ rests, NumberedLines (fileLines file) rests →
    ∃ map, result = .returns (some map) ∧ map.texts.map (·.content.chars) = rests ∧
      map.N = rests.length ∧ map.bytes = bytes + (file.filter (!isNewline ·)).length
  refuses : (∀ rests, ¬ NumberedLines (fileLines file) rests) → result = .returns none

/-- What is before the first blank of a line. -/
def lineLabel (line : List Char) : List Char :=
  (cstr line).takeWhile (!isBlank ·)

/-- A line that the buffer holds, with a blank behind a number that ends before
it. -/
structure ReadableLine (line : List Char) : Prop where
  fits : line.length < 2 ^ 31 - 16
  hasBlank : ∃ ch ∈ cstr line, isBlank ch = true
  ends : numberEnds (lineLabel line) = true

/-- A line too long for the buffer, or one with another number. -/
def RefusedLine (k : Nat) (line : List Char) : Prop :=
  2 ^ 31 - 16 ≤ line.length ∨ ReadableLine line ∧ atoi (lineLabel line) ≠ toInt k

def PassedLine (k : Nat) (line : List Char) : Prop :=
  ReadableLine line ∧ atoi (lineLabel line) = toInt k

/-- A line is refused after lines that pass; the first has number `k`. -/
def RefusedFrom : Nat → List (List Char) → Prop
  | _, [] => False
  | k, line :: lines => RefusedLine k line ∨ PassedLine k line ∧ RefusedFrom (k + 1) lines

section Reading

variable {file line : List Char} {size k : Nat} {check : Int}

theorem toInt_sub_one_eq_iff (number : Nat) (block : List Char) :
    toInt (atoi block - 1) = toInt (number - 1) ↔ atoi block = toInt number := by
  unfold atoi toInt
  rw [Int.bmod_def, Int.bmod_def, Int.bmod_def, Int.bmod_def]
  omega

theorem numberedText_eq (hasBlank : ∃ ch ∈ cstr line, isBlank ch = true)
    (ends : numberEnds (lineLabel line) = true) (check : Int) :
    ∃ text, numberedText (cstr line) check =
      .returns (if toInt (atoi (lineLabel line) - 1) ≠ check then none else some text) := by
  cases behind : (cstr line).dropWhile (!isBlank ·) with
  | nil =>
      obtain ⟨ch, member, blank⟩ := hasBlank
      have letter := List.dropWhile_eq_nil_iff.mp behind ch member
      simp [blank] at letter
  | cons blank rest =>
      refine ⟨newText (CString.ofBlock rest), ?_⟩
      rw [lineLabel] at ends ⊢
      simp only [numberedText, behind, atoiWithin, ends, ↓reduceIte, Outcome.returns_bind]
      split <;> rfl

theorem numberedText_faults
    (unreadable : ¬ ((∃ ch ∈ cstr line, isBlank ch = true) ∧
      numberEnds (lineLabel line) = true)) (check : Int) :
    numberedText (cstr line) check = .faults := by
  cases behind : (cstr line).dropWhile (!isBlank ·) with
  | nil => simp only [numberedText, behind]
  | cons blank rest =>
      have hasBlank : ∃ ch ∈ cstr line, isBlank ch = true := by
        by_contra none
        have nothing : (cstr line).dropWhile (!isBlank ·) = [] :=
          List.dropWhile_eq_nil_iff.mpr (by simpa using none)
        simp [nothing] at behind
      have runsOn : numberEnds (lineLabel line) = false := by
        simpa [hasBlank] using unreadable
      rw [lineLabel] at runsOn
      simp [numberedText, behind, atoiWithin, runsOn]

variable {texts : List Text} {bytes : Int}

theorem readTexts_refused (blockSize : BlockSize size)
    (noNewline : ∀ ch ∈ line, isNewline ch = false) (long : 2 ^ 31 - 16 ≤ line.length)
    (more : List Char) (fuel : Nat) :
    readTexts (fuel + 1) (line ++ more) size check texts bytes = .returns none := by
  rw [readTexts, readLine_refused blockSize noNewline long]
  rfl

/-- One round of the loop. -/
theorem readTexts_line (blockSize : BlockSize size)
    (noNewline : ∀ ch ∈ line, isNewline ch = false) (short : line.length < 2 ^ 31 - 16)
    (ending : Option (List Char)) (check bytes : Int) (texts : List Text) :
    ∃ next, BlockSize next ∧ ∀ fuel,
      readTexts (fuel + 1) (line ++ lineEnd ending) size check texts bytes =
        numberedText (cstr line) check >>= fun text =>
          match text, ending with
          | none, _ => .returns none
          | some text, none => .returns (some
              ⟨texts ++ [text], toInt (toInt (check + 1) + 1), toInt (bytes + line.length)⟩)
          | some text, some rest =>
              readTexts fuel rest next (toInt (check + 1)) (texts ++ [text])
                (toInt (bytes + line.length)) := by
  obtain ⟨next, nextSize, read⟩ := readLine_growInt blockSize noNewline short ending
  refine ⟨next, nextSize, fun fuel => ?_⟩
  rw [readTexts, read, Outcome.returns_bind]
  simp only [cstr_append_nul_eq]
  congr 1
  funext text
  cases text with
  | none => rfl
  | some text => cases ending <;> rfl

/-- A line that is not readable ends the loop. -/
theorem readTexts_unreadable (blockSize : BlockSize size)
    (noNewline : ∀ ch ∈ line, isNewline ch = false) (unreadable : ¬ ReadableLine line)
    (ending : Option (List Char)) (fuel : Nat) :
    readTexts (fuel + 1) (line ++ lineEnd ending) size check texts bytes =
      if 2 ^ 31 - 16 ≤ line.length then .returns none else .faults := by
  by_cases long : 2 ^ 31 - 16 ≤ line.length
  · rw [if_pos long]
    exact readTexts_refused blockSize noNewline long (lineEnd ending) fuel
  · have short : line.length < 2 ^ 31 - 16 := Nat.lt_of_not_le long
    have bad : ¬ ((∃ ch ∈ cstr line, isBlank ch = true) ∧
        numberEnds (lineLabel line) = true) := by
      rintro ⟨hasBlank, ends⟩
      exact unreadable ⟨short, hasBlank, ends⟩
    obtain ⟨next, _, round⟩ := readTexts_line blockSize noNewline short ending check bytes texts
    rw [round, numberedText_faults bad, if_neg long]
    rfl

theorem PassedLine.notRefused (passed : PassedLine k line) : ¬ RefusedLine k line := by
  obtain ⟨readable, sameNumber⟩ := passed
  rintro (tooLong | ⟨_, other⟩)
  · exact Nat.not_le_of_lt readable.fits tooLong
  · exact other sameNumber

theorem readTexts_passed (blockSize : BlockSize size)
    (noNewline : ∀ ch ∈ line, isNewline ch = false) (passed : PassedLine k line)
    (ending : Option (List Char)) (texts : List Text) (bytes : Int) :
    ∃ next text, BlockSize next ∧ ∀ fuel,
      readTexts (fuel + 1) (line ++ lineEnd ending) size (toInt (k - 1)) texts bytes =
        match ending with
        | none => .returns (some
            ⟨texts ++ [text], toInt (toInt k + 1), toInt (bytes + line.length)⟩)
        | some rest =>
            readTexts fuel rest next (toInt k) (texts ++ [text])
              (toInt (bytes + line.length)) := by
  obtain ⟨readable, sameNumber⟩ := passed
  obtain ⟨next, nextSize, round⟩ := readTexts_line blockSize noNewline readable.fits ending
    (toInt (k - 1)) bytes texts
  obtain ⟨text, parsed⟩ := numberedText_eq readable.hasBlank readable.ends (toInt (k - 1))
  simp only [ne_eq, toInt_sub_one_eq_iff, ite_not, if_pos sameNumber] at parsed
  have nextNumber : toInt (toInt ((k : Int) - 1) + 1) = toInt k := by
    rw [toInt_toInt_add, Int.sub_add_cancel]
  refine ⟨next, text, nextSize, fun fuel => ?_⟩
  rw [round, parsed, nextNumber]
  cases ending <;> rfl

theorem readTexts_otherNumber (blockSize : BlockSize size)
    (noNewline : ∀ ch ∈ line, isNewline ch = false) (readable : ReadableLine line)
    (otherNumber : atoi (lineLabel line) ≠ toInt k) (ending : Option (List Char))
    (texts : List Text) (bytes : Int) (fuel : Nat) :
    readTexts (fuel + 1) (line ++ lineEnd ending) size (toInt (k - 1)) texts bytes =
      .returns none := by
  obtain ⟨_, _, round⟩ := readTexts_line blockSize noNewline readable.fits ending
    (toInt (k - 1)) bytes texts
  obtain ⟨_, parsed⟩ := numberedText_eq readable.hasBlank readable.ends (toInt (k - 1))
  simp only [ne_eq, toInt_sub_one_eq_iff, ite_not, if_neg otherNumber] at parsed
  rw [round, parsed]
  rfl

/-- What becomes of a line, when it is known what becomes of the rest. -/
theorem readTexts_round (blockSize : BlockSize size)
    (noNewline : ∀ ch ∈ line, isNewline ch = false) (ending : Option (List Char))
    (texts : List Text) (bytes : Int)
    (later : ∀ rest, ending = some rest → ∀ next texts bytes, BlockSize next →
      ∃ result, Outcome.Settles (readTexts · rest next (toInt k) texts bytes) result ∧
        (result = .returns none ↔ RefusedFrom (k + 1) (fileLines rest))) :
    ∃ result,
      Outcome.Settles (readTexts · (line ++ lineEnd ending) size (toInt (k - 1)) texts bytes)
        result ∧
      (result = .returns none ↔ RefusedLine k line ∨ PassedLine k line ∧
        ∃ rest, ending = some rest ∧ RefusedFrom (k + 1) (fileLines rest)) := by
  by_cases readable : ReadableLine line
  · by_cases sameNumber : atoi (lineLabel line) = toInt k
    · have passed : PassedLine k line := ⟨readable, sameNumber⟩
      have notRefused := passed.notRefused
      obtain ⟨next, text, nextSize, round⟩ :=
        readTexts_passed blockSize noNewline passed ending texts bytes
      cases ending with
      | none =>
          exact ⟨_, .of_round rfl round, iff_of_false (by simp) (by simp [notRefused])⟩
      | some rest =>
          obtain ⟨result, settles, refused⟩ := later rest rfl next (texts ++ [text])
            (toInt (bytes + line.length)) nextSize
          exact ⟨result, .of_succ rfl (settles.congr round),
            by simp [refused, notRefused, passed]⟩
    · exact ⟨.returns none, .of_round rfl
        (readTexts_otherNumber blockSize noNewline readable sameNumber ending texts bytes),
        iff_of_true rfl (Or.inl (Or.inr ⟨readable, sameNumber⟩))⟩
  · refine ⟨_, .of_round rfl (readTexts_unreadable blockSize noNewline readable ending), ?_⟩
    by_cases long : 2 ^ 31 - 16 ≤ line.length
    · rw [if_pos long]
      exact iff_of_true rfl (Or.inl (Or.inl long))
    · rw [if_neg long]
      exact iff_of_false (by simp) (by simpa [RefusedLine, PassedLine, readable] using long)

/-- The loop gives `NULL` exactly when a line is refused behind lines that pass. -/
theorem readTexts_settles (blockSize : BlockSize size) (texts : List Text) (bytes : Int) :
    ∃ result, Outcome.Settles (readTexts · file size (toInt (k - 1)) texts bytes) result ∧
      (result = .returns none ↔ RefusedFrom k (fileLines file)) := by
  induction file using line_induction generalizing size k texts bytes with
  | last line noNewline =>
      have round := @readTexts_round line size k blockSize noNewline none texts bytes
        (by simp)
      rw [fileLines_last noNewline]
      simpa [lineEnd, RefusedFrom] using round
  | next line rest noNewline ih =>
      have round := @readTexts_round line size k blockSize noNewline (some rest) texts bytes
      rw [fileLines_next noNewline]
      simp only [lineEnd, Option.some.injEq, exists_eq_left'] at round
      apply round
      rintro _ rfl next texts bytes nextSize
      have number : toInt (((k + 1 : Nat) : Int) - 1) = toInt k := by simp
      rw [← number]
      exact ih nextSize texts bytes

theorem fileLines_line (noNewline : ∀ ch ∈ line, isNewline ch = false)
    (ending : Option (List Char)) :
    ∃ more, fileLines (line ++ lineEnd ending) = line :: more := by
  cases ending with
  | none => exact ⟨[], by simpa [lineEnd] using fileLines_last noNewline⟩
  | some rest => exact ⟨fileLines rest, fileLines_next noNewline rest⟩

/-- The number of the first line ends where nothing is behind it. -/
theorem first_unreadable {more rests : List (List Char)}
    (numbered : NumberedLines (line :: more) rests) : ¬ ReadableLine line := by
  intro readable
  obtain ⟨sameLength, numbers⟩ := numbered
  obtain ⟨rest, others, rfl⟩ : ∃ rest others, rests = rest :: others :=
    List.exists_cons_of_ne_nil (by rintro rfl; simp at sameLength)
  obtain ⟨blank, isBlankChar, rfl⟩ := numbers 0 line rest rfl rfl
  have notNul : blank ≠ '\x00' := by
    rintro rfl
    simp [isBlank] at isBlankChar
  have digit : isBlank '0' = false := rfl
  have label : lineLabel (decimal ((0 : Nat) : Int) ++ blank :: rest) = ['0'] := by
    simp [lineLabel, cstr, decimal, isBlankChar, notNul, digit]
  have ends := readable.ends
  rw [label] at ends
  simp [numberEnds, isspace] at ends

/-- Every file is read or refused as it should exactly when it is not numbered
and one of its lines is refused before one is reached that cannot be read. -/
theorem addFileToMaps_iff (file : List Char) (bytes : Int) :
    ∃ result, Outcome.Settles (addFileToMaps · (some file) bytes) result ∧
      (AcceptsNumbered file bytes result ↔
        (∀ rests, ¬ NumberedLines (fileLines file) rests) ∧
          RefusedFrom 0 (fileLines file)) := by
  have blockSize : BlockSize 16 := ⟨by decide, by decide, by decide⟩
  obtain ⟨result, settles, refused⟩ := @readTexts_settles file 16 0 blockSize [] bytes
  refine ⟨result, settles, ?_⟩
  rw [← refused]
  constructor
  · intro accepts
    have notNumbered : ∀ rests, ¬ NumberedLines (fileLines file) rests := by
      intro rests numbered
      obtain ⟨map, returned, _⟩ := accepts.accepts rests numbered
      obtain ⟨line, ending, rfl, noNewline⟩ := line_cases file
      obtain ⟨more, lines⟩ := fileLines_line noNewline ending
      rw [lines] at numbered
      have ended := settles.unique (.of_round rfl
        (readTexts_unreadable blockSize noNewline (first_unreadable numbered) ending))
      rw [returned] at ended
      split at ended <;> cases ended
    exact ⟨notNumbered, accepts.refuses notNumbered⟩
  · rintro ⟨notNumbered, returned⟩
    exact ⟨fun rests numbered => absurd numbered (notNumbered rests), fun _ => returned⟩

/-- A file with one numbered line: what is behind the copy of the number is
read. -/
theorem addFileToMaps_faults :
    ¬ ∀ (file : List Char) (bytes : Int) (result : Outcome (Option TextMap)),
      Outcome.Settles (addFileToMaps · (some file) bytes) result →
        AcceptsNumbered file bytes result := by
  intro accepts
  have faults : Outcome.Settles (addFileToMaps · (some "0 alpha".toList) 0) .faults :=
    .of_round rfl fun fuel => rfl
  obtain ⟨map, returned, _⟩ := (accepts _ 0 _ faults).accepts ["alpha".toList] (by
    refine ⟨by decide, ?_⟩
    rintro (_ | k) line rest isLine isRest
    · cases isLine
      cases isRest
      exact ⟨' ', rfl, rfl⟩
    · cases isRest)
  cases returned

end Reading

end WebCrawl
