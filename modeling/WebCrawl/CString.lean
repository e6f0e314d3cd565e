import WebCrawl.Outcome
import Mathlib.Data.List.TakeWhile
import Mathlib.Algebra.Order.Ring.Int

/-!
# C strings and numerals

A C string is what a block of memory holds before its first NUL.  Strings that
the programs pass around are a type of their own, so that a string with a NUL
inside cannot be built; the library functions on a pointer take the block of
characters from that pointer on.
-/

namespace WebCrawl

/-- Keep the low 32 bits of a number, as an `int` does. -/
def toInt (number : Int) : Int :=
  number.bmod (2 ^ 32)

theorem toInt_bounds (number : Int) :
    -2 ^ 31 ≤ toInt number ∧ toInt number < 2 ^ 31 := by
  unfold toInt
  rw [Int.bmod_def]
  omega

theorem toInt_of_bounds {number : Int} (above : -2 ^ 31 ≤ number)
    (below : number < 2 ^ 31) : toInt number = number := by
  unfold toInt
  rw [Int.bmod_def]
  omega

theorem toInt_of_range {number : Int} (nonneg : 0 ≤ number)
    (below : number < 2 ^ 31) : toInt number = number :=
  toInt_of_bounds (by omega) below

theorem toInt_toInt (number : Int) : toInt (toInt number) = toInt number :=
  toInt_of_bounds (toInt_bounds number).1 (toInt_bounds number).2

theorem toInt_eq_iff (number : Nat) : toInt number = number ↔ number < 2 ^ 31 := by
  unfold toInt
  rw [Int.bmod_def]
  omega

theorem toInt_toInt_add (number more : Int) :
    toInt (toInt number + more) = toInt (number + more) :=
  Int.bmod_add_bmod

/-- The C string at the start of a block. -/
def cstr (block : List Char) : List Char :=
  block.takeWhile (· ≠ '\x00')

def strlen (block : List Char) : Nat :=
  (cstr block).length

theorem nul_not_mem_cstr (block : List Char) : '\x00' ∉ cstr block := by
  intro member
  simpa using List.mem_takeWhile_imp member

theorem cstr_of_nulFree {block : List Char} (nulFree : '\x00' ∉ block) :
    cstr block = block := by
  rw [cstr, List.takeWhile_eq_self_iff]
  intro char charMem
  simp only [decide_eq_true_eq]
  rintro rfl
  exact nulFree charMem

theorem cstr_append_nul {string rest : List Char} (nulFree : '\x00' ∉ string) :
    cstr (string ++ '\x00' :: rest) = string := by
  rw [cstr, List.takeWhile_append_of_pos, List.takeWhile_cons_of_neg (by simp),
    List.append_nil]
  intro char charMem
  simp only [decide_eq_true_eq]
  rintro rfl
  exact nulFree charMem

theorem cstr_append_nul_eq (block rest : List Char) :
    cstr (block ++ '\x00' :: rest) = cstr block := by
  induction block with
  | nil => simp [cstr]
  | cons first block ih =>
      by_cases ends : first = '\x00'
      · simp [cstr, ends]
      · simpa [cstr, ends] using ih

/-- A string of the program: characters without a NUL. -/
structure CString where
  chars : List Char
  nulFree : '\x00' ∉ chars
  deriving DecidableEq

namespace CString

@[ext]
theorem ext {first second : CString} (sameChars : first.chars = second.chars) :
    first = second := by
  cases first
  cases second
  congr

/-- Copy the string at the start of a block. -/
def ofBlock (block : List Char) : CString :=
  ⟨cstr block, nul_not_mem_cstr block⟩

def strcat (first second : CString) : CString :=
  ⟨first.chars ++ second.chars, by simp [first.nulFree, second.nulFree]⟩

@[simp]
theorem ofBlock_chars (block : List Char) : (ofBlock block).chars = cstr block :=
  rfl

@[simp]
theorem strcat_chars (first second : CString) :
    (strcat first second).chars = first.chars ++ second.chars :=
  rfl

end CString

/-- `strchr` from the start of a block whose first character has the given
address.  A search that runs off the block is undefined. -/
def strchr (char : Char) : List Char → Nat → Outcome (Option Nat)
  | [], _ => .faults
  | first :: rest, address =>
      if first = char then .returns (some address)
      else if first = '\x00' then .returns none
      else strchr char rest (address + 1)

/-- Whether `strncmp` of a string and a block finds no difference in as many
characters as the string has. -/
def strncmpEq : List Char → List Char → Outcome Bool
  | [], _ => .returns true
  | _ :: _, [] => .faults
  | expected :: more, first :: rest =>
      if first = expected then strncmpEq more rest else .returns false

theorem strchr_found {char : Char} {before : List Char} (rest : List Char)
    (address : Nat) (absent : char ∉ before) (nulFree : '\x00' ∉ before) :
    strchr char (before ++ char :: rest) address =
      .returns (some (address + before.length)) := by
  induction before generalizing address with
  | nil => simp [strchr]
  | cons first before ih =>
      simp only [List.mem_cons, not_or] at absent nulFree
      simp only [List.cons_append, strchr, Ne.symm absent.1, ↓reduceIte,
        Ne.symm nulFree.1, ih _ absent.2 nulFree.2, List.length_cons]
      congr 2
      omega

theorem strchr_missing {char : Char} {before : List Char} (rest : List Char)
    (address : Nat) (absent : char ∉ before) (nulFree : '\x00' ∉ before)
    (notNul : char ≠ '\x00') :
    strchr char (before ++ '\x00' :: rest) address = .returns none := by
  induction before generalizing address with
  | nil => simp [strchr, Ne.symm notNul]
  | cons first before ih =>
      simp only [List.mem_cons, not_or] at absent nulFree
      simp [strchr, Ne.symm absent.1, Ne.symm nulFree.1,
        ih _ absent.2 nulFree.2]

theorem strncmpEq_append_nul {expected string : List Char} (rest : List Char)
    (nulFree : '\x00' ∉ expected) :
    strncmpEq expected (string ++ '\x00' :: rest) =
      .returns (expected.isPrefixOf string) := by
  induction expected generalizing string with
  | nil => simp [strncmpEq]
  | cons char expected ih =>
      simp only [List.mem_cons, not_or] at nulFree
      cases string with
      | nil => simp [strncmpEq, nulFree.1]
      | cons first string =>
          by_cases same : first = char
          · subst char
            simpa [strncmpEq] using ih nulFree.2
          · simp [strncmpEq, List.isPrefixOf, same, Ne.symm same]

def isspace (char : Char) : Bool :=
  char = ' ' || ('\t' ≤ char && char ≤ '\r')

/-- The number that a run of decimal digits denotes, up to the first character
that is not a digit. -/
def digitsValue (block : List Char) : Nat :=
  Nat.ofDigitChars 10 (block.takeWhile Char.isDigit) 0

/-- `strtol` in base 10, which stops at the ends of the range of `long`. -/
def strtol (block : List Char) : Int :=
  match block.dropWhile isspace with
  | '-' :: digits => max (-2 ^ 63) (-(digitsValue digits : Int))
  | '+' :: digits => min (2 ^ 63 - 1) (digitsValue digits)
  | digits => min (2 ^ 63 - 1) (digitsValue digits)

/-- `atoi`: the result of `strtol` as an `int`. -/
def atoi (block : List Char) : Int :=
  toInt (strtol block)

/-- The text that `%d` prints. -/
def decimal (number : Int) : List Char :=
  if number < 0 then '-' :: Nat.toDigits 10 number.natAbs
  else Nat.toDigits 10 number.natAbs

theorem digitsValue_append {char : Char} (nonDigit : char.isDigit = false) (number : Nat)
    (rest : List Char) : digitsValue (Nat.toDigits 10 number ++ char :: rest) = number := by
  have digits : (Nat.toDigits 10 number ++ char :: rest).takeWhile Char.isDigit =
      Nat.toDigits 10 number := by
    rw [List.takeWhile_append_of_pos, List.takeWhile_cons_of_neg (by simp [nonDigit]),
      List.append_nil]
    intro char charMem
    exact Nat.isDigit_of_mem_toDigits (by omega) (by omega) charMem
  rw [digitsValue, digits, Nat.ofDigitChars_ten_toDigits]

theorem digitsValue_toDigits (number : Nat) (rest : List Char) :
    digitsValue (Nat.toDigits 10 number ++ '\x00' :: rest) = number :=
  digitsValue_append (by decide) number rest

theorem digit_head {char : Char} (digit : char.isDigit = true) :
    isspace char = false ∧ char ≠ '-' ∧ char ≠ '+' := by
  have zeroLe : '0' ≤ char := by
    have bounds : '0' ≤ char ∧ char ≤ '9' := by
      simpa [Char.isDigit, Char.le_def] using digit
    exact bounds.1
  refine ⟨?_, ?_, ?_⟩
  · have notBlank : char ≠ ' ' := by
      rintro rfl
      simp at digit
    have notControl : ¬ char ≤ '\r' := fun control =>
      absurd (Char.le_trans zeroLe control) (by decide)
    simp [isspace, notBlank, notControl]
  · rintro rfl
    simp at digit
  · rintro rfl
    simp at digit

theorem atoi_decimal {number : Nat} (rest : List Char) (isInt : number < 2 ^ 31) :
    atoi (decimal number ++ '\x00' :: rest) = number := by
  obtain ⟨first, more, digits⟩ :
      ∃ first more, Nat.toDigits 10 number = first :: more :=
    List.exists_cons_of_ne_nil Nat.toDigits_ne_nil
  have firstDigit : first.isDigit = true :=
    Nat.isDigit_of_mem_toDigits (by decide : 0 < 10) (by decide : 10 ≤ 10)
      (by rw [digits]; exact List.mem_cons_self)
  obtain ⟨notSpace, notMinus, notPlus⟩ := digit_head firstDigit
  have printed : decimal number = first :: more := by
    simp [decimal, digits]
  have value := digitsValue_toDigits number rest
  have parsed : strtol (decimal number ++ '\x00' :: rest) = number := by
    rw [printed, List.cons_append, strtol,
      List.dropWhile_cons_of_neg (by simp [notSpace])]
    rw [digits, List.cons_append] at value
    split
    next _ signed => exact absurd (List.cons.inj signed).1 notMinus
    next _ signed => exact absurd (List.cons.inj signed).1 notPlus
    next =>
      rw [value]
      omega
  rw [atoi, parsed]
  exact toInt_of_range (by omega) (by omega)

theorem atoi_decimal_negative {number : Int} (rest : List Char)
    (above : -2 ^ 31 ≤ number) (negative : number < 0) :
    atoi (decimal number ++ '\x00' :: rest) = number := by
  have printed : decimal number = '-' :: Nat.toDigits 10 number.natAbs :=
    if_pos negative
  have parsed : strtol (decimal number ++ '\x00' :: rest) = number := by
    rw [printed, List.cons_append, strtol, List.dropWhile_cons_of_neg (by decide)]
    change max (-2 ^ 63)
      (-(digitsValue (Nat.toDigits 10 number.natAbs ++ '\x00' :: rest) : Int)) = number
    rw [digitsValue_toDigits]
    omega
  rw [atoi, parsed]
  exact toInt_of_bounds above (by omega)

end WebCrawl
