import Mathlib.Tactic.Ring

/-!
# Seconds as they are printed

The programs divide the ticks of `clock()`, of which there are a million in a
second, as numbers of type `double`, and `%f` prints the quotient with six
digits behind the point.  The quotient is the one of the model of floating-point
numbers that Lean has; what is printed is its exact value, rounded to the
nearest number of millionths.  For times below thirty years these are the ticks
themselves.
-/

namespace WebCrawl

open Float.Model (UnpackedFloat Format totalExponent)
open Float.Model.UnpackedFloat (Sign Accuracy ExtendedMantissa ofNat ofInt
  div divCore accuracyOfFraction shiftToExponent shiftToTargetExponent roundWithAccuracy
  decreaseExponent)

/-- The nearest natural number to a quotient, the even one of two. -/
def roundHalfEven (number divisor : Nat) : Nat :=
  let quotient := number / divisor
  let rest := number % divisor
  if 2 * rest < divisor ∨ 2 * rest = divisor ∧ quotient % 2 = 0 then quotient
  else quotient + 1

/-- The number of millionths that is nearest to the magnitude of a number. -/
def millionths : UnpackedFloat → Nat
  | .finite _ mantissa exponent _ =>
      if 0 ≤ exponent then mantissa * 2 ^ exponent.toNat * 1000000
      else roundHalfEven (mantissa * 1000000) (2 ^ (-exponent).toNat)
  | _ => 0

def signText : Sign → List Char
  | .negative => ['-']
  | .positive => []

/-- The text that `%f` prints for a number of millionths. -/
def fixedText (number : Nat) : List Char :=
  Nat.toDigits 10 (number / 1000000) ++
    '.' :: (Nat.toDigits 10 (number % 1000000)).leftpad 6 '0'

/-- The text that `%f` prints. -/
def formatF (number : UnpackedFloat) : List Char :=
  match number with
  | .notANumber => "nan".toList
  | .infinity sign => signText sign ++ "inf".toList
  | .zero sign => signText sign ++ fixedText (millionths number)
  | .finite sign _ _ _ => signText sign ++ fixedText (millionths number)

def clocksPerSec : Nat :=
  1000000

/-- `((double) (end - start)) / CLOCKS_PER_SEC` for a time that passed. -/
def elapsedSeconds (elapsed : Nat) : UnpackedFloat :=
  div .binary64 (ofNat .binary64 elapsed) (ofNat .binary64 clocksPerSec)

/-- The whole seconds that are printed for a time that passed. -/
def wholeSeconds (elapsed : Nat) : Nat :=
  millionths (elapsedSeconds elapsed) / 1000000

section Length

theorem fixedText_length (number : Nat) :
    (fixedText number).length = (Nat.toDigits 10 (number / 1000000)).length + 7 := by
  have small : (Nat.toDigits 10 (number % 1000000)).length ≤ 6 := by
    rw [Nat.length_toDigits_le_iff (by decide) (by decide)]
    exact Nat.mod_lt number (by decide)
  rw [fixedText, List.length_append, List.length_cons, List.length_leftpad]
  omega

theorem round_sign (spec : Format) (sign : Sign) (mantissa : Nat) (exponent : Int)
    (accuracy : Accuracy) :
    roundWithAccuracy spec sign mantissa exponent accuracy = .zero sign ∨
      ∃ rounded scale positive, roundWithAccuracy spec sign mantissa exponent accuracy =
        .finite sign rounded scale positive := by
  obtain ⟨shifted, shift⟩ : ∃ shifted, shifted =
      shiftToTargetExponent spec mantissa exponent accuracy := ⟨_, rfl⟩
  obtain ⟨final, last⟩ : ∃ final, final =
      shiftToTargetExponent spec shifted.1.roundedMantissa shifted.2 .exact := ⟨_, rfl⟩
  rw [roundWithAccuracy, ← shift]
  dsimp only
  rw [← last]
  by_cases zero : final.1.mantissa = 0
  · exact Or.inl (dif_pos zero)
  · exact Or.inr ⟨_, _, Nat.pos_of_ne_zero zero, dif_neg zero⟩

theorem ofNat_positive (number : Nat) :
    ofNat .binary64 number = .zero .positive ∨
      ∃ mantissa exponent positive, ofNat .binary64 number =
        .finite .positive mantissa exponent positive := by
  unfold ofNat ofInt UnpackedFloat.normalize
  cases compared : compare (number : Int) 0 with
  | lt =>
      have negative := Int.compare_eq_lt.mp compared
      omega
  | eq => exact Or.inl rfl
  | gt => exact round_sign _ _ _ _ _

theorem clocksPerSec_finite :
    ofNat .binary64 clocksPerSec = .finite .positive (1000000 * 2 ^ 33) (-33) (by decide) :=
  rfl

/-- A time that passed is printed without a sign. -/
theorem formatF_elapsedSeconds (elapsed : Nat) :
    formatF (elapsedSeconds elapsed) = fixedText (millionths (elapsedSeconds elapsed)) := by
  have positive : elapsedSeconds elapsed = .zero .positive ∨
      ∃ mantissa exponent positive, elapsedSeconds elapsed =
        .finite .positive mantissa exponent positive := by
    rw [elapsedSeconds, clocksPerSec_finite]
    rcases ofNat_positive elapsed with zero | ⟨mantissa, exponent, positive, finite⟩
    · rw [zero]
      exact Or.inl rfl
    · rw [finite]
      exact round_sign _ _ _ _ _
  rcases positive with zero | ⟨mantissa, exponent, positive, finite⟩
  · rw [zero]
    rfl
  · rw [finite]
    rfl

theorem formatF_length (elapsed : Nat) :
    (formatF (elapsedSeconds elapsed)).length =
      (Nat.toDigits 10 (wholeSeconds elapsed)).length + 7 := by
  rw [formatF_elapsedSeconds, fixedText_length, wholeSeconds]

end Length

section Rounding

variable {mantissa : Nat} {exponent : Int}

theorem shiftRight_mantissa (extended : ExtendedMantissa) (shift : Nat) :
    (extended >>> shift).mantissa = extended.mantissa / 2 ^ shift := by
  induction shift with
  | zero => simp [HShiftRight.hShiftRight, Nat.repeat]
  | succ shift ih =>
      change (extended >>> shift).mantissa / 2 = _
      rw [ih, Nat.div_div_eq_div_mul, Nat.pow_succ]

theorem roundedMantissa_bounds (extended : ExtendedMantissa) :
    extended.mantissa ≤ extended.roundedMantissa ∧
      extended.roundedMantissa ≤ extended.mantissa + 1 := by
  obtain ⟨mantissa, roundBit, stickyBit⟩ := extended
  cases roundBit <;> cases stickyBit <;>
    simp [ExtendedMantissa.roundedMantissa, ExtendedMantissa.accuracy,
      Accuracy.roundToNearestEven]
  omega

theorem targetExponent_eq (total : Int) :
    Format.binary64.targetExponent total = max (total - 53) (-1074) :=
  rfl

/-- Numbers of at most 53 bits are not shifted. -/
theorem shiftToTargetExponent_small (small : mantissa < 2 ^ 53) (above : -1074 ≤ exponent) :
    shiftToTargetExponent .binary64 mantissa exponent .exact =
      (⟨mantissa, false, false⟩, exponent) := by
  have bits : mantissa.log2 ≤ 52 := by
    by_cases zero : mantissa = 0
    · simp [zero]
    · have below := (Nat.log2_lt zero).mpr small
      omega
  have unshifted : (Format.binary64.targetExponent (totalExponent mantissa exponent) -
      exponent).toNat = 0 := by
    rw [targetExponent_eq, totalExponent]
    omega
  rw [shiftToTargetExponent, shiftToExponent, unshifted]
  simp [HShiftRight.hShiftRight, Nat.repeat, ExtendedMantissa.ofMantissaAndAccuracy]

theorem shiftToTargetExponent_carry (above : -1074 ≤ exponent) :
    shiftToTargetExponent .binary64 (2 ^ 53) exponent .exact =
      (⟨2 ^ 52, false, false⟩, exponent + 1) := by
  have once : (Format.binary64.targetExponent (totalExponent (2 ^ 53) exponent) -
      exponent).toNat = 1 := by
    rw [targetExponent_eq, totalExponent, Nat.log2_two_pow]
    omega
  rw [shiftToTargetExponent, shiftToExponent, once]
  rfl

theorem shiftToTargetExponent_long {shift : Nat} (accuracy : Accuracy)
    (bits : mantissa.log2 = 52 + shift) (above : -1074 ≤ exponent) :
    ∃ extended : ExtendedMantissa,
      shiftToTargetExponent .binary64 mantissa exponent accuracy =
        (extended, exponent + shift) ∧
      extended.mantissa = mantissa / 2 ^ shift := by
  have shifted : (Format.binary64.targetExponent (totalExponent mantissa exponent) -
      exponent).toNat = shift := by
    rw [targetExponent_eq, totalExponent, bits]
    omega
  refine ⟨ExtendedMantissa.ofMantissaAndAccuracy mantissa accuracy >>> shift, ?_, ?_⟩
  · rw [shiftToTargetExponent, shiftToExponent, shifted]
  · rw [shiftRight_mantissa]
    cases accuracy with
    | exact => rfl
    | inexact order => cases order <;> rfl

/-- Rounding in two shifts to a number that is not zero. -/
theorem roundWithAccuracy_shifts {extended last : ExtendedMantissa} {place scale : Int}
    (sign : Sign) {accuracy : Accuracy}
    (first : shiftToTargetExponent .binary64 mantissa exponent accuracy = (extended, place))
    (second : shiftToTargetExponent .binary64 extended.roundedMantissa place .exact =
      (last, scale)) (positive : 0 < last.mantissa) :
    roundWithAccuracy .binary64 sign mantissa exponent accuracy =
      .finite sign last.mantissa scale positive := by
  rw [roundWithAccuracy, first]
  dsimp only
  rw [second]
  exact dif_neg (Nat.ne_of_gt positive)

theorem roundWithAccuracy_exact (sign : Sign) (positive : 0 < mantissa)
    (small : mantissa < 2 ^ 53) (above : -1074 ≤ exponent) :
    roundWithAccuracy .binary64 sign mantissa exponent .exact =
      .finite sign mantissa exponent positive := by
  exact roundWithAccuracy_shifts sign (shiftToTargetExponent_small small above)
    (shiftToTargetExponent_small small above) positive

theorem shifted_small {shift : Nat} (bits : mantissa.log2 = 52 + shift) :
    2 ^ 52 ≤ mantissa / 2 ^ shift ∧ mantissa / 2 ^ shift < 2 ^ 53 := by
  have notZero : mantissa ≠ 0 := by
    rintro rfl
    simp at bits
    omega
  have power : 0 < 2 ^ shift := Nat.two_pow_pos shift
  constructor
  · rw [Nat.le_div_iff_mul_le power, ← Nat.pow_add, ← bits]
    exact Nat.log2_self_le notZero
  · rw [Nat.div_lt_iff_lt_mul power, ← Nat.pow_add]
    have below : mantissa < 2 ^ (mantissa.log2 + 1) := Nat.lt_log2_self
    rwa [bits, Nat.add_right_comm] at below

/-- A number of more than 53 bits loses bits in rounding, and moves by at most
one in the last place that it keeps. -/
theorem roundWithAccuracy_near {shift : Nat} (sign : Sign) (accuracy : Accuracy)
    (bits : mantissa.log2 = 52 + shift) (above : -1074 ≤ exponent) :
    ∃ rounded carry positive, carry ≤ 1 ∧
      roundWithAccuracy .binary64 sign mantissa exponent accuracy =
        .finite sign rounded (exponent + (shift + carry : Nat)) positive ∧
      rounded * 2 ^ (shift + carry) ≤ mantissa + 2 ^ shift ∧
      mantissa < rounded * 2 ^ (shift + carry) + 2 ^ shift := by
  obtain ⟨extended, shifted, quotient⟩ := shiftToTargetExponent_long accuracy bits above
  obtain ⟨atLeast, atMost⟩ := roundedMantissa_bounds extended
  obtain ⟨normal, small⟩ := shifted_small bits
  have power : 0 < 2 ^ shift := Nat.two_pow_pos shift
  have stillAbove : -1074 ≤ exponent + shift := by omega
  have lower : extended.roundedMantissa * 2 ^ shift ≤ mantissa + 2 ^ shift := by
    calc
      extended.roundedMantissa * 2 ^ shift ≤ (mantissa / 2 ^ shift + 1) * 2 ^ shift :=
        Nat.mul_le_mul_right _ (by omega)
      _ = mantissa / 2 ^ shift * 2 ^ shift + 2 ^ shift := Nat.succ_mul _ _
      _ ≤ mantissa + 2 ^ shift := Nat.add_le_add_right (Nat.div_mul_le_self _ _) _
  have upper : mantissa < extended.roundedMantissa * 2 ^ shift + 2 ^ shift := by
    calc
      mantissa < (mantissa / 2 ^ shift + 1) * 2 ^ shift :=
        Nat.lt_mul_of_div_lt (Nat.lt_succ_self _) power
      _ ≤ (extended.roundedMantissa + 1) * 2 ^ shift :=
        Nat.mul_le_mul_right _ (by omega)
      _ = extended.roundedMantissa * 2 ^ shift + 2 ^ shift := Nat.succ_mul _ _
  by_cases carries : extended.roundedMantissa = 2 ^ 53
  · have sameValue : 2 ^ 52 * 2 ^ (shift + 1) = extended.roundedMantissa * 2 ^ shift := by
      rw [carries]
      ring
    have samePlace : exponent + ((shift + 1 : Nat) : Int) = exponent + shift + 1 := by
      omega
    have carried := shiftToTargetExponent_carry stillAbove
    rw [← carries, ← samePlace] at carried
    refine ⟨2 ^ 52, 1, by decide, Nat.le_refl 1, ?_, ?_, ?_⟩
    · exact roundWithAccuracy_shifts sign shifted carried (by decide)
    · rw [sameValue]
      exact lower
    · rw [sameValue]
      exact upper
  · have fits : extended.roundedMantissa < 2 ^ 53 := by omega
    have positive : 0 < extended.roundedMantissa := by omega
    refine ⟨extended.roundedMantissa, 0, positive, Nat.zero_le 1, ?_, lower, upper⟩
    exact roundWithAccuracy_shifts sign shifted (shiftToTargetExponent_small fits stillAbove)
      positive

end Rounding

section Elapsed

/-- A number of 50 bits is a `double` as it is. -/
theorem ofNat_exact {number bits : Nat} (log : number.log2 = bits) (positive : 0 < number)
    (small : bits < 50) :
    ∃ scaled, ofNat .binary64 number = .finite .positive (number * 2 ^ (52 - bits))
      (-(52 - bits : Nat)) scaled := by
  have notZero : number ≠ 0 := Nat.ne_of_gt positive
  have below : number < 2 ^ (bits + 1) := (Nat.log2_lt notZero).mp (by omega)
  have scaled : 0 < number * 2 ^ (52 - bits) :=
    Nat.mul_pos positive (Nat.two_pow_pos (52 - bits))
  have fits : number * 2 ^ (52 - bits) < 2 ^ 53 := by
    calc
      number * 2 ^ (52 - bits) < 2 ^ (bits + 1) * 2 ^ (52 - bits) :=
        Nat.mul_lt_mul_of_pos_right below (Nat.two_pow_pos (52 - bits))
      _ = 2 ^ 53 := by
        rw [← Nat.pow_add]
        congr 1
        omega
  have unscaled : (0 - Format.binary64.targetExponent (totalExponent number 0)).toNat =
      52 - bits := by
    rw [targetExponent_eq, totalExponent, log]
    omega
  have above : (-1074 : Int) ≤ -((52 - bits : Nat) : Int) := by omega
  have isGreater : compare (number : Int) 0 = .gt :=
    Int.compare_eq_gt.mpr (by omega)
  refine ⟨scaled, ?_⟩
  rw [ofNat, ofInt, UnpackedFloat.normalize, isGreater]
  dsimp only
  rw [UnpackedFloat.round, decreaseExponent, Int.toNat_natCast, unscaled, Nat.shiftLeft_eq,
    Int.zero_sub]
  exact roundWithAccuracy_exact .positive scaled fits above

theorem roundHalfEven_near {number divisor nearest : Nat}
    (notAbove : 2 * number < 2 * (nearest * divisor) + divisor)
    (notBelow : 2 * (nearest * divisor) < 2 * number + divisor) :
    roundHalfEven number divisor = nearest := by
  have whole : number / divisor * divisor + number % divisor = number :=
    Nat.div_add_mod' number divisor
  have rest : number % divisor < divisor := Nat.mod_lt number (by
    by_contra zero
    have noDivisor : divisor = 0 := by omega
    simp [noDivisor] at notAbove)
  have noLess : ∀ less more : Nat, less < more → less * divisor + divisor ≤ more * divisor :=
    fun less more lower => Nat.succ_mul less divisor ▸ Nat.mul_le_mul_right divisor lower
  rw [roundHalfEven]
  rcases Nat.lt_trichotomy (number / divisor) nearest with less | same | more
  · have next : number / divisor + 1 = nearest := by
      by_contra notNext
      have further := noLess (number / divisor + 1) nearest (by omega)
      rw [Nat.succ_mul] at further
      omega
    rw [← next, Nat.succ_mul (number / divisor)] at notBelow
    rw [if_neg (by omega), next]
  · rw [same] at whole
    rw [if_pos (by omega), same]
  · have above := noLess nearest (number / divisor) more
    omega

variable {elapsed : Nat}

/-- A quotient of a million that was rounded in a place is near enough. -/
theorem roundHalfEven_scaled {quotient nearest divisor scale place : Nat}
    (large : 2000000 < divisor) (positive : 0 < scale) (within : place ≤ scale)
    (notAbove : quotient * 1000000 ≤ elapsed * divisor * scale)
    (notBelow : elapsed * divisor * scale < quotient * 1000000 + 1000000)
    (roundedDown : nearest * scale ≤ quotient + place)
    (roundedUp : quotient < nearest * scale + place) :
    roundHalfEven (nearest * 1000000) divisor = elapsed := by
  have swapped := Nat.mul_right_comm nearest 1000000 scale
  have down : nearest * 1000000 * scale ≤ (elapsed * divisor + 1000000) * scale := by
    have sum := Nat.add_mul (elapsed * divisor) 1000000 scale
    omega
  have up : elapsed * divisor * scale < (nearest * 1000000 + 1000000) * scale := by
    have sum := Nat.add_mul (nearest * 1000000) 1000000 scale
    omega
  have atMost : nearest * 1000000 ≤ elapsed * divisor + 1000000 :=
    Nat.le_of_mul_le_mul_right down positive
  have atLeast : elapsed * divisor < nearest * 1000000 + 1000000 :=
    Nat.lt_of_mul_lt_mul_right up
  exact roundHalfEven_near (by omega) (by omega)

theorem div_finite (spec : Format) {sign other : Sign} {mantissa divisor : Nat}
    {exponent scale : Int} (positive : 0 < mantissa) (nonzero : 0 < divisor) :
    div spec (.finite sign mantissa exponent positive) (.finite other divisor scale nonzero) =
      roundWithAccuracy spec (sign / other) (divCore spec mantissa exponent divisor scale).1
        (divCore spec mantissa exponent divisor scale).2.1
        (divCore spec mantissa exponent divisor scale).2.2 :=
  rfl

theorem bounds_of_log2 {number bits : Nat} (notZero : number ≠ 0) (log : number.log2 = bits)
    (more : Nat) : 2 ^ (bits + more) ≤ number * 2 ^ more ∧
      number * 2 ^ more < 2 ^ (bits + more + 1) := by
  obtain ⟨atLeast, below⟩ := (Nat.log2_eq_iff notZero).mp log
  rw [Nat.add_right_comm, Nat.pow_add, Nat.pow_add]
  exact ⟨Nat.mul_le_mul_right _ atLeast,
    Nat.mul_lt_mul_of_pos_right below (Nat.two_pow_pos more)⟩

/-- Powers of two on both sides of a division are compared by their exponents. -/
theorem scaled_quotient {scale places : Nat} (number : Nat)
    (same : scale + 53 = places + 33) :
    number * 2 ^ scale * 2 ^ 53 / (1000000 * 2 ^ 33) = number * 2 ^ places / 1000000 := by
  rw [Nat.mul_assoc, ← Nat.pow_add, same, Nat.pow_add, ← Nat.mul_assoc]
  exact Nat.mul_div_mul_right _ _ (Nat.two_pow_pos 33)

/-- The quotient has 53 or 54 bits before it is rounded. -/
theorem elapsedSeconds_eq (positive : 0 < elapsed) (short : elapsed < 2 ^ 50) :
    ∃ places accuracy, 23 ≤ places ∧ places ≤ 72 ∧
      2 ^ 72 ≤ elapsed * 2 ^ places ∧ elapsed * 2 ^ places < 2 ^ 73 ∧
      elapsedSeconds elapsed = roundWithAccuracy .binary64 .positive
        (elapsed * 2 ^ places / 1000000) (-(places : Nat)) accuracy := by
  have notZero : elapsed ≠ 0 := Nat.ne_of_gt positive
  obtain ⟨bits, log⟩ : ∃ bits, elapsed.log2 = bits := ⟨_, rfl⟩
  have small : bits < 50 := log ▸ (Nat.log2_lt notZero).mpr short
  obtain ⟨scaled, dividend⟩ := ofNat_exact log positive small
  have scaledLog : (elapsed * 2 ^ (52 - bits)).log2 = 52 := by
    rw [Nat.log2_eq_iff (Nat.ne_of_gt scaled)]
    have bounds := bounds_of_log2 notZero log (52 - bits)
    rwa [Nat.add_sub_cancel' (by omega : bits ≤ 52)] at bounds
  have divisorLog : (1000000 * 2 ^ 33).log2 = 52 := by decide
  have target : Format.binary64.targetExponent
      (totalExponent (elapsed * 2 ^ (52 - bits)) (-((52 - bits : Nat) : Int)) -
        totalExponent (1000000 * 2 ^ 33) (-33)) = -((72 - bits : Nat) : Int) := by
    rw [targetExponent_eq, totalExponent, totalExponent, scaledLog, divisorLog]
    omega
  have least : min (-((52 - bits : Nat) : Int) - -33) (-((72 - bits : Nat) : Int)) =
      -((72 - bits : Nat) : Int) := by
    omega
  have shifts : (-((52 - bits : Nat) : Int) - -33 - -((72 - bits : Nat) : Int)).toNat = 53 := by
    omega
  have quotient := scaled_quotient elapsed
    (by omega : 52 - bits + 53 = 72 - bits + 33)
  have bounds := bounds_of_log2 notZero log (72 - bits)
  rw [Nat.add_sub_cancel' (by omega : bits ≤ 72)] at bounds
  refine ⟨72 - bits,
    accuracyOfFraction (elapsed * 2 ^ (52 - bits) * 2 ^ 53 % (1000000 * 2 ^ 33))
      (1000000 * 2 ^ 33), by omega, by omega, bounds.1, bounds.2, ?_⟩
  rw [elapsedSeconds, dividend, clocksPerSec_finite]
  rw [div_finite, divCore, target, least, shifts, Nat.shiftLeft_eq, quotient]
  rfl

theorem millionths_finite {sign : Sign} {mantissa : Nat} {exponent : Int}
    (positive : 0 < mantissa) :
    millionths (.finite sign mantissa exponent positive) =
      if 0 ≤ exponent then mantissa * 2 ^ exponent.toNat * 1000000
      else roundHalfEven (mantissa * 1000000) (2 ^ (-exponent).toNat) :=
  rfl

/-- Times below 2^50 ticks are printed as they are. -/
theorem millionths_elapsedSeconds (short : elapsed < 2 ^ 50) :
    millionths (elapsedSeconds elapsed) = elapsed := by
  by_cases zero : elapsed = 0
  · rw [zero]
    rfl
  obtain ⟨places, accuracy, atLeast, atMost, lower, upper, rounded⟩ :=
    elapsedSeconds_eq (Nat.pos_of_ne_zero zero) short
  obtain ⟨quotient, isQuotient⟩ : ∃ quotient,
      elapsed * 2 ^ places / 1000000 = quotient := ⟨_, rfl⟩
  have notAbove : quotient * 1000000 ≤ elapsed * 2 ^ places :=
    isQuotient ▸ Nat.div_mul_le_self _ _
  have notBelow : elapsed * 2 ^ places < quotient * 1000000 + 1000000 := by
    have whole := Nat.div_add_mod' (elapsed * 2 ^ places) 1000000
    have rest := Nat.mod_lt (elapsed * 2 ^ places) (by decide : 0 < 1000000)
    omega
  obtain ⟨shift, oneMore, bits⟩ : ∃ shift, shift ≤ 1 ∧ quotient.log2 = 52 + shift := by
    by_cases small : quotient < 2 ^ 53
    · exact ⟨0, by decide, (Nat.log2_eq_iff (by omega)).mpr (by omega)⟩
    · exact ⟨1, by decide, (Nat.log2_eq_iff (by omega)).mpr (by omega)⟩
  obtain ⟨nearest, carry, positive, noMore, finite, roundedDown, roundedUp⟩ :=
    roundWithAccuracy_near .positive accuracy bits (by omega : -1074 ≤ -(places : Int))
  rw [rounded, isQuotient, finite]
  have fraction : ¬ 0 ≤ -(places : Int) + (shift + carry : Nat) := by omega
  have exponent : (-(-(places : Int) + (shift + carry : Nat))).toNat =
      places - (shift + carry) := by
    omega
  rw [millionths_finite, if_neg fraction, exponent]
  have samePower : 2 ^ places = 2 ^ (places - (shift + carry)) * 2 ^ (shift + carry) := by
    rw [← Nat.pow_add, Nat.sub_add_cancel (by omega)]
  have large : 2 ^ 21 ≤ 2 ^ (places - (shift + carry)) :=
    Nat.pow_le_pow_right (by decide) (by omega)
  rw [samePower, ← Nat.mul_assoc] at notAbove notBelow
  exact roundHalfEven_scaled (by omega) (Nat.two_pow_pos (shift + carry))
    (Nat.pow_le_pow_right (by decide) (by omega)) notAbove notBelow roundedDown roundedUp

theorem wholeSeconds_eq {elapsed : Nat} (short : elapsed < 2 ^ 50) :
    wholeSeconds elapsed = elapsed / 1000000 := by
  rw [wholeSeconds, millionths_elapsedSeconds short]

end Elapsed

end WebCrawl
