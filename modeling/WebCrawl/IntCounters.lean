import Mathlib.Algebra.Order.Ring.Int
import Mathlib.Data.Option.Basic

/-!
# Counters that are an `int`

An `int` that leaves its range is undefined, so a computation that counts with
it returns only under a condition.  `ReturnsIff` states the condition and the
result at once, and has one rule for each way of composing computations.
Counting one by one stays in the range exactly when the total does.
-/

namespace WebCrawl

section Results

variable {α β : Type*} {computation : Option α} {next : α → Option β}
  {condition other : Prop} {value : α} {last : β}

/-- A computation returns exactly when a condition holds, and then this value. -/
def ReturnsIff (computation : Option α) (condition : Prop) (value : α) : Prop :=
  ∀ result, computation = some result ↔ condition ∧ result = value

theorem returnsIff_some (value : α) : ReturnsIff (some value) True value :=
  fun result => by simp [eq_comm]

theorem ReturnsIff.bind (first : ReturnsIff computation condition value)
    (second : condition → ReturnsIff (next value) other last) :
    ReturnsIff (computation.bind next) (condition ∧ other) last := by
  intro result
  rw [Option.bind_eq_some_iff]
  constructor
  · rintro ⟨between, returned, later⟩
    obtain ⟨holds, rfl⟩ := (first between).mp returned
    obtain ⟨otherHolds, isLast⟩ := (second holds result).mp later
    exact ⟨⟨holds, otherHolds⟩, isLast⟩
  · rintro ⟨⟨holds, otherHolds⟩, isLast⟩
    exact ⟨value, (first value).mpr ⟨holds, rfl⟩, (second holds result).mpr ⟨otherHolds, isLast⟩⟩

theorem ReturnsIff.map (returns : ReturnsIff computation condition value) (next : α → β) :
    ReturnsIff (computation.map next) condition (next value) := by
  intro result
  rw [Option.map_eq_some_iff]
  constructor
  · rintro ⟨between, returned, rfl⟩
    obtain ⟨holds, rfl⟩ := (returns between).mp returned
    exact ⟨holds, rfl⟩
  · rintro ⟨holds, rfl⟩
    exact ⟨value, (returns value).mpr ⟨holds, rfl⟩, rfl⟩

theorem ReturnsIff.of_iff (returns : ReturnsIff computation condition value)
    (same : condition ↔ other) : ReturnsIff computation other value :=
  fun result => by rw [returns result, same]

theorem ReturnsIff.guard [Decidable other]
    (returns : ReturnsIff computation condition value) :
    ReturnsIff (if other then computation else none) (other ∧ condition) value := by
  intro result
  by_cases holds : other
  · simp [holds, returns result]
  · simp [holds]

/-- Something good is returned exactly when the condition holds and the value is good. -/
theorem ReturnsIff.exists_iff {good : α → Prop}
    (returns : ReturnsIff computation condition value) :
    (∃ result, computation = some result ∧ good result) ↔ condition ∧ good value := by
  constructor
  · rintro ⟨result, returned, isGood⟩
    obtain ⟨holds, rfl⟩ := (returns result).mp returned
    exact ⟨holds, isGood⟩
  · rintro ⟨holds, isGood⟩
    exact ⟨value, (returns value).mpr ⟨holds, rfl⟩, isGood⟩

end Results

def IsInt (number : Int) : Prop :=
  -2 ^ 31 ≤ number ∧ number < 2 ^ 31

instance (number : Int) : Decidable (IsInt number) :=
  inferInstanceAs (Decidable (_ ∧ _))

/-- The sum of two `int`s. -/
def addInt (number more : Int) : Option Int :=
  if IsInt (number + more) then some (number + more) else none

/-- `count++` for an `int`. -/
def increment (count : Int) : Option Int :=
  if count + 1 < 2 ^ 31 then some (count + 1) else none

theorem addInt_returnsIff (number more : Int) :
    ReturnsIff (addInt number more) (IsInt (number + more)) (number + more) :=
  fun result => by simp [addInt, eq_comm]

theorem increment_returnsIff (count : Int) :
    ReturnsIff (increment count) (count + 1 < 2 ^ 31) (count + 1) :=
  fun result => by simp [increment, eq_comm]

/-- An `int` can be counted on from a start. -/
def CountsOn (start : Int) (added : Nat) : Prop :=
  added = 0 ∨ start + added < 2 ^ 31

instance (start : Int) (added : Nat) : Decidable (CountsOn start added) :=
  inferInstanceAs (Decidable (_ ∨ _))

theorem countsOn_one (start : Int) : CountsOn start 1 ↔ start + 1 < 2 ^ 31 := by
  simp [CountsOn]

theorem countsOn_add (start : Int) (added more : Nat) :
    CountsOn start (added + more) ↔ CountsOn start added ∧ CountsOn (start + added) more := by
  unfold CountsOn
  omega

end WebCrawl
