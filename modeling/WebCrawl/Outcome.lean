import Mathlib.Data.List.Forall2
import Mathlib.Order.Lattice

/-!
# Outcomes of programs that may run for ever

A loop whose exit depends on its input is written with fuel, and its outcome
says which of four things happened: it returned, it ended the process, it did
something undefined, or the fuel ran out first.  `Settles` collects the
outcomes for all amounts of fuel in one: what a program settles on is what it
does, and settling on `unfinished` is running for ever.  Sequencing and
unrolling a loop once have one rule each.
-/

universe u

inductive Outcome (α : Type u) where
  | returns (value : α)
  | exits
  | faults
  | unfinished
  deriving DecidableEq, Repr

namespace Outcome

variable {α β : Type u}

/-- Continue with the value of an outcome that returned one. -/
def andThen (outcome : Outcome α) (next : α → Outcome β) : Outcome β :=
  match outcome with
  | .returns value => next value
  | .exits => .exits
  | .faults => .faults
  | .unfinished => .unfinished

instance : Monad Outcome where
  pure := .returns
  bind := andThen

instance : LawfulMonad Outcome :=
  LawfulMonad.mk' Outcome (fun outcome => by cases outcome <;> rfl) (fun _ _ => rfl)
    (fun outcome _ _ => by cases outcome <;> rfl)

@[simp]
theorem pure_eq (value : α) : (pure value : Outcome α) = .returns value :=
  rfl

@[simp]
theorem returns_bind (value : α) (next : α → Outcome β) :
    returns value >>= next = next value :=
  rfl

@[simp]
theorem exits_bind (next : α → Outcome β) :
    (exits : Outcome α) >>= next = .exits :=
  rfl

@[simp]
theorem faults_bind (next : α → Outcome β) :
    (faults : Outcome α) >>= next = .faults :=
  rfl

@[simp]
theorem unfinished_bind (next : α → Outcome β) :
    (unfinished : Outcome α) >>= next = .unfinished :=
  rfl

@[simp]
theorem bind_returns (outcome : Outcome α) :
    (outcome >>= fun value => returns value) = outcome := by
  cases outcome <;> rfl

/-- A sequence that returned has returned from each of its parts. -/
theorem bind_eq_returns {outcome : Outcome α} {next : α → Outcome β} {result : β}
    (returned : outcome >>= next = .returns result) :
    ∃ value, outcome = .returns value ∧ next value = .returns result := by
  cases outcome with
  | returns value => exact ⟨value, rfl, returned⟩
  | exits | faults | unfinished => cases returned

theorem mapM_eq_returns_iff {values : List α} {run : α → Outcome β} {results : List β} :
    values.mapM run = .returns results ↔
      List.Forall₂ (fun value result => run value = .returns result) values results := by
  induction values generalizing results with
  | nil =>
      rw [List.mapM_nil, List.forall₂_nil_left_iff]
      exact ⟨fun same => (returns.inj same).symm, fun same => same ▸ rfl⟩
  | cons value values ih =>
      rw [List.mapM_cons, List.forall₂_cons_left_iff]
      constructor
      · intro both
        obtain ⟨result, first, later⟩ := bind_eq_returns both
        obtain ⟨more, rest, whole⟩ := bind_eq_returns later
        exact ⟨result, more, first, ih.mp rest, (returns.inj whole).symm⟩
      · rintro ⟨result, more, first, rest, rfl⟩
        rw [first, returns_bind, ih.mpr rest]
        rfl

theorem mapM_returns {values : List α} {run : α → Outcome β} {result : α → β}
    (returned : ∀ value ∈ values, run value = .returns (result value)) :
    values.mapM run = .returns (values.map result) := by
  rw [mapM_eq_returns_iff, List.forall₂_map_right_iff, List.forall₂_same]
  exact returned

/-- What a program does when it may use as much fuel as it needs. -/
def Settles (run : Nat → Outcome α) (result : Outcome α) : Prop :=
  ∃ bound, ∀ fuel, run fuel = if fuel < bound then .unfinished else result

namespace Settles

variable {run : Nat → Outcome α} {result : Outcome α}

theorem const (result : Outcome α) : Settles (fun _ => result) result :=
  ⟨0, fun fuel => by simp⟩

/-- A program that no amount of fuel completes runs for ever. -/
theorem of_unfinished (never : ∀ fuel, run fuel = .unfinished) :
    Settles run .unfinished :=
  ⟨0, fun fuel => by simp [never fuel]⟩

theorem unique {other : Outcome α} (settles : Settles run result)
    (otherSettles : Settles run other) : result = other := by
  obtain ⟨bound, settled⟩ := settles
  obtain ⟨otherBound, otherSettled⟩ := otherSettles
  have first := settled (max bound otherBound)
  have second := otherSettled (max bound otherBound)
  rw [if_neg (by omega)] at first second
  exact first.symm.trans second

/-- A loop settles on what it settles on after one more unit of fuel. -/
theorem of_succ (outOfFuel : run 0 = .unfinished)
    (settles : Settles (fun fuel => run (fuel + 1)) result) :
    Settles run result := by
  obtain ⟨bound, settled⟩ := settles
  refine ⟨bound + 1, fun fuel => ?_⟩
  cases fuel with
  | zero => simp [outOfFuel]
  | succ fuel =>
      simpa using settled fuel

theorem of_round (outOfFuel : run 0 = .unfinished)
    (ends : ∀ fuel, run (fuel + 1) = result) : Settles run result :=
  of_succ outOfFuel ⟨0, by simpa using ends⟩

theorem congr {other : Nat → Outcome α} (settles : Settles run result)
    (same : ∀ fuel, other fuel = run fuel) : Settles other result := by
  obtain ⟨bound, settled⟩ := settles
  exact ⟨bound, fun fuel => (same fuel).trans (settled fuel)⟩

theorem bind {next : α → Nat → Outcome β} {final : α → Outcome β}
    (first : Settles run result)
    (second : ∀ value, result = .returns value →
      Settles (next value) (final value)) :
    Settles (fun fuel => run fuel >>= fun value => next value fuel)
      (result >>= final) := by
  obtain ⟨bound, settled⟩ := first
  cases result with
  | returns value =>
      obtain ⟨nextBound, nextSettled⟩ := second value rfl
      refine ⟨max bound nextBound, fun fuel => ?_⟩
      dsimp only
      rw [settled fuel]
      by_cases short : fuel < bound
      · rw [if_pos short, if_pos (by omega), unfinished_bind]
      · have sameTest : fuel < max bound nextBound ↔ fuel < nextBound := by omega
        simp only [if_neg short, returns_bind, nextSettled fuel, sameTest]
  | exits | faults | unfinished =>
      refine ⟨bound, fun fuel => ?_⟩
      dsimp only
      rw [settled fuel]
      split <;> rfl

theorem bind_returns {next : α → Nat → Outcome β} {value : α}
    {final : Outcome β} (first : Settles run (.returns value))
    (second : Settles (next value) final) :
    Settles (fun fuel => run fuel >>= fun value => next value fuel) final := by
  have both : Settles (fun fuel => run fuel >>= fun value => next value fuel)
      (returns value >>= fun _ => final) := by
    apply first.bind
    intro other same
    cases same
    exact second
  exact both

theorem bind_stopped {next : α → Nat → Outcome β} (first : Settles run result)
    (stopped : ∀ value, result ≠ .returns value) :
    Settles (fun fuel => run fuel >>= fun value => next value fuel)
      (result >>= fun _ => (unfinished : Outcome β)) :=
  first.bind fun value returned => absurd returned (stopped value)

theorem bind_unfinished {next : α → Nat → Outcome β}
    (first : Settles run .unfinished) :
    Settles (fun fuel => run fuel >>= fun value => next value fuel)
      .unfinished :=
  first.bind_stopped (by simp)

theorem bind_faults {next : α → Nat → Outcome β} (first : Settles run .faults) :
    Settles (fun fuel => run fuel >>= fun value => next value fuel) .faults :=
  first.bind_stopped (by simp)

theorem reached (settles : Settles run result) : ∃ fuel, run fuel = result := by
  obtain ⟨bound, settled⟩ := settles
  exact ⟨bound, by rw [settled, if_neg (Nat.lt_irrefl bound)]⟩

end Settles

/-- A program returns when it settles on some value. -/
def Completes (run : Nat → Outcome α) : Prop :=
  ∃ value, Settles run (.returns value)

namespace Completes

variable {run : Nat → Outcome α}

theorem const (value : α) : Completes fun _ => returns value :=
  ⟨value, .const (.returns value)⟩

theorem of_eq {value : α} (returned : ∀ fuel, run fuel = .returns value) : Completes run :=
  ⟨value, (Settles.const _).congr returned⟩

theorem congr {other : Nat → Outcome α} (completes : Completes run)
    (same : ∀ fuel, other fuel = run fuel) : Completes other := by
  obtain ⟨value, settles⟩ := completes
  exact ⟨value, settles.congr same⟩

/-- A sequence returns when its first part does, and the second part does for each
value that the first one can return. -/
theorem bind {next : α → Nat → Outcome β} (first : Completes run)
    (second : ∀ value, (∃ fuel, run fuel = .returns value) → Completes (next value)) :
    Completes fun fuel => run fuel >>= fun value => next value fuel := by
  obtain ⟨value, settles⟩ := first
  obtain ⟨result, later⟩ := second value settles.reached
  exact ⟨result, settles.bind_returns later⟩

end Completes

end Outcome
