import Mathlib.Data.Fintype.Card
import Mathlib.Logic.Function.Basic

/-!
# Locks and condition variables

A monitor is a lock together with condition variables.  `Exclusive` ties the
recorded owner of a lock to the threads whose program point lies inside one of
its critical sections; it is stated for any family of threads, so that the
sides of a protocol may have program points of different types.  `Signal` is
one signal on a condition variable, which wakes one sleeping thread if any
thread sleeps and is lost otherwise.
-/

namespace Monitor

variable {Thread Point : Type*}

/-- The threads inside a critical section are exactly the owner of its lock. -/
def Exclusive (inside : Thread → Prop) (owner : Option Thread) : Prop :=
  ∀ thread, inside thread ↔ owner = some thread

namespace Exclusive

variable {inside after : Thread → Prop} {owner : Option Thread}

theorem unique (exclusive : Exclusive inside owner) {thread other : Thread}
    (first : inside thread) (second : inside other) : thread = other := by
  have ownerFirst := (exclusive thread).mp first
  rw [(exclusive other).mp second] at ownerFirst
  exact (Option.some.inj ownerFirst).symm

theorem acquire (free : Exclusive inside none) {thread : Thread}
    (entered : after thread)
    (others : ∀ other, other ≠ thread → (after other ↔ inside other)) :
    Exclusive after (some thread) := by
  intro other
  by_cases same : other = thread
  · subst other
    simp [entered]
  · rw [others other same, free other]
    simp [Ne.symm same]

theorem release (exclusive : Exclusive inside owner) (thread : Thread)
    (was : inside thread) (left : ¬ after thread)
    (others : ∀ other, other ≠ thread → (after other ↔ inside other)) :
    Exclusive after none := by
  intro other
  by_cases same : other = thread
  · subst other
    simp [left]
  · have outside : ¬ inside other :=
      fun isInside => same (exclusive.unique isInside was)
    simp [others other same, outside]

theorem congr (exclusive : Exclusive inside owner)
    (unchanged : ∀ other, after other ↔ inside other) :
    Exclusive after owner :=
  fun other => (unchanged other).trans (exclusive other)

end Exclusive

section Signals

variable [DecidableEq Thread] {asleep : Point → Prop} {wake : Point → Point}
variable {before after : Thread → Point}

/-- One signal on a condition variable whose waiters are the threads at an
`asleep` point. -/
inductive Signal (asleep : Point → Prop) (wake : Point → Point)
    (before : Thread → Point) : (Thread → Point) → Prop
  | lost : (∀ thread, ¬ asleep (before thread)) →
      Signal asleep wake before before
  | wakes (thread) : asleep (before thread) →
      Signal asleep wake before
        (Function.update before thread (wake (before thread)))

/-- A signal can always be sent. -/
theorem Signal.exists_after (before : Thread → Point) :
    ∃ after, Signal asleep wake before after := by
  by_cases sleeping : ∃ thread, asleep (before thread)
  · obtain ⟨thread, sleeps⟩ := sleeping
    exact ⟨_, .wakes thread sleeps⟩
  · exact ⟨before, .lost (not_exists.mp sleeping)⟩

/-- A signal changes no thread but a sleeping one. -/
theorem Signal.point_eq (signal : Signal asleep wake before after)
    (thread : Thread) :
    after thread = before thread ∨
      asleep (before thread) ∧ after thread = wake (before thread) := by
  cases signal with
  | lost => exact Or.inl rfl
  | wakes woken sleeping =>
      by_cases same : thread = woken
      · subst thread
        exact Or.inr ⟨sleeping, Function.update_self ..⟩
      · exact Or.inl (Function.update_of_ne same ..)

theorem Signal.exists_awake [Nonempty Thread]
    (awake : ∀ point, asleep point → ¬ asleep (wake point))
    (signal : Signal asleep wake before after) :
    ∃ thread, ¬ asleep (after thread) := by
  cases signal with
  | lost noneAsleep => exact ⟨Classical.arbitrary Thread, noneAsleep _⟩
  | wakes woken sleeping =>
      refine ⟨woken, ?_⟩
      rw [Function.update_self]
      exact awake _ sleeping

end Signals

section Occupancy

variable [Fintype Thread] {busy : Point → Bool}

/-- The number of threads at a busy point. -/
def occupancy (busy : Point → Bool) (point : Thread → Point) : Nat :=
  (Finset.univ.filter fun thread => busy (point thread) = true).card

theorem occupancy_eq_zero_iff {point : Thread → Point} :
    occupancy busy point = 0 ↔ ∀ thread, busy (point thread) = false := by
  simp [occupancy, Finset.filter_eq_empty_iff]

theorem occupancy_congr {first second : Thread → Point}
    (same : ∀ thread, busy (first thread) = busy (second thread)) :
    occupancy busy first = occupancy busy second := by
  simp only [occupancy, same]

variable [DecidableEq Thread] {point : Thread → Point} {thread : Thread}
variable {target : Point}

theorem occupancy_update_same (same : busy target = busy (point thread)) :
    occupancy busy (Function.update point thread target) =
      occupancy busy point := by
  apply occupancy_congr
  intro other
  by_cases moved : other = thread
  · subst other
    rw [Function.update_self, same]
  · rw [Function.update_of_ne moved]

theorem occupancy_update_enter (idle : busy (point thread) = false)
    (enters : busy target = true) :
    occupancy busy (Function.update point thread target) =
      occupancy busy point + 1 := by
  have inserted : (Finset.univ.filter fun other =>
      busy (Function.update point thread target other) = true) =
      insert thread (Finset.univ.filter fun other => busy (point other) = true) := by
    ext other
    by_cases moved : other = thread
    · subst other
      simp [enters]
    · simp [moved]
  rw [occupancy, inserted, Finset.card_insert_of_notMem (by simp [idle])]
  rfl

theorem occupancy_update_leave (was : busy (point thread) = true)
    (leaves : busy target = false) :
    occupancy busy (Function.update point thread target) + 1 =
      occupancy busy point := by
  have moved : busy (Function.update point thread target thread) = false := by
    rw [Function.update_self, leaves]
  have back := occupancy_update_enter moved was
  rw [Function.update_idem, Function.update_eq_self] at back
  exact back.symm

end Occupancy

end Monitor
