import WebCrawl.LabelledRun
import WebCrawl.Monitor
import Mathlib.Algebra.BigOperators.Group.Finset.Basic

/-!
# Bounded work

Of the steps of a system some do work and the others wait, and a natural number
says how much work is left.  When each working step lowers it and no other step
raises it, a run has only so many working steps, whatever the order is; and when
there is always work that can be done until the system is done, it can be
brought there from everywhere.  The work left of a family of threads is the sum
of what is left to each of them.
-/

namespace BoundedWork

variable {State Event : Type*}

/-- The runs with the number of their steps that did work. -/
inductive Worked (step : State → Event → State → Prop) (works : State → State → Prop)
    (initial : State) : Nat → State → Prop
  | start : Worked step works initial 0 initial
  | work {count state event after} :
      Worked step works initial count state → step state event after → works state after →
        Worked step works initial (count + 1) after
  | rest {count state event after} :
      Worked step works initial count state → step state event after → ¬ works state after →
        Worked step works initial count after

/-- What the steps do to the work that is left, in the states that hold. -/
structure Spends (step : State → Event → State → Prop) (works : State → State → Prop)
    (holds : State → Prop) (left : State → Nat) : Prop where
  keeps : ∀ state event after, holds state → step state event after → holds after
  work : ∀ state event after, holds state → step state event after → works state after →
    left after < left state
  rest : ∀ state event after, holds state → step state event after → ¬ works state after →
    left after ≤ left state

section Runs

variable {step : State → Event → State → Prop} {works : State → State → Prop}
variable {holds : State → Prop} {left : State → Nat} {initial state : State}

theorem Spends.holds_of_worked (spends : Spends step works holds left)
    (atStart : holds initial) {count : Nat}
    (worked : Worked step works initial count state) : holds state := by
  induction worked with
  | start => exact atStart
  | work _ stepTo _ ih | rest _ stepTo _ ih => exact spends.keeps _ _ _ ih stepTo

/-- What was done and what is left are together no more than what there was. -/
theorem Spends.count_le (spends : Spends step works holds left)
    (atStart : holds initial) {count : Nat}
    (worked : Worked step works initial count state) :
    count + left state ≤ left initial := by
  induction worked with
  | start => exact Nat.le_of_eq (Nat.zero_add _)
  | work before stepTo isWork ih =>
      have lower := spends.work _ _ _ (spends.holds_of_worked atStart before) stepTo isWork
      omega
  | rest before stepTo noWork ih =>
      have lower := spends.rest _ _ _ (spends.holds_of_worked atStart before) stepTo noWork
      omega

/-- What the steps do to the work is enough to know in fewer states, if the steps
stay inside them. -/
theorem Spends.restrict {narrower : State → Prop} (spends : Spends step works holds left)
    (narrows : ∀ state, narrower state → holds state)
    (keeps : ∀ state event after, narrower state → step state event after →
      narrower after) :
    Spends step works narrower left where
  keeps := keeps
  work state event after held := spends.work state event after (narrows state held)
  rest state event after held := spends.rest state event after (narrows state held)

theorem Spends.narrow {fewer : State → Event → State → Prop}
    (spends : Spends step works holds left)
    (narrows : ∀ state event after, fewer state event after → step state event after) :
    Spends fewer works holds left where
  keeps state event after held stepTo :=
    spends.keeps state event after held (narrows state event after stepTo)
  work state event after held stepTo :=
    spends.work state event after held (narrows state event after stepTo)
  rest state event after held stepTo :=
    spends.rest state event after held (narrows state event after stepTo)

theorem Spends.holds_of_run (spends : Spends step works holds left) (held : holds state)
    {events : List Event} {after : State} (run : LabelledRun.Run step state events after) :
    holds after :=
  run.invariant holds held spends.keeps

/-- A system that can always be brought to where less is left can be brought to where it
is done. -/
theorem Spends.exists_done_of_runs {done : State → Prop} (spends : Spends step works holds left)
    (onwards : ∀ state, holds state → ¬ done state →
      ∃ events after, LabelledRun.Run step state events after ∧ left after < left state)
    (held : holds state) :
    ∃ events after, LabelledRun.Run step state events after ∧ done after := by
  obtain ⟨amount, isLeft⟩ : ∃ amount, left state = amount := ⟨_, rfl⟩
  induction amount using Nat.strong_induction_on generalizing state with
  | _ amount ih =>
      by_cases isDone : done state
      · exact ⟨[], state, .start, isDone⟩
      obtain ⟨first, next, onward, lower⟩ := onwards state held isDone
      obtain ⟨events, after, run, reached⟩ :=
        ih (left next) (by omega) (spends.holds_of_run held onward) rfl
      exact ⟨first ++ events, after, onward.append run, reached⟩

/-- It is enough that some step works. -/
theorem Spends.exists_done {done : State → Prop} (spends : Spends step works holds left)
    (active : ∀ state, holds state → ¬ done state →
      ∃ event after, step state event after ∧ works state after)
    (held : holds state) :
    ∃ events after, LabelledRun.Run step state events after ∧ done after := by
  refine spends.exists_done_of_runs (fun state held busy => ?_) held
  obtain ⟨event, after, stepTo, isWork⟩ := active state held busy
  exact ⟨[] ++ [event], after, LabelledRun.Run.start.next stepTo,
    spends.work _ _ _ held stepTo isWork⟩

end Runs

section Threads

variable {Thread Point : Type*} [Fintype Thread]

/-- What all threads together have to do. -/
def total (weight : Point → Nat) (point : Thread → Point) : Nat :=
  ∑ thread, weight (point thread)

variable {point after : Thread → Point} [DecidableEq Thread]

theorem total_update (weight : Point → Nat) (point : Thread → Point) (thread : Thread)
    (target : Point) :
    total weight (Function.update point thread target) + weight (point thread) =
      total weight point + weight target := by
  have others : ∀ other ∈ Finset.univ.erase thread,
      weight (Function.update point thread target other) = weight (point other) := by
    intro other isOther
    rw [Function.update_of_ne (Finset.ne_of_mem_erase isOther)]
  have before := Finset.add_sum_erase Finset.univ (fun other => weight (point other))
    (Finset.mem_univ thread)
  have later := Finset.add_sum_erase Finset.univ
    (fun other => weight (Function.update point thread target other)) (Finset.mem_univ thread)
  rw [Finset.sum_congr rfl others, Function.update_self] at later
  unfold total
  omega

/-- A signal that wakes a thread to as much work as it had changes nothing. -/
theorem total_signal (weight : Point → Nat) {asleep : Point → Prop} {wake : Point → Point}
    (same : ∀ point, asleep point → weight (wake point) = weight point)
    (signal : Monitor.Signal asleep wake point after) :
    total weight after = total weight point := by
  apply Finset.sum_congr rfl
  intro thread _
  rcases signal.point_eq thread with unmoved | ⟨sleeping, woken⟩
  · rw [unmoved]
  · rw [woken, same _ sleeping]

end Threads

end BoundedWork
