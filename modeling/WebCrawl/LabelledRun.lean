import Mathlib.Data.List.Induction

/-!
# Labelled runs

A system of threads is given by a relation between a state, the event of one
atomic step and the state after it.  A run records the events in the order in
which they happened, so that a property may speak about the whole history and
not only about the state that it led to.  The two induction rules below carry
an invariant from one step to every run, with and without the history, and the
two rules at the end carry a refinement and an account of what was asked.
-/

namespace LabelledRun

variable {State Event : Type*}

/-- The finite runs of a step relation from one initial state, with their
events in order. -/
inductive Run (step : State → Event → State → Prop) (initial : State) :
    List Event → State → Prop
  | start : Run step initial [] initial
  | next {events state event after} :
      Run step initial events state → step state event after →
        Run step initial (events ++ [event]) after

variable {step : State → Event → State → Prop} {initial : State}

/-- A property of the history and the state holds along every run when it
holds at the start and every step preserves it. -/
theorem Run.history_invariant (holds : List Event → State → Prop)
    (atStart : holds [] initial)
    (preserved : ∀ events state event after, holds events state →
      step state event after → holds (events ++ [event]) after)
    {events : List Event} {state : State}
    (run : Run step initial events state) :
    holds events state := by
  induction run with
  | start => exact atStart
  | next _ stepTo ih => exact preserved _ _ _ _ ih stepTo

theorem Run.invariant (holds : State → Prop) (atStart : holds initial)
    (preserved : ∀ state event after, holds state →
      step state event after → holds after)
    {events : List Event} {state : State}
    (run : Run step initial events state) :
    holds state :=
  run.history_invariant (fun _ reached => holds reached) atStart
    (fun _ state event after held stepTo =>
      preserved state event after held stepTo)

theorem Run.mono {other : State → Event → State → Prop}
    (weaker : ∀ state event after, step state event after → other state event after)
    {events : List Event} {state : State} (run : Run step initial events state) :
    Run other initial events state := by
  induction run with
  | start => exact .start
  | next _ stepTo ih => exact ih.next (weaker _ _ _ stepTo)

/-- A run that goes on with the given event. -/
theorem Run.nextBy {events : List Event} {state after : State}
    (run : Run step initial events state) (event : Event) (stepTo : step state event after) :
    Run step initial (events ++ [event]) after :=
  run.next stepTo

theorem Run.append {first middle last : State} {events more : List Event}
    (run : Run step first events middle) (later : Run step middle more last) :
    Run step first (events ++ more) last := by
  induction later with
  | start => simpa using run
  | next _ stepTo ih =>
      rw [← List.append_assoc]
      exact ih.next stepTo

/-- The last step of a run. -/
theorem Run.last {events : List Event} {event : Event} {after : State}
    (run : Run step initial (events ++ [event]) after) :
    ∃ state, Run step initial events state ∧ step state event after := by
  generalize shape : events ++ [event] = history at run
  cases run with
  | start => simp at shape
  | @next earlier state _ _ run stepTo =>
      obtain ⟨rfl, same⟩ := List.append_inj' shape rfl
      cases same
      exact ⟨state, run, stepTo⟩

/-- A run goes through a state behind each part of its history. -/
theorem Run.split {events more : List Event} {last : State}
    (run : Run step initial (events ++ more) last) :
    ∃ middle, Run step initial events middle ∧ Run step middle more last := by
  induction more using List.reverseRecOn generalizing last with
  | nil => exact ⟨last, by simpa using run, .start⟩
  | append_singleton more event ih =>
      rw [← List.append_assoc] at run
      obtain ⟨state, earlier, stepTo⟩ := run.last
      obtain ⟨middle, front, back⟩ := ih earlier
      exact ⟨middle, front, back.next stepTo⟩

/-- What a step of a refinement is in the system that it refines: a step with the label
that is seen, or none at all. -/
def Matches (step : State → Event → State → Prop) (state : State) :
    Option Event → State → Prop
  | none, after => after = state
  | some event, after => step state event after

/-- A run of a refinement is a run of the system that it refines. -/
theorem Run.simulates {Abstract Label : Type*} {other : Abstract → Label → Abstract → Prop}
    (abstraction : State → Abstract) (label : Event → Option Label)
    (matched : ∀ events state event after, Run step initial events state →
      step state event after →
        Matches other (abstraction state) (label event) (abstraction after))
    {events : List Event} {state : State} (run : Run step initial events state) :
    Run other (abstraction initial) (events.filterMap label) (abstraction state) := by
  induction run with
  | start => exact .start
  | @next events state event after before stepTo ih =>
      have same := matched events state event after before stepTo
      rw [List.filterMap_append]
      cases seen : label event with
      | none =>
          rw [seen] at same
          rw [List.filterMap_cons_none seen, List.filterMap_nil, List.append_nil, same]
          exact ih
      | some other =>
          rw [seen] at same
          rw [List.filterMap_cons_some seen, List.filterMap_nil]
          exact ih.next same

/-- What was asked and not yet answered, when each step keeps account of it. -/
theorem Run.pending {Asked : Type*} {asked answered : List Event → List Asked}
    {waiting : State → List Asked}
    (asked_append : ∀ events more, asked (events ++ more) = asked events ++ asked more)
    (answered_append : ∀ events more,
      answered (events ++ more) = answered events ++ answered more)
    (kept : ∀ state event after, step state event after →
      waiting state ++ asked [event] = answered [event] ++ waiting after)
    {events : List Event} {state : State} (run : Run step initial events state) :
    waiting initial ++ asked events = answered events ++ waiting state := by
  induction run with
  | start =>
      have noneAsked := asked_append [] []
      have noneAnswered := answered_append [] []
      rw [List.append_nil] at noneAsked noneAnswered
      rw [List.self_eq_append_right.mp noneAsked, List.self_eq_append_right.mp noneAnswered,
        List.append_nil, List.nil_append]
  | next _ stepTo ih =>
      rw [asked_append, ← List.append_assoc, ih, List.append_assoc, kept _ _ _ stepTo,
        answered_append, List.append_assoc]

end LabelledRun
