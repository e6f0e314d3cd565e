import Mathlib.Logic.Relation
import Mathlib.Order.Basic

/-!
# Polling two counters

Two counters only grow.  A poller reads one and then the other, in either order, and
shows what it read, while the counters may grow between its actions.  The two values
that it shows need not have been there together, but each was there at some moment since
the poller had read nothing, and what it shows never goes back behind what it showed
before.
-/

namespace Polling

variable {α β : Type*}

/-- The counters, what was read of them and not yet shown, and what was shown. -/
@[ext]
structure State (α β : Type*) where
  now : α × β
  first : Option α
  second : Option β
  shown : List (α × β)

variable [Preorder α] [Preorder β]

inductive Step : State α β → State α β → Prop
  | grow {state : State α β} {later : α × β} :
      state.now ≤ later → Step state { state with now := later }
  | readFirst {state : State α β} : Step state { state with first := some state.now.1 }
  | readSecond {state : State α β} : Step state { state with second := some state.now.2 }
  | shows {state : State α β} {first : α} {second : β} :
      state.first = some first → state.second = some second →
      Step state
        { state with
          first := none
          second := none
          shown := state.shown ++ [(first, second)] }

abbrev Steps : State α β → State α β → Prop :=
  Relation.ReflTransGen Step

/-- What is kept of the counters was read since they had some value. -/
structure Since (low : α × β) (state : State α β) : Prop where
  grown : low ≤ state.now
  first : ∀ value, state.first = some value → low.1 ≤ value ∧ value ≤ state.now.1
  second : ∀ value, state.second = some value → low.2 ≤ value ∧ value ≤ state.now.2

section Readings

variable {state after : State α β} {low : α × β}

theorem since_unread (grown : low ≤ state.now) (first : state.first = none)
    (second : state.second = none) : Since low state where
  grown := grown
  first value read := by
    rw [first] at read
    cases read
  second value read := by
    rw [second] at read
    cases read

theorem Since.step (since : Since low state) (stepTo : Step state after) : Since low after := by
  obtain ⟨grown, first, second⟩ := since
  cases stepTo with
  | grow later =>
      exact ⟨grown.trans later,
        fun value read => ⟨(first value read).1, (first value read).2.trans later.1⟩,
        fun value read => ⟨(second value read).1, (second value read).2.trans later.2⟩⟩
  | shows =>
      exact ⟨grown, fun value read => (by cases read), fun value read => (by cases read)⟩
  | readFirst =>
      refine ⟨grown, fun value read => ?_, second⟩
      cases read
      exact ⟨grown.1, le_refl _⟩
  | readSecond =>
      refine ⟨grown, first, fun value read => ?_⟩
      cases read
      exact ⟨grown.2, le_refl _⟩

theorem Since.steps (since : Since low state) (stepsTo : Steps state after) :
    Since low after := by
  induction stepsTo with
  | refl => exact since
  | tail _ stepTo ih => exact ih.step stepTo

/-- What was shown ascends, and what is kept was read behind it. -/
structure Ascending (state : State α β) : Prop where
  ordered : state.shown.Pairwise (· ≤ ·)
  behind : ∃ low, (∀ pair ∈ state.shown, pair ≤ low) ∧ Since low state

theorem ascending_of_nothing (shown : state.shown = []) (first : state.first = none)
    (second : state.second = none) : Ascending state where
  ordered := by
    rw [shown]
    exact List.Pairwise.nil
  behind := ⟨state.now, by simp [shown], since_unread (le_refl _) first second⟩

theorem Ascending.shown_le (ascending : Ascending state) :
    ∀ pair ∈ state.shown, pair ≤ state.now := by
  obtain ⟨low, atMost, since⟩ := ascending.behind
  exact fun pair member => (atMost pair member).trans since.grown

theorem Ascending.second_le (ascending : Ascending state) {value : β}
    (read : state.second = some value) : value ≤ state.now.2 := by
  obtain ⟨low, _, since⟩ := ascending.behind
  exact (since.second value read).2

theorem Ascending.step (ascending : Ascending state) (stepTo : Step state after) :
    Ascending after := by
  obtain ⟨ordered, low, atMost, since⟩ := ascending
  have later := since.step stepTo
  cases stepTo with
  | grow | readFirst | readSecond => exact ⟨ordered, low, atMost, later⟩
  | @shows first second isFirst isSecond =>
      have ahead : low ≤ (first, second) :=
        ⟨(since.first first isFirst).1, (since.second second isSecond).1⟩
      have inside : (first, second) ≤ state.now :=
        ⟨(since.first first isFirst).2, (since.second second isSecond).2⟩
      refine ⟨?_, state.now, ?_, since_unread (le_refl _) rfl rfl⟩
      · rw [List.pairwise_append]
        refine ⟨ordered, List.pairwise_singleton _ _, fun pair member last isLast => ?_⟩
        rw [List.mem_singleton.mp isLast]
        exact (atMost pair member).trans ahead
      · intro pair member
        rcases List.mem_append.mp member with earlier | last
        · exact (atMost pair earlier).trans since.grown
        · rw [List.mem_singleton.mp last]
          exact inside

theorem Ascending.steps (ascending : Ascending state) (stepsTo : Steps state after) :
    Ascending after := by
  induction stepsTo with
  | refl => exact ascending
  | tail _ stepTo ih => exact ih.step stepTo

end Readings

end Polling
