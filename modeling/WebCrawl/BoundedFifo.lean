import Mathlib.Data.List.Basic

/-!
# Bounded first-in first-out queues

The purpose of a queue with a fixed capacity: a list to which a push appends as
long as there is room, and whose first element a pop yields.  An implementation
answers the same calls from a state of its own.  It refines the queue when each
call keeps the two related, with equal replies; then all sequences of calls do.
-/

namespace BoundedFifo

variable {α State : Type*}

/-- A pop overwrites a variable of its caller, whose value it is given. -/
inductive Call (α : Type*) where
  | push (element : α)
  | pop (target : α)
  deriving DecidableEq, Repr

/-- Whether the call succeeded and, of a pop, the variable afterwards. -/
inductive Reply (α : Type*) where
  | pushed (accepted : Bool)
  | popped (found : Bool) (target : α)
  deriving DecidableEq, Repr

def Reply.succeeded : Reply α → Bool
  | .pushed accepted => accepted
  | .popped found _ => found

/-- What a queue of the given capacity does on one call. -/
def step (capacity : Nat) (stored : List α) : Call α → Reply α × List α
  | .push element =>
      if stored.length < capacity then (.pushed true, stored ++ [element])
      else (.pushed false, stored)
  | .pop target =>
      match stored with
      | [] => (.popped false target, [])
      | first :: rest => (.popped true first, rest)

def run (capacity : Nat) : List α → List (Call α) → List (Reply α) × List α
  | stored, [] => ([], stored)
  | stored, call :: calls =>
      let (reply, stored) := step capacity stored call
      let (replies, stored) := run capacity stored calls
      (reply :: replies, stored)

/-- A sequence of calls of an implementation, undefined as soon as one is. -/
def calls (implementation : State → Call α → Option (Reply α × State)) :
    State → List (Call α) → Option (List (Reply α) × State)
  | state, [] => some ([], state)
  | state, call :: more => do
      let (reply, state) ← implementation state call
      let (replies, state) ← calls implementation state more
      return (reply :: replies, state)

/-- An implementation that follows the queue in each call follows it in every
sequence of calls. -/
theorem calls_refine {implementation : State → Call α → Option (Reply α × State)}
    {capacity : Nat} {follows : State → List α → Prop}
    (each : ∀ state stored call, follows state stored →
      ∃ after, implementation state call =
          some ((step capacity stored call).1, after) ∧
        follows after (step capacity stored call).2)
    {state : State} {stored : List α} (start : follows state stored)
    (more : List (Call α)) :
    ∃ after, calls implementation state more =
        some ((run capacity stored more).1, after) ∧
      follows after (run capacity stored more).2 := by
  induction more generalizing state stored with
  | nil => exact ⟨state, rfl, start⟩
  | cons call more ih =>
      obtain ⟨middle, first, related⟩ := each state stored call start
      obtain ⟨after, rest, follows⟩ := ih related
      refine ⟨after, ?_, follows⟩
      rw [calls, first, Option.bind_eq_bind, Option.bind_some]
      dsimp only
      rw [rest]
      rfl

end BoundedFifo
