import Mathlib.Data.List.Basic

/-!
# Questions and answers over two channels

A client sends messages over one channel and the answers to some of them come
back over another one.  After such a question the client waits, so at most one
answer is under way, and it is the answer to that question: none is lost, none
comes twice and none is taken for another.  As long as it has not arrived the
server has a message to read.
-/

namespace Dialogue

variable {Message Reply : Type*}

/-- What is in the two channels, and the question that the client waits on. -/
@[ext]
structure State (Message Reply : Type*) where
  messages : List Message
  replies : List Reply
  waiting : Option Message

inductive Step (answer : Message → Option Reply) :
    State Message Reply → State Message Reply → Prop
  | tell {state : State Message Reply} {message : Message} :
      answer message = none →
      Step answer state { state with messages := state.messages ++ [message] }
  | ask {state : State Message Reply} {message : Message} {reply : Reply} :
      state.waiting = none → answer message = some reply →
      Step answer state
        { state with messages := state.messages ++ [message], waiting := some message }
  | serve {state : State Message Reply} {message : Message} {rest : List Message} :
      state.messages = message :: rest →
      Step answer state
        { state with
          messages := rest
          replies := state.replies ++ (answer message).toList }
  | take {state : State Message Reply} {message : Message} {reply : Reply}
      {rest : List Reply} :
      state.waiting = some message → state.replies = reply :: rest →
      Step answer state { state with replies := rest, waiting := none }

/-- What is under way, once all messages are served, is the answer that the client
waits for. -/
structure Balanced (answer : Message → Option Reply) (state : State Message Reply) :
    Prop where
  owed : state.replies ++ state.messages.filterMap answer =
    (state.waiting.bind answer).toList
  isQuestion : ∀ message, state.waiting = some message → ∃ reply, answer message = some reply

section Steps

variable {answer : Message → Option Reply} {state after : State Message Reply}

theorem Balanced.idle (balanced : Balanced answer state) (idle : state.waiting = none) :
    state.replies = [] ∧ state.messages.filterMap answer = [] := by
  have owed := balanced.owed
  rw [idle] at owed
  exact List.append_eq_nil_iff.mp owed

/-- The reply that arrives is the answer to the question, and no other is under way. -/
theorem Balanced.take {message : Message} {reply : Reply} {rest : List Reply}
    (balanced : Balanced answer state) (waits : state.waiting = some message)
    (arrived : state.replies = reply :: rest) :
    answer message = some reply ∧ rest = [] ∧ state.messages.filterMap answer = [] := by
  obtain ⟨expected, isAnswer⟩ := balanced.isQuestion message waits
  have owed := balanced.owed
  rw [waits, arrived, Option.bind_some, isAnswer, List.cons_append, Option.toList_some,
    List.cons.injEq, List.append_eq_nil_iff] at owed
  exact ⟨isAnswer.trans (congrArg some owed.1.symm), owed.2⟩

/-- An answer that is waited for and has not arrived is still to be given. -/
theorem Balanced.unserved {message : Message} (balanced : Balanced answer state)
    (waits : state.waiting = some message) (nothing : state.replies = []) :
    state.messages ≠ [] := by
  intro served
  obtain ⟨expected, isAnswer⟩ := balanced.isQuestion message waits
  have owed := balanced.owed
  rw [waits, nothing, served, Option.bind_some, isAnswer] at owed
  cases owed

theorem balanced_step (balanced : Balanced answer state) (stepTo : Step answer state after) :
    Balanced answer after := by
  cases stepTo with
  | @tell message noQuestion =>
      refine ⟨?_, balanced.isQuestion⟩
      dsimp only
      rw [List.filterMap_append, List.filterMap_cons_none noQuestion, List.filterMap_nil,
        List.append_nil]
      exact balanced.owed
  | @ask message reply idle isQuestion =>
      obtain ⟨noReplies, noQuestions⟩ := balanced.idle idle
      refine ⟨?_, ?_⟩
      · dsimp only
        rw [noReplies, List.filterMap_append, noQuestions, Option.bind_some, isQuestion,
          List.filterMap_cons_some isQuestion]
        rfl
      · rintro other ⟨⟩
        exact ⟨reply, isQuestion⟩
  | @serve message rest first =>
      have owed := balanced.owed
      rw [first] at owed
      refine ⟨?_, balanced.isQuestion⟩
      rw [← owed]
      cases served : answer message with
      | none => simp [List.filterMap_cons_none served]
      | some reply => simp [List.filterMap_cons_some served]
  | take waits arrived =>
      obtain ⟨_, rfl, noQuestions⟩ := balanced.take waits arrived
      refine ⟨?_, fun _ none => by cases none⟩
      dsimp only
      rw [noQuestions]
      rfl

end Steps

end Dialogue
