import WebCrawl.ServerShutdown
import Mathlib.Data.Fin.SuccPred

/-!
# The socket queue after it is destroyed

The handler gives back `queueLock` before it cancels the threads, and
`Queue_destroy` leaves the indices as they were.  A thread that gets the lock next
finds a queue that looks as it did before, and pushes or pops as before.  This is
prevented only if nothing is left to pop and the handler runs on the one thread
that pushes, or if the queue has no room in the first place.
-/

namespace WebCrawl

namespace ServerState

variable {threads : Nat} {state after : ServerState threads} {event : ServerEvent threads}

theorem size_step (wellFormed : state.socketQueue.WellFormed)
    (stepTo : Step state event after) : after.socketQueue.size = state.socketQueue.size := by
  cases stepTo with
  | @push newsock _ _ _ call =>
      obtain ⟨_, _, stores, _, size⟩ := wellFormed.push_defined (some newsock)
      rw [stores] at call
      cases call
      exact size
  | pop _ call =>
      obtain ⟨_, _, _, yields, _, size⟩ := wellFormed.pop_defined none
      rw [yields] at call
      cases call
      exact size
  | _ => rfl

/-- A thread can go on alone until it reads or writes a cell of the buffer. -/
def CanTouch (thread : ServerThreadId threads) (state : ServerState threads) : Prop :=
  ∃ events middle event last, LabelledRun.Run (Acts thread) state events middle ∧
    Acts thread middle event last ∧ TouchesBuffer middle last

theorem CanTouch.step {thread : ServerThreadId threads} (acts : Acts thread state event after)
    (later : CanTouch thread after) : CanTouch thread state := by
  obtain ⟨events, middle, event, last, run, touch⟩ := later
  exact ⟨_, middle, event, last, (LabelledRun.Run.start.next acts).append run, touch⟩

theorem CanTouch.now {thread : ServerThreadId threads} (acts : Acts thread state event after)
    (touches : TouchesBuffer state after) : CanTouch thread state :=
  ⟨[], state, event, after, .start, acts, touches⟩

section Consumer

variable {thread : Fin threads}

theorem canTouch_popping (wellFormed : state.socketQueue.WellFormed)
    (nonempty : state.socketQueue.empty = false)
    (point : state.consumer thread = .popping) : CanTouch (.consumer thread) state := by
  obtain ⟨newsock, socketQueue, pops, _⟩ :=
    Queue.pop_of_nonempty wellFormed nonempty none
  apply CanTouch.now (acts_consumer (.pop point pops) rfl (Or.inl rfl))
  exact Or.inr ⟨thread, newsock, point, Function.update_self .., nonempty⟩

theorem canTouch_testing (wellFormed : state.socketQueue.WellFormed)
    (nonempty : state.socketQueue.empty = false)
    (point : state.consumer thread = .testing) : CanTouch (.consumer thread) state := by
  apply CanTouch.step (acts_consumer (.leaveEmptyTest point nonempty) rfl (Or.inl rfl))
  exact canTouch_popping wellFormed nonempty (Function.update_self ..)

theorem canTouch_locking (wellFormed : state.socketQueue.WellFormed)
    (free : state.queueLock = none) (nonempty : state.socketQueue.empty = false)
    (point : state.consumer thread = .locking) : CanTouch (.consumer thread) state := by
  apply CanTouch.step (acts_consumer (.lockConsumer point free) rfl (Or.inl rfl))
  exact canTouch_testing wellFormed nonempty (Function.update_self ..)

theorem canTouch_serving (wellFormed : state.socketQueue.WellFormed)
    (free : state.queueLock = none) (nonempty : state.socketQueue.empty = false)
    {newsock : Cell} (point : state.consumer thread = .serving newsock) :
    CanTouch (.consumer thread) state := by
  apply CanTouch.step (acts_consumer (.refuse point) rfl (Or.inl rfl))
  exact canTouch_locking wellFormed free nonempty (Function.update_self ..)

/-- A thread of `serverThread` comes back to the queue. -/
theorem canTouch_consumer (lockHeld : LockHeld state)
    (wellFormed : state.socketQueue.WellFormed) (free : state.queueLock = none)
    (nonempty : state.socketQueue.empty = false) : CanTouch (.consumer thread) state := by
  have outside : (state.consumer thread).holdsLock ≠ true :=
    lockHeld.outside free (.consumer thread)
  cases point : state.consumer thread with
  | locking => exact canTouch_locking wellFormed free nonempty point
  | asleep =>
      apply CanTouch.step (acts_consumer (.wakeConsumer point) rfl (Or.inl rfl))
      exact canTouch_locking wellFormed free nonempty (Function.update_self ..)
  | signalling newsock =>
      apply CanTouch.step (acts_consumer (.signalNonfull point) rfl (Or.inr rfl))
      exact canTouch_serving wellFormed free nonempty (Function.update_self ..)
  | serving newsock => exact canTouch_serving wellFormed free nonempty point
  | answering newsock =>
      apply CanTouch.step (acts_consumer (.answer point) rfl (Or.inl rfl))
      exact canTouch_locking wellFormed free nonempty (Function.update_self ..)
  | testing | popping | popped | counting | counted =>
      rw [point] at outside
      exact absurd rfl outside

end Consumer

theorem canTouch_pushing (wellFormed : state.socketQueue.WellFormed)
    (room : state.socketQueue.full = some false) {newsock : QueueType}
    (point : state.producer = .pushing newsock) : CanTouch .producer state := by
  obtain ⟨socketQueue, pushes, _⟩ := Queue.push_of_room wellFormed room (some newsock)
  apply CanTouch.now (acts_producer (.push point pushes) rfl)
  exact Or.inl ⟨newsock, point, rfl, room⟩

theorem canTouch_producer_testing (wellFormed : state.socketQueue.WellFormed)
    (room : state.socketQueue.full = some false) {newsock : QueueType}
    (point : state.producer = .testing newsock) : CanTouch .producer state := by
  apply CanTouch.step (acts_producer (.leaveFullTest point room) rfl)
  exact canTouch_pushing wellFormed room rfl

theorem canTouch_producer_locking (wellFormed : state.socketQueue.WellFormed)
    (free : state.queueLock = none) (room : state.socketQueue.full = some false)
    {newsock : QueueType} (point : state.producer = .locking newsock) :
    CanTouch .producer state := by
  apply CanTouch.step (acts_producer (.lockProducer point free) rfl)
  exact canTouch_producer_testing wellFormed room rfl

theorem canTouch_accepting (wellFormed : state.socketQueue.WellFormed)
    (free : state.queueLock = none) (room : state.socketQueue.full = some false)
    (point : state.producer = .accepting) : CanTouch .producer state := by
  apply CanTouch.step (acts_producer (.accept 0 point) rfl)
  exact canTouch_producer_locking wellFormed free room rfl

/-- The thread of `serverProc` comes back to the queue. -/
theorem canTouch_producer (lockHeld : LockHeld state)
    (wellFormed : state.socketQueue.WellFormed) (free : state.queueLock = none)
    (room : state.socketQueue.full = some false) : CanTouch .producer state := by
  have outside : state.producer.holdsLock ≠ true := lockHeld.outside free .producer
  cases point : state.producer with
  | accepting => exact canTouch_accepting wellFormed free room point
  | locking newsock => exact canTouch_producer_locking wellFormed free room point
  | asleep newsock =>
      apply CanTouch.step (acts_producer (.wakeProducer point) rfl)
      exact canTouch_producer_locking wellFormed free room rfl
  | signalling =>
      obtain ⟨consumer, signal⟩ : ∃ consumer, Monitor.Signal (· = ConsumerPoint.asleep)
          (fun _ => .locking) state.consumer consumer := Monitor.Signal.exists_after _
      have acts : Acts .producer state .internal
          { state with producer := .accepting, consumer := consumer } := by
        refine ⟨.signalNonempty point signal, ?_⟩
        rintro (_ | thread) different
        · exact absurd rfl different
        · exact signal.point_eq thread
      apply CanTouch.step acts
      exact canTouch_accepting wellFormed free room rfl
  | testing | pushing | pushed =>
      rw [point] at outside
      exact absurd rfl outside

/-- With a queue of one cell, a push finds it full and a pop finds it empty. -/
theorem not_touchesBuffer_of_one (wellFormed : state.socketQueue.WellFormed)
    (oneCell : state.socketQueue.size = 1) : ¬ TouchesBuffer state after := by
  have isFull := Queue.full_eq wellFormed
  have stored := RingBuffer.used_lt wellFormed.embros_toNat_lt wellFormed.piso_toNat_lt
  have none : state.socketQueue.contents = [] := by
    rw [← List.length_eq_zero_iff, Queue.contents_length, Queue.stored]
    rw [oneCell] at stored ⊢
    omega
  rw [none, oneCell] at isFull
  rintro (⟨_, _, _, room⟩ | ⟨_, _, _, _, nonempty⟩)
  · rw [isFull] at room
    cases room
  · rw [(Queue.empty_iff wellFormed).mpr none] at nonempty
    cases nonempty

theorem not_pushed_of_rests (rests : Rests state after .producer) {newsock : QueueType}
    (pushing : state.producer = .pushing newsock) : after.producer ≠ .pushed := by
  intro pushed
  rcases rests with same | same <;> rw [pushing, pushed] at same <;> cases same

/-- Without its producer, an empty queue stays empty and untouched. -/
theorem empty_step (rests : Rests state after .producer)
    (isEmpty : state.socketQueue.empty = true) (stepTo : Step state event after) :
    ¬ TouchesBuffer state after ∧ after.socketQueue.empty = true := by
  constructor
  · rintro (⟨newsock, pushing, pushed, _⟩ | ⟨_, _, _, _, nonempty⟩)
    · exact not_pushed_of_rests rests pushing pushed
    · rw [isEmpty] at nonempty
      cases nonempty
  · cases stepTo with
    | push point => exact absurd rfl (not_pushed_of_rests rests point)
    | pop _ call =>
        rw [Queue.pop_of_empty isEmpty] at call
        cases call
        exact isEmpty
    | _ => exact isEmpty

end ServerState

namespace ShutdownState

variable {threads : Nat} {interrupted : ServerThreadId threads} {server : ServerState threads}
variable {state after : ShutdownState threads} {event : ShutdownEvent}
variable {events more : List ShutdownEvent}

/-- After `Queue_destroy`, no push and no pop touches the buffer. -/
def UnusedAfterDestroy (events : List ShutdownEvent) : Prop :=
  .use ∉ events.dropWhile (· ≠ .destroy)

theorem unusedAfterDestroy_of_not_mem (unused : .use ∉ events) : UnusedAfterDestroy events :=
  fun member => unused (List.dropWhile_sublist _ |>.subset member)

theorem unusedAfterDestroy_append (notYet : .destroy ∉ events) :
    UnusedAfterDestroy (events ++ more) ↔ UnusedAfterDestroy more := by
  have before : ∀ event ∈ events, decide (event ≠ ShutdownEvent.destroy) = true := by
    intro event member
    rw [decide_eq_true_eq]
    rintro rfl
    exact notYet member
  rw [UnusedAfterDestroy, UnusedAfterDestroy, List.dropWhile_append_of_pos before]

/-- The queue is destroyed by one step of the handler. -/
theorem destroy_not_mem (run : Run interrupted server events state)
    (here : state.handler = .locking ∨ state.handler = .destroying) : .destroy ∉ events := by
  have notYet : state.handler = .locking ∨ state.handler = .destroying →
      .destroy ∉ events := by
    apply run.history_invariant fun events reached =>
      reached.handler = .locking ∨ reached.handler = .destroying → .destroy ∉ events
    · exact fun _ => List.not_mem_nil
    · intro events reached event after before stepTo early
      rw [List.mem_append, not_or, List.mem_singleton]
      cases stepTo with
      | serve | use | endWaiting | endServing => exact ⟨before early, nofun⟩
      | lock point => exact ⟨before (Or.inl point), nofun⟩
      | destroy | unlock | cancel | leaveCancelling | exit | endHandler => simp at early
  exact notYet here

variable {served : List (ServerEvent threads)}

/-- The queue keeps the size that it was created with. -/
theorem size_of_run (positive : 1 ≤ threads)
    (serving : ServerState.Run threads served server)
    (run : Run interrupted server events state) :
    state.server.socketQueue.size = threads := by
  have atStart : server.Consistent ∧ server.socketQueue.size = threads := by
    apply serving.invariant fun (reached : ServerState threads) =>
      reached.Consistent ∧ reached.socketQueue.size = threads
    · exact ⟨ServerState.consistent_initial positive, rfl⟩
    · rintro reached event after ⟨consistent, size⟩ stepTo
      exact ⟨consistent.step stepTo,
        (ServerState.size_step consistent.wellFormed stepTo).trans size⟩
  have both : Sound state ∧ state.server.socketQueue.size = threads := by
    apply run.invariant fun reached : ShutdownState threads =>
      Sound reached ∧ reached.server.socketQueue.size = threads
    · exact ⟨sound_interrupt serving, atStart.2⟩
    · rintro reached event after ⟨sound, size⟩ stepTo
      refine ⟨sound.step stepTo, ?_⟩
      have wellFormed := (sound.consistent positive).wellFormed
      cases stepTo with
      | serve serves | use serves =>
          obtain ⟨_, stepTo⟩ := serves.step
          exact (ServerState.size_step wellFormed stepTo).trans size
      | _ => exact size
  exact both.2

/-- With at most one thread, the buffer is never touched. -/
theorem use_not_mem_of_small (small : threads ≤ 1)
    (serving : ServerState.Run threads served server)
    (run : Run interrupted server events state) : .use ∉ events := by
  have both : .use ∉ events ∧ ∃ events, Run interrupted server events state := by
    apply run.history_invariant fun events reached =>
      .use ∉ events ∧ ∃ events, Run interrupted server events reached
    · exact ⟨List.not_mem_nil, [], .start⟩
    · rintro before reached event after ⟨unused, more, earlier⟩ stepTo
      refine ⟨?_, _, earlier.next stepTo⟩
      rw [List.mem_append, not_or, List.mem_singleton]
      refine ⟨unused, ?_⟩
      rintro rfl
      cases stepTo with
      | use serves touches =>
          cases threads with
          | zero =>
              cases interrupted with
              | producer =>
                  rcases touches with ⟨_, pushing, pushed, _⟩ | ⟨thread, _⟩
                  · exact ServerState.not_pushed_of_rests
                      (serves.rests .producer (Or.inl rfl)) pushing pushed
                  · exact thread.elim0
              | consumer thread => exact thread.elim0
          | succ fewer =>
              have sound := sound_of_run serving earlier
              have size := size_of_run (by omega) serving earlier
              exact ServerState.not_touchesBuffer_of_one
                (sound.consistent (by omega)).wellFormed (by omega) touches
  exact both.1

/-- An empty queue without its producer is not touched any more. -/
theorem use_not_mem_of_empty {last : ShutdownState threads}
    (isEmpty : state.server.socketQueue.empty = true)
    (run : LabelledRun.Run (Step .producer) state more last) : .use ∉ more := by
  have both : .use ∉ more ∧ last.server.socketQueue.empty = true := by
    apply run.history_invariant fun more (reached : ShutdownState threads) =>
      .use ∉ more ∧ reached.server.socketQueue.empty = true
    · exact ⟨List.not_mem_nil, isEmpty⟩
    · rintro before reached event after ⟨unused, isEmpty⟩ stepTo
      rw [List.mem_append, not_or, List.mem_singleton]
      cases stepTo with
      | serve serves =>
          obtain ⟨_, stepTo⟩ := serves.step
          exact ⟨⟨unused, nofun⟩,
            (ServerState.empty_step (serves.rests .producer (Or.inl rfl)) isEmpty stepTo).2⟩
      | use serves touches =>
          obtain ⟨_, stepTo⟩ := serves.step
          exact absurd touches
            (ServerState.empty_step (serves.rests .producer (Or.inl rfl)) isEmpty stepTo).1
      | _ => exact ⟨⟨unused, nofun⟩, isEmpty⟩
  exact both.1

/-- A thread that can still touch the buffer does so between `Queue_destroy` and its
cancellation. -/
theorem exists_use (sound : Sound state) (here : state.handler = .destroying)
    {thread : ServerThreadId threads} (different : thread ≠ interrupted)
    (touch : ServerState.CanTouch thread state.server) :
    ∃ more last, LabelledRun.Run (Step interrupted) state more last ∧
      ¬ UnusedAfterDestroy more := by
  obtain ⟨server, handler, cancellation⟩ := state
  dsimp only at here touch
  subst here
  obtain ⟨acts, middle, event, last, run, final, touches⟩ := touch
  have running : ¬ Stopped interrupted ⟨server, .cancelling 0, cancellation⟩ thread := by
    rintro (same | ⟨consumer, _, done⟩)
    · exact different same
    · have none := sound.uncancelled (Or.inr rfl) consumer
      rw [none] at done
      cases done
  have destroyed : LabelledRun.Run (Step interrupted) ⟨server, .destroying, cancellation⟩
      ([.destroy] ++ [.handle]) ⟨server, .cancelling 0, cancellation⟩ :=
    (LabelledRun.Run.start.next (.destroy rfl)).next (.unlock rfl)
  obtain ⟨served, reached⟩ := run_of_acts run (by decide) rfl running
  have serves : Serves interrupted ⟨middle, .cancelling 0, cancellation⟩ last := by
    refine ⟨⟨event, final.1⟩, fun exited => ?_, fun locked => ?_,
      fun other stopped => final.2 other ?_⟩
    · cases exited
    · cases locked
    · rintro rfl
      exact running stopped
  refine ⟨_, _, (destroyed.append reached).next (.use serves touches), ?_⟩
  intro unused
  exact unused (by simp)

/-- Another thread than the interrupted one can pop, or push into the empty queue. -/
theorem exists_canTouch (consistent : server.Consistent)
    (free : server.queueLock = none) (size : server.socketQueue.size = threads)
    (several : 2 ≤ threads)
    (left : ¬ (interrupted = .producer ∧ server.socketQueue.empty = true)) :
    ∃ thread, thread ≠ interrupted ∧ ServerState.CanTouch thread server := by
  cases isEmpty : server.socketQueue.empty with
  | true =>
      have different : ServerThreadId.producer ≠ interrupted := by
        rintro rfl
        exact left ⟨rfl, isEmpty⟩
      have room : server.socketQueue.full = some false := by
        rw [Queue.full_eq consistent.wellFormed,
          (Queue.empty_iff consistent.wellFormed).mp isEmpty, size]
        simp
        omega
      exact ⟨.producer, different,
        ServerState.canTouch_producer consistent.lockHeld consistent.wellFormed free room⟩
  | false =>
      obtain ⟨thread, different⟩ : ∃ thread : Fin threads,
          ServerThreadId.consumer thread ≠ interrupted := by
        cases interrupted with
        | producer => exact ⟨⟨0, by omega⟩, nofun⟩
        | consumer own =>
            have nontrivial : Nontrivial (Fin threads) :=
              Fin.nontrivial_iff_two_le.mpr several
            obtain ⟨thread, other⟩ := exists_ne own
            exact ⟨thread, fun same => other (ServerThreadId.consumer.inj same)⟩
      exact ⟨_, different, ServerState.canTouch_consumer consistent.lockHeld
        consistent.wellFormed free isEmpty⟩

/-- The buffer is not touched after it is freed when the queue has room for no socket,
or when it is destroyed empty, on top of the thread that fills it. -/
theorem buffer_unused_iff (serving : ServerState.Run threads served server)
    (run : Run interrupted server events state) (here : state.handler = .destroying) :
    (∀ more last, LabelledRun.Run (Step interrupted) state more last →
      UnusedAfterDestroy (events ++ more)) ↔
      threads ≤ 1 ∨ interrupted = .producer ∧ state.server.socketQueue.empty = true := by
  have sound := sound_of_run serving run
  have notYet := destroy_not_mem run (Or.inr here)
  constructor
  · intro unused
    by_contra unsafeState
    rw [not_or] at unsafeState
    obtain ⟨many, left⟩ := unsafeState
    obtain ⟨thread, different, touch⟩ := exists_canTouch (sound.consistent (by omega))
      (sound.excluded (by rw [here]; rfl)) (size_of_run (by omega) serving run)
      (by omega) left
    obtain ⟨more, last, later, touched⟩ := exists_use sound here different touch
    exact touched ((unusedAfterDestroy_append notYet).mp (unused more last later))
  · rintro (small | ⟨rfl, isEmpty⟩) more last later
    · exact unusedAfterDestroy_of_not_mem
        (use_not_mem_of_small small serving (run.append later))
    · exact (unusedAfterDestroy_append notYet).mpr
        (unusedAfterDestroy_of_not_mem (use_not_mem_of_empty isEmpty later))

theorem run_lock (free : server.queueLock = none) :
    Run interrupted server [.handle] ⟨server, .destroying, fun _ => .none⟩ :=
  LabelledRun.Run.start.next (.lock rfl free)

theorem buffer_unused_iff_accepting :
    ∃ state, Run .producer (ServerState.initial 2) [.handle] state ∧
      ∀ more last, LabelledRun.Run (Step .producer) state more last →
        UnusedAfterDestroy ([.handle] ++ more) :=
  ⟨_, run_lock rfl, (buffer_unused_iff LabelledRun.Run.start (run_lock rfl) rfl).mpr
    (Or.inr ⟨rfl, rfl⟩)⟩

/-- The first socket is pushed, and no thread has popped it. -/
theorem exists_waiting_socket : ∃ served server, ServerState.Run 2 served server ∧
    server.producer = .accepting ∧ server.queueLock = none ∧
    server.socketQueue.empty = false := by
  obtain ⟨stored, push, nonempty⟩ : ∃ stored,
      (Queue.create 2).push (some 4) = some (true, stored) ∧ stored.empty = false :=
    ⟨_, rfl, by decide⟩
  have accepted : ServerState.Run 2 _ _ := LabelledRun.Run.start.next (.accept 4 rfl)
  have tested := (accepted.next (.lockProducer rfl rfl)).next (.leaveFullTest rfl (by decide))
  have pushed := (tested.next (.push rfl push)).next (.unlockProducer rfl)
  have signalled := pushed.next (.signalNonempty rfl (.lost (by simp [ServerState.initial])))
  exact ⟨_, _, signalled, rfl, rfl, nonempty⟩

/-- A socket that waits in the queue is popped after the queue is destroyed. -/
theorem buffer_used_after_destroy :
    ∃ served server events state, ServerState.Run 2 served server ∧
      server.producer = .accepting ∧ Run .producer server events state ∧
      ¬ UnusedAfterDestroy events := by
  obtain ⟨served, server, serving, accepting, free, nonempty⟩ := exists_waiting_socket
  have locked : Run .producer server [.handle] _ := run_lock free
  have sound := sound_of_run serving locked
  have wellFormed := (sound.consistent (by decide)).wellFormed
  have touch := @ServerState.canTouch_consumer _ _ 0 sound.lockHeld wellFormed free nonempty
  have different : ServerThreadId.consumer (0 : Fin 2) ≠ .producer := nofun
  obtain ⟨more, last, later, used⟩ := exists_use sound rfl different touch
  refine ⟨served, server, _, last, serving, accepting, locked.append later, ?_⟩
  rw [unusedAfterDestroy_append (destroy_not_mem locked (Or.inr rfl))]
  exact used

end ShutdownState

end WebCrawl
