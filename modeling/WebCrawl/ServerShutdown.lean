import WebCrawl.ServerThreadsExclusion

/-!
# The handler of SIGTERM

The handler runs on top of one of the threads, which does not go on before the
handler is left; the handler is never left, since it ends the process.  It locks
`queueLock`, destroys the queue, unlocks and cancels the threads of `serverThread`
one by one.  A cancelled thread ends at its next cancellation point:
`pthread_cond_wait`, which takes the lock again first, or a call of `getRequest`
that may block.  The handler meets such points itself: `close`, which always is
one, and `printf`, which may be one.
-/

namespace WebCrawl

inductive HandlerPoint where
  | locking
  | destroying
  | unlocking
  | cancelling (i : Nat)
  | closing
  | cancelled
  | exited
  deriving DecidableEq, Repr

def HandlerPoint.holdsLock : HandlerPoint → Bool
  | .destroying | .unlocking => true
  | .locking | .cancelling _ | .closing | .cancelled | .exited => false

/-- What `pthread_cancel` has done to a thread. -/
inductive Cancellation where
  | none
  | requested
  | done
  deriving DecidableEq, Repr

/-- The calls of `getRequest` at which a cancelled thread ends. -/
def ConsumerPoint.mayBlock : ConsumerPoint → Bool
  | .serving _ | .answering _ => true
  | _ => false

structure ShutdownState (threads : Nat) where
  server : ServerState threads
  handler : HandlerPoint
  cancellation : Fin threads → Cancellation

/-- The steps of a shutdown: `use` is a push or a pop that touches the buffer. -/
inductive ShutdownEvent where
  | serve
  | use
  | destroy
  | handle
  deriving DecidableEq, Repr

namespace ServerState

variable {threads : Nat}

/-- Between two states a thread took no step; it may have been woken. -/
def Rests (before after : ServerState threads) : ServerThreadId threads → Prop
  | .producer =>
      after.producer = before.producer ∨ after.producer = before.producer.signalled
  | .consumer thread =>
      after.consumer thread = before.consumer thread ∨
        before.consumer thread = .asleep ∧ after.consumer thread = .locking

/-- A step reads or writes a cell of the buffer. -/
def TouchesBuffer (before after : ServerState threads) : Prop :=
  (∃ newsock, before.producer = .pushing newsock ∧ after.producer = .pushed ∧
      before.socketQueue.full = some false) ∨
    ∃ thread newsock, before.consumer thread = .popping ∧
      after.consumer thread = .popped newsock ∧ before.socketQueue.empty = false

end ServerState

namespace ShutdownState

variable {threads : Nat}

/-- The handler has just been called. -/
def interrupt (server : ServerState threads) : ShutdownState threads where
  server := server
  handler := .locking
  cancellation := fun _ => .none

def Stopped (interrupted : ServerThreadId threads) (state : ShutdownState threads)
    (thread : ServerThreadId threads) : Prop :=
  thread = interrupted ∨ ∃ consumer, thread = .consumer consumer ∧
    state.cancellation consumer = .done

/-- A step of a thread that still runs.  While the handler holds the lock, no thread
gets it. -/
structure Serves (interrupted : ServerThreadId threads) (state : ShutdownState threads)
    (after : ServerState threads) : Prop where
  step : ∃ event, ServerState.Step state.server event after
  live : state.handler ≠ .exited
  excluded : state.handler.holdsLock = true → after.queueLock = none
  rests : ∀ thread, Stopped interrupted state thread →
    ServerState.Rests state.server after thread

section Steps

variable (interrupted : ServerThreadId threads)

inductive Step : ShutdownState threads → ShutdownEvent → ShutdownState threads → Prop
  -- the other threads
  | serve {state : ShutdownState threads} {after : ServerState threads} :
      Serves interrupted state after → ¬ ServerState.TouchesBuffer state.server after →
      Step state .serve { state with server := after }
  | use {state : ShutdownState threads} {after : ServerState threads} :
      Serves interrupted state after → ServerState.TouchesBuffer state.server after →
      Step state .use { state with server := after }
  -- sig_handler
  | lock {state : ShutdownState threads} :
      state.handler = .locking → state.server.queueLock = none →
      Step state .handle { state with handler := .destroying }
  | destroy {state : ShutdownState threads} :
      state.handler = .destroying →
      Step state .destroy { state with handler := .unlocking }
  | unlock {state : ShutdownState threads} :
      state.handler = .unlocking →
      Step state .handle { state with handler := .cancelling 0 }
  | cancel {state : ShutdownState threads} {i : Nat} (below : i < threads) :
      state.handler = .cancelling i →
      Step state .handle
        { state with
          handler := .cancelling (i + 1)
          cancellation := Function.update state.cancellation ⟨i, below⟩ .requested }
  | leaveCancelling {state : ShutdownState threads} {i : Nat} :
      state.handler = .cancelling i → threads ≤ i →
      Step state .handle { state with handler := .closing }
  | exit {state : ShutdownState threads} :
      state.handler = .closing →
      (∀ thread, interrupted = .consumer thread →
        state.cancellation thread ≠ .requested) →
      Step state .handle { state with handler := .exited }
  -- the thread of the handler is cancelled by the handler
  | endHandler {state : ShutdownState threads} {thread : Fin threads} :
      (state.handler = .closing ∨ ∃ i, state.handler = .cancelling i) →
      interrupted = .consumer thread → state.cancellation thread = .requested →
      Step state .handle
        { state with
          handler := .cancelled
          cancellation := Function.update state.cancellation thread .done }
  -- another thread ends
  | endWaiting {state : ShutdownState threads} {thread : Fin threads} :
      state.handler ≠ .exited → state.handler.holdsLock = false →
      interrupted ≠ .consumer thread → state.cancellation thread = .requested →
      state.server.consumer thread = .asleep → state.server.queueLock = none →
      Step state .handle
        { state with
          server :=
            { state.server.setConsumer thread .testing with
              queueLock := some (.consumer thread) }
          cancellation := Function.update state.cancellation thread .done }
  | endServing {state : ShutdownState threads} {thread : Fin threads} :
      state.handler ≠ .exited →
      interrupted ≠ .consumer thread → state.cancellation thread = .requested →
      (state.server.consumer thread).mayBlock = true →
      Step state .handle
        { state with
          cancellation := Function.update state.cancellation thread .done }

abbrev Run (server : ServerState threads) :=
  LabelledRun.Run (Step interrupted) (interrupt server)

end Steps

end ShutdownState

namespace ServerState

variable {threads : Nat} {state after : ServerState threads} {event : ServerEvent threads}

/-- A step of one thread. -/
def Acts (thread : ServerThreadId threads) (before : ServerState threads)
    (event : ServerEvent threads) (after : ServerState threads) : Prop :=
  Step before event after ∧ ∀ other, other ≠ thread → Rests before after other

theorem acts_producer (stepTo : Step state event after)
    (same : after.consumer = state.consumer) : Acts .producer state event after := by
  refine ⟨stepTo, ?_⟩
  rintro (_ | thread) different
  · exact absurd rfl different
  · exact Or.inl (congrFun same thread)

theorem acts_consumer {thread : Fin threads} {point : ConsumerPoint}
    (stepTo : Step state event after)
    (moved : after.consumer = Function.update state.consumer thread point)
    (kept : after.producer = state.producer ∨ after.producer = state.producer.signalled) :
    Acts (.consumer thread) state event after := by
  refine ⟨stepTo, ?_⟩
  rintro (_ | other) different
  · exact kept
  · have threadsDiffer : other ≠ thread := by
      rintro rfl
      exact different rfl
    refine Or.inl ?_
    rw [moved, Function.update_of_ne threadsDiffer]

/-- A thread can go on alone until it has released the lock. -/
def Releases (thread : ServerThreadId threads) (state : ServerState threads) : Prop :=
  ∃ events last, LabelledRun.Run (Acts thread) state events last ∧ last.queueLock = none

theorem Releases.step {thread : ServerThreadId threads} (acts : Acts thread state event after)
    (later : Releases thread after) : Releases thread state := by
  obtain ⟨events, last, run, free⟩ := later
  exact ⟨_, last, (LabelledRun.Run.start.next acts).append run, free⟩

theorem Releases.now {thread : ServerThreadId threads} (acts : Acts thread state event after)
    (free : after.queueLock = none) : Releases thread state :=
  ⟨_, after, LabelledRun.Run.start.next acts, free⟩

section Consumer

variable {thread : Fin threads}

theorem releases_popping (consistent : Consistent state)
    (point : state.consumer thread = .popping) : Releases (.consumer thread) state := by
  obtain ⟨newsock, socketQueue, pops, _⟩ :=
    Queue.pop_of_nonempty consistent.wellFormed (consistent.nonempty thread point) none
  apply Releases.step (acts_consumer (.pop point pops) rfl (Or.inl rfl))
  exact Releases.now (acts_consumer (.unlockConsumer (Function.update_self ..)) rfl
    (Or.inl rfl)) rfl

theorem releases_counted {newsock : Cell} (point : state.consumer thread = .counted newsock) :
    Releases (.consumer thread) state :=
  Releases.now (acts_consumer (.unlockStatistics point) rfl (Or.inl rfl)) rfl

theorem releases_consumer (consistent : Consistent state)
    (inside : (state.consumer thread).holdsLock = true) :
    Releases (.consumer thread) state := by
  cases point : state.consumer thread with
  | testing =>
      cases isEmpty : state.socketQueue.empty with
      | true => exact Releases.now (acts_consumer (.waitNonempty point isEmpty) rfl
          (Or.inl rfl)) rfl
      | false =>
          have leaves := acts_consumer (.leaveEmptyTest point isEmpty) rfl (Or.inl rfl)
          apply Releases.step leaves
          exact releases_popping (consistent.step leaves.1) (Function.update_self ..)
  | popping => exact releases_popping consistent point
  | popped newsock =>
      exact Releases.now (acts_consumer (.unlockConsumer point) rfl (Or.inl rfl)) rfl
  | counting newsock file =>
      apply Releases.step (acts_consumer (.count point) rfl (Or.inl rfl))
      exact releases_counted (Function.update_self ..)
  | counted newsock => exact releases_counted point
  | locking | asleep | signalling | serving | answering =>
      rw [point] at inside
      cases inside

end Consumer

theorem releases_pushing (consistent : Consistent state) {newsock : QueueType}
    (point : state.producer = .pushing newsock) : Releases .producer state := by
  obtain ⟨socketQueue, pushes, _⟩ :=
    Queue.push_of_room consistent.wellFormed (consistent.room newsock point) (some newsock)
  apply Releases.step (acts_producer (.push point pushes) rfl)
  exact Releases.now (acts_producer (.unlockProducer rfl) rfl) rfl

theorem releases_producer (consistent : Consistent state)
    (inside : state.producer.holdsLock = true) : Releases .producer state := by
  cases point : state.producer with
  | testing newsock =>
      cases isFull : decide (state.socketQueue.full = some true) with
      | true =>
          exact Releases.now (acts_producer (.waitNonfull point (of_decide_eq_true isFull))
            rfl) rfl
      | false =>
          have room : state.socketQueue.full = some false := by
            rw [Queue.full_eq consistent.wellFormed] at isFull ⊢
            simpa using isFull
          have leaves := acts_producer (.leaveFullTest point room) rfl
          apply Releases.step leaves
          exact releases_pushing (consistent.step leaves.1) rfl
  | pushing newsock => exact releases_pushing consistent point
  | pushed => exact Releases.now (acts_producer (.unlockProducer point) rfl) rfl
  | accepting | locking | asleep | signalling =>
      rw [point] at inside
      cases inside

/-- A thread that holds the lock can go on until it releases it. -/
theorem releases (consistent : Consistent state) {holder : ServerThreadId threads}
    (inside : insideLock state.producer state.consumer holder) : Releases holder state := by
  cases holder with
  | producer => exact releases_producer consistent inside
  | consumer thread => exact releases_consumer consistent inside

theorem rests_insideLock {thread : ServerThreadId threads} (rests : Rests state after thread) :
    insideLock after.producer after.consumer thread ↔
      insideLock state.producer state.consumer thread := by
  cases thread with
  | producer =>
      rcases rests with same | woken
      · simp only [insideLock, same]
      · simp only [insideLock, woken, holdsLock_signalled]
  | consumer thread =>
      rcases rests with same | ⟨sleeping, woken⟩
      · simp only [insideLock, same]
      · simp only [insideLock, sleeping, woken, ConsumerPoint.holdsLock]

/-- A sleeper that takes the lock again. -/
theorem relock_step {thread : Fin threads} (sleeping : state.consumer thread = .asleep)
    (free : state.queueLock = none) :
    ∃ middle, Step state .internal middle ∧
      Step middle .internal
        { state.setConsumer thread .testing with queueLock := some (.consumer thread) } := by
  refine ⟨_, .wakeConsumer sleeping, ?_⟩
  have locks := @Step.lockConsumer _ (state.setConsumer thread .locking) thread
    (Function.update_self ..) free
  simp only [setConsumer, Function.update_idem] at locks
  exact locks

end ServerState

namespace ShutdownState

variable {threads : Nat} {interrupted : ServerThreadId threads}
variable {state after : ShutdownState threads} {event : ShutdownEvent}

theorem Serves.exists_step {server : ServerState threads}
    (serves : Serves interrupted state server) :
    ∃ event, Step interrupted state event { state with server := server } := by
  by_cases touches : ServerState.TouchesBuffer state.server server
  · exact ⟨.use, .use serves touches⟩
  · exact ⟨.serve, .serve serves touches⟩

/-- A thread that is not stopped can go on alone beside the handler. -/
theorem run_of_acts {thread : ServerThreadId threads} {server last : ServerState threads}
    {events : List (ServerEvent threads)}
    (run : LabelledRun.Run (ServerState.Acts thread) server events last)
    {handler : HandlerPoint} {cancellation : Fin threads → Cancellation}
    (live : handler ≠ .exited) (unlocked : handler.holdsLock = false)
    (running : ¬ Stopped interrupted ⟨server, handler, cancellation⟩ thread) :
    ∃ more, LabelledRun.Run (Step interrupted) ⟨server, handler, cancellation⟩ more
      ⟨last, handler, cancellation⟩ := by
  induction run with
  | start => exact ⟨[], .start⟩
  | @next events middle event last _ acts ih =>
      obtain ⟨more, reached⟩ := ih
      have serves : Serves interrupted ⟨middle, handler, cancellation⟩ last := by
        refine ⟨⟨event, acts.1⟩, live, fun locked => ?_, fun other stopped => acts.2 other ?_⟩
        · rw [unlocked] at locked
          cases locked
        · rintro rfl
          exact running stopped
      obtain ⟨event, stepTo⟩ := serves.exists_step
      exact ⟨_, reached.next stepTo⟩

/-- What holds during a shutdown.  No thread is cancelled before the handler has given
back the lock. -/
structure Sound (state : ShutdownState threads) : Prop where
  lockHeld : state.server.LockHeld
  consistent : 1 ≤ threads → state.server.Consistent
  excluded : state.handler.holdsLock = true → state.server.queueLock = none
  uncancelled : state.handler = .locking ∨ state.handler.holdsLock = true →
    ∀ thread, state.cancellation thread = .none

theorem sound_interrupt {events : List (ServerEvent threads)} {server : ServerState threads}
    (run : ServerState.Run threads events server) : Sound (interrupt server) where
  lockHeld := run.invariant ServerState.LockHeld ServerState.lockHeld_initial
    fun _ _ _ held stepTo => ServerState.lockHeld_step held stepTo
  consistent := fun positive => ServerState.consistent_of_run positive run
  excluded := nofun
  uncancelled := fun _ _ => rfl

theorem Sound.serves {server : ServerState threads} (sound : Sound state)
    (serves : Serves interrupted state server) :
    Sound { state with server := server } := by
  obtain ⟨event, stepTo⟩ := serves.step
  exact
    { lockHeld := ServerState.lockHeld_step sound.lockHeld stepTo
      consistent := fun positive => (sound.consistent positive).step stepTo
      excluded := serves.excluded
      uncancelled := sound.uncancelled }

theorem Sound.step (sound : Sound state) (stepTo : Step interrupted state event after) :
    Sound after := by
  cases stepTo with
  | serve serves => exact sound.serves serves
  | use serves => exact sound.serves serves
  | lock here free =>
      exact ⟨sound.lockHeld, sound.consistent, fun _ => free,
        fun _ => sound.uncancelled (Or.inl here)⟩
  | destroy here =>
      have inside : state.handler.holdsLock = true := by rw [here]; rfl
      exact ⟨sound.lockHeld, sound.consistent, fun _ => sound.excluded inside,
        fun _ => sound.uncancelled (Or.inr inside)⟩
  | unlock | cancel | leaveCancelling | exit | endHandler =>
      exact ⟨sound.lockHeld, sound.consistent, nofun, by simp [HandlerPoint.holdsLock]⟩
  | @endWaiting thread live unlocked other requested sleeping free =>
      obtain ⟨middle, wakes, locks⟩ := ServerState.relock_step sleeping free
      refine ⟨?_, fun positive => ((sound.consistent positive).step wakes).step locks, ?_, ?_⟩
      · exact ServerState.lockHeld_step (ServerState.lockHeld_step sound.lockHeld wakes) locks
      · intro locked
        dsimp only at locked
        rw [unlocked] at locked
        cases locked
      · intro early
        have none := sound.uncancelled early thread
        rw [none] at requested
        cases requested
  | @endServing thread live other requested =>
      refine ⟨sound.lockHeld, sound.consistent, sound.excluded, fun early => ?_⟩
      have none := sound.uncancelled early thread
      rw [none] at requested
      cases requested

theorem sound_of_run {events : List (ServerEvent threads)} {server : ServerState threads}
    (served : ServerState.Run threads events server) {more : List ShutdownEvent}
    (run : Run interrupted server more state) : Sound state :=
  run.invariant Sound (sound_interrupt served) fun _ _ _ sound stepTo => sound.step stepTo

end ShutdownState

end WebCrawl
