import WebCrawl.ServerShutdown

/-!
# Whether SIGTERM ends the serving process

`queueLock` is not recursive, so a handler on top of the thread that holds it waits
for ever.  A handler on top of one of the threads of `serverThread` gets the lock,
but it cancels its own thread with the others and does not return from `close`.
-/

namespace WebCrawl

namespace ShutdownState

variable {threads : Nat}

/-- A state with a property can be reached. -/
def CanReach (interrupted : ServerThreadId threads) (state : ShutdownState threads)
    (goal : ShutdownState threads → Prop) : Prop :=
  ∃ more last, LabelledRun.Run (Step interrupted) state more last ∧ goal last

/-- Whatever the other threads do, the handler can still lock `queueLock`. -/
def ObtainsLock (interrupted : ServerThreadId threads) (server : ServerState threads) : Prop :=
  ∀ events state, Run interrupted server events state → state.handler = .locking →
    CanReach interrupted state fun last => last.handler = .destroying

/-- Whatever the other threads do, the handler can still end the process. -/
def ReachesExit (interrupted : ServerThreadId threads) (server : ServerState threads) : Prop :=
  ∀ events state, Run interrupted server events state →
    CanReach interrupted state fun last => last.handler = .exited

variable {interrupted : ServerThreadId threads} {server : ServerState threads}
variable {state after : ShutdownState threads} {event : ShutdownEvent}
variable {goal : ShutdownState threads → Prop}

theorem CanReach.step (stepTo : Step interrupted state event after)
    (later : CanReach interrupted after goal) : CanReach interrupted state goal := by
  obtain ⟨more, last, run, reached⟩ := later
  exact ⟨_, last, (LabelledRun.Run.start.next stepTo).append run, reached⟩

theorem CanReach.here (reached : goal state) : CanReach interrupted state goal :=
  ⟨[], state, .start, reached⟩

/-- The interrupted thread stands where it stood. -/
theorem insideLock_step (stepTo : Step interrupted state event after) :
    ServerState.insideLock after.server.producer after.server.consumer interrupted ↔
      ServerState.insideLock state.server.producer state.server.consumer interrupted := by
  cases stepTo with
  | serve serves => exact ServerState.rests_insideLock (serves.rests interrupted (Or.inl rfl))
  | use serves => exact ServerState.rests_insideLock (serves.rests interrupted (Or.inl rfl))
  | @endWaiting thread _ _ other =>
      cases interrupted with
      | producer => rfl
      | consumer own =>
          have different : own ≠ thread := by
            rintro rfl
            exact other rfl
          simp only [ServerState.insideLock, ServerState.setConsumer_consumer,
            Function.update_of_ne different]
  | _ => rfl

theorem insideLock_of_run {more : List ShutdownEvent}
    (run : Run interrupted server more state) :
    ServerState.insideLock state.server.producer state.server.consumer interrupted ↔
      ServerState.insideLock server.producer server.consumer interrupted :=
  run.invariant (fun reached =>
    ServerState.insideLock reached.server.producer reached.server.consumer interrupted ↔
      ServerState.insideLock server.producer server.consumer interrupted) Iff.rfl
    fun _ _ _ same stepTo => (insideLock_step stepTo).trans same

section Lock

/-- The thread under the handler holds the lock that the handler waits for. -/
theorem locking_step (sound : Sound state)
    (inside : ServerState.insideLock state.server.producer state.server.consumer interrupted)
    (here : state.handler = .locking) (stepTo : Step interrupted state event after) :
    after.handler = .locking := by
  cases stepTo with
  | serve | use | endWaiting | endServing => exact here
  | lock _ free => exact absurd inside (sound.lockHeld.outside free interrupted)
  | destroy there | unlock there | cancel _ there | leaveCancelling there | exit there =>
      rw [here] at there
      cases there
  | endHandler there =>
      rw [here] at there
      rcases there with closing | ⟨i, cancelling⟩
      · cases closing
      · cases cancelling

theorem locking_of_run {events : List (ServerEvent threads)}
    (served : ServerState.Run threads events server)
    (inside : ServerState.insideLock server.producer server.consumer interrupted)
    {more : List ShutdownEvent} (run : Run interrupted server more state) :
    state.handler = .locking := by
  have both : Sound state ∧
      ServerState.insideLock state.server.producer state.server.consumer interrupted ∧
      state.handler = .locking := by
    apply run.invariant fun reached : ShutdownState threads => Sound reached ∧
      ServerState.insideLock reached.server.producer reached.server.consumer interrupted ∧
      reached.handler = .locking
    · exact ⟨sound_interrupt served, inside, rfl⟩
    · rintro reached event after ⟨sound, held, here⟩ stepTo
      exact ⟨sound.step stepTo, (insideLock_step stepTo).mpr held,
        locking_step sound held here stepTo⟩
  exact both.2.2

/-- The thread that holds the lock is another one, and it can go on. -/
theorem canReach_destroying (sound : Sound state)
    (outside :
      ¬ ServerState.insideLock state.server.producer state.server.consumer interrupted)
    (here : state.handler = .locking) :
    CanReach interrupted state fun last => last.handler = .destroying := by
  cases owner : state.server.queueLock with
  | none => exact CanReach.step (.lock here owner) (CanReach.here rfl)
  | some holder =>
      have inside := (sound.lockHeld holder).mpr owner
      have different : holder ≠ interrupted := by
        rintro rfl
        exact outside inside
      have positive : 1 ≤ threads := by
        cases holder with
        | producer =>
            cases interrupted with
            | producer => exact absurd rfl different
            | consumer thread => exact Nat.one_le_of_lt thread.isLt
        | consumer thread => exact Nat.one_le_of_lt thread.isLt
      obtain ⟨events, last, run, free⟩ :=
        ServerState.releases (sound.consistent positive) inside
      obtain ⟨server, handler, cancellation⟩ := state
      dsimp only at here
      subst here
      have running : ¬ Stopped interrupted ⟨server, .locking, cancellation⟩ holder := by
        rintro (same | ⟨thread, _, done⟩)
        · exact different same
        · have none := sound.uncancelled (Or.inl rfl) thread
          rw [none] at done
          cases done
      obtain ⟨more, released⟩ := run_of_acts run (by decide) rfl running
      exact ⟨_, _, released.next (.lock rfl free), rfl⟩

theorem obtainsLock_iff {events : List (ServerEvent threads)}
    (served : ServerState.Run threads events server) :
    ObtainsLock interrupted server ↔
      ¬ ServerState.insideLock server.producer server.consumer interrupted := by
  constructor
  · intro obtains inside
    obtain ⟨more, last, run, destroying⟩ := obtains [] _ .start rfl
    have locking := locking_of_run served inside run
    rw [destroying] at locking
    cases locking
  · intro outside more state run here
    apply canReach_destroying (sound_of_run served run) _ here
    rw [insideLock_of_run run]
    exact outside

end Lock

section Exit

/-- The thread of `serverProc` is not one of those that were cancelled. -/
theorem exit_producer (here : state.handler = .closing) :
    Step .producer state .handle { state with handler := .exited } := by
  apply Step.exit here
  intro thread same
  cases same

/-- The loop has cancelled the threads below its counter. -/
theorem canReach_exited_of_cancelling {i : Nat} (below : i ≤ threads)
    (here : state.handler = .cancelling i) :
    CanReach .producer state fun last => last.handler = .exited := by
  induction rest : threads - i generalizing i state with
  | zero =>
      apply CanReach.step (.leaveCancelling here (by omega))
      exact CanReach.step (exit_producer rfl) (CanReach.here rfl)
  | succ rest ih =>
      apply CanReach.step (.cancel (by omega) here)
      exact ih (by omega) rfl (by omega)

theorem canReach_exited_of_unlocking (here : state.handler = .unlocking) :
    CanReach .producer state fun last => last.handler = .exited :=
  CanReach.step (.unlock here) (canReach_exited_of_cancelling (Nat.zero_le _) rfl)

theorem canReach_exited_of_destroying (here : state.handler = .destroying) :
    CanReach .producer state fun last => last.handler = .exited :=
  CanReach.step (.destroy here) (canReach_exited_of_unlocking rfl)

/-- The counter of the loop, and the thread of `serverProc` is never cancelled. -/
def Going (threads : Nat) : HandlerPoint → Prop
  | .cancelling i => i ≤ threads
  | .cancelled => False
  | _ => True

theorem going_step (going : Going threads state.handler)
    (stepTo : Step .producer state event after) :
    Going threads after.handler := by
  cases stepTo with
  | serve | use | endWaiting | endServing => exact going
  | lock | destroy | leaveCancelling | exit => trivial
  | unlock => exact Nat.zero_le _
  | cancel below => exact below
  | endHandler _ same => cases same

/-- A handler on top of one of the threads of `serverThread`: when it leaves its loop,
its own thread is cancelled. -/
def CancelsItself (thread : Fin threads) (state : ShutdownState threads) : Prop :=
  match state.handler with
  | .cancelling i => thread.val < i → state.cancellation thread = .requested
  | .closing => state.cancellation thread = .requested
  | .exited => False
  | _ => True

theorem cancelsItself_step {thread : Fin threads} (itself : CancelsItself thread state)
    (stepTo : Step (.consumer thread) state event after) : CancelsItself thread after := by
  cases stepTo with
  | serve | use => exact itself
  | lock | destroy | endHandler => trivial
  | unlock => exact fun early => absurd early (Nat.not_lt_zero _)
  | @cancel i below here =>
      intro passed
      by_cases own : thread.val = i
      · subst own
        exact Function.update_self ..
      · have different : thread ≠ ⟨i, below⟩ := fun same => own (congrArg Fin.val same)
        rw [CancelsItself, here] at itself
        dsimp only
        rw [Function.update_of_ne different]
        exact itself (by omega)
  | leaveCancelling here all =>
      rw [CancelsItself, here] at itself
      exact itself (Nat.lt_of_lt_of_le thread.isLt all)
  | exit here unrequested =>
      rw [CancelsItself, here] at itself
      exact absurd itself (unrequested thread rfl)
  | endWaiting _ _ other | endServing _ other =>
      have different : thread ≠ _ := fun same => other (congrArg _ same)
      unfold CancelsItself at itself ⊢
      dsimp only
      rw [Function.update_of_ne different]
      exact itself

theorem not_exited_of_consumer {thread : Fin threads} {more : List ShutdownEvent}
    (run : Run (.consumer thread) server more state) : state.handler ≠ .exited := by
  have started : CancelsItself thread (interrupt server) := trivial
  have itself : CancelsItself thread state :=
    run.invariant (CancelsItself thread) started
      fun _ _ _ itself stepTo => cancelsItself_step itself stepTo
  intro exited
  rw [CancelsItself, exited] at itself
  exact itself

theorem reachesExit_of_producer {events : List (ServerEvent threads)}
    (served : ServerState.Run threads events server)
    (outside : server.producer.holdsLock = false) : ReachesExit .producer server := by
  intro more state run
  have started : Going threads (interrupt server).handler := trivial
  have going : Going threads state.handler :=
    run.invariant (fun reached => Going threads reached.handler) started
      fun _ _ _ going stepTo => going_step going stepTo
  cases here : state.handler with
  | locking =>
      have free : ¬ ServerState.insideLock server.producer server.consumer .producer := by
        simp [ServerState.insideLock, outside]
      obtain ⟨events, last, locks, destroying⟩ :=
        (obtainsLock_iff served).mpr free more state run here
      obtain ⟨later, final, exits, exited⟩ := canReach_exited_of_destroying destroying
      exact ⟨_, final, locks.append exits, exited⟩
  | destroying => exact canReach_exited_of_destroying here
  | unlocking => exact canReach_exited_of_unlocking here
  | cancelling i =>
      rw [here] at going
      exact canReach_exited_of_cancelling going here
  | closing => exact CanReach.step (exit_producer here) (CanReach.here rfl)
  | cancelled =>
      rw [here] at going
      exact going.elim
  | exited => exact CanReach.here here

end Exit

/-- The handler ends the process when it interrupts `serverProc` outside of its critical
section, and only then. -/
theorem handler_ends_process_iff {events : List (ServerEvent threads)}
    (served : ServerState.Run threads events server) :
    ObtainsLock interrupted server ∧ ReachesExit interrupted server ↔
      interrupted = .producer ∧ server.producer.holdsLock = false := by
  rw [obtainsLock_iff served]
  constructor
  · rintro ⟨outside, reaches⟩
    cases interrupted with
    | producer => exact ⟨rfl, by simpa [ServerState.insideLock] using outside⟩
    | consumer thread =>
        obtain ⟨more, last, run, exited⟩ := reaches [] _ .start
        exact absurd exited (not_exited_of_consumer run)
  · rintro ⟨rfl, outside⟩
    exact ⟨by simp [ServerState.insideLock, outside],
      reachesExit_of_producer served outside⟩

theorem handler_ends_process_iff_accepting :
    ObtainsLock .producer (ServerState.initial 2) ∧
      ReachesExit .producer (ServerState.initial 2) :=
  (handler_ends_process_iff LabelledRun.Run.start).mpr ⟨rfl, rfl⟩

/-- The handler waits for ever when the producer tests the queue, and it does not end
the process when it interrupts another thread. -/
theorem handler_not_ending_process :
    (∃ events server, ServerState.Run 2 events server ∧
      ServerState.insideLock server.producer server.consumer .producer ∧
      ¬ ObtainsLock .producer server) ∧
    ¬ ReachesExit (.consumer 0) (ServerState.initial 2) := by
  constructor
  · have accepted : ServerState.Run 2 _ _ := LabelledRun.Run.start.next (.accept 4 rfl)
    have locked := accepted.next (.lockProducer rfl rfl)
    refine ⟨_, _, locked, rfl, ?_⟩
    rw [obtainsLock_iff locked]
    exact fun outside => outside rfl
  · intro reaches
    obtain ⟨more, last, run, exited⟩ := reaches [] _ .start
    exact not_exited_of_consumer run exited

end ShutdownState

end WebCrawl
