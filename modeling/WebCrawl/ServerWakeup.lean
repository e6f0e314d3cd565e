import WebCrawl.ServerThreadsExclusion

/-!
# No wake-up is lost in the server

Both sides signal after they have released `queueLock`, so another thread may
push, pop or fall asleep between a change of the queue and its signal.  A
consumer only falls asleep on an empty queue and the producer only on a full
one; from then on either the signal that ends this is still to be sent, or it
was sent while the thread slept and has woken it.
-/

namespace WebCrawl

/-- The producer has pushed and still has to signal `cond_nonempty`. -/
def ProducerPoint.owesSignal : ProducerPoint → Bool
  | .pushed | .signalling => true
  | _ => false

/-- The consumer has popped and still has to signal `cond_nonfull`. -/
def ConsumerPoint.owesSignal : ConsumerPoint → Bool
  | .popped _ | .signalling _ => true
  | _ => false

namespace ServerState

variable {threads : Nat}

/-- A queue that holds a socket has a consumer awake or a signal on its way. -/
def ConsumersAlert (state : ServerState threads) : Prop :=
  state.socketQueue.contents ≠ [] →
    (∃ thread, state.consumer thread ≠ .asleep) ∨
      state.producer.owesSignal = true

/-- A sleeping producer has a full queue or a signal on its way. -/
def ProducerAlert (state : ServerState threads) : Prop :=
  ∀ newsock, state.producer = .asleep newsock →
    state.socketQueue.full = some true ∨
      ∃ thread, (state.consumer thread).owesSignal = true

section Points

variable {consumer : Fin threads → ConsumerPoint} {moved : Fin threads}
variable {point : ConsumerPoint}

private theorem exists_awake_update (awake : point ≠ .asleep) :
    ∃ thread, Function.update consumer moved point thread ≠ .asleep :=
  ⟨moved, by rwa [Function.update_self]⟩

private theorem exists_owing_update (owes : point.owesSignal = true) :
    ∃ thread, (Function.update consumer moved point thread).owesSignal = true :=
  ⟨moved, by rwa [Function.update_self]⟩

/-- A signal that another thread owes is still owed after one that owed none
has moved. -/
private theorem exists_owing_of_before
    (owing : ∃ thread, (consumer thread).owesSignal = true)
    (owedNone : (consumer moved).owesSignal = false) :
    ∃ thread, (Function.update consumer moved point thread).owesSignal = true := by
  obtain ⟨thread, owes⟩ := owing
  have different : thread ≠ moved := by
    rintro rfl
    simp [owes] at owedNone
  exact ⟨thread, by rwa [Function.update_of_ne different]⟩

end Points

section Steps

variable {state after : ServerState threads} {event : ServerEvent threads}

theorem consumersAlert_step (positive : 1 ≤ threads)
    (consistent : Consistent state) (alert : ConsumersAlert state)
    (stepTo : Step state event after) : ConsumersAlert after := by
  have someThread : Nonempty (Fin threads) := ⟨⟨0, positive⟩⟩
  intro nonempty
  cases stepTo with
  | push | unlockProducer => exact Or.inr rfl
  | signalNonempty _ signal => exact Or.inl (signal.exists_awake (by simp))
  | waitNonempty _ isEmpty =>
      -- the only way to fall asleep, and it needs an empty queue
      exact absurd ((Queue.empty_iff consistent.wellFormed).mp isEmpty) nonempty
  | accept _ point | lockProducer point | waitNonfull point
  | wakeProducer point | leaveFullTest point =>
      rcases alert nonempty with awake | owes
      · exact Or.inl awake
      · simp [point, ProducerPoint.owesSignal] at owes
  | _ => exact Or.inl (exists_awake_update (by simp))

theorem producerAlert_step (alert : ProducerAlert state)
    (stepTo : Step state event after) : ProducerAlert after := by
  intro newsock sleeping
  have before := alert newsock
  cases stepTo with
  | waitNonfull _ isFull => exact Or.inl isFull
  | pop | unlockConsumer => exact Or.inr (exists_owing_update rfl)
  | signalNonfull =>
      -- the signal has woken the producer if it slept
      cases producer : state.producer <;>
        simp [producer, ProducerPoint.signalled] at sleeping
  | accept | lockProducer | wakeProducer | leaveFullTest | push
  | unlockProducer | signalNonempty => simp at sleeping
  | lockConsumer point | waitNonempty point | wakeConsumer point
  | leaveEmptyTest point | refuse point | lockStatistics _ point
  | count point | unlockStatistics point | answer point =>
      refine (before sleeping).imp id fun owing => ?_
      exact exists_owing_of_before owing (by rw [point]; rfl)

end Steps

/-- No wake-up is lost: a queue that holds a socket has a consumer that is not
asleep or a signal to the consumers still to be sent, and a producer that
sleeps has a full queue or a signal to it still to be sent. -/
theorem no_lost_wakeup (positive : 1 ≤ threads)
    {events : List (ServerEvent threads)} {state : ServerState threads}
    (run : Run threads events state) :
    (state.socketQueue.contents ≠ [] →
      (∃ thread, state.consumer thread ≠ .asleep) ∨
        state.producer.owesSignal = true) ∧
    (∀ newsock, state.producer = .asleep newsock →
      state.socketQueue.full = some true ∨
        ∃ thread, (state.consumer thread).owesSignal = true) := by
  have all : Consistent state ∧ ConsumersAlert state ∧ ProducerAlert state := by
    refine run.invariant
      (fun reached => Consistent reached ∧ ConsumersAlert reached ∧
        ProducerAlert reached)
      ⟨consistent_initial positive, ?_, ?_⟩ ?_
    · intro nonempty
      exact absurd (Queue.contents_create threads) nonempty
    · simp [ProducerAlert, initial]
    · rintro reached event after ⟨consistent, consumers, producer⟩ stepTo
      exact ⟨consistent.step stepTo,
        consumersAlert_step positive consistent consumers stepTo,
        producerAlert_step producer stepTo⟩
  exact all.2

/-- With one thread the queue has no usable cell: the producer falls asleep on
it with its first socket. -/
theorem no_lost_wakeup_one_thread :
    ∃ state : ServerState 1,
      Run 1 [.accept 4, .internal, .internal] state ∧
      state.producer = .asleep 4 ∧
      (state.socketQueue.contents ≠ [] →
        (∃ thread, state.consumer thread ≠ .asleep) ∨
          state.producer.owesSignal = true) ∧
      (∀ newsock, state.producer = .asleep newsock →
        state.socketQueue.full = some true ∨
          ∃ thread, (state.consumer thread).owesSignal = true) := by
  have accepted : Run 1 [.accept 4]
      { initial 1 with producer := .locking 4 } :=
    LabelledRun.Run.start.next (Step.accept 4 rfl)
  have locked : Run 1 [.accept 4, .internal]
      { initial 1 with producer := .testing 4, queueLock := some .producer } :=
    accepted.next (Step.lockProducer rfl rfl)
  have asleep : Run 1 [.accept 4, .internal, .internal]
      { initial 1 with producer := .asleep 4 } :=
    locked.next (Step.waitNonfull rfl (by decide))
  exact ⟨_, asleep, rfl, no_lost_wakeup (by decide) asleep⟩

end ServerState

end WebCrawl
