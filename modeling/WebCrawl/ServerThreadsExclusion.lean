import WebCrawl.ServerThreads

/-!
# Mutual exclusion on the socket queue

The owner of `queueLock` is the one thread inside a critical section, so the
tests that the producer and the consumers make before they touch the queue are
still true when they touch it.  The callers of `Queue_push` and `Queue_pop`
ignore what these return; this is why they may.
-/

namespace WebCrawl

namespace ServerState

variable {threads : Nat}

/-- The threads between locking and unlocking `queueLock`. -/
def insideLock (producer : ProducerPoint)
    (consumer : Fin threads → ConsumerPoint) : ServerThreadId threads → Prop
  | .producer => producer.holdsLock = true
  | .consumer thread => (consumer thread).holdsLock = true

section Discipline

open Monitor

variable {producer producerAfter : ProducerPoint}
variable {consumer : Fin threads → ConsumerPoint} {thread : Fin threads}
variable {point : ConsumerPoint} {owner : Option (ServerThreadId threads)}

private theorem insideLock_update_other {other : ServerThreadId threads}
    (different : other ≠ .consumer thread) :
    insideLock producer (Function.update consumer thread point) other ↔
      insideLock producer consumer other := by
  cases other with
  | producer => rfl
  | consumer otherThread =>
      have threadsDiffer : otherThread ≠ thread := by
        rintro rfl
        exact different rfl
      simp [insideLock, Function.update_of_ne threadsDiffer]

private theorem insideLock_producer_other {other : ServerThreadId threads}
    (different : other ≠ .producer) :
    insideLock producerAfter consumer other ↔
      insideLock producer consumer other := by
  cases other with
  | producer => exact absurd rfl different
  | consumer => rfl

theorem exclusive_producer
    (exclusive : Exclusive (insideLock producer consumer) owner)
    (same : producerAfter.holdsLock = producer.holdsLock) :
    Exclusive (insideLock producerAfter consumer) owner := by
  apply exclusive.congr
  rintro (_ | _)
  · simp [insideLock, same]
  · rfl

theorem exclusive_producer_acquire
    (free : Exclusive (insideLock producer consumer) none)
    (entered : producerAfter.holdsLock = true) :
    Exclusive (insideLock producerAfter consumer) (some .producer) :=
  free.acquire entered fun _ => insideLock_producer_other

theorem exclusive_producer_release
    (exclusive : Exclusive (insideLock producer consumer) owner)
    (was : producer.holdsLock = true) (left : producerAfter.holdsLock = false) :
    Exclusive (insideLock producerAfter consumer) none :=
  exclusive.release .producer was (by simp [insideLock, left])
    fun _ => insideLock_producer_other

theorem exclusive_consumer
    (exclusive : Exclusive (insideLock producer consumer) owner)
    (same : point.holdsLock = (consumer thread).holdsLock) :
    Exclusive (insideLock producer (Function.update consumer thread point))
      owner := by
  apply exclusive.congr
  intro other
  by_cases moved : other = .consumer thread
  · subst other
    simp [insideLock, same]
  · exact insideLock_update_other moved

theorem exclusive_consumer_acquire
    (free : Exclusive (insideLock producer consumer) none)
    (entered : point.holdsLock = true) :
    Exclusive (insideLock producer (Function.update consumer thread point))
      (some (.consumer thread)) :=
  free.acquire (by simp [insideLock, entered]) fun _ => insideLock_update_other

theorem exclusive_consumer_release
    (exclusive : Exclusive (insideLock producer consumer) owner)
    (was : (consumer thread).holdsLock = true)
    (left : point.holdsLock = false) :
    Exclusive (insideLock producer (Function.update consumer thread point))
      none :=
  exclusive.release (.consumer thread) was (by simp [insideLock, left])
    fun _ => insideLock_update_other

end Discipline

@[simp]
theorem holdsLock_signalled (producer : ProducerPoint) :
    producer.signalled.holdsLock = producer.holdsLock := by
  cases producer <;> rfl

/-- The recorded owner is the thread inside a critical section. -/
def LockHeld (state : ServerState threads) : Prop :=
  Monitor.Exclusive (insideLock state.producer state.consumer) state.queueLock

theorem lockHeld_initial : LockHeld (initial threads) := by
  rintro (_ | _) <;>
    simp [insideLock, initial, ProducerPoint.holdsLock, ConsumerPoint.holdsLock]

theorem lockHeld_step {state after : ServerState threads}
    {event : ServerEvent threads} (held : LockHeld state)
    (stepTo : Step state event after) : LockHeld after := by
  unfold LockHeld at held ⊢
  cases stepTo with
  | accept newsock point => exact exclusive_producer held (by rw [point]; rfl)
  | lockProducer point free =>
      rw [free] at held
      exact exclusive_producer_acquire held rfl
  | waitNonfull point => exact exclusive_producer_release held (by rw [point]; rfl) rfl
  | wakeProducer point => exact exclusive_producer held (by rw [point]; rfl)
  | leaveFullTest point => exact exclusive_producer held (by rw [point]; rfl)
  | push point => exact exclusive_producer held (by rw [point]; rfl)
  | unlockProducer point => exact exclusive_producer_release held (by rw [point]; rfl) rfl
  | signalNonempty point signal =>
      have moved : Monitor.Exclusive (insideLock .accepting state.consumer)
          state.queueLock :=
        exclusive_producer held (by rw [point]; rfl)
      apply moved.congr
      rintro (_ | thread)
      · rfl
      · rcases signal.point_eq thread with same | ⟨sleeping, woken⟩
        · simp [insideLock, same]
        · simp [insideLock, sleeping, woken, ConsumerPoint.holdsLock]
  | lockConsumer point free =>
      rw [free] at held
      exact exclusive_consumer_acquire held rfl
  | waitNonempty point => exact exclusive_consumer_release held (by rw [point]; rfl) rfl
  | wakeConsumer point => exact exclusive_consumer held (by rw [point]; rfl)
  | leaveEmptyTest point => exact exclusive_consumer held (by rw [point]; rfl)
  | pop point => exact exclusive_consumer held (by rw [point]; rfl)
  | unlockConsumer point => exact exclusive_consumer_release held (by rw [point]; rfl) rfl
  | signalNonfull point =>
      exact exclusive_producer (exclusive_consumer held (by rw [point]; rfl))
        (holdsLock_signalled _)
  | refuse point => exact exclusive_consumer held (by rw [point]; rfl)
  | lockStatistics file point free =>
      rw [free] at held
      exact exclusive_consumer_acquire held rfl
  | count point => exact exclusive_consumer held (by rw [point]; rfl)
  | unlockStatistics point =>
      exact exclusive_consumer_release held (by rw [point]; rfl) rfl
  | answer point => exact exclusive_consumer held (by rw [point]; rfl)

theorem LockHeld.outside {state : ServerState threads} (held : LockHeld state)
    (free : state.queueLock = none) (thread : ServerThreadId threads) :
    ¬ insideLock state.producer state.consumer thread := by
  intro inside
  have owner := (held thread).mp inside
  rw [free] at owner
  cases owner

theorem LockHeld.producer_outside {state : ServerState threads}
    (held : LockHeld state) {thread : Fin threads}
    (inside : (state.consumer thread).holdsLock = true) :
    state.producer.holdsLock = false := by
  by_contra producerInside
  have same : ServerThreadId.producer = ServerThreadId.consumer thread :=
    held.unique (by simpa [insideLock] using producerInside) inside
  cases same

theorem LockHeld.consumer_unique {state : ServerState threads}
    (held : LockHeld state) {thread other : Fin threads}
    (inside : (state.consumer thread).holdsLock = true)
    (otherInside : (state.consumer other).holdsLock = true) :
    other = thread := by
  have same : ServerThreadId.consumer other = ServerThreadId.consumer thread :=
    held.unique otherInside inside
  exact ServerThreadId.consumer.inj same

/-- What holds between any two steps: the lock is held by the thread inside,
the queue is well formed, and a thread about to push or to pop stands on a
test whose outcome is still valid. -/
structure Consistent (state : ServerState threads) : Prop where
  lockHeld : LockHeld state
  wellFormed : state.socketQueue.WellFormed
  room : ∀ newsock, state.producer = .pushing newsock →
    state.socketQueue.full = some false
  nonempty : ∀ thread, state.consumer thread = .popping →
    state.socketQueue.empty = false

theorem consistent_initial (positive : 1 ≤ threads) :
    Consistent (initial threads) where
  lockHeld := lockHeld_initial
  wellFormed := Queue.create_wellFormed (by omega)
  room := by simp [initial]
  nonempty := by simp [initial]

section Steps

variable {state after : ServerState threads} {event : ServerEvent threads}

/-- `Queue_push` as the producer calls it always stores the socket. -/
theorem Consistent.push_eq (consistent : Consistent state)
    {newsock : QueueType} (point : state.producer = .pushing newsock)
    {pushed : Bool} {socketQueue : Queue}
    (call : state.socketQueue.push (some newsock) = some (pushed, socketQueue)) :
    pushed = true ∧ socketQueue.WellFormed ∧
      socketQueue.contents = state.socketQueue.contents ++ [some newsock] := by
  obtain ⟨result, stores, wellFormed, contents, _⟩ :=
    Queue.push_of_room consistent.wellFormed
      (consistent.room newsock point) (some newsock)
  rw [stores] at call
  cases call
  exact ⟨rfl, wellFormed, contents⟩

/-- `Queue_pop` as a consumer calls it always yields the oldest socket. -/
theorem Consistent.pop_eq (consistent : Consistent state)
    {thread : Fin threads} (point : state.consumer thread = .popping)
    {popped : Bool} {newsock : Cell} {socketQueue : Queue}
    (call : state.socketQueue.pop none = some (popped, newsock, socketQueue)) :
    popped = true ∧ socketQueue.WellFormed ∧
      state.socketQueue.contents = newsock :: socketQueue.contents := by
  obtain ⟨value, result, yields, wellFormed, contents, _⟩ :=
    Queue.pop_of_nonempty consistent.wellFormed
      (consistent.nonempty thread point) none
  rw [yields] at call
  cases call
  exact ⟨rfl, wellFormed, contents⟩

private theorem wellFormed_step (consistent : Consistent state)
    (stepTo : Step state event after) : after.socketQueue.WellFormed := by
  have before := consistent.wellFormed
  cases stepTo with
  | push point call => exact (consistent.push_eq point call).2.1
  | pop point call => exact (consistent.pop_eq point call).2.1
  | count =>
      exact
        { embros_nonneg := before.embros_nonneg
          embros_lt := before.embros_lt
          piso_nonneg := before.piso_nonneg
          piso_lt := before.piso_lt
          length_buffer := before.length_buffer }
  | _ => exact before

private theorem room_step (consistent : Consistent state)
    (stepTo : Step state event after) (newsock : QueueType)
    (pushing : after.producer = .pushing newsock) :
    after.socketQueue.full = some false := by
  have stillRoom := consistent.room newsock
  cases stepTo with
  | leaveFullTest _ room => exact room
  | pop point | count point =>
      have outside := consistent.lockHeld.producer_outside (by rw [point]; rfl)
      simp only [setConsumer_producer] at pushing
      simp [pushing, ProducerPoint.holdsLock] at outside
  | signalNonfull =>
      apply stillRoom
      cases before : state.producer <;>
        simp [before, ProducerPoint.signalled] at pushing ⊢
      exact pushing
  | accept | lockProducer | waitNonfull | wakeProducer | push
  | unlockProducer | signalNonempty => simp at pushing
  | _ => exact stillRoom pushing

/-- A thread found at a point that the moved thread did not go to is another
thread, which was there before. -/
theorem point_before {consumer : Fin threads → ConsumerPoint}
    {moved thread : Fin threads} {point target : ConsumerPoint}
    (different : point ≠ target)
    (found : Function.update consumer moved point thread = target) :
    thread ≠ moved ∧ consumer thread = target := by
  by_cases same : thread = moved
  · subst thread
    rw [Function.update_self] at found
    exact absurd found different
  · rw [Function.update_of_ne same] at found
    exact ⟨same, found⟩

private theorem nonempty_step (consistent : Consistent state)
    (stepTo : Step state event after) (thread : Fin threads)
    (popping : after.consumer thread = .popping) :
    after.socketQueue.empty = false := by
  have stillNonempty := consistent.nonempty thread
  cases stepTo with
  | leaveEmptyTest _ nonempty => exact nonempty
  | push point =>
      have outside := consistent.lockHeld.producer_outside
        (by rw [show state.consumer thread = .popping from popping]; rfl)
      simp [point, ProducerPoint.holdsLock] at outside
  | pop point | count point =>
      obtain ⟨different, before⟩ := point_before (by simp) popping
      have same := consistent.lockHeld.consumer_unique (by rw [point]; rfl)
        (by rw [before]; rfl)
      exact absurd same different
  | signalNonempty _ signal =>
      apply stillNonempty
      rcases signal.point_eq thread with same | ⟨_, woken⟩
      · rw [← same]
        exact popping
      · simp [woken] at popping
  | accept | lockProducer | waitNonfull | wakeProducer | leaveFullTest
  | unlockProducer => exact stillNonempty popping
  | _ => exact stillNonempty (point_before (by simp) popping).2

theorem Consistent.step (consistent : Consistent state)
    (stepTo : Step state event after) : Consistent after where
  lockHeld := lockHeld_step consistent.lockHeld stepTo
  wellFormed := wellFormed_step consistent stepTo
  room := room_step consistent stepTo
  nonempty := nonempty_step consistent stepTo

end Steps

theorem consistent_of_run (positive : 1 ≤ threads)
    {events : List (ServerEvent threads)} {state : ServerState threads}
    (run : Run threads events state) : Consistent state :=
  run.invariant Consistent (consistent_initial positive)
    fun _ _ _ consistent stepTo => consistent.step stepTo

end ServerState

end WebCrawl
