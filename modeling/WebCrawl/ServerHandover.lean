import WebCrawl.ServerThreadsExclusion

/-!
# Connections are handed over exactly once and in order

The sockets popped so far, the ones in the queue and the one that the producer
holds are together the sockets accepted so far, in the order of acceptance.
-/

namespace WebCrawl

namespace ServerState

variable {threads : Nat}

def accepted : List (ServerEvent threads) → List QueueType
  | [] => []
  | .accept newsock :: events => newsock :: accepted events
  | _ :: events => accepted events

/-- The sockets popped in a history, in order, with the threads that popped
them. -/
def popped : List (ServerEvent threads) → List (Fin threads × Cell)
  | [] => []
  | .pop thread newsock :: events => (thread, newsock) :: popped events
  | _ :: events => popped events

@[simp]
theorem accepted_append (events more : List (ServerEvent threads)) :
    accepted (events ++ more) = accepted events ++ accepted more := by
  induction events with
  | nil => rfl
  | cons event events ih => cases event <;> simp [accepted, ih]

@[simp]
theorem popped_append (events more : List (ServerEvent threads)) :
    popped (events ++ more) = popped events ++ popped more := by
  induction events with
  | nil => rfl
  | cons event events ih => cases event <;> simp [popped, ih]

@[simp]
theorem holding_signalled (producer : ProducerPoint) :
    producer.signalled.holding = producer.holding := by
  cases producer <;> rfl

@[simp]
theorem contents_serve_bytes (socketQueue : Queue) (size : Int) :
    (socketQueue.serve.bytes size).contents = socketQueue.contents :=
  rfl

/-- The accepted sockets, split into popped, stored and held ones. -/
def HandedOver (events : List (ServerEvent threads))
    (state : ServerState threads) : Prop :=
  (popped events).map Prod.snd ++ state.socketQueue.contents ++
      state.producer.holding =
    (accepted events).map some

theorem handedOver_step {events : List (ServerEvent threads)}
    {state after : ServerState threads} {event : ServerEvent threads}
    (consistent : Consistent state) (handedOver : HandedOver events state)
    (stepTo : Step state event after) :
    HandedOver (events ++ [event]) after := by
  unfold HandedOver at handedOver ⊢
  rw [popped_append, accepted_append, List.map_append, List.map_append,
    ← handedOver]
  cases stepTo with
  | accept newsock point =>
      simp [popped, accepted, point, ProducerPoint.holding]
  | push point call =>
      obtain ⟨_, _, contents⟩ := consistent.push_eq point call
      simp [popped, accepted, point, contents, ProducerPoint.holding]
  | pop point call =>
      obtain ⟨_, _, contents⟩ := consistent.pop_eq point call
      simp [popped, accepted, contents]
  | lockProducer point | waitNonfull point | wakeProducer point
  | leaveFullTest point | unlockProducer point | signalNonempty point =>
      simp [popped, accepted, point, ProducerPoint.holding]
  | _ => simp [popped, accepted]

theorem handedOver_of_run (positive : 1 ≤ threads) {events : List (ServerEvent threads)}
    {state : ServerState threads} (run : Run threads events state) :
    HandedOver events state := by
  have both : Consistent state ∧ HandedOver events state := by
    refine run.history_invariant
      (fun history reached => Consistent reached ∧ HandedOver history reached)
      ⟨consistent_initial positive, ?_⟩ ?_
    · simp [HandedOver, initial, popped, accepted, ProducerPoint.holding]
    · intro history reached event after held stepTo
      exact ⟨held.1.step stepTo, handedOver_step held.1 held.2 stepTo⟩
  exact both.2

/-- In every reachable state the popped sockets, the contents of the queue and
the socket that the producer still holds are exactly the accepted sockets in
order of acceptance; so the sockets popped so far are the first ones accepted,
each popped by one thread. -/
theorem sockets_handed_over_in_order (positive : 1 ≤ threads)
    {events : List (ServerEvent threads)} {state : ServerState threads}
    (run : Run threads events state) :
    (popped events).map Prod.snd ++ state.socketQueue.contents ++
        state.producer.holding =
      (accepted events).map some ∧
    (popped events).map Prod.snd <+: (accepted events).map some := by
  have handedOver := handedOver_of_run positive run
  refine ⟨handedOver, state.socketQueue.contents ++ state.producer.holding, ?_⟩
  rw [← List.append_assoc]
  exact handedOver

section Schedule

variable {events : List (ServerEvent threads)} {state : ServerState threads}

/-- The producer takes a connection into the queue while no thread is asleep. -/
theorem exists_stored (newsock : QueueType) {pushed : Bool} {socketQueue : Queue}
    (run : Run threads events state) (accepting : state.producer = .accepting)
    (free : state.queueLock = none) (room : state.socketQueue.full = some false)
    (push : state.socketQueue.push (some newsock) = some (pushed, socketQueue))
    (awake : ∀ thread, state.consumer thread ≠ .asleep) :
    ∃ more, Run threads (events ++ more) { state with socketQueue := socketQueue } ∧
      popped more = [] := by
  have accepted := run.nextBy (.accept newsock) (.accept newsock accepting)
  have locked := accepted.next (.lockProducer rfl free)
  have tested := locked.next (.leaveFullTest rfl room)
  have stored := tested.next (.push rfl push)
  have unlocked := stored.next (.unlockProducer rfl)
  have told := unlocked.next (.signalNonempty rfl (.lost awake))
  refine ⟨[.accept newsock, .internal, .internal, .internal, .internal, .internal], ?_, rfl⟩
  simpa [← accepting, ← free] using told

/-- A thread takes the first connection out of the queue while the producer waits for
another one. -/
theorem exists_taken {thread : Fin threads} {newsock : Cell} {taken : Bool}
    {socketQueue : Queue} (run : Run threads events state)
    (accepting : state.producer = .accepting) (locking : state.consumer thread = .locking)
    (free : state.queueLock = none) (nonempty : state.socketQueue.empty = false)
    (pop : state.socketQueue.pop none = some (taken, newsock, socketQueue)) :
    ∃ more, Run threads (events ++ more)
        { state.setConsumer thread (.serving newsock) with socketQueue := socketQueue } ∧
      popped more = [(thread, newsock)] := by
  have locked := run.next (.lockConsumer locking free)
  have tested := locked.next (@Step.leaveEmptyTest _ _ thread (by simp) nonempty)
  have found := tested.nextBy (.pop thread newsock) (.pop (by simp) pop)
  have unlocked := found.next (@Step.unlockConsumer _ _ thread newsock (by simp))
  have told := unlocked.next (@Step.signalNonfull _ _ thread newsock (by simp))
  refine ⟨[.internal, .internal, .pop thread newsock, .internal, .internal], ?_, rfl⟩
  simpa [setConsumer, accepting, ← free, ProducerPoint.signalled] using told

end Schedule

/-- The first thread serves the first connection, the second one is in the queue and the
producer holds the third one. -/
theorem run_three_sockets : ∃ (events : List (ServerEvent 2)) (state : ServerState 2),
    Run 2 events state ∧ popped events = [(0, some 7)] ∧
      state.consumer 0 = .serving (some 7) ∧ state.socketQueue.contents = [some 8] ∧
      state.producer.holding = [some 9] := by
  have started : Run 2 [] (initial 2) := .start
  obtain ⟨first, stored, noPop⟩ := exists_stored 7 started rfl rfl (by decide)
    (rfl : _ = some (true, _)) (fun _ => ConsumerPoint.noConfusion)
  obtain ⟨second, taken, onePop⟩ := @exists_taken 2 _ _ 0 (some 7) true _ stored rfl rfl
    rfl (by decide) rfl
  obtain ⟨third, storedAgain, noMore⟩ := exists_stored 8 taken rfl rfl (by decide)
    (rfl : _ = some (true, _)) (by decide)
  have held := storedAgain.nextBy (.accept 9) (.accept 9 rfl)
  refine ⟨_, _, held, ?_, rfl, by decide, rfl⟩
  simp [popped_append, noPop, onePop, noMore, popped]

theorem sockets_handed_over_in_order_two_threads :
    ∃ (events : List (ServerEvent 2)) (state : ServerState 2),
      Run 2 events state ∧ popped events = [(0, some 7)] ∧
      state.socketQueue.contents = [some 8] ∧ state.producer.holding = [some 9] ∧
      (accepted events).map some = [some 7, some 8, some 9] ∧
      (popped events).map Prod.snd <+: (accepted events).map some := by
  obtain ⟨events, state, run, taken, _, stored, holding⟩ := run_three_sockets
  obtain ⟨split, isPrefix⟩ := sockets_handed_over_in_order (by decide) run
  refine ⟨events, state, run, taken, stored, holding, ?_, isPrefix⟩
  rw [← split, taken, stored, holding]
  rfl

end ServerState

end WebCrawl
