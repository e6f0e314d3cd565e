import WebCrawl.BoundedWork
import WebCrawl.RequestService
import WebCrawl.ServerHandover
import WebCrawl.ServerWakeup
import WebCrawl.ShutdownQueue
import Mathlib.Algebra.Order.BigOperators.Group.Finset

/-!
# Accepted connections are served

Each accepted connection is pushed, popped and served in a bounded number of
steps, apart from those in which a thread tests the queue in vain, falls asleep
or wakes up.  A thread that serves a client goes on only when `getRequest`
returns, so a client that sends no whole request keeps its thread.  From every
reachable state the server can serve all connections that it has accepted
exactly when `getRequest` returns for each of them, and no sleeper has to wake
for that without a signal.  With one thread the queue has no room, and the first
connection is stuck.
-/

namespace WebCrawl

/-- The steps that a thread still makes for its connection. -/
def ConsumerPoint.left : ConsumerPoint → Nat
  | .locking | .testing | .asleep | .popping => 0
  | .answering _ => 1
  | .counted _ => 2
  | .counting .. => 3
  | .serving _ => 4
  | .signalling _ => 5
  | .popped _ => 6

/-- The steps that are still made for the connection that the producer holds, with
those of the thread that will serve it. -/
def ProducerPoint.left : ProducerPoint → Nat
  | .accepting => 0
  | .signalling => 1
  | .pushed => 2
  | .locking _ | .testing _ | .asleep _ | .pushing _ => 10

/-- The connection that a thread has popped and not served yet. -/
def ConsumerPoint.connection : ConsumerPoint → Option Cell
  | .popped newsock | .signalling newsock | .serving newsock | .counting newsock _
  | .counted newsock | .answering newsock => some newsock
  | .locking | .testing | .asleep | .popping => none

/-- The connection on which a thread reads a request or writes an answer. -/
def ConsumerPoint.awaits : ConsumerPoint → Option Cell
  | .serving newsock | .answering newsock => some newsock
  | .locking | .testing | .asleep | .popping | .popped _ | .signalling _ | .counting ..
  | .counted _ => none

theorem ConsumerPoint.connection_of_awaits {point : ConsumerPoint} {newsock : Cell}
    (awaits : point.awaits = some newsock) : point.connection = some newsock := by
  cases point <;> cases awaits <;> rfl

/-- What `getRequest` meets when it serves a socket. -/
structure Connection where
  env : ServerEnv
  newsock : Socket
  client : Client

/-- `getRequest` returns, so that its thread can go on. -/
def Connection.Served (connection : Connection) : Prop :=
  ∃ exchange, Outcome.Settles
    (getRequest · connection.env connection.newsock connection.client) (.returns exchange)

namespace ServerState

variable {threads : Nat} {state after : ServerState threads} {event : ServerEvent threads}
variable {connections : QueueType → Connection}

/-- The steps that are still made for the connections accepted so far. -/
def left (state : ServerState threads) : Nat :=
  7 * state.socketQueue.contents.length + state.producer.left +
    BoundedWork.total ConsumerPoint.left state.consumer

/-- A step for some connection: it is pushed or popped, or a thread goes on with it. -/
def Works (state after : ServerState threads) : Prop :=
  after.producer.left ≠ state.producer.left ∨
    ∃ thread, (after.consumer thread).left ≠ (state.consumer thread).left

/-- A step that accepts no connection. -/
def Draining (state : ServerState threads) (event : ServerEvent threads)
    (after : ServerState threads) : Prop :=
  Step state event after ∧ ∀ newsock, event ≠ .accept newsock

/-- Whoever was asleep and is not any more was sent a signal. -/
structure Prompted (state after : ServerState threads) : Prop where
  producer : ∀ newsock, state.producer = .asleep newsock →
    after.producer ≠ .asleep newsock →
    ∃ thread other, state.consumer thread = .signalling other ∧
      after.consumer thread = .serving other
  consumer : ∀ thread, state.consumer thread = .asleep → after.consumer thread ≠ .asleep →
    state.producer = .signalling ∧ after.producer = .accepting

/-- A socket was accepted and its connection is not served yet. -/
inductive Pending (state : ServerState threads) (newsock : Cell) : Prop
  | held (holds : newsock ∈ state.producer.holding)
  | stored (stores : newsock ∈ state.socketQueue.contents)
  | popped (thread : Fin threads)
      (serves : (state.consumer thread).connection = some newsock)

/-- The cell holds a socket for which `getRequest` returns. -/
def Answered (connections : QueueType → Connection) (newsock : Cell) : Prop :=
  ∃ socket, newsock = some socket ∧ (connections socket).Served

/-- A thread that reads a request or writes an answer goes on only when `getRequest`
returns. -/
def Attended (connections : QueueType → Connection) (state after : ServerState threads) :
    Prop :=
  ∀ thread newsock, (state.consumer thread).awaits = some newsock →
    after.consumer thread ≠ state.consumer thread → Answered connections newsock

/-- A step of the server that accepts no connection, wakes no one without a signal and
leaves a thread with a client that it still waits for. -/
structure Prompt (connections : QueueType → Connection) (state : ServerState threads)
    (event : ServerEvent threads) (after : ServerState threads) : Prop where
  draining : Draining state event after
  prompted : Prompted state after
  attended : Attended connections state after

/-- Every accepted connection was popped, and the thread that popped it is done. -/
def Drained (state : ServerState threads) : Prop :=
  state.socketQueue.contents = [] ∧ state.producer.holding = [] ∧
    ∀ thread, (state.consumer thread).left = 0

section Measure

theorem left_signalled (producer : ProducerPoint) : producer.signalled.left = producer.left := by
  cases producer <;> rfl

/-- A thread goes on with its connection. -/
theorem left_lower {thread : Fin threads} {point : ConsumerPoint}
    (contents : after.socketQueue.contents = state.socketQueue.contents)
    (producer : after.producer.left = state.producer.left)
    (moved : after.consumer = Function.update state.consumer thread point)
    (lower : point.left < (state.consumer thread).left) : after.left < state.left := by
  have total := BoundedWork.total_update ConsumerPoint.left state.consumer thread point
  rw [left, left, contents, producer, moved]
  omega

/-- A step that changes what no thread has left. -/
theorem idle_of_same (contents : after.socketQueue.contents = state.socketQueue.contents)
    (producer : after.producer.left = state.producer.left)
    (consumer : ∀ thread, (after.consumer thread).left = (state.consumer thread).left) :
    after.left = state.left ∧ ¬ Works state after := by
  refine ⟨?_, ?_⟩
  · have total : BoundedWork.total ConsumerPoint.left after.consumer =
        BoundedWork.total ConsumerPoint.left state.consumer :=
      Finset.sum_congr rfl fun thread _ => consumer thread
    rw [left, left, contents, producer, total]
  · rintro (other | ⟨thread, other⟩)
    · exact other producer
    · exact other (consumer thread)

theorem consumer_left_update {consumer : Fin threads → ConsumerPoint} {moved : Fin threads}
    {point : ConsumerPoint} (same : point.left = (consumer moved).left) (thread : Fin threads) :
    (Function.update consumer moved point thread).left = (consumer thread).left := by
  by_cases isMoved : thread = moved
  · rw [isMoved, Function.update_self, same]
  · rw [Function.update_of_ne isMoved]

theorem left_setConsumer {thread : Fin threads} {point target : ConsumerPoint}
    (here : state.consumer thread = point) (same : target.left = point.left) :
    (state.setConsumer thread target).left = state.left := by
  have idle : (state.setConsumer thread target).left = state.left ∧
      ¬ Works state (state.setConsumer thread target) :=
    idle_of_same rfl rfl (consumer_left_update (same.trans (congrArg ConsumerPoint.left here).symm))
  exact idle.1

theorem left_setProducer {point target : ProducerPoint} (here : state.producer = point)
    (same : target.left = point.left) (queueLock : Option (ServerThreadId threads)) :
    ServerState.left { state with producer := target, queueLock := queueLock } =
      state.left := by
  rw [left, left, here]
  dsimp only
  rw [same]

/-- Each step for a connection leaves less to do, and the others change nothing. -/
theorem left_step (consistent : Consistent state) (draining : Draining state event after) :
    after.left < state.left ∨ after.left = state.left ∧ ¬ Works state after := by
  obtain ⟨stepTo, noAccept⟩ := draining
  cases stepTo with
  | accept newsock => exact absurd rfl (noAccept newsock)
  | lockProducer here | waitNonfull here | wakeProducer here | leaveFullTest here =>
      refine Or.inr (idle_of_same rfl ?_ fun _ => rfl)
      rw [here]
      rfl
  | push here call =>
      left
      obtain ⟨_, _, contents⟩ := consistent.push_eq here call
      simp only [left, here, contents, List.length_append, List.length_singleton,
        ProducerPoint.left]
      omega
  | unlockProducer here =>
      left
      simp [left, here, ProducerPoint.left]
  | signalNonempty here signal =>
      left
      have woken := BoundedWork.total_signal ConsumerPoint.left
        (fun point asleep => by rw [asleep]; rfl) signal
      simp [left, here, ProducerPoint.left, woken]
  | @lockConsumer thread here | @waitNonempty thread here | @wakeConsumer thread here
  | @leaveEmptyTest thread here =>
      refine Or.inr (idle_of_same rfl rfl (consumer_left_update ?_))
      rw [here]
      rfl
  | @pop thread popped newsock socketQueue here call =>
      left
      obtain ⟨_, _, contents⟩ := consistent.pop_eq here call
      have total := BoundedWork.total_update ConsumerPoint.left state.consumer thread
        (.popped newsock)
      rw [here] at total
      simp only [ConsumerPoint.left] at total
      simp only [left, contents, List.length_cons, setConsumer_producer, setConsumer_consumer]
      omega
  | signalNonfull here =>
      exact Or.inl (left_lower rfl (left_signalled _) rfl (by rw [here]; simp [ConsumerPoint.left]))
  | count here => exact Or.inl (left_lower rfl rfl rfl (by rw [here]; simp [ConsumerPoint.left]))
  | unlockConsumer here | refuse here | lockStatistics _ here | unlockStatistics here
  | answer here => exact Or.inl (left_lower rfl rfl rfl (by rw [here]; simp [ConsumerPoint.left]))

end Measure

section Signals

/-- A step of a consumer that was awake, in which the producer stands still. -/
theorem prompted_consumer {thread : Fin threads} {point : ConsumerPoint}
    (awake : state.consumer thread ≠ .asleep)
    (same : after.producer = state.producer)
    (moved : after.consumer = Function.update state.consumer thread point) :
    Prompted state after where
  producer newsock asleep woken := absurd (same.trans asleep) woken
  consumer other asleep woken := by
    have different : other ≠ thread := by
      rintro rfl
      exact awake asleep
    rw [moved, Function.update_of_ne different] at woken
    exact absurd asleep woken

/-- A step of a producer that was awake, in which the consumers stand still. -/
theorem prompted_producer (awake : ∀ newsock, state.producer ≠ .asleep newsock)
    (same : after.consumer = state.consumer) : Prompted state after where
  producer newsock asleep _ := absurd asleep (awake newsock)
  consumer thread asleep woken := absurd ((congrFun same thread).trans asleep) woken

theorem prompted_signalNonempty {consumer : Fin threads → ConsumerPoint}
    (here : state.producer = .signalling) :
    Prompted state { state with producer := .accepting, consumer := consumer } where
  producer newsock asleep _ := by
    rw [here] at asleep
    cases asleep
  consumer _ _ _ := ⟨here, rfl⟩

theorem prompted_signalNonfull {thread : Fin threads} {newsock : Cell}
    (here : state.consumer thread = .signalling newsock) :
    Prompted state
      { state.setConsumer thread (.serving newsock) with
        producer := state.producer.signalled } where
  producer _ _ _ := ⟨thread, newsock, here, Function.update_self ..⟩
  consumer other asleep woken := by
    have different : other ≠ thread := by
      rintro rfl
      rw [here] at asleep
      cases asleep
    rw [setConsumer_consumer, Function.update_of_ne different] at woken
    exact absurd asleep woken

end Signals

section Clients

/-- A step of one thread that waits for no client, or for one that is answered. -/
theorem attended_consumer {thread : Fin threads} {point : ConsumerPoint}
    (client : ∀ newsock, (state.consumer thread).awaits = some newsock →
      Answered connections newsock)
    (moved : after.consumer = Function.update state.consumer thread point) :
    Attended connections state after := by
  intro other newsock awaits goesOn
  by_cases isThread : other = thread
  · rw [isThread] at awaits
    exact client newsock awaits
  · rw [moved, Function.update_of_ne isThread] at goesOn
    exact absurd rfl goesOn

theorem attended_signalNonempty {consumer : Fin threads → ConsumerPoint}
    (signal : Monitor.Signal (· = ConsumerPoint.asleep) (fun _ => .locking)
      state.consumer consumer) :
    Attended connections state { state with producer := .accepting, consumer := consumer } := by
  intro thread newsock awaits goesOn
  rcases signal.point_eq thread with unmoved | ⟨sleeping, _⟩
  · exact absurd unmoved goesOn
  · rw [sleeping] at awaits
    cases awaits

/-- What a thread does for its own connection, or to find one. -/
theorem Prompt.consumer {thread : Fin threads} {point target : ConsumerPoint}
    (stepTo : Step state event after) (noAccept : ∀ newsock, event ≠ .accept newsock)
    (here : state.consumer thread = point) (awake : point ≠ .asleep)
    (client : ∀ newsock, point.awaits = some newsock → Answered connections newsock)
    (same : after.producer = state.producer)
    (moved : after.consumer = Function.update state.consumer thread target) :
    Prompt connections state event after where
  draining := ⟨stepTo, noAccept⟩
  prompted := prompted_consumer (here ▸ awake) same moved
  attended := attended_consumer (here ▸ client) moved

theorem Prompt.producer (stepTo : Step state event after)
    (noAccept : ∀ newsock, event ≠ .accept newsock)
    (awake : ∀ newsock, state.producer ≠ .asleep newsock)
    (same : after.consumer = state.consumer) : Prompt connections state event after where
  draining := ⟨stepTo, noAccept⟩
  prompted := prompted_producer awake same
  attended thread _ _ goesOn := absurd (congrFun same thread) goesOn

end Clients

section Connections

theorem connection_update {consumer : Fin threads → ConsumerPoint} {moved : Fin threads}
    {point : ConsumerPoint} (same : point.connection = (consumer moved).connection)
    (thread : Fin threads) :
    (Function.update consumer moved point thread).connection = (consumer thread).connection := by
  by_cases isMoved : thread = moved
  · rw [isMoved, Function.update_self, same]
  · rw [Function.update_of_ne isMoved]

theorem pending_congr (newsock : Cell)
    (held : after.producer.holding = state.producer.holding)
    (stored : after.socketQueue.contents = state.socketQueue.contents)
    (served : ∀ thread, (after.consumer thread).connection =
      (state.consumer thread).connection) :
    Pending after newsock ↔ Pending state newsock := by
  constructor
  · rintro (holds | stores | ⟨thread, serves⟩)
    · exact .held (held ▸ holds)
    · exact .stored (stored ▸ stores)
    · exact .popped thread ((served thread).symm.trans serves)
  · rintro (holds | stores | ⟨thread, serves⟩)
    · exact .held (held ▸ holds)
    · exact .stored (stored ▸ stores)
    · exact .popped thread ((served thread).trans serves)

theorem pending_push {newsock : QueueType} {socketQueue : Queue}
    (here : state.producer = .pushing newsock)
    (contents : socketQueue.contents = state.socketQueue.contents ++ [some newsock])
    (other : Cell) :
    Pending { state with producer := .pushed, socketQueue := socketQueue } other ↔
      Pending state other := by
  constructor
  · rintro (holds | stores | ⟨thread, serves⟩)
    · simp [ProducerPoint.holding] at holds
    · simp only [contents, List.mem_append, List.mem_singleton] at stores
      rcases stores with stores | rfl
      · exact .stored stores
      · exact .held (by simp [here, ProducerPoint.holding])
    · exact .popped thread serves
  · rintro (holds | stores | ⟨thread, serves⟩)
    · exact .stored (by
        simp only [here, ProducerPoint.holding, List.mem_singleton] at holds
        simp [contents, holds])
    · exact .stored (by simp [contents, stores])
    · exact .popped thread serves

theorem pending_pop {thread : Fin threads} {newsock : Cell} {socketQueue : Queue}
    (here : state.consumer thread = .popping)
    (contents : state.socketQueue.contents = newsock :: socketQueue.contents) (other : Cell) :
    Pending { state.setConsumer thread (.popped newsock) with socketQueue := socketQueue } other ↔
      Pending state other := by
  constructor
  · rintro (holds | stores | ⟨server, serves⟩)
    · exact .held holds
    · exact .stored (by rw [contents]; exact .tail _ stores)
    · by_cases isThread : server = thread
      · rw [isThread, setConsumer_consumer, Function.update_self] at serves
        cases serves
        exact .stored (by rw [contents]; exact .head _)
      · rw [setConsumer_consumer, Function.update_of_ne isThread] at serves
        exact .popped server serves
  · rintro (holds | stores | ⟨server, serves⟩)
    · exact .held holds
    · rw [contents] at stores
      rcases List.mem_cons.mp stores with rfl | stores
      · exact .popped thread (by
          rw [setConsumer_consumer, Function.update_self]
          rfl)
      · exact .stored stores
    · refine .popped server ?_
      have different : server ≠ thread := by
        rintro rfl
        rw [here] at serves
        cases serves
      rwa [setConsumer_consumer, Function.update_of_ne different]

/-- A thread that is done with a connection takes only its own from the pending ones. -/
theorem pending_served {thread : Fin threads} {newsock other : Cell}
    (here : (state.consumer thread).awaits = some newsock) (different : other ≠ newsock) :
    Pending (state.setConsumer thread .locking) other ↔ Pending state other := by
  have own := ConsumerPoint.connection_of_awaits here
  constructor
  · rintro (holds | stores | ⟨server, serves⟩)
    · exact .held holds
    · exact .stored stores
    · by_cases isThread : server = thread
      · rw [isThread, setConsumer_consumer, Function.update_self] at serves
        cases serves
      · rw [setConsumer_consumer, Function.update_of_ne isThread] at serves
        exact .popped server serves
  · rintro (holds | stores | ⟨server, serves⟩)
    · exact .held holds
    · exact .stored stores
    · refine .popped server ?_
      have isOther : server ≠ thread := by
        rintro rfl
        rw [own] at serves
        exact different (Option.some.inj serves).symm
      rwa [setConsumer_consumer, Function.update_of_ne isOther]

/-- A connection becomes pending when it is accepted, and stays so until the thread that
serves it goes on. -/
theorem pending_step (consistent : Consistent state) (stepTo : Step state event after)
    (newsock : Cell) :
    (Pending after newsock ↔ Pending state newsock) ∨
    (∃ socket, event = .accept socket ∧ newsock = some socket) ∨
    ∃ thread, (state.consumer thread).awaits = some newsock ∧
      after.consumer thread ≠ state.consumer thread := by
  cases stepTo with
  | accept socket here =>
      by_cases isSocket : newsock = some socket
      · exact Or.inr (Or.inl ⟨socket, rfl, isSocket⟩)
      refine Or.inl ⟨?_, ?_⟩
      · rintro (holds | stores | ⟨thread, serves⟩)
        · exact absurd (List.mem_singleton.mp holds) isSocket
        · exact .stored stores
        · exact .popped thread serves
      · rintro (holds | stores | ⟨thread, serves⟩)
        · simp [here, ProducerPoint.holding] at holds
        · exact .stored stores
        · exact .popped thread serves
  | lockProducer here | waitNonfull here | wakeProducer here | leaveFullTest here
  | unlockProducer here =>
      exact Or.inl (pending_congr newsock (by simp [here, ProducerPoint.holding]) rfl
        fun _ => rfl)
  | push here call =>
      obtain ⟨_, _, contents⟩ := consistent.push_eq here call
      exact Or.inl (pending_push here contents newsock)
  | signalNonempty here signal =>
      refine Or.inl (pending_congr newsock (by simp [here, ProducerPoint.holding]) rfl
        fun thread => ?_)
      rcases signal.point_eq thread with unmoved | ⟨sleeping, woken⟩
      · exact congrArg ConsumerPoint.connection unmoved
      · simp [sleeping, woken, ConsumerPoint.connection]
  | pop here call =>
      obtain ⟨_, _, contents⟩ := consistent.pop_eq here call
      exact Or.inl (pending_pop here contents newsock)
  | signalNonfull here =>
      refine Or.inl (pending_congr newsock (holding_signalled _) rfl (connection_update ?_))
      rw [here]
      rfl
  | lockConsumer here | waitNonempty here | wakeConsumer here | leaveEmptyTest here
  | unlockConsumer here | lockStatistics _ here | count here | unlockStatistics here =>
      refine Or.inl (pending_congr newsock rfl rfl (connection_update ?_))
      rw [here]
      rfl
  | @refuse thread served here | @answer thread served here =>
      have awaits : (state.consumer thread).awaits = some served := by
        rw [here]
        rfl
      by_cases isServed : newsock = served
      · refine Or.inr (Or.inr ⟨thread, isServed ▸ awaits, ?_⟩)
        simp [here]
      · exact Or.inl (pending_served awaits isServed)

/-- A pending connection is a socket that was accepted. -/
theorem exists_socket (positive : 1 ≤ threads) {events : List (ServerEvent threads)}
    (run : Run threads events state) {newsock : Cell} (pending : Pending state newsock) :
    ∃ socket, newsock = some socket := by
  have both : Consistent state ∧ ∀ newsock, Pending state newsock →
      ∃ socket, newsock = some socket := by
    refine run.invariant
      (fun reached => Consistent reached ∧ ∀ newsock, Pending reached newsock →
        ∃ socket, newsock = some socket)
      ⟨consistent_initial positive, ?_⟩ ?_
    · rintro newsock (holds | stores | ⟨_, serves⟩)
      · cases holds
      · rw [initial, Queue.contents_create] at stores
        cases stores
      · cases serves
    · rintro reached event after ⟨consistent, sockets⟩ stepTo
      refine ⟨consistent.step stepTo, fun newsock pending => ?_⟩
      rcases pending_step consistent stepTo newsock with
        same | ⟨socket, _, isSocket⟩ | ⟨thread, awaits, _⟩
      · exact sockets newsock (same.mp pending)
      · exact ⟨socket, isSocket⟩
      · exact sockets newsock (.popped thread (ConsumerPoint.connection_of_awaits awaits))
  exact both.2 newsock pending

end Connections

/-- What holds in every state of the server. -/
structure Live (state : ServerState threads) : Prop where
  consistent : Consistent state
  consumers : ConsumersAlert state
  producer : ProducerAlert state
  size : state.socketQueue.size = threads

theorem live_initial (positive : 1 ≤ threads) : Live (initial threads) where
  consistent := consistent_initial positive
  consumers nonempty := absurd (Queue.contents_create threads) nonempty
  producer := by simp [ProducerAlert, initial]
  size := rfl

theorem live_step (positive : 1 ≤ threads) (live : Live state)
    (stepTo : Step state event after) : Live after where
  consistent := live.consistent.step stepTo
  consumers := consumersAlert_step positive live.consistent live.consumers stepTo
  producer := producerAlert_step live.producer stepTo
  size := (size_step live.consistent.wellFormed stepTo).trans live.size

theorem spends (positive : 1 ≤ threads) :
    BoundedWork.Spends (@Draining threads) Works Live left where
  keeps _ _ _ live draining := live_step positive live draining.1
  work _ _ _ live draining works := by
    rcases left_step live.consistent draining with lower | ⟨_, idle⟩
    · exact lower
    · exact absurd works idle
  rest _ _ _ live draining _ := by
    rcases left_step live.consistent draining with lower | ⟨same, _⟩
    · exact lower.le
    · exact same.le

/-- The connections that are pending can all be served. -/
structure Answerable (connections : QueueType → Connection) (state : ServerState threads) :
    Prop where
  live : Live state
  answered : ∀ newsock, Pending state newsock → Answered connections newsock

theorem spends_prompt (positive : 1 ≤ threads) :
    BoundedWork.Spends (@Prompt threads connections) Works (Answerable connections) left := by
  refine ((spends positive).narrow fun _ _ _ prompt => prompt.draining).restrict
    (fun _ answerable => answerable.live) fun state event after answerable prompt => ?_
  refine ⟨live_step positive answerable.live prompt.draining.1, fun newsock pending => ?_⟩
  rcases pending_step answerable.live.consistent prompt.draining.1 newsock with
    same | ⟨socket, isAccept, _⟩ | ⟨thread, awaits, goesOn⟩
  · exact answerable.answered newsock (same.mp pending)
  · exact absurd isAccept (prompt.draining.2 socket)
  · exact prompt.attended thread newsock awaits goesOn

section Progress

/-- The server can go on to a state of some kind, without waking anyone by chance. -/
def CanGo (connections : QueueType → Connection) (state : ServerState threads)
    (goal : ServerState threads → Prop) : Prop :=
  ∃ events after, LabelledRun.Run (Prompt connections) state events after ∧ goal after

variable {goal : ServerState threads → Prop}

theorem CanGo.here (reached : goal state) : CanGo connections state goal :=
  ⟨[], state, .start, reached⟩

theorem CanGo.step (prompt : Prompt connections state event after)
    (later : CanGo connections after goal) : CanGo connections state goal := by
  obtain ⟨events, last, run, reached⟩ := later
  exact ⟨[] ++ [event] ++ events, last, (LabelledRun.Run.start.next prompt).append run, reached⟩

theorem CanGo.mono {other : ServerState threads → Prop} (canGo : CanGo connections state goal)
    (weaker : ∀ last, goal last → other last) : CanGo connections state other := by
  obtain ⟨events, last, run, reached⟩ := canGo
  exact ⟨events, last, run, weaker last reached⟩

/-- There is less to do. -/
abbrev Lower (state last : ServerState threads) : Prop :=
  last.left < state.left

/-- There is less to do, or as much as before and no thread is inside the lock. -/
abbrev Unlocks (state last : ServerState threads) : Prop :=
  last.left < state.left ∨ last.left = state.left ∧ last.queueLock = none

theorem CanGo.lower (consistent : Consistent state) (prompt : Prompt connections state event after)
    (works : Works state after) : CanGo connections state (Lower state) := by
  rcases left_step consistent prompt.draining with lower | ⟨_, idle⟩
  · exact .step prompt (.here lower)
  · exact absurd works idle

/-- A consumer that is awake goes on with its connection. -/
theorem CanGo.consumer (consistent : Consistent state) {thread : Fin threads}
    {point target : ConsumerPoint} (here : state.consumer thread = point)
    (stepTo : Step state event after) (noAccept : ∀ newsock, event ≠ .accept newsock)
    (same : after.producer = state.producer)
    (moved : after.consumer = Function.update state.consumer thread target)
    (awake : point ≠ .asleep)
    (client : ∀ newsock, point.awaits = some newsock → Answered connections newsock)
    (differs : target.left ≠ point.left) : CanGo connections state (Lower state) := by
  refine .lower consistent (.consumer stepTo noAccept here awake client same moved)
    (Or.inr ⟨thread, ?_⟩)
  rwa [moved, Function.update_self, here]

theorem CanGo.producer (consistent : Consistent state) (stepTo : Step state event after)
    (noAccept : ∀ newsock, event ≠ .accept newsock)
    (awake : ∀ newsock, state.producer ≠ .asleep newsock)
    (same : after.consumer = state.consumer)
    (differs : after.producer.left ≠ state.producer.left) : CanGo connections state (Lower state) :=
  .lower consistent (.producer stepTo noAccept awake same) (Or.inl differs)

theorem canGo_popping (consistent : Consistent state) {thread : Fin threads}
    (here : state.consumer thread = .popping) : CanGo connections state (Lower state) := by
  obtain ⟨newsock, socketQueue, pops, _⟩ :=
    Queue.pop_of_nonempty consistent.wellFormed (consistent.nonempty thread here) none
  exact .consumer consistent here (.pop here pops) (by simp) rfl rfl (by simp)
    (by simp [ConsumerPoint.awaits]) (by simp [ConsumerPoint.left])

theorem canGo_testing (positive : 1 ≤ threads) (live : Live state) {thread : Fin threads}
    (here : state.consumer thread = .testing) (nonempty : state.socketQueue.empty = false) :
    CanGo connections state (Lower state) := by
  have stepTo : Step state .internal (state.setConsumer thread .popping) :=
    .leaveEmptyTest here nonempty
  have same : (state.setConsumer thread .popping).left = state.left :=
    left_setConsumer here rfl
  have moved : (state.setConsumer thread .popping).consumer thread = .popping :=
    Function.update_self ..
  have popping : CanGo connections _ (Lower _) :=
    canGo_popping (live_step positive live stepTo).consistent moved
  refine .step (.consumer stepTo (by simp) here (by simp) (by simp [ConsumerPoint.awaits]) rfl
    rfl) ?_
  exact popping.mono fun last lower => lower.trans_eq same

theorem unlocks_consumer (positive : 1 ≤ threads) (live : Live state) {thread : Fin threads}
    (inside : (state.consumer thread).holdsLock = true) :
    CanGo connections state (Unlocks state) := by
  have consistent := live.consistent
  cases here : state.consumer thread with
  | testing =>
      cases nonempty : state.socketQueue.empty with
      | true =>
          refine .step (.consumer (.waitNonempty here nonempty) (by simp) here (by simp)
            (by simp [ConsumerPoint.awaits]) rfl rfl) (.here (Or.inr ⟨?_, rfl⟩))
          exact left_setConsumer here rfl
      | false => exact (canGo_testing positive live here nonempty).mono fun _ => Or.inl
  | popping => exact (canGo_popping consistent here).mono fun _ => Or.inl
  | popped newsock =>
      exact (CanGo.consumer consistent here (.unlockConsumer here) (by simp) rfl rfl (by simp)
        (by simp [ConsumerPoint.awaits]) (by simp [ConsumerPoint.left])).mono fun _ => Or.inl
  | counting newsock file =>
      exact (CanGo.consumer consistent here (.count here) (by simp) rfl rfl (by simp)
        (by simp [ConsumerPoint.awaits]) (by simp [ConsumerPoint.left])).mono fun _ => Or.inl
  | counted newsock =>
      exact (CanGo.consumer consistent here (.unlockStatistics here) (by simp) rfl rfl (by simp)
        (by simp [ConsumerPoint.awaits]) (by simp [ConsumerPoint.left])).mono fun _ => Or.inl
  | locking | asleep | signalling | serving | answering =>
      rw [here] at inside
      cases inside

theorem canGo_pushing (consistent : Consistent state) {newsock : QueueType}
    (here : state.producer = .pushing newsock) : CanGo connections state (Lower state) := by
  obtain ⟨socketQueue, pushes, _⟩ :=
    Queue.push_of_room consistent.wellFormed (consistent.room newsock here) (some newsock)
  exact .producer consistent (.push here pushes) (by simp) (by simp [here]) rfl
    (by simp [here, ProducerPoint.left])

theorem canGo_testing_producer (positive : 1 ≤ threads) (live : Live state)
    {newsock : QueueType} (here : state.producer = .testing newsock)
    (room : state.socketQueue.full = some false) : CanGo connections state (Lower state) := by
  have stepTo : Step state .internal { state with producer := .pushing newsock } :=
    .leaveFullTest here room
  have same : ServerState.left { state with producer := .pushing newsock } = state.left :=
    left_setProducer here rfl state.queueLock
  have pushing : CanGo connections _ (Lower _) :=
    canGo_pushing (live_step positive live stepTo).consistent
      (rfl : _ = ProducerPoint.pushing newsock)
  refine .step (.producer stepTo (by simp) (by simp [here]) rfl) ?_
  exact pushing.mono fun last lower => lower.trans_eq same

theorem unlocks_producer (positive : 1 ≤ threads) (live : Live state)
    (inside : state.producer.holdsLock = true) : CanGo connections state (Unlocks state) := by
  have consistent := live.consistent
  cases here : state.producer with
  | testing newsock =>
      cases isFull : state.socketQueue.full with
      | none =>
          rw [Queue.full_eq consistent.wellFormed] at isFull
          cases isFull
      | some full =>
          cases full with
          | true =>
              refine .step (.producer (.waitNonfull here isFull) (by simp) (by simp [here]) rfl)
                (.here (Or.inr ⟨?_, rfl⟩))
              exact left_setProducer here rfl none
          | false =>
              exact (canGo_testing_producer positive live here isFull).mono fun _ => Or.inl
  | pushing newsock => exact (canGo_pushing consistent here).mono fun _ => Or.inl
  | pushed =>
      exact (CanGo.producer consistent (.unlockProducer here) (by simp) (by simp [here]) rfl
        (by simp [here, ProducerPoint.left])).mono fun _ => Or.inl
  | accepting | locking | asleep | signalling =>
      rw [here] at inside
      cases inside

/-- A thread outside the lock that holds a connection goes on with it, if its client is
one for which `getRequest` returns. -/
theorem canGo_holding (consistent : Consistent state)
    (answered : ∀ newsock, Pending state newsock → Answered connections newsock)
    (free : state.queueLock = none) {thread : Fin threads}
    (holds : (state.consumer thread).left ≠ 0) :
    CanGo connections state (Lower state) := by
  have client : ∀ {point}, state.consumer thread = point →
      ∀ newsock, point.awaits = some newsock → Answered connections newsock := by
    rintro point rfl newsock awaits
    exact answered newsock (.popped thread (ConsumerPoint.connection_of_awaits awaits))
  cases here : state.consumer thread with
  | locking | testing | asleep | popping =>
      rw [here] at holds
      exact absurd rfl holds
  | popped | counting | counted =>
      refine absurd ?_ (consistent.lockHeld.outside free (.consumer thread))
      rw [insideLock, here]
      rfl
  | signalling newsock =>
      refine .lower consistent
        ⟨⟨.signalNonfull here, by simp⟩, prompted_signalNonfull here, attended_consumer ?_ rfl⟩
        (Or.inr ⟨thread, ?_⟩)
      · simp [here, ConsumerPoint.awaits]
      simp [here, ConsumerPoint.left]
  | serving newsock =>
      exact .consumer consistent here (.refuse here) (by simp) rfl rfl (by simp)
        (client here) (by simp [ConsumerPoint.left])
  | answering newsock =>
      exact .consumer consistent here (.answer here) (by simp) rfl rfl (by simp)
        (client here) (by simp [ConsumerPoint.left])

/-- A stored connection is popped when no thread is inside the lock. -/
theorem canGo_nonempty (positive : 1 ≤ threads) (live : Live state)
    (free : state.queueLock = none) (stored : state.socketQueue.contents ≠ [])
    (idle : ∀ thread, (state.consumer thread).left = 0)
    (noSignal : state.producer.owesSignal = false) : CanGo connections state (Lower state) := by
  have consistent := live.consistent
  rcases live.consumers stored with ⟨thread, awake⟩ | owes
  · have outside := consistent.lockHeld.outside free (.consumer thread)
    have nothing := idle thread
    cases here : state.consumer thread with
    | locking =>
        have stepTo : Step state .internal
            { state.setConsumer thread .testing with queueLock := some (.consumer thread) } :=
          .lockConsumer here free
        have same : ServerState.left { state.setConsumer thread .testing with
            queueLock := some (.consumer thread) } = state.left := left_setConsumer here rfl
        have moved : (state.setConsumer thread .testing).consumer thread = .testing :=
          Function.update_self ..
        have nonempty : state.socketQueue.empty = false := by
          rw [Bool.eq_false_iff, Ne, Queue.empty_iff consistent.wellFormed]
          exact stored
        have testing : CanGo connections _ (Lower _) :=
          canGo_testing positive (live_step positive live stepTo) moved nonempty
        refine .step (.consumer stepTo (by simp) here (by simp) (by simp [ConsumerPoint.awaits])
          rfl rfl) ?_
        exact testing.mono fun last lower => lower.trans_eq same
    | asleep => exact absurd here awake
    | testing | popping =>
        rw [insideLock, here] at outside
        exact absurd rfl outside
    | popped | signalling | serving | counting | counted | answering =>
        rw [here] at nothing
        cases nothing
  · rw [noSignal] at owes
    cases owes

/-- The producer goes on when no thread is inside the lock and the queue is empty. -/
theorem canGo_empty (several : 2 ≤ threads) (live : Live state)
    (free : state.queueLock = none) (nothing : state.socketQueue.contents = [])
    (idle : ∀ thread, (state.consumer thread).left = 0)
    (noSignal : state.producer ≠ .signalling)
    (busy : state.producer.left ≠ 0) : CanGo connections state (Lower state) := by
  have consistent := live.consistent
  have room : state.socketQueue.full = some false := by
    have size := live.size
    rw [Queue.full_eq consistent.wellFormed, nothing, List.length_nil, size]
    simp
    omega
  have outside := consistent.lockHeld.outside free .producer
  cases here : state.producer with
  | accepting =>
      rw [here] at busy
      exact absurd rfl busy
  | testing | pushing | pushed =>
      rw [insideLock, here] at outside
      exact absurd rfl outside
  | locking newsock =>
      have stepTo : Step state .internal
          { state with producer := .testing newsock, queueLock := some .producer } :=
        .lockProducer here free
      have same := left_setProducer here
        (rfl : (ProducerPoint.testing newsock).left = _) (some .producer)
      have testing : CanGo connections _ (Lower _) :=
        canGo_testing_producer (by omega) (live_step (by omega) live stepTo)
          (rfl : _ = ProducerPoint.testing newsock) room
      refine .step (.producer stepTo (by simp) (by simp [here]) rfl) ?_
      exact testing.mono fun last lower => lower.trans_eq same
  | asleep newsock =>
      -- a sleeping producer has a full queue or a signal on its way
      rcases live.producer newsock here with isFull | ⟨thread, owes⟩
      · rw [room] at isFull
        cases isFull
      · have none := idle thread
        cases point : state.consumer thread <;>
          simp [point, ConsumerPoint.left, ConsumerPoint.owesSignal] at none owes
  | signalling => exact absurd here noSignal

theorem unlocks (positive : 1 ≤ threads) (live : Live state) {holder : ServerThreadId threads}
    (inside : insideLock state.producer state.consumer holder) :
    CanGo connections state (Unlocks state) := by
  cases holder with
  | producer => exact unlocks_producer positive live inside
  | consumer thread => exact unlocks_consumer positive live inside

theorem exists_lower_unlocked (several : 2 ≤ threads) (answerable : Answerable connections state)
    (free : state.queueLock = none) (busy : state.left ≠ 0) :
    CanGo connections state (Lower state) := by
  have live := answerable.live
  have consistent := live.consistent
  by_cases idle : ∀ thread, (state.consumer thread).left = 0
  · have noConsumer : BoundedWork.total ConsumerPoint.left state.consumer = 0 :=
      Finset.sum_eq_zero fun thread _ => idle thread
    by_cases signalling : state.producer = .signalling
    · obtain ⟨consumer, signal⟩ : ∃ consumer, Monitor.Signal (· = ConsumerPoint.asleep)
          (fun _ => .locking) state.consumer consumer := Monitor.Signal.exists_after _
      refine .lower consistent ⟨⟨.signalNonempty signalling signal, by simp⟩,
        prompted_signalNonempty signalling, attended_signalNonempty signal⟩ (Or.inl ?_)
      simp [signalling, ProducerPoint.left]
    · have noSignal : state.producer.owesSignal = false := by
        have outside := consistent.lockHeld.outside free .producer
        cases here : state.producer with
        | pushed =>
            rw [insideLock, here] at outside
            exact absurd rfl outside
        | signalling => exact absurd here signalling
        | accepting | locking | testing | asleep | pushing => rfl
      by_cases stored : state.socketQueue.contents = []
      · refine canGo_empty several live free stored idle signalling fun nothing => busy ?_
        rw [left, stored, nothing, noConsumer]
        rfl
      · exact canGo_nonempty (by omega) live free stored idle noSignal
  · obtain ⟨thread, holds⟩ := not_forall.mp idle
    exact canGo_holding consistent answerable.answered free holds

/-- As long as something is left there can be less to do. -/
theorem exists_lower (several : 2 ≤ threads) (answerable : Answerable connections state)
    (busy : state.left ≠ 0) : CanGo connections state (Lower state) := by
  have live := answerable.live
  cases owner : state.queueLock with
  | none => exact exists_lower_unlocked several answerable owner busy
  | some holder =>
      have inside := (live.consistent.lockHeld holder).mpr owner
      obtain ⟨events, middle, run, lower | ⟨same, free⟩⟩ := unlocks (by omega) live inside
      · exact ⟨events, middle, run, lower⟩
      · have later := (spends_prompt (by omega)).holds_of_run answerable run
        obtain ⟨more, last, onwards, lower⟩ :=
          exists_lower_unlocked several later free (by omega)
        exact ⟨events ++ more, last, run.append onwards, lower.trans_eq same⟩

end Progress

section Runs

theorem left_le (state : ServerState threads) :
    state.left ≤ 7 * state.socketQueue.contents.length + 10 + 6 * threads := by
  have producer : state.producer.left ≤ 10 := by
    cases state.producer <;> simp [ProducerPoint.left]
  have consumer : ∀ thread ∈ Finset.univ, (state.consumer thread).left ≤ 6 := by
    intro thread _
    cases state.consumer thread <;> simp [ConsumerPoint.left]
  have total := Finset.sum_le_card_nsmul Finset.univ _ 6 consumer
  rw [Finset.card_univ, Fintype.card_fin, Nat.nsmul_eq_mul] at total
  rw [left, BoundedWork.total]
  omega

theorem drained_of_left (nothing : state.left = 0) : Drained state := by
  simp only [left, BoundedWork.total, Nat.add_eq_zero_iff, Finset.sum_eq_zero_iff] at nothing
  obtain ⟨⟨contents, producer⟩, consumer⟩ := nothing
  refine ⟨List.length_eq_zero_iff.mp (by omega), ?_, fun thread => consumer thread (by simp)⟩
  cases here : state.producer <;>
    simp [here, ProducerPoint.left, ProducerPoint.holding] at producer ⊢

theorem Drained.not_pending (drained : Drained state) (newsock : Cell) :
    ¬ Pending state newsock := by
  obtain ⟨contents, holding, consumer⟩ := drained
  rintro (holds | stores | ⟨thread, serves⟩)
  · rw [holding] at holds
    cases holds
  · rw [contents] at stores
    cases stores
  · have nothing := consumer thread
    cases point : state.consumer thread <;>
      simp [point, ConsumerPoint.connection, ConsumerPoint.left] at serves nothing

theorem accepted_of_draining {more : List (ServerEvent threads)}
    (run : LabelledRun.Run Draining state more after) : accepted more = [] := by
  induction run with
  | start => rfl
  | @next events _ event _ _ draining ih =>
      rw [accepted_append, ih]
      cases event with
      | accept newsock => exact absurd rfl (draining.2 newsock)
      | pop | count | internal => rfl

/-- A connection for which `getRequest` does not return is never served. -/
theorem pending_of_run (positive : 1 ≤ threads) (live : Live state)
    {more : List (ServerEvent threads)}
    (run : LabelledRun.Run (Prompt connections) state more after) {newsock : Cell}
    (unanswered : ¬ Answered connections newsock) (pending : Pending state newsock) :
    Pending after newsock := by
  have both : Live after ∧ Pending after newsock := by
    refine run.invariant (fun reached => Live reached ∧ Pending reached newsock) ⟨live, pending⟩ ?_
    rintro reached event next ⟨reachedLive, kept⟩ prompt
    refine ⟨live_step positive reachedLive prompt.draining.1, ?_⟩
    rcases pending_step reachedLive.consistent prompt.draining.1 newsock with
      same | ⟨socket, isAccept, _⟩ | ⟨thread, awaits, goesOn⟩
    · exact same.mpr kept
    · exact absurd isAccept (prompt.draining.2 socket)
    · exact absurd (prompt.attended thread newsock awaits goesOn) unanswered
  exact both.2

/-- From every state that the server can be in, whatever its threads have done so far: when
no further connection is accepted they make only so many steps for the connections.  They
can all be served, without a chance wake-up, exactly when `getRequest` returns for each
connection that is not served yet, and then each was popped once and in order. -/
theorem server_drains (several : 2 ≤ threads) {events : List (ServerEvent threads)}
    (run : Run threads events state) (connections : QueueType → Connection) :
    (∀ count after, BoundedWork.Worked Draining Works state count after →
      count ≤ 7 * state.socketQueue.contents.length + 10 + 6 * threads) ∧
    ((∃ more after, LabelledRun.Run (Prompt connections) state more after ∧ Drained after) ↔
      ∀ newsock, Pending state (some newsock) → (connections newsock).Served) ∧
    ∀ more after, LabelledRun.Run (Prompt connections) state more after → Drained after →
      (popped (events ++ more)).map Prod.snd = (accepted events).map some := by
  have positive : 1 ≤ threads := by omega
  have live := run.invariant Live (live_initial positive) fun _ _ _ => live_step positive
  refine ⟨fun count after worked => ?_, ⟨?_, fun served => ?_⟩, fun more after later drained => ?_⟩
  · have limit := (spends positive).count_le live worked
    have bound := left_le state
    omega
  · rintro ⟨more, after, later, drained⟩ newsock pending
    by_contra unserved
    refine drained.not_pending _ (pending_of_run positive live later ?_ pending)
    rintro ⟨socket, same, served⟩
    cases same
    exact unserved served
  · have answerable : Answerable connections state := by
      refine ⟨live, fun newsock pending => ?_⟩
      obtain ⟨socket, rfl⟩ := exists_socket positive run pending
      exact ⟨socket, rfl, served socket pending⟩
    obtain ⟨more, after, later, nothing⟩ := (spends_prompt positive).exists_done_of_runs
      (fun _ answerable busy => exists_lower several answerable busy) answerable
    exact ⟨more, after, later, drained_of_left nothing⟩
  have draining := later.mono fun _ _ _ (prompt : Prompt connections _ _ _) => prompt.draining
  have whole := run.append (draining.mono fun _ _ _ (draining : Draining _ _ _) => draining.1)
  have split := handedOver_of_run positive whole
  rw [HandedOver, drained.1, drained.2.1, List.append_nil, List.append_nil, accepted_append,
    accepted_of_draining draining, List.append_nil] at split
  exact split

/-- A client of a site without files that sends a whole request. -/
def askingConnection : Connection where
  env := emptySite
  newsock := .ofData true "GET /page HTTP/1.1\n\n\n\n\n\n".toList
  client := patientClient

theorem askingConnection_served : askingConnection.Served := by
  have line : nextLine true "GET /page HTTP/1.1\n\n\n\n\n\n".toList =
      some ("GET /page HTTP/1.1".toList, "\n\n\n\n\n".toList) := by decide
  have accepts : emptySite.Accepts patientClient "GET /page HTTP/1.1".toList :=
    ⟨by decide, by simp [SegmentedStream.Sink.Takes, patientClient]⟩
  rcases getRequest_complete (SegmentedStream.Stream.ofData_delivers true _) line (by decide)
    (rfl : afterLines true 5 _ = some []) with ⟨refuses, _⟩ | ⟨_, exchange, served, _⟩
  · exact absurd accepts refuses
  · exact ⟨exchange, served⟩

/-- One connection is served, the next one stored and the last one held; each of the clients
sends its request. -/
theorem server_drains_three_sockets : ∃ (events more : List (ServerEvent 2))
    (state after : ServerState 2), Run 2 events state ∧ popped events = [(0, some 7)] ∧
      LabelledRun.Run (Prompt fun _ => askingConnection) state more after ∧ Drained after ∧
      (popped (events ++ more)).map Prod.snd = [some 7, some 8, some 9] := by
  obtain ⟨events, state, run, taken, _, stored, holding⟩ := run_three_sockets
  obtain ⟨_, drains, inOrder⟩ := server_drains (Nat.le_refl 2) run fun _ => askingConnection
  obtain ⟨more, after, later, drained⟩ := drains.mpr fun _ _ => askingConnection_served
  refine ⟨events, more, state, after, run, taken, later, drained, ?_⟩
  have split := handedOver_of_run (by decide) run
  rw [HandedOver, taken, stored, holding] at split
  rw [inOrder more after later drained, ← split]
  rfl

end Runs

end ServerState

end WebCrawl
