import WebCrawl.ConnectionQueueContents
import WebCrawl.LabelledRun
import WebCrawl.Monitor

/-!
# The threads of the serving process

`serverProc` accepts connections and pushes them into the socket queue, and
the threads running `serverThread` pop and serve them.  The state holds the
queue, the owner of `queueLock` and the program point of every thread.  One
step is one action of one thread between two synchronization operations, so a
run is an arbitrary interleaving; a sleeper may wake at any time, signalled or
not.  A call of `exit` ends the run.
-/

namespace WebCrawl

/-- The program points of the loop of `serverProc`.  A thread that
`pthread_cond_wait` wakes has to take the lock again and then repeats the
test, so it stands where it stood before its first attempt. -/
inductive ProducerPoint where
  | accepting
  | locking (newsock : QueueType)
  | testing (newsock : QueueType)
  | asleep (newsock : QueueType)
  | pushing (newsock : QueueType)
  | pushed
  | signalling
  deriving DecidableEq, Repr

/-- The program points of the loop of `serverThread`, with the ones of
`getRequest` that touch the queue.  The variable `newsock` is indeterminate
until `Queue_pop` writes it. -/
inductive ConsumerPoint where
  | locking
  | testing
  | asleep
  | popping
  | popped (newsock : Cell)
  | signalling (newsock : Cell)
  | serving (newsock : Cell)
  | counting (newsock : Cell) (file : List Char)
  | counted (newsock : Cell)
  | answering (newsock : Cell)
  deriving DecidableEq, Repr

/-- The producer stands between locking and unlocking `queueLock`. -/
def ProducerPoint.holdsLock : ProducerPoint → Bool
  | .testing _ | .pushing _ | .pushed => true
  | .accepting | .locking _ | .asleep _ | .signalling => false

def ConsumerPoint.holdsLock : ConsumerPoint → Bool
  | .testing | .popping | .popped _ | .counting .. | .counted _ => true
  | .locking | .asleep | .signalling _ | .serving _ | .answering _ => false

/-- The socket that the producer has accepted and not yet pushed. -/
def ProducerPoint.holding : ProducerPoint → List Cell
  | .locking newsock | .testing newsock | .asleep newsock
  | .pushing newsock => [some newsock]
  | .accepting | .pushed | .signalling => []

/-- `pthread_cond_signal(&cond_nonfull)`, seen by its only possible waiter. -/
def ProducerPoint.signalled : ProducerPoint → ProducerPoint
  | .asleep newsock => .locking newsock
  | point => point

inductive ServerThreadId (threads : Nat) where
  | producer
  | consumer (thread : Fin threads)
  deriving DecidableEq, Repr

structure ServerState (threads : Nat) where
  socketQueue : Queue
  queueLock : Option (ServerThreadId threads)
  producer : ProducerPoint
  consumer : Fin threads → ConsumerPoint

/-- What a step shows to the outside: an accepted socket, a popped one with the
thread that popped it, or a file entered into the statistics. -/
inductive ServerEvent (threads : Nat) where
  | accept (newsock : QueueType)
  | pop (thread : Fin threads) (newsock : Cell)
  | count (thread : Fin threads) (file : List Char)
  | internal
  deriving DecidableEq, Repr

namespace ServerState

variable {threads : Nat}

/-- `serverProc` after `Queue_create` and the creation of the threads. -/
def initial (threads : Nat) : ServerState threads where
  socketQueue := Queue.create threads
  queueLock := none
  producer := .accepting
  consumer := fun _ => .locking

def setConsumer (state : ServerState threads) (thread : Fin threads)
    (point : ConsumerPoint) : ServerState threads :=
  { state with consumer := Function.update state.consumer thread point }

@[simp]
theorem setConsumer_socketQueue (state : ServerState threads)
    (thread : Fin threads) (point : ConsumerPoint) :
    (state.setConsumer thread point).socketQueue = state.socketQueue :=
  rfl

@[simp]
theorem setConsumer_queueLock (state : ServerState threads)
    (thread : Fin threads) (point : ConsumerPoint) :
    (state.setConsumer thread point).queueLock = state.queueLock :=
  rfl

@[simp]
theorem setConsumer_producer (state : ServerState threads)
    (thread : Fin threads) (point : ConsumerPoint) :
    (state.setConsumer thread point).producer = state.producer :=
  rfl

@[simp]
theorem setConsumer_consumer (state : ServerState threads)
    (thread : Fin threads) (point : ConsumerPoint) :
    (state.setConsumer thread point).consumer =
      Function.update state.consumer thread point :=
  rfl

/-- One action of one thread. -/
inductive Step : ServerState threads → ServerEvent threads →
    ServerState threads → Prop
  -- serverProc
  | accept {state : ServerState threads} (newsock : QueueType) :
      state.producer = .accepting →
      Step state (.accept newsock) { state with producer := .locking newsock }
  | lockProducer {state : ServerState threads} {newsock : QueueType} :
      state.producer = .locking newsock → state.queueLock = none →
      Step state .internal
        { state with producer := .testing newsock, queueLock := some .producer }
  | waitNonfull {state : ServerState threads} {newsock : QueueType} :
      state.producer = .testing newsock → state.socketQueue.full = some true →
      Step state .internal
        { state with producer := .asleep newsock, queueLock := none }
  | wakeProducer {state : ServerState threads} {newsock : QueueType} :
      state.producer = .asleep newsock →
      Step state .internal { state with producer := .locking newsock }
  | leaveFullTest {state : ServerState threads} {newsock : QueueType} :
      state.producer = .testing newsock → state.socketQueue.full = some false →
      Step state .internal { state with producer := .pushing newsock }
  | push {state : ServerState threads} {newsock : QueueType} {pushed : Bool}
      {socketQueue : Queue} :
      state.producer = .pushing newsock →
      state.socketQueue.push (some newsock) = some (pushed, socketQueue) →
      Step state .internal
        { state with producer := .pushed, socketQueue := socketQueue }
  | unlockProducer {state : ServerState threads} :
      state.producer = .pushed →
      Step state .internal
        { state with producer := .signalling, queueLock := none }
  | signalNonempty {state : ServerState threads}
      {consumer : Fin threads → ConsumerPoint} :
      state.producer = .signalling →
      Monitor.Signal (· = ConsumerPoint.asleep) (fun _ => .locking)
        state.consumer consumer →
      Step state .internal
        { state with producer := .accepting, consumer := consumer }
  -- serverThread
  | lockConsumer {state : ServerState threads} {thread : Fin threads} :
      state.consumer thread = .locking → state.queueLock = none →
      Step state .internal
        { state.setConsumer thread .testing with
          queueLock := some (.consumer thread) }
  | waitNonempty {state : ServerState threads} {thread : Fin threads} :
      state.consumer thread = .testing → state.socketQueue.empty = true →
      Step state .internal
        { state.setConsumer thread .asleep with queueLock := none }
  | wakeConsumer {state : ServerState threads} {thread : Fin threads} :
      state.consumer thread = .asleep →
      Step state .internal (state.setConsumer thread .locking)
  | leaveEmptyTest {state : ServerState threads} {thread : Fin threads} :
      state.consumer thread = .testing → state.socketQueue.empty = false →
      Step state .internal (state.setConsumer thread .popping)
  | pop {state : ServerState threads} {thread : Fin threads} {popped : Bool}
      {newsock : Cell} {socketQueue : Queue} :
      state.consumer thread = .popping →
      state.socketQueue.pop none = some (popped, newsock, socketQueue) →
      Step state (.pop thread newsock)
        { state.setConsumer thread (.popped newsock) with
          socketQueue := socketQueue }
  | unlockConsumer {state : ServerState threads} {thread : Fin threads}
      {newsock : Cell} :
      state.consumer thread = .popped newsock →
      Step state .internal
        { state.setConsumer thread (.signalling newsock) with
          queueLock := none }
  | signalNonfull {state : ServerState threads} {thread : Fin threads}
      {newsock : Cell} :
      state.consumer thread = .signalling newsock →
      Step state .internal
        { state.setConsumer thread (.serving newsock) with
          producer := state.producer.signalled }
  -- getRequest, for an answer other than 200
  | refuse {state : ServerState threads} {thread : Fin threads}
      {newsock : Cell} :
      state.consumer thread = .serving newsock →
      Step state .internal (state.setConsumer thread .locking)
  -- getRequest, for a file that was read
  | lockStatistics {state : ServerState threads} {thread : Fin threads}
      {newsock : Cell} (file : List Char) :
      state.consumer thread = .serving newsock → state.queueLock = none →
      Step state .internal
        { state.setConsumer thread (.counting newsock file) with
          queueLock := some (.consumer thread) }
  | count {state : ServerState threads} {thread : Fin threads}
      {newsock : Cell} {file : List Char} :
      state.consumer thread = .counting newsock file →
      Step state (.count thread file)
        { state.setConsumer thread (.counted newsock) with
          socketQueue := state.socketQueue.serve.bytes file.length }
  | unlockStatistics {state : ServerState threads} {thread : Fin threads}
      {newsock : Cell} :
      state.consumer thread = .counted newsock →
      Step state .internal
        { state.setConsumer thread (.answering newsock) with
          queueLock := none }
  | answer {state : ServerState threads} {thread : Fin threads}
      {newsock : Cell} :
      state.consumer thread = .answering newsock →
      Step state .internal (state.setConsumer thread .locking)

abbrev Run (threads : Nat) :=
  LabelledRun.Run (@Step threads) (initial threads)

end ServerState

end WebCrawl
