import WebCrawl.ServerRequest
import WebCrawl.ServerThreadsExclusion
import Mathlib.Algebra.BigOperators.Fin

/-!
# The statistics of the server

A serving thread enters a page into the statistics of the queue before it sends
it.  The size that it enters is the one of the file, the length that it
announces is the one of the string in its variable `msg`.  The statistics are
what has been announced, plus what the threads still owe, as long as the files
hold no NUL and the counters do not overflow.
-/

namespace WebCrawl

/-- The number behind `Content-Length:`. -/
def announcedLength (msg : List Char) : Int :=
  toInt (strlen msg)

/-- The threads of the server with the variables `msg` of their calls of
`getRequest`. -/
structure AccountState (threads : Nat) where
  server : ServerState threads
  msg : Fin threads → List Char

/-- An answer with status 200 is an event of its own. -/
inductive AccountEvent (threads : Nat) where
  | answer (thread : Fin threads) (msg : List Char)
  | other (event : ServerEvent threads)
  deriving DecidableEq, Repr

/-- The page is in the statistics and not yet sent. -/
def ConsumerPoint.owesAnswer : ConsumerPoint → Bool
  | .counted _ | .answering _ => true
  | .locking | .testing | .asleep | .popping | .popped _ | .signalling _
  | .serving _ | .counting .. => false

/-- The thread is inside `getRequest`. -/
def ConsumerPoint.inRequest : ConsumerPoint → Bool
  | .serving _ | .counting .. | .counted _ | .answering _ => true
  | .locking | .testing | .asleep | .popping | .popped _ | .signalling _ => false

namespace AccountState

variable {threads : Nat}

def initial (threads : Nat) : AccountState threads where
  server := ServerState.initial threads
  msg := fun _ => []

/-- No thread reads a file or sends an answer. -/
def Quiet (before after : ServerState threads) : Prop :=
  ∀ thread,
    (∀ newsock file, after.consumer thread = .counting newsock file →
      before.consumer thread = .counting newsock file) ∧
    (∀ newsock, before.consumer thread = .answering newsock →
      after.consumer thread = .answering newsock)

/-- One action of one thread. -/
inductive Step : AccountState threads → AccountEvent threads →
    AccountState threads → Prop
  | read {state : AccountState threads} {thread : Fin threads} {newsock : Cell}
      (file : List Char) :
      state.server.consumer thread = .serving newsock →
      state.server.queueLock = none →
      Step state (.other .internal)
        { server :=
            { state.server.setConsumer thread (.counting newsock file) with
              queueLock := some (.consumer thread) }
          msg := Function.update state.msg thread
            (FileAccess.readable file).response.msg }
  | answer {state : AccountState threads} {thread : Fin threads} {newsock : Cell} :
      state.server.consumer thread = .answering newsock →
      Step state (.answer thread (state.msg thread))
        { state with server := state.server.setConsumer thread .locking }
  | other {state : AccountState threads} {event : ServerEvent threads}
      {after : ServerState threads} :
      ServerState.Step state.server event after → Quiet state.server after →
      Step state (.other event) { state with server := after }

abbrev Run (threads : Nat) :=
  LabelledRun.Run (@Step threads) (initial threads)

section Refinement

variable {state after : AccountState threads} {event : AccountEvent threads}

/-- The event of the server's threads. -/
def forget : AccountEvent threads → ServerEvent threads
  | .answer _ _ => .internal
  | .other event => event

theorem Step.forget (stepTo : Step state event after) :
    ServerState.Step state.server (forget event) after.server := by
  cases stepTo with
  | read file point free => exact .lockStatistics file point free
  | answer point => exact .answer point
  | other stepTo _ => exact stepTo

theorem quiet_of_same {before after : ServerState threads}
    (same : after.consumer = before.consumer) : Quiet before after := by
  intro thread
  rw [same]
  exact ⟨fun _ _ => id, fun _ => id⟩

theorem quiet_update {before after : ServerState threads} {moved : Fin threads}
    {point : ConsumerPoint}
    (notAnswering : ∀ newsock, before.consumer moved ≠ .answering newsock)
    (notCounting : ∀ newsock file, point ≠ .counting newsock file)
    (updated : after.consumer = Function.update before.consumer moved point) :
    Quiet before after := by
  intro thread
  rw [updated]
  by_cases same : thread = moved
  · subst thread
    rw [Function.update_self]
    exact ⟨fun newsock file counting => absurd counting (notCounting newsock file),
      fun newsock answering => absurd answering (notAnswering newsock)⟩
  · rw [Function.update_of_ne same]
    exact ⟨fun _ _ => id, fun _ => id⟩

/-- Every step of the server's threads is a step with messages. -/
theorem step_of_server {serverEvent : ServerEvent threads}
    {serverAfter : ServerState threads}
    (stepTo : ServerState.Step state.server serverEvent serverAfter) :
    ∃ event after, Step state event after ∧ forget event = serverEvent ∧
      after.server = serverAfter := by
  have other : Quiet state.server serverAfter →
      ∃ event after, Step state event after ∧ forget event = serverEvent ∧
        after.server = serverAfter :=
    fun quiet => ⟨.other serverEvent, _, .other stepTo quiet, rfl, rfl⟩
  cases stepTo with
  | lockStatistics file point free => exact ⟨_, _, .read file point free, rfl, rfl⟩
  | answer point => exact ⟨_, _, .answer point, rfl, rfl⟩
  | accept | lockProducer | waitNonfull | wakeProducer | leaveFullTest | push
  | unlockProducer => exact other (quiet_of_same rfl)
  | signalNonempty _ signal =>
      apply other
      intro thread
      rcases signal.point_eq thread with same | ⟨sleeping, woken⟩
      · simp [same]
      · simp [sleeping, woken]
  | lockConsumer point | waitNonempty point | wakeConsumer point
  | leaveEmptyTest point | pop point | unlockConsumer point
  | signalNonfull point | refuse point | count point | unlockStatistics point =>
      exact other (quiet_update (by simp [point]) (by simp) rfl)

end Refinement

/-- The messages of the answers with status 200, in the order in which they were
sent. -/
def answers : List (AccountEvent threads) → List (List Char)
  | [] => []
  | .answer _ msg :: events => msg :: answers events
  | .other _ :: events => answers events

@[simp]
theorem answers_append (events more : List (AccountEvent threads)) :
    answers (events ++ more) = answers events ++ answers more := by
  induction events with
  | nil => rfl
  | cons event events ih => cases event <;> simp [answers, ih]

section Accounts

variable {weight : List Char → Int} {state after : AccountState threads}

def owedBy (weight : List Char → Int) (state : AccountState threads)
    (thread : Fin threads) : Int :=
  if (state.server.consumer thread).owesAnswer then weight (state.msg thread) else 0

def owed (weight : List Char → Int) (state : AccountState threads) : Int :=
  ∑ thread, owedBy weight state thread

/-- The answers that were sent and those that are still owed. -/
def entered (weight : List Char → Int) (events : List (AccountEvent threads))
    (state : AccountState threads) : Int :=
  ((answers events).map weight).sum + owed weight state

/-- When one thread moves, what it owed is replaced by what it owes then. -/
theorem owed_moved {thread : Fin threads} {point : ConsumerPoint}
    (moved : after.server.consumer =
      Function.update state.server.consumer thread point)
    (sameMsg : after.msg = state.msg) :
    owed weight after = owed weight state - owedBy weight state thread +
      if point.owesAnswer then weight (state.msg thread) else 0 := by
  have updated : owedBy weight after = Function.update (owedBy weight state) thread
      (if point.owesAnswer then weight (state.msg thread) else 0) := by
    funext other
    by_cases same : other = thread
    · subst other
      simp [owedBy, moved, sameMsg]
    · simp [owedBy, moved, sameMsg, Function.update_of_ne same]
  have member : thread ∈ Finset.univ := Finset.mem_univ thread
  have split := Finset.add_sum_erase Finset.univ (owedBy weight state) member
  rw [owed, owed, updated, Finset.sum_update_of_mem member, ← split,
    Finset.sdiff_singleton_eq_erase]
  omega

theorem owed_same (same : owedBy weight after = owedBy weight state) :
    owed weight after = owed weight state := by
  rw [owed, owed, same]

theorem owes_update {consumer : Fin threads → ConsumerPoint} {moved : Fin threads}
    {point : ConsumerPoint} (same : point.owesAnswer = (consumer moved).owesAnswer)
    (thread : Fin threads) :
    (Function.update consumer moved point thread).owesAnswer =
      (consumer thread).owesAnswer := by
  by_cases equal : thread = moved
  · subst thread
    rw [Function.update_self, same]
  · rw [Function.update_of_ne equal]

/-- Only entering a page makes a quiet thread owe an answer. -/
theorem owes_quiet {before serverAfter : ServerState threads}
    {event : ServerEvent threads} (stepTo : ServerState.Step before event serverAfter)
    (quiet : Quiet before serverAfter)
    (notCount : ∀ thread file, event ≠ .count thread file) (thread : Fin threads) :
    (serverAfter.consumer thread).owesAnswer = (before.consumer thread).owesAnswer := by
  cases stepTo with
  | count => exact absurd rfl (notCount _ _)
  | @answer moved newsock point =>
      have stays := (quiet moved).2 newsock point
      simp at stays
  | accept | lockProducer | waitNonfull | wakeProducer | leaveFullTest | push
  | unlockProducer => rfl
  | signalNonempty _ signal =>
      rcases signal.point_eq thread with same | ⟨sleeping, woken⟩
      · simp [same]
      · simp [sleeping, woken, ConsumerPoint.owesAnswer]
  | lockConsumer point | waitNonempty point | wakeConsumer point
  | leaveEmptyTest point | pop point | unlockConsumer point
  | signalNonfull point | refuse point | lockStatistics _ point
  | unlockStatistics point => exact owes_update (by rw [point]; rfl) thread

theorem owed_quiet {event : ServerEvent threads} {serverAfter : ServerState threads}
    (stepTo : ServerState.Step state.server event serverAfter)
    (quiet : Quiet state.server serverAfter)
    (notCount : ∀ thread file, event ≠ .count thread file) :
    owed weight ⟨serverAfter, state.msg⟩ = owed weight state := by
  apply owed_same
  funext thread
  simp only [owedBy, owes_quiet stepTo quiet notCount thread]

theorem owed_read {thread : Fin threads} {newsock : Cell} (file : List Char)
    {queueLock : Option (ServerThreadId threads)}
    (point : state.server.consumer thread = .serving newsock) :
    owed weight
      ⟨{ state.server.setConsumer thread (.counting newsock file) with
          queueLock := queueLock },
        Function.update state.msg thread (FileAccess.readable file).response.msg⟩ =
    owed weight state := by
  apply owed_same
  funext other
  by_cases same : other = thread
  · subst other
    simp [owedBy, point, ConsumerPoint.owesAnswer]
  · simp [owedBy, Function.update_of_ne same]

theorem owed_answer {thread : Fin threads} {newsock : Cell}
    (point : state.server.consumer thread = .answering newsock) :
    owed weight ⟨state.server.setConsumer thread .locking, state.msg⟩ +
      weight (state.msg thread) = owed weight state := by
  have moved := @owed_moved _ weight state
    ⟨state.server.setConsumer thread .locking, state.msg⟩ thread .locking rfl rfl
  have before : owedBy weight state thread = weight (state.msg thread) := by
    simp [owedBy, point, ConsumerPoint.owesAnswer]
  have none : ConsumerPoint.locking.owesAnswer = false := rfl
  rw [moved, before, none]
  simp

theorem owed_count {thread : Fin threads} {newsock : Cell} {file : List Char}
    {socketQueue : Queue}
    (point : state.server.consumer thread = .counting newsock file) :
    owed weight
      ⟨{ state.server.setConsumer thread (.counted newsock) with
          socketQueue := socketQueue }, state.msg⟩ =
    owed weight state + weight (state.msg thread) := by
  have moved := @owed_moved _ weight state
    ⟨{ state.server.setConsumer thread (.counted newsock) with
        socketQueue := socketQueue }, state.msg⟩ thread (.counted newsock) rfl rfl
  have before : owedBy weight state thread = 0 := by
    simp [owedBy, point, ConsumerPoint.owesAnswer]
  have one : (ConsumerPoint.counted newsock).owesAnswer = true := rfl
  rw [moved, before, one]
  simp

end Accounts

/-- The counters and what was announced, at any time. -/
structure Accounted (events : List (AccountEvent threads))
    (state : AccountState threads) : Prop where
  message : ∀ thread newsock file,
    state.server.consumer thread = .counting newsock file →
      state.msg thread = (FileAccess.readable file).response.msg
  pages : state.server.socketQueue.getPages = entered (fun _ => 1) events state
  bytes : state.server.socketQueue.getBytes = entered announcedLength events state
  pages_nonneg : 0 ≤ state.server.socketQueue.getPages
  bytes_nonneg : 0 ≤ state.server.socketQueue.getBytes

/-- A page that is entered has no NUL and does not overflow the counters. -/
def Countable (state : AccountState threads) : AccountEvent threads → Prop
  | .other (.count _ file) =>
      '\x00' ∉ file ∧ state.server.socketQueue.getPages + 1 < 2 ^ 31 ∧
        state.server.socketQueue.getBytes + file.length < 2 ^ 31
  | _ => True

theorem announcedLength_readable {file : List Char} (nulFree : '\x00' ∉ file)
    (small : file.length < 2 ^ 31) :
    announcedLength (FileAccess.readable file).response.msg = file.length := by
  have text : cstr (file ++ ['\x00']) = file := cstr_append_nul nulFree
  simp only [announcedLength, FileAccess.response, strlen, text]
  exact toInt_of_range (by omega) (by omega)

/-- The counters of the queue. -/
def counters (socketQueue : Queue) : Int × Int :=
  (socketQueue.getPages, socketQueue.getBytes)

theorem counters_push {oura after : Queue} {element : Cell} {pushed : Bool}
    (call : oura.push element = some (pushed, after)) : counters after = counters oura := by
  rcases Queue.push_changes call with ⟨_, rfl⟩ | ⟨_, piso, rfl⟩ <;> rfl

theorem counters_pop {oura after : Queue} {element value : Cell} {popped : Bool}
    (call : oura.pop element = some (popped, value, after)) :
    counters after = counters oura := by
  rcases Queue.pop_changes call with ⟨_, _, rfl⟩ | ⟨_, embros, rfl⟩ <;> rfl

/-- Nothing but entering a page changes the counters. -/
theorem counters_step {before after : ServerState threads} {event : ServerEvent threads}
    (stepTo : ServerState.Step before event after)
    (notCount : ∀ thread file, event ≠ .count thread file) :
    counters after.socketQueue = counters before.socketQueue := by
  cases stepTo with
  | push _ call => exact counters_push call
  | pop _ call => exact counters_pop call
  | count => exact absurd rfl (notCount _ _)
  | _ => rfl

section Steps

variable {events : List (AccountEvent threads)} {state after : AccountState threads}
variable {event : AccountEvent threads}

theorem Accounted.quiet {serverEvent : ServerEvent threads}
    {serverAfter : ServerState threads} (accounted : Accounted events state)
    (stepTo : ServerState.Step state.server serverEvent serverAfter)
    (quiet : Quiet state.server serverAfter)
    (notCount : ∀ thread file, serverEvent ≠ .count thread file) :
    Accounted (events ++ [.other serverEvent]) ⟨serverAfter, state.msg⟩ := by
  have same := counters_step stepTo notCount
  simp only [counters, Prod.mk.injEq] at same
  refine ⟨fun thread newsock file counting =>
    accounted.message thread newsock file ((quiet thread).1 newsock file counting),
    ?_, ?_, ?_, ?_⟩
  · simpa [entered, answers, owed_quiet stepTo quiet notCount, same.1] using accounted.pages
  · simpa [entered, answers, owed_quiet stepTo quiet notCount, same.2] using accounted.bytes
  · exact same.1 ▸ accounted.pages_nonneg
  · exact same.2 ▸ accounted.bytes_nonneg

theorem Accounted.count {thread : Fin threads} {newsock : Cell} {file : List Char}
    (accounted : Accounted events state)
    (point : state.server.consumer thread = .counting newsock file)
    (countable : Countable state (.other (.count thread file))) :
    Accounted (events ++ [.other (.count thread file)])
      ⟨{ state.server.setConsumer thread (.counted newsock) with
          socketQueue := state.server.socketQueue.serve.bytes file.length },
        state.msg⟩ := by
  obtain ⟨nulFree, fewPages, fewBytes⟩ := countable
  have pagesNonneg := accounted.pages_nonneg
  have bytesNonneg := accounted.bytes_nonneg
  have announced := announcedLength_readable nulFree (by omega)
  have pages : (state.server.socketQueue.serve.bytes file.length).getPages =
      state.server.socketQueue.getPages + 1 := by
    change toInt (state.server.socketQueue.getPages + 1) = _
    exact toInt_of_range (by omega) fewPages
  have bytes : (state.server.socketQueue.serve.bytes file.length).getBytes =
      state.server.socketQueue.getBytes + file.length := by
    have size : toInt file.length = file.length := toInt_of_range (by omega) (by omega)
    change toInt (state.server.socketQueue.getBytes + toInt file.length) = _
    rw [size]
    exact toInt_of_range (by omega) fewBytes
  refine ⟨fun other otherSock otherFile counting => ?_, ?_, ?_, ?_, ?_⟩
  · exact accounted.message other otherSock otherFile
      (ServerState.point_before (by simp) counting).2
  · simp only [entered, answers_append, answers, List.append_nil, owed_count point]
    rw [pages, accounted.pages, entered]
    omega
  · simp only [entered, answers_append, answers, List.append_nil, owed_count point]
    rw [bytes, accounted.bytes, entered, accounted.message thread newsock file point,
      announced]
    omega
  · exact pages ▸ (by omega : 0 ≤ state.server.socketQueue.getPages + 1)
  · exact bytes ▸ (by omega : 0 ≤ state.server.socketQueue.getBytes + file.length)

theorem Accounted.read {thread : Fin threads} {newsock : Cell} (file : List Char)
    {queueLock : Option (ServerThreadId threads)} (accounted : Accounted events state)
    (point : state.server.consumer thread = .serving newsock) :
    Accounted (events ++ [.other .internal])
      ⟨{ state.server.setConsumer thread (.counting newsock file) with
          queueLock := queueLock },
        Function.update state.msg thread (FileAccess.readable file).response.msg⟩ := by
  refine ⟨fun other otherSock otherFile counting => ?_, ?_, ?_,
    accounted.pages_nonneg, accounted.bytes_nonneg⟩
  · by_cases same : other = thread
    · subst other
      have found : ConsumerPoint.counting newsock file = .counting otherSock otherFile :=
        (Function.update_self ..).symm.trans counting
      cases found
      exact Function.update_self ..
    · have found : state.server.consumer other = .counting otherSock otherFile :=
        (Function.update_of_ne same ..).symm.trans counting
      exact (Function.update_of_ne same ..).trans
        (accounted.message other otherSock otherFile found)
  · rw [entered, answers_append, answers, answers, List.append_nil, owed_read file point]
    exact accounted.pages
  · rw [entered, answers_append, answers, answers, List.append_nil, owed_read file point]
    exact accounted.bytes

theorem Accounted.step (accounted : Accounted events state)
    (countable : Countable state event) (stepTo : Step state event after) :
    Accounted (events ++ [event]) after := by
  cases stepTo with
  | read file point => exact accounted.read file point
  | @answer thread newsock point =>
      refine ⟨fun other otherSock otherFile counting => ?_, ?_, ?_,
        accounted.pages_nonneg, accounted.bytes_nonneg⟩
      · exact accounted.message other otherSock otherFile
          (ServerState.point_before (by simp) counting).2
      · have left := @owed_answer _ (fun _ => 1) state thread newsock point
        have pages := accounted.pages
        simp only [entered, answers_append, answers, List.map_append, List.sum_append,
          List.map_cons, List.map_nil, List.sum_singleton] at pages ⊢
        exact pages.trans (by omega)
      · have left := @owed_answer _ announcedLength state thread newsock point
        have bytes := accounted.bytes
        simp only [entered, answers_append, answers, List.map_append, List.sum_append,
          List.map_cons, List.map_nil, List.sum_singleton] at bytes ⊢
        exact bytes.trans (by omega)
  | @other serverEvent serverAfter stepTo quiet =>
      by_cases counts : ∃ thread file, serverEvent = .count thread file
      · obtain ⟨thread, file, rfl⟩ := counts
        cases stepTo with
        | count point => exact accounted.count point countable
      · simp only [not_exists] at counts
        exact accounted.quiet stepTo quiet counts

end Steps

/-- No thread is inside `getRequest`. -/
def Idle (state : AccountState threads) : Prop :=
  ∀ thread, (state.server.consumer thread).inRequest = false

theorem Idle.owed {state : AccountState threads} (idle : Idle state)
    (weight : List Char → Int) : owed weight state = 0 := by
  apply Finset.sum_eq_zero
  intro thread _
  have outside := idle thread
  rw [owedBy]
  cases point : state.server.consumer thread <;>
    simp_all [ConsumerPoint.inRequest, ConsumerPoint.owesAnswer]

theorem accounted_initial : Accounted [] (initial threads) := by
  have nothing : ∀ weight, owed weight (initial threads) = 0 := fun weight =>
    Idle.owed (fun _ => rfl) weight
  refine ⟨fun thread newsock file counting => ?_, ?_, ?_, ?_, ?_⟩
  · cases counting
  · rw [entered, nothing]
    rfl
  · rw [entered, nothing]
    rfl
  · exact Int.le_refl 0
  · exact Int.le_refl 0

/-- The runs in which every page that is entered can be counted. -/
abbrev CountableRun (threads : Nat) :=
  LabelledRun.Run
    (fun (state : AccountState threads) event after =>
      Countable state event ∧ Step state event after)
    (initial threads)

/-- Between requests the statistics are the number of answers with status 200 and the
sum of the lengths that they announced. -/
theorem statistics_match {events : List (AccountEvent threads)}
    {state : AccountState threads} (run : CountableRun threads events state)
    (idle : Idle state) :
    state.server.socketQueue.getPages = (answers events).length ∧
      state.server.socketQueue.getBytes =
        ((answers events).map announcedLength).sum := by
  have accounted : Accounted events state :=
    run.history_invariant Accounted accounted_initial
      fun _ _ _ _ held stepTo => held.step stepTo.1 stepTo.2
  constructor
  · rw [accounted.pages, entered, idle.owed]
    simp
  · rw [accounted.bytes, entered, idle.owed, Int.add_zero]

section Requests

variable {file : List Char}
variable {step : AccountState threads → AccountEvent threads → AccountState threads → Prop}
variable {queue queueAfter : Queue} {consumer : Fin threads → ConsumerPoint}
variable {msg : Fin threads → List Char}

/-- Steps in which only the given page is counted, from counters at zero. -/
def Includes (step : AccountState threads → AccountEvent threads →
      AccountState threads → Prop) (file : List Char) : Prop :=
  ∀ state event after, Step state event after →
    (∀ thread page, event = .other (.count thread page) →
      page = file ∧ counters state.server.socketQueue = (0, 0)) →
    step state event after

theorem Includes.stays (includes : Includes step file) {before after : ServerState threads}
    (stepTo : ServerState.Step before .internal after)
    (same : after.consumer = before.consumer) :
    step ⟨before, msg⟩ (.other .internal) ⟨after, msg⟩ :=
  includes _ _ _ (.other stepTo (quiet_of_same same)) (by simp)

theorem run_accept (includes : Includes step file) (newsock : QueueType)
    (awake : ∀ thread, consumer thread ≠ .asleep) (room : queue.full = some false)
    (push : queue.push (some newsock) = some (true, queueAfter)) :
    LabelledRun.Run step ⟨⟨queue, none, .accepting, consumer⟩, msg⟩
      [.other (.accept newsock), .other .internal, .other .internal, .other .internal,
        .other .internal, .other .internal]
      ⟨⟨queueAfter, none, .accepting, consumer⟩, msg⟩ := by
  have accepted : LabelledRun.Run step ⟨⟨queue, none, .accepting, consumer⟩, msg⟩
      [.other (.accept newsock)] ⟨⟨queue, none, .locking newsock, consumer⟩, msg⟩ :=
    LabelledRun.Run.start.next
      (includes _ _ _ (.other (.accept newsock rfl) (quiet_of_same rfl)) (by simp))
  have locked := accepted.next (includes.stays (.lockProducer rfl rfl) rfl)
  have tested := locked.next (includes.stays (.leaveFullTest rfl room) rfl)
  have pushed := tested.next (includes.stays (.push rfl push) rfl)
  have unlocked := pushed.next (includes.stays (.unlockProducer rfl) rfl)
  exact unlocked.next (includes.stays (.signalNonempty rfl (.lost awake)) rfl)

theorem Includes.moves (includes : Includes step file) {before after : ServerState threads}
    {event : ServerEvent threads} {thread : Fin threads} {start point : ConsumerPoint}
    (stepTo : ServerState.Step before event after)
    (stands : before.consumer = Function.update consumer thread start)
    (moved : after.consumer = Function.update before.consumer thread point)
    (notAnswering : ∀ newsock, start ≠ .answering newsock)
    (notCounting : ∀ newsock page, point ≠ .counting newsock page)
    (counted : ∀ thread page, event = .count thread page →
      page = file ∧ counters before.socketQueue = (0, 0)) :
    step ⟨before, msg⟩ (.other event)
      ⟨{ after with consumer := Function.update consumer thread point }, msg⟩ := by
  have same : Function.update consumer thread point = after.consumer := by
    rw [moved, stands, Function.update_idem]
  rw [same]
  exact includes _ _ _
    (.other stepTo (quiet_update (by simpa [stands] using notAnswering) notCounting moved))
    (by simpa using counted)

theorem run_pop (includes : Includes step file) {thread : Fin threads} {newsock : Cell}
    (locking : consumer thread = .locking) (nonempty : queue.empty = false)
    (pop : queue.pop none = some (true, newsock, queueAfter)) :
    LabelledRun.Run step ⟨⟨queue, none, .accepting, consumer⟩, msg⟩
      [.other .internal, .other .internal, .other (.pop thread newsock),
        .other .internal, .other .internal]
      ⟨⟨queueAfter, none, .accepting, Function.update consumer thread (.serving newsock)⟩,
        msg⟩ := by
  have begun : LabelledRun.Run step ⟨⟨queue, none, .accepting, consumer⟩, msg⟩ []
      ⟨⟨queue, none, .accepting, Function.update consumer thread .locking⟩, msg⟩ := by
    rw [← locking, Function.update_eq_self]
    exact .start
  have locked := begun.next (includes.moves
    (.lockConsumer (Function.update_self ..) rfl) rfl rfl (by simp) (by simp) (by simp))
  have tested := locked.next (includes.moves
    (.leaveEmptyTest (Function.update_self ..) nonempty) rfl rfl (by simp) (by simp)
    (by simp))
  have popped := tested.next (includes.moves
    (.pop (Function.update_self ..) pop) rfl rfl (by simp) (by simp) (by simp))
  have unlocked := popped.next (includes.moves
    (.unlockConsumer (Function.update_self ..)) rfl rfl (by simp) (by simp) (by simp))
  exact unlocked.next (includes.moves
    (.signalNonfull (Function.update_self ..)) rfl rfl (by simp) (by simp) (by simp))

theorem run_request (includes : Includes step file) {thread : Fin threads}
    {newsock : Cell} (zero : counters queue = (0, 0)) :
    LabelledRun.Run step
      ⟨⟨queue, none, .accepting, Function.update consumer thread (.serving newsock)⟩, msg⟩
      [.other .internal, .other (.count thread file), .other .internal,
        .answer thread (FileAccess.readable file).response.msg]
      ⟨⟨queue.serve.bytes file.length, none, .accepting,
          Function.update consumer thread .locking⟩,
        Function.update msg thread (FileAccess.readable file).response.msg⟩ := by
  have read : LabelledRun.Run step
      ⟨⟨queue, none, .accepting, Function.update consumer thread (.serving newsock)⟩, msg⟩
      [.other .internal]
      ⟨⟨queue, some (.consumer thread), .accepting,
          Function.update consumer thread (.counting newsock file)⟩,
        Function.update msg thread (FileAccess.readable file).response.msg⟩ := by
    refine LabelledRun.Run.start.next (includes _ _ _ ?_ (by simp))
    have reads := @Step.read threads
      ⟨⟨queue, none, .accepting, Function.update consumer thread (.serving newsock)⟩, msg⟩
      thread newsock file (Function.update_self ..) rfl
    simpa [ServerState.setConsumer] using reads
  have counted := read.next (includes.moves (.count (Function.update_self ..)) rfl rfl
    (by simp) (by simp) (fun _ _ same => by cases same; exact ⟨rfl, zero⟩))
  have unlocked := counted.next (includes.moves
    (.unlockStatistics (Function.update_self ..)) rfl rfl (by simp) (by simp) (by simp))
  refine unlocked.next (includes _ _ _ ?_ (by simp))
  have answers := @Step.answer threads
    ⟨⟨queue.serve.bytes file.length, none, .accepting,
        Function.update consumer thread (.answering newsock)⟩,
      Function.update msg thread (FileAccess.readable file).response.msg⟩
    thread newsock (Function.update_self ..)
  simpa [ServerState.setConsumer] using answers

theorem getBytes_bytes (oura : Queue) (size : Int) :
    (oura.serve.bytes size).getBytes = toInt (oura.getBytes + toInt size) :=
  rfl

/-- Two threads serve one request. -/
theorem run_page {step : AccountState 2 → AccountEvent 2 → AccountState 2 → Prop}
    (includes : Includes step file) :
    ∃ events state, LabelledRun.Run step (initial 2) events state ∧ Idle state ∧
      answers events = [(FileAccess.readable file).response.msg] ∧
      state.server.socketQueue.getBytes = toInt (toInt file.length) := by
  obtain ⟨stored, left, push, nonempty, pop⟩ : ∃ stored left,
      (Queue.create 2).push (some 7) = some (true, stored) ∧ stored.empty = false ∧
      stored.pop none = some (true, some 7, left) :=
    ⟨_, _, rfl, by decide, rfl⟩
  have zero : counters left = (0, 0) := (counters_pop pop).trans (counters_push push)
  have bytes : left.getBytes = 0 := congrArg Prod.snd zero
  have accepted := @run_accept 2 file step (Queue.create 2) stored (fun _ => .locking)
    (fun _ => []) includes 7 (by simp) (by decide) push
  have popped := accepted.append (@run_pop 2 file step stored left (fun _ => .locking) _
    includes 0 (some 7) rfl nonempty pop)
  have served := popped.append (run_request includes zero)
  refine ⟨_, _, served, ?_, rfl, ?_⟩
  · intro thread
    by_cases first : thread = 0
    · subst thread
      rfl
    · simp [Function.update_of_ne first, ConsumerPoint.inRequest]
  · rw [getBytes_bytes, bytes, Int.zero_add]

end Requests

theorem statistics_match_one_page :
    ∃ events state, CountableRun 2 events state ∧ Idle state ∧
      answers events = [['x', '\x00']] ∧
      state.server.socketQueue.getPages = (answers events).length ∧
      state.server.socketQueue.getBytes =
        ((answers events).map announcedLength).sum := by
  have includes : Includes (fun (state : AccountState 2) event after =>
      Countable state event ∧ Step state event after) ['x'] := by
    intro state event after stepTo counted
    refine ⟨?_, stepTo⟩
    unfold Countable
    split
    · obtain ⟨rfl, zero⟩ := counted _ _ rfl
      have pages : state.server.socketQueue.getPages = 0 := congrArg Prod.fst zero
      have bytes : state.server.socketQueue.getBytes = 0 := congrArg Prod.snd zero
      rw [pages, bytes]
      decide
    · trivial
  obtain ⟨events, state, run, idle, sent, _⟩ := run_page includes
  exact ⟨events, state, run, idle, sent, statistics_match run idle⟩

/-- A page that is a single NUL counts as one byte and is announced as empty. -/
theorem statistics_mismatch :
    ∃ events state, Run 2 events state ∧ Idle state ∧
      state.server.socketQueue.getBytes ≠
        ((answers events).map announcedLength).sum := by
  obtain ⟨events, state, run, idle, sent, bytes⟩ :=
    @run_page ['\x00'] _ (fun _ _ _ stepTo _ => stepTo)
  refine ⟨events, state, run, idle, ?_⟩
  rw [bytes, sent]
  decide

end AccountState

end WebCrawl
