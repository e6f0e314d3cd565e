import WebCrawl.BufferLimits
import WebCrawl.PolledCounters
import WebCrawl.ServerAccounting
import WebCrawl.SocketLines
import Mathlib.Algebra.Order.BigOperators.Group.Finset

/-!
# The control process of the server

`main` of `myhttpd.c` forks the serving process and answers commands itself.  The
two processes share the queue, and a STATS command reads its counters without the
lock, one after the other and in either order, while a thread of the server may stand
between `Queue_serve` and `Queue_bytes`.  So the two numbers of a reply need not
belong together.  Still each of them was right at some moment between the command
and its reply, and no reply goes back behind an earlier one.
-/

namespace WebCrawl

/-- The commands that `main` of the server tells apart. -/
inductive ServerCommand where
  | stats
  | shutdown
  | invalid
  deriving DecidableEq

def serverCommand (command : CString) : ServerCommand :=
  if command.chars = "STATS".toList then .stats
  else if command.chars = "SHUTDOWN".toList then .shutdown
  else .invalid

inductive ServerReply where
  | stats (elapsed : Nat) (pages bytes : Int)
  | shutdown
  | invalid
  deriving DecidableEq

/-- The block that is written to the socket, up to its NUL. -/
def ServerReply.message : ServerReply → Outcome (List Char)
  | .stats elapsed pages bytes => serverStats elapsed pages bytes
  | .shutdown => .returns ("Server shutting down...\n".toList ++ ['\x00'])
  | .invalid => .returns ("Invalid command. Try again.\n".toList ++ ['\x00'])

/-- The command that is replied to in this way. -/
def ServerReply.command : ServerReply → ServerCommand
  | .stats .. => .stats
  | .shutdown => .shutdown
  | .invalid => .invalid

/-- The program points of the control process.  While the arguments of `sprintf` are
evaluated it has read none, one or both of the counters. -/
inductive ControlPoint where
  | accepting
  | reading (command : CString) (pages bytes : Option Int)
  | replying (command : CString) (reply : ServerReply)
  | leaving
  | waiting
  deriving DecidableEq

def ControlPoint.serve (command : CString) : ControlPoint :=
  match serverCommand command with
  | .stats => .reading command none none
  | .shutdown => .replying command .shutdown
  | .invalid => .replying command .invalid

/-- The threads of the serving process and the control process.  A thread that holds
the lock is `halfway` when it has called `Queue_serve` and not yet `Queue_bytes`. -/
structure ControlState (threads : Nat) where
  account : AccountState threads
  halfway : Bool
  main : ControlPoint

inductive ControlEvent (threads : Nat) where
  | server (event : AccountEvent threads)
  | servePage
  | accept (command : CString)
  | reply (command : CString) (reply : ServerReply)
  | terminate
  | internal
  deriving DecidableEq

namespace ControlState

variable {threads : Nat}

def initial (threads : Nat) : ControlState threads where
  account := .initial threads
  halfway := false
  main := .accepting

/-- What `Queue_getPages` reads from the shared memory. -/
def pagesServed (state : ControlState threads) : Int :=
  if state.halfway then state.account.server.socketQueue.serve.getPages
  else state.account.server.socketQueue.getPages

/-- What `Queue_getBytes` reads from the shared memory. -/
def bytesReturned (state : ControlState threads) : Int :=
  state.account.server.socketQueue.getBytes

/-- One action of one thread of the server, or of the control process.  Behind `kill`
the server is one that was interrupted. -/
inductive Step : ControlState threads → ControlEvent threads → ControlState threads → Prop
  -- the serving process
  | serves {state : ControlState threads} {event : AccountEvent threads}
      {after : AccountState threads} :
      state.main ≠ .waiting → AccountState.Step state.account event after →
      (∀ thread file, event ≠ .other (.count thread file)) →
      Step state (.server event) { state with account := after }
  | servePage {state : ControlState threads} {thread : Fin threads} {newsock : Cell}
      {file : List Char} :
      state.main ≠ .waiting →
      state.account.server.consumer thread = .counting newsock file → state.halfway = false →
      Step state .servePage { state with halfway := true }
  | returnBytes {state : ControlState threads} {thread : Fin threads} {file : List Char}
      {after : AccountState threads} :
      state.main ≠ .waiting → state.halfway = true →
      AccountState.Step state.account (.other (.count thread file)) after →
      Step state (.server (.other (.count thread file)))
        { state with account := after, halfway := false }
  -- the control process
  | accept {state : ControlState threads} {command : CString} :
      state.main = .accepting → OneLine command.chars →
      Step state (.accept command) { state with main := .serve command }
  | readPages {state : ControlState threads} {command : CString} {bytes : Option Int} :
      state.main = .reading command none bytes →
      Step state .internal { state with main := .reading command (some state.pagesServed) bytes }
  | readBytes {state : ControlState threads} {command : CString} {pages : Option Int} :
      state.main = .reading command pages none →
      Step state .internal { state with main := .reading command pages (some state.bytesReturned) }
  | print {state : ControlState threads} {command : CString} {pages bytes : Int}
      (elapsed : Nat) :
      state.main = .reading command (some pages) (some bytes) →
      Fits (serverStats elapsed pages bytes) →
      Step state .internal
        { state with main := .replying command (.stats elapsed pages bytes) }
  | reply {state : ControlState threads} {command : CString} {reply : ServerReply} :
      state.main = .replying command reply →
      Step state (.reply command reply)
        { state with main := if reply = .shutdown then .leaving else .accepting }
  | terminate {state : ControlState threads} :
      state.main = .leaving → Step state .terminate { state with main := .waiting }

abbrev Run (threads : Nat) :=
  LabelledRun.Run (@Step threads) (initial threads)

section History

/-- What the serving process did. -/
def serverEvents (events : List (ControlEvent threads)) : List (AccountEvent threads) :=
  events.filterMap fun
    | .server event => some event
    | _ => none

/-- The files that were entered into the statistics. -/
def countedFiles (events : List (ControlEvent threads)) : List (List Char) :=
  events.filterMap fun
    | .server (.other (.count _ file)) => some file
    | _ => none

/-- How often `Queue_serve` was called. -/
def servedPages (events : List (ControlEvent threads)) : Nat :=
  events.countP fun
    | .servePage => true
    | _ => false

/-- The answers with status 200 that were sent. -/
def sentPages (events : List (ControlEvent threads)) : Nat :=
  (AccountState.answers (serverEvents events)).length

def commandsOf (events : List (ControlEvent threads)) : List CString :=
  events.filterMap fun
    | .accept command => some command
    | _ => none

def repliesOf (events : List (ControlEvent threads)) : List (CString × ServerReply) :=
  events.filterMap fun
    | .reply command reply => some (command, reply)
    | _ => none

variable (events more : List (ControlEvent threads))

@[simp]
theorem serverEvents_append :
    serverEvents (events ++ more) = serverEvents events ++ serverEvents more :=
  List.filterMap_append

@[simp]
theorem countedFiles_append :
    countedFiles (events ++ more) = countedFiles events ++ countedFiles more :=
  List.filterMap_append

@[simp]
theorem servedPages_append :
    servedPages (events ++ more) = servedPages events + servedPages more :=
  List.countP_append

@[simp]
theorem sentPages_append :
    sentPages (events ++ more) = sentPages events + sentPages more := by
  simp [sentPages]

@[simp]
theorem commandsOf_append :
    commandsOf (events ++ more) = commandsOf events ++ commandsOf more :=
  List.filterMap_append

@[simp]
theorem repliesOf_append :
    repliesOf (events ++ more) = repliesOf events ++ repliesOf more :=
  List.filterMap_append

end History

section Server

variable {state after : AccountState threads} {event : AccountEvent threads}

/-- What entering a file into the statistics does. -/
theorem count_eq {thread : Fin threads} {file : List Char}
    (stepTo : AccountState.Step state (.other (.count thread file)) after) :
    ∃ newsock, state.server.consumer thread = .counting newsock file ∧
      after = ⟨{ state.server.setConsumer thread (.counted newsock) with
        socketQueue := state.server.socketQueue.serve.bytes file.length }, state.msg⟩ := by
  cases stepTo with
  | other stepTo _ =>
      cases stepTo with
      | @count _ newsock _ point => exact ⟨newsock, point, rfl⟩

theorem counters_serves (stepTo : AccountState.Step state event after)
    (notCount : ∀ thread file, event ≠ .other (.count thread file)) :
    AccountState.counters after.server.socketQueue =
      AccountState.counters state.server.socketQueue := by
  cases stepTo with
  | read | answer => rfl
  | other stepTo _ =>
      exact AccountState.counters_step stepTo fun thread file same =>
        notCount thread file (congrArg AccountEvent.other same)

/-- A page that is not entered is owed before its answer as after it. -/
theorem owed_serves (stepTo : AccountState.Step state event after)
    (notCount : ∀ thread file, event ≠ .other (.count thread file)) :
    AccountState.owed (fun _ => 1) after + (AccountState.answers [event]).length =
      AccountState.owed (fun _ => 1) state := by
  cases stepTo with
  | read file point => exact (Int.add_zero _).trans (AccountState.owed_read file point)
  | answer point => exact AccountState.owed_answer point
  | other stepTo quiet =>
      exact (Int.add_zero _).trans (AccountState.owed_quiet stepTo quiet fun thread file same =>
        notCount thread file (congrArg AccountEvent.other same))

/-- A thread that is about to enter a file stays there until it does. -/
theorem counting_serves {thread : Fin threads} {newsock : Cell} {file : List Char}
    (point : state.server.consumer thread = .counting newsock file)
    (stepTo : AccountState.Step state event after)
    (notCount : ∀ thread file, event ≠ .other (.count thread file)) :
    after.server.consumer thread = .counting newsock file := by
  have elsewhere : ∀ {moved : Fin threads} {target : ConsumerPoint},
      (∀ newsock file, state.server.consumer moved ≠ .counting newsock file) →
      Function.update state.server.consumer moved target thread = .counting newsock file := by
    intro moved target notCounting
    have different : thread ≠ moved := by
      rintro rfl
      exact notCounting newsock file point
    rw [Function.update_of_ne different, point]
  cases stepTo with
  | read _ here | answer here => exact elsewhere (by simp [here])
  | other stepTo _ =>
      cases stepTo with
      | accept | lockProducer | waitNonfull | wakeProducer | leaveFullTest | push
      | unlockProducer => exact point
      | signalNonempty _ signal =>
          rcases signal.point_eq thread with same | ⟨sleeping, _⟩
          · exact same.trans point
          · rw [point] at sleeping
            cases sleeping
      | count => exact absurd rfl (notCount _ _)
      | lockConsumer here | waitNonempty here | wakeConsumer here | leaveEmptyTest here
      | pop here | unlockConsumer here | signalNonfull here | refuse here
      | lockStatistics _ here | unlockStatistics here | answer here =>
          exact elsewhere (by simp [here])

/-- No more pages are owed than there are threads, and a thread that is about to enter
a file owes none. -/
theorem owed_le (state : AccountState threads) {halfway : Bool}
    (counting : halfway = true →
      ∃ thread newsock file, state.server.consumer thread = .counting newsock file) :
    AccountState.owed (fun _ => 1) state + (if halfway then 1 else 0) ≤ threads := by
  have each : ∀ thread, AccountState.owedBy (fun _ => 1) state thread ≤ 1 := by
    intro thread
    rw [AccountState.owedBy]
    split <;> simp
  have all : ∑ _thread : Fin threads, (1 : Int) = threads := by simp
  cases halfway with
  | false =>
      have bound := Finset.sum_le_sum fun thread (_ : thread ∈ Finset.univ) => each thread
      rw [all] at bound
      simpa [AccountState.owed] using bound
  | true =>
      obtain ⟨thread, newsock, file, point⟩ := counting rfl
      have none : AccountState.owedBy (fun _ => 1) state thread = 0 := by
        simp [AccountState.owedBy, point, ConsumerPoint.owesAnswer]
      have member := Finset.mem_univ thread
      have others := Finset.sum_le_sum fun other (_ : other ∈ Finset.univ.erase thread) =>
        each other
      have rest := Finset.add_sum_erase Finset.univ
        (AccountState.owedBy (fun _ => 1) state) member
      have ones := Finset.add_sum_erase Finset.univ (fun _ : Fin threads => (1 : Int)) member
      rw [all] at ones
      rw [AccountState.owed, if_pos rfl]
      omega

end Server

/-- The counters in the shared memory against the history. -/
structure Counted (events : List (ControlEvent threads)) (state : ControlState threads) :
    Prop where
  pages : state.account.server.socketQueue.getPages = toInt (countedFiles events).length
  bytes : state.account.server.socketQueue.getBytes =
    toInt ((countedFiles events).map List.length).sum
  served : servedPages events =
    (countedFiles events).length + if state.halfway then 1 else 0
  owed : ((countedFiles events).length : Int) =
    sentPages events + AccountState.owed (fun _ => 1) state.account
  counting : state.halfway = true → ∃ thread newsock file,
    state.account.server.consumer thread = .counting newsock file

section Counters

variable {state after : ControlState threads} {event : ControlEvent threads}
variable {events : List (ControlEvent threads)}

theorem Counted.pagesServed (counted : Counted events state) :
    state.pagesServed = toInt (servedPages events) := by
  rw [ControlState.pagesServed, counted.served]
  cases state.halfway with
  | false => exact counted.pages
  | true =>
      rw [if_pos rfl, if_pos rfl]
      change toInt (state.account.server.socketQueue.getPages + 1) = _
      rw [counted.pages, toInt_toInt_add, Nat.cast_add, Nat.cast_one]

/-- Whatever leaves the history of the serving process and its state as they are. -/
theorem Counted.same (counted : Counted events state) (account : after.account = state.account)
    (halfway : after.halfway = state.halfway)
    (noFiles : countedFiles [event] = []) (noPage : servedPages [event] = 0)
    (nothing : serverEvents [event] = []) : Counted (events ++ [event]) after := by
  have files : countedFiles (events ++ [event]) = countedFiles events := by
    rw [countedFiles_append, noFiles, List.append_nil]
  have served : servedPages (events ++ [event]) = servedPages events := by
    rw [servedPages_append, noPage, Nat.add_zero]
  have sent : sentPages (events ++ [event]) = sentPages events := by
    rw [sentPages_append, sentPages, sentPages, nothing]
    rfl
  refine ⟨?_, ?_, ?_, ?_, ?_⟩
  · rw [files, account]
    exact counted.pages
  · rw [files, account]
    exact counted.bytes
  · rw [files, served, halfway]
    exact counted.served
  · rw [files, sent, account]
    exact counted.owed
  · rw [halfway, account]
    exact counted.counting

theorem Counted.serves {accountEvent : AccountEvent threads} {account : AccountState threads}
    (counted : Counted events state)
    (stepTo : AccountState.Step state.account accountEvent account)
    (notCount : ∀ thread file, accountEvent ≠ .other (.count thread file)) :
    Counted (events ++ [.server accountEvent]) { state with account := account } := by
  have files : countedFiles (events ++ [.server accountEvent]) = countedFiles events := by
    rw [countedFiles_append]
    cases accountEvent with
    | answer => exact List.append_nil _
    | other event =>
        cases event with
        | count thread file => exact absurd rfl (notCount thread file)
        | accept | pop | internal => exact List.append_nil _
  have sent : sentPages (events ++ [.server accountEvent]) =
      sentPages events + (AccountState.answers [accountEvent]).length := sentPages_append _ _
  have same := counters_serves stepTo notCount
  rw [AccountState.counters, AccountState.counters, Prod.mk.injEq] at same
  refine ⟨?_, ?_, ?_, ?_, ?_⟩
  · rw [files]
    exact same.1.trans counted.pages
  · rw [files]
    exact same.2.trans counted.bytes
  · rw [files, servedPages_append]
    exact counted.served
  · have owed := owed_serves stepTo notCount
    have before := counted.owed
    rw [files, sent, Nat.cast_add]
    dsimp only
    omega
  · intro halfway
    obtain ⟨thread, newsock, file, point⟩ := counted.counting halfway
    exact ⟨thread, newsock, file, counting_serves point stepTo notCount⟩

theorem Counted.servePage {thread : Fin threads} {newsock : Cell} {file : List Char}
    (counted : Counted events state)
    (point : state.account.server.consumer thread = .counting newsock file)
    (start : state.halfway = false) :
    Counted (events ++ [.servePage]) { state with halfway := true } := by
  have files : countedFiles (events ++ [.servePage]) = countedFiles events := by
    rw [countedFiles_append]
    exact List.append_nil _
  have served := counted.served
  rw [start] at served
  refine ⟨?_, ?_, ?_, ?_, fun _ => ⟨thread, newsock, file, point⟩⟩
  · rw [files]
    exact counted.pages
  · rw [files]
    exact counted.bytes
  · rw [files, servedPages_append, served]
    rfl
  · rw [files, sentPages_append]
    exact counted.owed

theorem Counted.returnBytes {thread : Fin threads} {file : List Char}
    {account : AccountState threads} (counted : Counted events state)
    (halfway : state.halfway = true)
    (stepTo : AccountState.Step state.account (.other (.count thread file)) account) :
    Counted (events ++ [.server (.other (.count thread file))])
      { state with account := account, halfway := false } := by
  obtain ⟨newsock, point, rfl⟩ := count_eq stepTo
  have files : countedFiles (events ++ [.server (.other (.count thread file))]) =
      countedFiles events ++ [file] := countedFiles_append events _
  have size : ((countedFiles events ++ [file]).map List.length).sum =
      ((countedFiles events).map List.length).sum + file.length := by simp
  have served := counted.served
  rw [halfway, if_pos rfl] at served
  refine ⟨?_, ?_, ?_, ?_, by simp⟩
  · rw [files, List.length_append, List.length_singleton]
    change toInt (state.account.server.socketQueue.getPages + 1) = _
    rw [counted.pages, toInt_toInt_add, Nat.cast_add, Nat.cast_one]
  · rw [files, size]
    change toInt (state.account.server.socketQueue.getBytes + toInt file.length) = _
    rw [counted.bytes, toInt_toInt_add, Int.add_comm, toInt_toInt_add, Int.add_comm,
      Nat.cast_add]
  · rw [files, servedPages_append, served, List.length_append]
    rfl
  · have owed : AccountState.owed (fun _ => 1)
        ⟨{ state.account.server.setConsumer thread (.counted newsock) with
          socketQueue := state.account.server.socketQueue.serve.bytes file.length },
          state.account.msg⟩ = AccountState.owed (fun _ => 1) state.account + 1 :=
      AccountState.owed_count point
    have sent : sentPages (events ++ [.server (.other (.count thread file))]) =
        sentPages events := sentPages_append _ _
    have before := counted.owed
    rw [files, sent, owed, List.length_append, List.length_singleton, Nat.cast_add,
      Nat.cast_one]
    omega

theorem Counted.step (counted : Counted events state) (stepTo : Step state event after) :
    Counted (events ++ [event]) after := by
  cases stepTo with
  | serves _ stepTo notCount => exact counted.serves stepTo notCount
  | servePage _ point start => exact counted.servePage point start
  | returnBytes _ halfway stepTo => exact counted.returnBytes halfway stepTo
  | accept | readPages | readBytes | print | reply | terminate =>
      exact counted.same rfl rfl rfl rfl rfl

theorem counted_of_run (run : Run threads events state) : Counted events state := by
  apply run.history_invariant Counted
  · have zero : toInt 0 = 0 := toInt_of_range (Int.le_refl 0) (by decide)
    have nothing : AccountState.owed (fun _ => 1) (AccountState.initial threads) = 0 :=
      AccountState.Idle.owed (fun _ => rfl) _
    refine ⟨zero.symm, zero.symm, rfl, ?_, fun halfway => by cases halfway⟩
    change (0 : Int) = 0 + AccountState.owed (fun _ => 1) (AccountState.initial threads)
    rw [nothing]
    rfl
  · exact fun _ _ _ _ counted stepTo => counted.step stepTo

end Counters

end ControlState

/-- Where the control process stands with a reply to STATS. -/
def ControlPoint.poll : ControlPoint → PollPoint
  | .reading _ pages bytes => .reading pages bytes
  | .replying _ (.stats _ pages bytes) => .replying pages bytes
  | _ => .idle

theorem ControlPoint.poll_serve {command : CString} {pages bytes : Int} :
    PollStep pages bytes .idle none (ControlPoint.serve command).poll := by
  rw [ControlPoint.serve]
  cases serverCommand command with
  | stats => exact .start
  | shutdown | invalid => exact .stay

namespace ControlState

variable {threads : Nat}

/-- The numbers in the replies to STATS. -/
def statsOf (events : List (ControlEvent threads)) : List (Int × Int) :=
  (repliesOf events).filterMap fun
    | (_, .stats _ pages bytes) => some (pages, bytes)
    | _ => none

def fileSizes (events : List (ControlEvent threads)) : List Int :=
  (countedFiles events).map fun file => (file.length : Int)

/-- How a number of pages and the size of a number of files are printed. -/
def shown (events : List (ControlEvent threads)) (reading : Nat × Nat) : Int × Int :=
  (toInt reading.1,
    toInt (((countedFiles events).take reading.2).map List.length).sum)

section Polling

variable {state after : ControlState threads} {event : ControlEvent threads}
variable {events more : List (ControlEvent threads)}

theorem statsOf_append : statsOf (events ++ more) = statsOf events ++ statsOf more := by
  rw [statsOf, repliesOf_append, List.filterMap_append]
  rfl

theorem fileSizes_append : fileSizes (events ++ more) = fileSizes events ++ fileSizes more := by
  rw [fileSizes, countedFiles_append, List.map_append]
  rfl

theorem sum_sizes (files : List (List Char)) :
    (files.map fun file => (file.length : Int)).sum = (files.map List.length).sum := by
  rw [Nat.cast_list_sum, List.map_map]
  rfl

theorem printedCounters_fileSizes (events : List (ControlEvent threads)) :
    printedCounters (fileSizes events) = shown events := by
  funext reading
  rw [printedCounters, sizeOfFirst, fileSizes, ← List.map_take, sum_sizes, shown]

/-- The control process polls the counters, whatever the serving process does. -/
theorem poll_step (counted : Counted events state) (stepTo : Step state event after) :
    ∃ reply, statsOf [event] = reply.toList ∧
      PollStep (toInt (servedPages events)) (toInt (fileSizes events).sum) state.main.poll
        reply after.main.poll := by
  have served := counted.pagesServed
  have returned : state.bytesReturned = toInt (fileSizes events).sum :=
    counted.bytes.trans (congrArg toInt (sum_sizes _).symm)
  cases stepTo with
  | serves | servePage | returnBytes => exact ⟨none, rfl, .stay⟩
  | accept here =>
      rw [here]
      exact ⟨none, rfl, ControlPoint.poll_serve⟩
  | readPages here =>
      rw [here, served]
      exact ⟨none, rfl, .readPages⟩
  | readBytes here =>
      rw [here, returned]
      exact ⟨none, rfl, .readBytes⟩
  | print _ here =>
      rw [here]
      exact ⟨none, rfl, .print⟩
  | @reply command reply here =>
      rw [here]
      cases reply with
      | stats _ pages bytes => exact ⟨some (pages, bytes), rfl, .reply⟩
      | shutdown | invalid => exact ⟨none, rfl, .stay⟩
  | terminate here =>
      rw [here]
      exact ⟨none, rfl, .stay⟩

/-- The control process is a poller. -/
theorem polled (threads : Nat) :
    Polled (@Step threads) (initial threads) servedPages fileSizes statsOf
      fun state => state.main.poll where
  served_append := servedPages_append
  sizes_append _ _ := fileSizes_append
  shown_append _ _ := statsOf_append
  start := rfl
  polls run stepTo := poll_step (counted_of_run run) stepTo

end Polling

section Layers

variable {state : ControlState threads} {events : List (ControlEvent threads)}

/-- What the serving process does under the control process is a run of its own. -/
theorem account_of_run (run : Run threads events state) :
    AccountState.Run threads (serverEvents events) state.account := by
  refine run.simulates ControlState.account _ fun _ _ _ _ _ stepTo => ?_
  cases stepTo with
  | serves _ stepTo _ | returnBytes _ _ stepTo => exact stepTo
  | servePage | accept | readPages | readBytes | print | reply | terminate => rfl

/-- Every run of the serving process goes on under a control process at `accept`. -/
theorem run_of_account {serverEvents' : List (AccountEvent threads)}
    {account : AccountState threads} (run : AccountState.Run threads serverEvents' account) :
    ∃ events, serverEvents events = serverEvents' ∧
      Run threads events ⟨account, false, .accepting⟩ := by
  induction run with
  | start => exact ⟨[], rfl, .start⟩
  | @next _ before event after _ stepTo ih =>
      obtain ⟨events, same, run⟩ := ih
      by_cases counts : ∃ thread file, event = .other (.count thread file)
      · obtain ⟨thread, file, rfl⟩ := counts
        obtain ⟨newsock, point, _⟩ := count_eq stepTo
        have served := run.next (.servePage (by simp) point rfl)
        refine ⟨_, ?_, served.next (.returnBytes (by simp) rfl stepTo)⟩
        rw [serverEvents_append, serverEvents_append, same, List.append_assoc]
        rfl
      · simp only [not_exists] at counts
        refine ⟨_, ?_, run.next (.serves (by simp) stepTo counts)⟩
        rw [serverEvents_append, same]
        rfl

end Layers

end ControlState

/-- The command that is not yet replied to. -/
def ControlPoint.pending : ControlPoint → List CString
  | .reading command .. | .replying command _ => [command]
  | .accepting | .leaving | .waiting => []

/-- The reply is the one to the command. -/
def ServerReply.Answers (reply : ServerReply) (command : CString) : Prop :=
  reply.command = serverCommand command

/-- What is prepared is a reply to the command. -/
def ControlPoint.Fitting : ControlPoint → Prop
  | .reading command .. => serverCommand command = .stats
  | .replying command reply => reply.Answers command
  | .accepting | .leaving | .waiting => True

theorem ControlPoint.pending_serve (command : CString) :
    (ControlPoint.serve command).pending = [command] := by
  rw [ControlPoint.serve]
  cases serverCommand command <;> rfl

theorem ControlPoint.fitting_serve (command : CString) : (ControlPoint.serve command).Fitting := by
  rw [ControlPoint.serve]
  cases found : serverCommand command with
  | stats => exact found
  | shutdown | invalid => exact found.symm

namespace ControlState

variable {threads : Nat}

section Replies

variable {state after : ControlState threads} {event : ControlEvent threads}
variable {events before during : List (ControlEvent threads)} {command replied : CString}
variable {elapsed : Nat} {pages bytes : Int}

theorem fitting_step (fitting : state.main.Fitting) (stepTo : Step state event after) :
    after.main.Fitting := by
  cases stepTo with
  | serves | servePage | returnBytes => exact fitting
  | accept => exact ControlPoint.fitting_serve _
  | readPages here | readBytes here =>
      rw [here] at fitting
      exact fitting
  | print elapsed here =>
      rw [here] at fitting
      exact fitting.symm
  | reply here =>
      dsimp only
      split <;> trivial
  | terminate => trivial

theorem fitting_of_run (run : Run threads events state) : state.main.Fitting :=
  run.invariant (fun reached => reached.main.Fitting) trivial
    fun _ _ _ fitting stepTo => fitting_step fitting stepTo

theorem pending_step (stepTo : Step state event after) :
    state.main.pending ++ commandsOf [event] =
      (repliesOf [event]).map Prod.fst ++ after.main.pending := by
  cases stepTo with
  | serves | servePage | returnBytes => exact List.append_nil _
  | accept here =>
      rw [here]
      exact (ControlPoint.pending_serve _).symm
  | readPages here | readBytes here | print _ here | terminate here =>
      rw [here]
      rfl
  | reply here =>
      rw [here]
      dsimp only
      split <;> rfl

/-- Each command is replied to before the next one is accepted. -/
theorem pending_of_run (run : LabelledRun.Run Step state events after) :
    state.main.pending ++ commandsOf events =
      (repliesOf events).map Prod.fst ++ after.main.pending :=
  @LabelledRun.Run.pending _ _ _ _ _ commandsOf (fun events => (repliesOf events).map Prod.fst)
    (fun reached => reached.main.pending) commandsOf_append
    (fun events more => by rw [repliesOf_append, List.map_append])
    (fun _ _ _ => pending_step) _ _ run

theorem commandsOf_nil (noAccept : ∀ other, .accept other ∉ events) :
    commandsOf events = [] := by
  rw [commandsOf, List.filterMap_eq_nil_iff]
  rintro event member
  cases event with
  | accept other => exact absurd member (noAccept other)
  | server | servePage | reply | terminate | internal => rfl

/-- What is entered and what is sent differ by what the threads have in hand. -/
theorem Counted.bounds (counted : Counted events state) :
    sentPages events ≤ (countedFiles events).length ∧
      (countedFiles events).length ≤ servedPages events ∧
      servedPages events ≤ sentPages events + threads := by
  have owed := counted.owed
  have served := counted.served
  have atMost := owed_le state.account counted.counting
  have nonneg : 0 ≤ AccountState.owed (fun _ => 1) state.account := by
    apply Finset.sum_nonneg
    intro thread _
    rw [AccountState.owedBy]
    split <;> simp
  cases halfway : state.halfway with
  | false =>
      rw [halfway, if_neg Bool.false_ne_true] at served atMost
      omega
  | true =>
      rw [halfway, if_pos rfl] at served atMost
      omega

/-- A STATS command misses no page whose answer was sent before the command, and counts no
more pages than were sent before its reply and one for each thread.  The bytes are the sizes
of the files that were entered first, just as many or a few more or less. -/
theorem stats_between
    (run : Run threads
      (before ++ .accept command :: during ++ [.reply replied (.stats elapsed pages bytes)]) after)
    (noAccept : ∀ other, .accept other ∉ during) :
    replied = command ∧ serverCommand command = .stats ∧
      ∃ served returned : Nat,
        pages = toInt served ∧
        bytes = toInt (((countedFiles (before ++ during)).take returned).map List.length).sum ∧
        sentPages before ≤ served ∧ sentPages before ≤ returned ∧
        served ≤ sentPages (before ++ during) + threads ∧
        returned ≤ (countedFiles (before ++ during)).length ∧
        (countedFiles (before ++ during)).length ≤ sentPages (before ++ during) + threads := by
  obtain ⟨last, run, replies⟩ := run.last
  rw [List.append_cons] at run
  obtain ⟨middle, accepted, behind⟩ := run.split
  obtain ⟨first, earlier, accepts⟩ := accepted.last
  have sameFiles : countedFiles (before ++ [.accept command] ++ during) =
      countedFiles (before ++ during) := by
    simp only [countedFiles_append]
    exact congrArg (· ++ _) (List.append_nil _)
  have sameSent : sentPages (before ++ [.accept command] ++ during) =
      sentPages (before ++ during) := by
    simp only [sentPages_append]
    exact congrArg (· + _) (Nat.add_zero _)
  have late := (counted_of_run (accepted.append behind)).bounds
  have early := (counted_of_run earlier).bounds
  have answered := fitting_of_run (accepted.append behind)
  have pending := pending_of_run behind
  rw [sameFiles, sameSent] at late
  cases accepts with
  | accept here oneLine =>
      cases replies with
      | reply replying =>
          rw [commandsOf_nil noAccept, ControlPoint.pending_serve, replying] at pending
          rw [replying] at answered
          obtain rfl : replied = command := by
            have last := congrArg List.getLast? pending
            simpa [ControlPoint.pending] using last.symm
          have isStats : serverCommand replied = .stats := answered.symm
          have unread : (ControlPoint.serve replied).poll = .reading none none := by
            rw [ControlPoint.serve, isStats]
            rfl
          obtain ⟨served, returned, values, above, below⟩ := (polled threads).shown_between
            accepted unread behind (congrArg ControlPoint.poll replying)
          rw [printedCounters_fileSizes, shown, sameFiles, Prod.mk.injEq] at values
          rw [Prod.mk_le_mk, servedPages_append, fileSizes_append, List.length_append,
            fileSizes, List.length_map] at above
          rw [Prod.mk_le_mk, fileSizes, List.length_map, sameFiles] at below
          exact ⟨rfl, isStats, served, returned, values.1, values.2, by omega, by omega, by omega,
            below.2, by omega⟩

def statsCommand : CString :=
  .ofBlock "STATS".toList

theorem serverCommand_statsCommand : serverCommand statsCommand = .stats := by
  decide

/-- The control process answers a STATS command while nothing else happens. -/
theorem run_stats {account : AccountState threads} (elapsed : Nat)
    (run : Run threads before ⟨account, false, .accepting⟩)
    (fits : Fits (serverStats elapsed account.server.socketQueue.getPages
      account.server.socketQueue.getBytes)) :
    Run threads
      (before ++ .accept statsCommand :: [.internal, .internal, .internal] ++
        [.reply statsCommand (.stats elapsed account.server.socketQueue.getPages
          account.server.socketQueue.getBytes)])
      ⟨account, false, .accepting⟩ := by
  have accepted := run.next (.accept rfl (by decide : OneLine statsCommand.chars))
  rw [ControlPoint.serve, serverCommand_statsCommand] at accepted
  have pagesRead := accepted.next (.readPages rfl)
  have bytesRead := pagesRead.next (.readBytes rfl)
  have printed := bytesRead.next (.print elapsed rfl fits)
  have replied := printed.next (.reply rfl)
  simpa [ControlState.pagesServed, bytesReturned] using replied

end Replies

theorem stats_between_one_page :
    ∃ (before during : List (ControlEvent 2)) (served returned : Nat) (pages bytes : Int),
      sentPages before = 1 ∧ pages = toInt served ∧
      bytes = toInt (((countedFiles (before ++ during)).take returned).map List.length).sum ∧
      1 ≤ served ∧ 1 ≤ returned ∧ served ≤ 3 ∧
      (countedFiles (before ++ during)).length ≤ 3 := by
  obtain ⟨serverEvents', account, run, _, answers, _⟩ :=
    @AccountState.run_page ['x'] _ (fun _ _ _ stepTo _ => stepTo)
  obtain ⟨before, same, run⟩ := run_of_account run
  have sent : sentPages before = 1 := by
    rw [sentPages, same, answers]
    rfl
  have counted := counted_of_run run
  have fits : Fits (serverStats 0 account.server.socketQueue.getPages
      account.server.socketQueue.getBytes) := by
    rw [counted.pages, counted.bytes]
    exact serverStats_fits_early (by decide) _ _
  obtain ⟨_, _, served, returned, pagesEq, bytesEq, above, aboveBytes, below, _, entered⟩ :=
    stats_between (run_stats 0 run fits) (by simp)
  have still : sentPages (before ++ [.internal, .internal, .internal]) = 1 := by
    rw [sentPages_append, sent]
    rfl
  rw [still] at below entered
  rw [sent] at above aboveBytes
  exact ⟨before, _, served, returned, _, _, sent, pagesEq, bytesEq, above, aboveBytes, below,
    entered⟩

end ControlState

/-- The control process has left its loop over the commands. -/
def ControlPoint.stopped : ControlPoint → Bool
  | .leaving | .waiting => true
  | .accepting | .reading .. | .replying .. => false

theorem ControlPoint.stopped_serve (command : CString) :
    (ControlPoint.serve command).stopped = false := by
  rw [ControlPoint.serve]
  cases serverCommand command <;> rfl

namespace ControlState

variable {threads : Nat}

/-- The reply to SHUTDOWN is the last one, and SIGTERM is sent behind it. -/
structure Stops (events : List (ControlEvent threads)) (state : ControlState threads) :
    Prop where
  answers : ∀ pair ∈ repliesOf events, pair.2.Answers pair.1
  going : state.main.stopped = false → ∀ pair ∈ repliesOf events, pair.2 ≠ .shutdown
  stopped : state.main.stopped = true → ∃ pairs command,
    repliesOf events = pairs ++ [(command, .shutdown)] ∧ ∀ pair ∈ pairs, pair.2 ≠ .shutdown
  terminated : .terminate ∈ events → state.main = .waiting

section Commands

variable {state after : ControlState threads} {event : ControlEvent threads}
variable {events : List (ControlEvent threads)}

/-- A step that neither replies nor leaves the loop. -/
theorem Stops.quiet (stops : Stops events state) (noReply : repliesOf [event] = [])
    (noSignal : event ≠ .terminate) (running : state.main ≠ .waiting)
    (same : after.main.stopped = state.main.stopped) : Stops (events ++ [event]) after := by
  have replies : repliesOf (events ++ [event]) = repliesOf events := by
    rw [repliesOf_append, noReply, List.append_nil]
  refine ⟨replies ▸ stops.answers, ?_, ?_, fun signal => ?_⟩
  · rw [replies, same]
    exact stops.going
  · rw [replies, same]
    exact stops.stopped
  · rcases List.mem_append.mp signal with earlier | now
    · exact absurd (stops.terminated earlier) running
    · exact absurd (List.mem_singleton.mp now).symm noSignal

theorem Stops.reply {command : CString} {reply : ServerReply} (stops : Stops events state)
    (fitting : state.main.Fitting) (here : state.main = .replying command reply) :
    Stops (events ++ [.reply command reply])
      { state with main := if reply = .shutdown then .leaving else .accepting } := by
  rw [here] at fitting
  have noShutdown := stops.going (by rw [here]; rfl)
  have replies : repliesOf (events ++ [.reply command reply]) =
      repliesOf events ++ [(command, reply)] := repliesOf_append _ _
  refine ⟨?_, ?_, ?_, fun signal => ?_⟩
  · rw [replies]
    intro pair member
    rcases List.mem_append.mp member with earlier | now
    · exact stops.answers pair earlier
    · rw [List.mem_singleton.mp now]
      exact fitting
  · intro going pair member
    rw [replies] at member
    rcases List.mem_append.mp member with earlier | now
    · exact noShutdown pair earlier
    · rw [List.mem_singleton.mp now]
      rintro rfl
      cases going
  · intro stopped
    have shutdown : reply = .shutdown := by
      by_contra other
      rw [if_neg other] at stopped
      cases stopped
    exact ⟨repliesOf events, command, shutdown ▸ replies, noShutdown⟩
  · rcases List.mem_append.mp signal with earlier | now
    · have waiting := stops.terminated earlier
      rw [here] at waiting
      cases waiting
    · cases List.mem_singleton.mp now

theorem Stops.step (stops : Stops events state) (fitting : state.main.Fitting)
    (stepTo : Step state event after) : Stops (events ++ [event]) after := by
  cases stepTo with
  | serves running | servePage running | returnBytes running =>
      exact stops.quiet rfl (by simp) running rfl
  | accept here =>
      exact stops.quiet rfl (by simp) (by simp [here])
        ((ControlPoint.stopped_serve _).trans (by rw [here]; rfl))
  | readPages here | readBytes here | print _ here =>
      exact stops.quiet rfl (by simp) (by simp [here]) (by rw [here]; rfl)
  | reply here => exact stops.reply fitting here
  | terminate here =>
      have replies : repliesOf (events ++ [.terminate]) = repliesOf events := by
        rw [repliesOf_append]
        exact List.append_nil _
      refine ⟨replies ▸ stops.answers, fun going => (by cases going), fun _ => ?_, fun _ => rfl⟩
      rw [replies]
      exact stops.stopped (by rw [here]; rfl)

theorem stops_of_run (run : Run threads events state) : Stops events state := by
  have both : Stops events state ∧ state.main.Fitting := by
    apply run.history_invariant fun history reached => Stops history reached ∧
      reached.main.Fitting
    · exact ⟨⟨by simp [repliesOf], by simp [repliesOf], fun stopped => (by cases stopped),
        by simp⟩, trivial⟩
    · exact fun _ _ _ _ held stepTo =>
        ⟨held.1.step held.2 stepTo, fitting_step held.2 stepTo⟩
  exact both.1

/-- Readings of counts that are no more than an `int` holds are shown in their order. -/
theorem shown_mono {reading later : Nat × Nat} (ordered : reading ≤ later)
    (pagesFit : later.1 < 2 ^ 31)
    (bytesFit : ((countedFiles events).map List.length).sum < 2 ^ 31) :
    shown events reading ≤ shown events later := by
  have sizes : ∀ {number}, (((countedFiles events).take number).map List.length).sum ≤
      ((countedFiles events).map List.length).sum := fun {number} =>
    ((List.take_sublist number _).map _).sum_le_sum fun _ _ => Nat.zero_le _
  have bytes : (((countedFiles events).take reading.2).map List.length).sum ≤
      (((countedFiles events).take later.2).map List.length).sum :=
    ((List.take_sublist_take_left ordered.2).map _).sum_le_sum fun _ _ => Nat.zero_le _
  have pages := ordered.1
  have first := @sizes reading.2
  have second := @sizes later.2
  constructor
  · simp only [shown]
    rw [toInt_of_range (by omega) (by omega), toInt_of_range (by omega) (by omega)]
    omega
  · simp only [shown]
    rw [toInt_of_range (by omega) (by omega), toInt_of_range (by omega) (by omega)]
    omega

/-- What the control process has read always fits into its buffer in its first ten
thousand seconds. -/
theorem stats_fit (run : Run threads events state) {command : CString} {pages bytes : Int}
    (here : state.main = .reading command (some pages) (some bytes)) {elapsed : Nat}
    (early : elapsed < 10000 * clocksPerSec) : Fits (serverStats elapsed pages bytes) := by
  obtain ⟨pagesInt, bytesInt⟩ :=
    (polled threads).read_ints run (congrArg ControlPoint.poll here)
  rw [← pagesInt, ← bytesInt]
  exact serverStats_fits_early early pages bytes

/-- Each command gets one reply, in the order of the commands and the fitting one; the reply
to SHUTDOWN is the last, and only behind it SIGTERM is sent.  A reply to STATS fits into its
buffer in the first ten thousand seconds.  The counts that are read without the lock never go
back behind those of an earlier reply, nor do the numbers that are shown, as long as an `int`
holds the counts. -/
theorem commands_replied (run : Run threads events state) :
    commandsOf events = (repliesOf events).map Prod.fst ++ state.main.pending ∧
      (∀ pair ∈ repliesOf events, pair.2.Answers pair.1) ∧
      (∀ pair ∈ (repliesOf events).dropLast, pair.2 ≠ .shutdown) ∧
      (.terminate ∈ events → ∃ command,
        (repliesOf events).getLast? = some (command, .shutdown)) ∧
      (∀ command pages bytes, state.main = .reading command (some pages) (some bytes) →
        ∀ elapsed, elapsed < 10000 * clocksPerSec → Fits (serverStats elapsed pages bytes)) ∧
      (∃ readings : List (Nat × Nat), statsOf events = readings.map (shown events) ∧
        readings.Pairwise (· ≤ ·) ∧
        ∀ reading ∈ readings,
          reading ≤ (servedPages events, (countedFiles events).length)) ∧
      (servedPages events < 2 ^ 31 → ((countedFiles events).map List.length).sum < 2 ^ 31 →
        (statsOf events).Pairwise (· ≤ ·)) := by
  have stops := stops_of_run run
  obtain ⟨readings, same, ordered, atMost⟩ := (polled threads).shown_ascends run
  rw [printedCounters_fileSizes] at same
  rw [fileSizes, List.length_map] at atMost
  refine ⟨pending_of_run run, stops.answers, ?_, ?_, fun _ _ _ here _ => stats_fit run here,
    ⟨readings, same, ordered, atMost⟩, fun pagesFit bytesFit => ?_⟩
  · intro pair member
    cases stopped : state.main.stopped with
    | false => exact stops.going stopped pair (List.mem_of_mem_dropLast member)
    | true =>
        obtain ⟨pairs, command, shape, none⟩ := stops.stopped stopped
        rw [shape, List.dropLast_concat] at member
        exact none pair member
  · intro signal
    have waiting := stops.terminated signal
    obtain ⟨pairs, command, shape, _⟩ := stops.stopped (by rw [waiting]; rfl)
    exact ⟨command, by rw [shape, List.getLast?_concat]⟩
  · rw [same, List.pairwise_map]
    exact ordered.imp_of_mem fun _ isLater earlier =>
      shown_mono earlier ((atMost _ isLater).1.trans_lt pagesFit) bytesFit

end Commands

theorem commands_replied_stats :
    ∃ (events : List (ControlEvent 2)) (readings : List (Nat × Nat)),
      (repliesOf events).map Prod.fst = [statsCommand] ∧
      commandsOf events = [statsCommand] ∧
      (∀ pair ∈ repliesOf events, pair.2.Answers pair.1) ∧
      statsOf events = readings.map (shown events) ∧ readings.length = 1 := by
  have zero : toInt 0 = 0 := toInt_of_range (Int.le_refl 0) (by decide)
  have early := @serverStats_fits_early 0 (by decide) 0 0
  rw [zero] at early
  obtain ⟨commands, fitting, _, _, _, ⟨readings, same, _⟩, _⟩ :=
    commands_replied (@run_stats 2 [] (.initial 2) 0 .start early)
  have length := congrArg List.length same
  rw [List.length_map] at length
  exact ⟨_, readings, rfl, commands, fitting, same, length.symm⟩

end ControlState

end WebCrawl
