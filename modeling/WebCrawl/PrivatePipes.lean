import WebCrawl.WorkerMessages
import Mathlib.Logic.Function.Basic

/-!
# Where an answer is read

Each worker reads its commands from one pipe and writes its answers to another.
The bytes in the pipes are tagged with their writers, so that a run shows who
reads an answer.  If no worker reads what another one writes, no answer reaches
another worker.  The pipes of `worker` are numbered in steps of one and those of
`jobExecutor` in steps of two.  A worker that was ended takes no more steps, and its
log is taken to be open.
-/

namespace WebCrawl

inductive Writer where
  | jobExecutor
  | worker (i : Nat)
  deriving DecidableEq

abbrev TaggedBytes := List (Writer × Char)

def tag (writer : Writer) (bytes : List Char) : TaggedBytes :=
  bytes.map fun byte => (writer, byte)

def untag (tagged : TaggedBytes) : List Char :=
  tagged.map Prod.snd

/-- Where a worker stands: in the loop that takes the paths, or in `waitForSignal`. -/
inductive WorkerPoint where
  | paths
  | pausing
  | command
  | keyword
  | answering (answers : List (List Char))
  | undefined
  deriving DecidableEq

/-- The bytes of an `int` that is zero. -/
def zeroInt : List Char :=
  List.replicate 4 '\x00'

/-- No directory is read, so there are no counts to add up and no trie to search. -/
def wcAnswers : List (List Char) :=
  [zeroInt, zeroInt, zeroInt]

def countAnswers : List (List Char) :=
  ["nofile".toList ++ ['\x00'], zeroInt]

def wcCommand : List Char :=
  "wc".toList

def maxCommand : List Char :=
  "max".toList

def minCommand : List Char :=
  "min".toList

/-- The block is compared with each of the three commands. -/
def commandTurn (str : List Char) : WorkerPoint :=
  match blockCommand str with
  | .returns command =>
      if command = wcCommand then .answering wcAnswers
      else if command = maxCommand ∨ command = minCommand then .keyword
      else .pausing
  | _ => .undefined

/-- What a worker does with a block that it read; a keyword is printed. -/
def readTurn : WorkerPoint → List Char → WorkerPoint
  | .paths, str =>
      match workerTurn str with
      | .returns (some _) => .paths
      | .returns none => .pausing
      | _ => .undefined
  | .command, str => commandTurn str
  | .keyword, str =>
      match blockString str with
      | .returns _ => .answering countAnswers
      | _ => .undefined
  | point, _ => point

def WorkerPoint.reads : WorkerPoint → Prop
  | .paths | .command | .keyword => True
  | .pausing | .answering _ | .undefined => False

/-- What `jobExecutor` has still to write, what is in the pipes, and where the workers
are. -/
structure PipesState where
  unsent : List PipeWrite
  contents : CString → TaggedBytes
  point : Nat → WorkerPoint

inductive PipesEvent where
  | send
  | read (i : Nat) (str : TaggedBytes)
  | signal (i : Nat)
  | answer (i : Nat)

namespace PipesState

def initial (writes : List PipeWrite) : PipesState where
  unsent := writes
  contents := fun _ => []
  point := fun _ => .paths

section Steps

variable (numWorkers : Nat) (fdRead fdWrite : Nat → CString)

/-- The steps of `jobExecutor` and of the workers.  A read from an empty pipe fails and
is tried again. -/
inductive Step : PipesState → PipesEvent → PipesState → Prop
  | send {write unsent contents point} :
      Step ⟨write :: unsent, contents, point⟩ .send
        ⟨unsent, Function.update contents write.fifo
          (contents write.fifo ++ tag .jobExecutor write.bytes), point⟩
  | read {i unsent contents point} (worker : i < numWorkers) (here : (point i).reads)
      (ready : contents (fdRead i) ≠ []) :
      Step ⟨unsent, contents, point⟩ (.read i ((contents (fdRead i)).take strSize))
        ⟨unsent, Function.update contents (fdRead i) ((contents (fdRead i)).drop strSize),
          Function.update point i
            (readTurn (point i) (untag ((contents (fdRead i)).take strSize)))⟩
  | signal {i unsent contents point} (worker : i < numWorkers)
      (here : point i = .pausing) :
      Step ⟨unsent, contents, point⟩ (.signal i)
        ⟨unsent, contents, Function.update point i .command⟩
  | answer {i answer answers unsent contents point} (worker : i < numWorkers)
      (here : point i = .answering (answer :: answers)) :
      Step ⟨unsent, contents, point⟩ (.answer i)
        ⟨unsent, Function.update contents (fdWrite i)
          (contents (fdWrite i) ++ tag (.worker i) answer),
          Function.update point i
            (if answers = [] then .pausing else .answering answers)⟩

abbrev Run (writes : List PipeWrite) :=
  LabelledRun.Run (Step numWorkers fdRead fdWrite) (initial writes)

end Steps

/-- No worker has read a byte of an answer of another one. -/
def AnswersPrivate (events : List PipesEvent) : Prop :=
  ∀ i str, .read i str ∈ events → ∀ byte ∈ str, ∀ j, byte.1 = .worker j → j = i

/-- An answer is only in the pipe of the worker that wrote it. -/
def AnswersInPlace (numWorkers : Nat) (fdWrite : Nat → CString) (state : PipesState) : Prop :=
  ∀ fifo, ∀ byte ∈ state.contents fifo, ∀ j, byte.1 = .worker j →
    j < numWorkers ∧ fifo = fdWrite j

section Answers

variable {numWorkers : Nat} {fdRead fdWrite : Nat → CString}
variable {state after : PipesState} {event : PipesEvent} {events : List PipesEvent}
variable {writes : List PipeWrite}

/-- It is enough to look at the bytes that are new in the one pipe that changes. -/
theorem AnswersInPlace.update {unsent unsentAfter : List PipeWrite}
    {contents : CString → TaggedBytes} {point pointAfter : Nat → WorkerPoint}
    (inPlace : AnswersInPlace numWorkers fdWrite ⟨unsent, contents, point⟩)
    {changed : CString} {bytes : TaggedBytes}
    (new : ∀ byte ∈ bytes, byte ∈ contents changed ∨
      ∀ j, byte.1 = .worker j → j < numWorkers ∧ changed = fdWrite j) :
    AnswersInPlace numWorkers fdWrite
      ⟨unsentAfter, Function.update contents changed bytes, pointAfter⟩ := by
  intro fifo byte member j wrote
  dsimp only at member
  by_cases here : fifo = changed
  · subst here
    rw [Function.update_self] at member
    rcases new byte member with before | added
    · exact inPlace _ byte before j wrote
    · exact added j wrote
  · rw [Function.update_of_ne here] at member
    exact inPlace fifo byte member j wrote

theorem AnswersInPlace.step (inPlace : AnswersInPlace numWorkers fdWrite state)
    (stepTo : Step numWorkers fdRead fdWrite state event after) :
    AnswersInPlace numWorkers fdWrite after := by
  cases stepTo with
  | send =>
      apply inPlace.update
      intro byte member
      rw [List.mem_append] at member
      apply member.imp_right
      intro sent j wrote
      obtain ⟨char, _, rfl⟩ := List.mem_map.mp sent
      cases wrote
  | read =>
      apply inPlace.update
      intro byte member
      exact Or.inl (List.mem_of_mem_drop member)
  | signal => exact inPlace
  | answer worker =>
      apply inPlace.update
      intro byte member
      rw [List.mem_append] at member
      apply member.imp_right
      intro sent j wrote
      obtain ⟨char, _, rfl⟩ := List.mem_map.mp sent
      cases wrote
      exact ⟨worker, rfl⟩

/-- Answers stay private when no worker reads the pipe that another one writes. -/
theorem answersPrivate_of_separate
    (separate : ∀ i < numWorkers, ∀ j < numWorkers, i ≠ j → fdRead i ≠ fdWrite j)
    (run : Run numWorkers fdRead fdWrite writes events state) :
    AnswersPrivate events := by
  have both : AnswersInPlace numWorkers fdWrite state ∧ AnswersPrivate events := by
    apply run.history_invariant fun events state =>
      AnswersInPlace numWorkers fdWrite state ∧ AnswersPrivate events
    · constructor
      · intro fifo byte member
        cases member
      · intro i str member
        cases member
    · rintro events state event after ⟨inPlace, answersPrivate⟩ stepTo
      refine ⟨inPlace.step stepTo, ?_⟩
      intro i str member byte byteMem j wrote
      rw [List.mem_append, List.mem_singleton] at member
      rcases member with before | now
      · exact answersPrivate i str before byte byteMem j wrote
      · subst now
        cases stepTo with
        | read worker here ready =>
            obtain ⟨inside, same⟩ := inPlace _ byte (List.mem_of_mem_take byteMem) j wrote
            by_contra other
            exact separate i worker j inside (Ne.symm other) same
  exact both.2

end Answers

end PipesState

/-- Each worker has two pipes of its own, `jobExecutor` has opened the one with its
answers to read them, and no run brings an answer to another worker. -/
structure PipesPrivate (numWorkers : Nat) (fdRead fdWrite : Nat → CString) : Prop where
  disjoint : ∀ i < numWorkers, ∀ j < numWorkers, i ≠ j →
    [fdRead i, fdWrite i].Disjoint [fdRead j, fdWrite j]
  readSide : ∃ fifos, Outcome.Settles (fun fuel => preparePipes fuel numWorkers)
      (.returns fifos) ∧
    ∀ i < numWorkers, fifos[2 * i]? = some (some (fdWrite i))
  answers : ∀ paths writes,
    Outcome.Settles (fun fuel => jobExecutor fuel numWorkers paths) (.returns writes) →
    ∀ events state, PipesState.Run numWorkers fdRead fdWrite writes events state →
      PipesState.AnswersPrivate events

/-- The pipes that the workers open are private ones. -/
def WorkersSeparated (numWorkers : Nat) : Prop :=
  ∃ fdRead fdWrite : Nat → CString,
    (∀ i < numWorkers, workerPipes i = .returns (fdRead i, fdWrite i)) ∧
    PipesPrivate numWorkers fdRead fdWrite

theorem PipesPrivate.separate {numWorkers : Nat} {fdRead fdWrite : Nat → CString}
    (disjoint : ∀ i < numWorkers, ∀ j < numWorkers, i ≠ j →
      [fdRead i, fdWrite i].Disjoint [fdRead j, fdWrite j]) :
    ∀ i < numWorkers, ∀ j < numWorkers, i ≠ j → fdRead i ≠ fdWrite j := by
  intro i first j second different same
  have apart := disjoint i first j second different
  exact apart List.mem_cons_self (by simp [same])

/-- The first worker reads the pipe that the second one writes. -/
theorem first_reads_second {numWorkers : Nat} {fdRead fdWrite : Nat → CString}
    (two : 1 < numWorkers)
    (opened : ∀ i < numWorkers, workerPipes i = .returns (fdRead i, fdWrite i)) :
    fdRead 0 = fdWrite 1 := by
  have first := opened 0 (by omega)
  have second := opened 1 two
  rw [workerPipes_short (by decide)] at first second
  have read := congrArg Prod.fst (Outcome.returns.inj first)
  have write := congrArg Prod.snd (Outcome.returns.inj second)
  exact read.symm.trans write

theorem pipesPrivate_one : PipesPrivate 1 (fun i => pipe (i + 2)) (fun i => pipe (i + 1)) := by
  have disjoint : ∀ i < 1, ∀ j < 1, i ≠ j →
      [pipe (i + 2), pipe (i + 1)].Disjoint [pipe (j + 2), pipe (j + 1)] := by
    intro i first j second different
    omega
  refine ⟨disjoint, ⟨_, preparePipes_short (by decide), ?_⟩, ?_⟩
  · intro i only
    have zero : i = 0 := by omega
    subst zero
    rfl
  · intro paths writes _ events state run
    exact PipesState.answersPrivate_of_separate (PipesPrivate.separate disjoint) run

/-- The workers are separated when there is only one. -/
theorem workers_separated_iff {numWorkers : Nat} (someWorker : 0 < numWorkers) :
    WorkersSeparated numWorkers ↔ numWorkers = 1 := by
  constructor
  · rintro ⟨fdRead, fdWrite, opened, separated⟩
    by_contra more
    have two : 1 < numWorkers := by omega
    exact PipesPrivate.separate separated.disjoint 0 someWorker 1 two (by decide)
      (first_reads_second two opened)
  · rintro rfl
    refine ⟨fun i => pipe (i + 2), fun i => pipe (i + 1), ?_, pipesPrivate_one⟩
    intro i only
    exact workerPipes_short (by omega)

theorem workers_separated_iff_one : WorkersSeparated 1 :=
  (workers_separated_iff (by decide)).mpr rfl

/-- The second worker is told to stop by a path, and gets a command as another one. -/
def crossingPaths : List CString :=
  [firstPath, stop, secondPath, ⟨wcCommand, by decide⟩]

def crossingWrites : List PipeWrite :=
  [⟨pipe 2, message firstPath⟩, ⟨pipe 3, message stop⟩, ⟨pipe 2, message secondPath⟩,
    ⟨pipe 3, wcCommand ++ ['\x00']⟩, ⟨pipe 2, message stop⟩, ⟨pipe 3, message stop⟩]

theorem jobExecutor_crossingPaths :
    Outcome.Settles (fun fuel => jobExecutor fuel 2 crossingPaths)
      (.returns crossingWrites) := by
  have settles := @jobExecutor_settles 2 crossingPaths (by decide) (by decide) (by decide)
  rw [(roundRobin_eq_returns_iff (by decide)).mpr (by decide), Outcome.returns_bind]
    at settles
  have writes : crossingPaths.mapIdx (fun m path =>
      (⟨pipe (m % 2 + 2), path.chars ++ ['\x00']⟩ : PipeWrite)) ++
        (List.range 2).map (fun i => ⟨pipe (i + 2), stop.chars ++ ['\x00']⟩) =
      crossingWrites := by decide
  rw [writes] at settles
  exact settles

theorem run_crossing : ∃ events state,
    PipesState.Run 2 (fun i => pipe (i + 2)) (fun i => pipe (i + 1)) crossingWrites events
      state ∧
    ¬ PipesState.AnswersPrivate events := by
  have started := @LabelledRun.Run.start _ _
    (PipesState.Step 2 (fun i => pipe (i + 2)) fun i => pipe (i + 1))
    (PipesState.initial crossingWrites)
  have stopped := ((started.next .send).next .send).next
    (@PipesState.Step.read _ _ _ 1 _ _ _ (by decide) trivial (by decide))
  have signalled := ((stopped.next .send).next .send).next
    (@PipesState.Step.signal _ _ _ 1 _ _ _ (by decide) (by decide))
  have commanded := signalled.next
    (@PipesState.Step.read _ _ _ 1 _ _ _ (by decide) trivial (by decide))
  have answered := commanded.next
    (@PipesState.Step.answer _ _ _ 1 zeroInt [zeroInt, zeroInt] _ _ _ (by decide) (by decide))
  have crossed := answered.next
    (@PipesState.Step.read _ _ _ 0 _ _ _ (by decide) trivial (by decide))
  refine ⟨_, _, crossed, fun answersPrivate => ?_⟩
  have own := answersPrivate 0 _ (List.mem_append_right _ (List.mem_singleton_self _))
    (.worker 1, '\x00') (by decide) 1 rfl
  cases own

/-- With two workers, the first one reads an answer of the second one. -/
theorem workers_not_separated :
    ¬ WorkersSeparated 2 ∧
    (∀ i < 2, workerPipes i = .returns (pipe (i + 2), pipe (i + 1))) ∧
    Outcome.Settles (fun fuel => jobExecutor fuel 2 crossingPaths)
      (.returns crossingWrites) ∧
    ∃ events state,
      PipesState.Run 2 (fun i => pipe (i + 2)) (fun i => pipe (i + 1)) crossingWrites events
        state ∧
      ¬ PipesState.AnswersPrivate events := by
  refine ⟨?_, fun i inside => workerPipes_short (by omega), jobExecutor_crossingPaths,
    run_crossing⟩
  rintro ⟨fdRead, fdWrite, opened, separated⟩
  exact PipesPrivate.separate separated.disjoint 0 (by decide) 1 (by decide) (by decide)
    (first_reads_second (by decide) opened)

end WebCrawl
