import WebCrawl.ListedPaths
import WebCrawl.WorkerMessages
import Mathlib.Logic.Function.Basic

/-!
# From the saved sites to the workers

`jobExecutor` hands the paths that `bashls` listed out to the workers, which take them
from their pipes in any order of steps.  Nobody signals a worker before it has left the
loop that takes the paths.
-/

namespace WebCrawl

section Shares

/-- Filtering by one key after the other rearranges a list. -/
theorem flatMap_filter_perm {α : Type*} (key : α → Nat) (values : List α) (count : Nat) :
    ((List.range count).flatMap fun i => values.filter (key · = i)).Perm
      (values.filter (key · < count)) := by
  induction count with
  | zero => simp
  | succ count ih =>
      have below : (values.filter (key · < count + 1)).filter (key · < count) =
          values.filter (key · < count) := by
        rw [List.filter_filter]
        refine List.filter_congr fun value _ => ?_
        simp only [← Bool.decide_and, decide_eq_decide]
        omega
      have last : (values.filter (key · < count + 1)).filter (fun value => !(key value < count)) =
          values.filter (key · = count) := by
        rw [List.filter_filter]
        refine List.filter_congr fun value _ => ?_
        simp only [← decide_not, ← Bool.decide_and, decide_eq_decide]
        omega
      have both := List.filter_append_perm (fun value => decide (key value < count))
        (values.filter (key · < count + 1))
      rw [below, last] at both
      rw [List.range_succ, List.flatMap_append, List.flatMap_singleton]
      exact (ih.append_right _).trans both

/-- The paths of a worker: those whose places leave its number. -/
def share (numWorkers i : Nat) (paths : List CString) : List CString :=
  (paths.zipIdx.filter (·.2 % numWorkers = i)).map Prod.fst

/-- Together the shares are all paths. -/
theorem flatMap_share_perm {numWorkers : Nat} (someWorker : 0 < numWorkers)
    (paths : List CString) :
    ((List.range numWorkers).flatMap fun i => share numWorkers i paths).Perm paths := by
  have all : paths.zipIdx.filter (·.2 % numWorkers < numWorkers) = paths.zipIdx := by
    simp [Nat.mod_lt _ someWorker]
  have parts := (flatMap_filter_perm (fun turn : CString × Nat => turn.2 % numWorkers)
    paths.zipIdx numWorkers).map Prod.fst
  rw [all, List.zipIdx_map_fst, List.map_flatMap] at parts
  exact parts

theorem share_subset (numWorkers i : Nat) (paths : List CString) :
    share numWorkers i paths ⊆ paths := by
  intro path member
  obtain ⟨turn, inShare, rfl⟩ := List.mem_map.mp member
  exact List.fst_mem_of_mem_zipIdx (List.mem_filter.mp inShare).1

def writeTo (i : Nat) (content : CString) : PipeWrite where
  fifo := pipe (i + 2)
  bytes := message content

/-- What `jobExecutor` writes. -/
def sharingWrites (numWorkers : Nat) (paths : List CString) : List PipeWrite :=
  (paths.mapIdx fun m path => writeTo (m % numWorkers) path) ++
    (List.range numWorkers).map fun i => writeTo i stop

/-- A worker is sent its share and then the word that ends its loop. -/
theorem sharingWrites_filter {numWorkers i : Nat} (inside : i < numWorkers)
    (paths : List CString) :
    (sharingWrites numWorkers paths).filter (·.fifo = pipe (i + 2)) =
      (share numWorkers i paths ++ [stop]).map (writeTo i) := by
  have sameWorker : ∀ j, pipe (j + 2) = pipe (i + 2) ↔ j = i := by
    intro j
    rw [pipe_injective.eq_iff]
    omega
  have stops : (List.range numWorkers).filter (fun j => (writeTo j stop).fifo = pipe (i + 2)) =
      [i] := by
    simp only [writeTo, sameWorker]
    rw [List.filter_eq, List.nodup_range.count, if_pos (List.mem_range.mpr inside)]
    rfl
  have turns : paths.zipIdx.filter
      (fun turn => (writeTo (turn.2 % numWorkers) turn.1).fifo = pipe (i + 2)) =
        paths.zipIdx.filter (·.2 % numWorkers = i) := by
    simp only [writeTo, sameWorker]
  rw [sharingWrites, List.filter_append, List.mapIdx_eq_zipIdx_map, List.filter_map,
    List.filter_map, List.map_append, share, List.map_map]
  refine congrArg₂ (· ++ ·) ?_ (congrArg (List.map (writeTo · stop)) stops)
  refine (congrArg (List.map _) turns).trans (List.map_congr_left fun turn member => ?_)
  have isShare : turn.2 % numWorkers = i := by simpa using (List.mem_filter.mp member).2
  change writeTo (turn.2 % numWorkers) turn.1 = writeTo i turn.1
  rw [isShare]

theorem jobExecutor_writes {numWorkers : Nat} {paths : List CString} (someWorker : 0 < numWorkers)
    (few : numWorkers < 5000) (fits : fullRounds numWorkers paths.length < 2 ^ 31)
    (short : ∀ path ∈ paths, path.chars.length < 2 ^ 31 - 1) :
    Outcome.Settles (fun fuel => jobExecutor fuel numWorkers paths)
      (.returns (sharingWrites numWorkers paths)) := by
  have settles := jobExecutor_settles (by omega : numWorkers * 2 < 10000) someWorker fits
  rw [(roundRobin_eq_returns_iff someWorker).mpr short, Outcome.returns_bind] at settles
  exact settles

end Shares

/-- What is to be written, what is in the pipes, where the workers are and what they
took. -/
structure SharingState where
  unsent : List PipeWrite
  contents : CString → List Char
  loop : Nat → WorkerLoop
  processed : Nat → List CString

inductive SharingEvent where
  | write
  | turn (i : Nat) (event : MessageEvent)
  deriving DecidableEq

namespace SharingState

def initial (writes : List PipeWrite) : SharingState where
  unsent := writes
  contents := fun _ => []
  loop := fun _ => .receiving
  processed := fun _ => []

/-- What a worker has to do with: the pipe that it reads, and what is to be written to
it. -/
def view (state : SharingState) (i : Nat) (unsent : List CString) : MessageState where
  unsent := unsent
  contents := state.contents (pipe (i + 2))
  loop := state.loop i
  processed := state.processed i

/-- The steps of `jobExecutor` and of the workers: a turn of a worker is a step in which
nothing is written. -/
inductive Step (numWorkers : Nat) : SharingState → SharingEvent → SharingState → Prop
  | write {write unsent contents loop processed} :
      Step numWorkers ⟨write :: unsent, contents, loop, processed⟩ .write
        ⟨unsent, Function.update contents write.fifo (contents write.fifo ++ write.bytes),
          loop, processed⟩
  | turn {state : SharingState} {i event after} (worker : i < numWorkers)
      (stepTo : MessageState.Step (state.view i []) event after) :
      Step numWorkers state (.turn i event)
        ⟨state.unsent, Function.update state.contents (pipe (i + 2)) after.contents,
          Function.update state.loop i after.loop,
          Function.update state.processed i after.processed⟩

/-- A read of a worker returns one message. -/
def ReadsMessage (state : SharingState) (event : SharingEvent) : Prop :=
  ∀ i, event = .turn i .read →
    ∃ content, (state.contents (pipe (i + 2))).take strSize = message content

abbrev MessageRun (numWorkers : Nat) (writes : List PipeWrite) :=
  LabelledRun.Run
    (fun state event after => ReadsMessage state event ∧ Step numWorkers state event after)
    (initial writes)

section Sharing

variable {numWorkers : Nat} {paths : List CString} {state after : SharingState}
  {event : SharingEvent}

/-- The messages for each worker are in order, whatever the others do. -/
def Shared (numWorkers : Nat) (paths : List CString) (state : SharingState) : Prop :=
  ∀ i < numWorkers, ∃ unsent,
    state.unsent.filter (·.fifo = pipe (i + 2)) = unsent.map (writeTo i) ∧
      MessageState.InOrder (share numWorkers i paths) (state.view i unsent)

theorem shared_initial : Shared numWorkers paths (initial (sharingWrites numWorkers paths)) :=
  fun _ inside => ⟨_, sharingWrites_filter inside paths, MessageState.inOrder_initial⟩

/-- A worker does not notice what is still to be written. -/
theorem step_unsent {before after : MessageState} {event : MessageEvent}
    (stepTo : MessageState.Step before event after) (nothing : before.unsent = [])
    (unsent : List CString) :
    MessageState.Step { before with unsent := unsent } event { after with unsent := unsent } := by
  cases stepTo with
  | write => exact absurd nothing (List.cons_ne_nil _ _)
  | retry => exact .retry
  | path ready turn => exact .path ready turn
  | stop ready turn => exact .stop ready turn
  | fault ready turn => exact .fault ready turn

theorem Shared.step (absent : stop ∉ paths) (shared : Shared numWorkers paths state)
    (reads : ReadsMessage state event) (stepTo : Step numWorkers state event after) :
    Shared numWorkers paths after := by
  have absentShare : ∀ i, stop ∉ share numWorkers i paths := fun i member =>
    absent (share_subset numWorkers i paths member)
  cases stepTo with
  | @write write waiting contents loop processed =>
      intro i inside
      obtain ⟨unsent, filtered, order⟩ := shared i inside
      by_cases toWorker : write.fifo = pipe (i + 2)
      · rw [List.filter_cons_of_pos (by simpa using toWorker)] at filtered
        obtain ⟨content, later, rfl, written, rest⟩ := List.map_eq_cons_iff.mp filtered.symm
        subst written
        refine ⟨later, rest.symm, ?_⟩
        have noRead : ∀ state, MessageState.ReadsMessage state .write := by
          simp [MessageState.ReadsMessage]
        have stepped := order.step (absentShare i) (noRead _) MessageState.Step.write
        simpa [view, writeTo] using stepped
      · rw [List.filter_cons_of_neg (by simpa using toWorker)] at filtered
        refine ⟨unsent, filtered, ?_⟩
        simpa [view, Function.update_of_ne (Ne.symm toWorker)] using order
  | @turn _ j event after worker stepTo =>
      intro i inside
      obtain ⟨unsent, filtered, order⟩ := shared i inside
      refine ⟨unsent, filtered, ?_⟩
      by_cases same : i = j
      · subst same
        have reading : MessageState.ReadsMessage (state.view i unsent) event := by
          rintro rfl
          exact reads i rfl
        have stepped := order.step (absentShare i) reading (step_unsent stepTo rfl unsent)
        simpa [view] using stepped
      · have otherPipe : pipe (i + 2) ≠ pipe (j + 2) := fun equal =>
          same (by simpa using pipe_injective equal)
        simpa [view, Function.update_of_ne otherPipe, Function.update_of_ne same] using order

variable {events : List SharingEvent}

theorem MessageRun.shared (absent : stop ∉ paths)
    (run : MessageRun numWorkers (sharingWrites numWorkers paths) events state) :
    Shared numWorkers paths state :=
  run.invariant (Shared numWorkers paths) shared_initial
    fun _ _ _ held stepTo => held.step absent stepTo.1 stepTo.2

/-- Every worker has left the loop that takes the paths. -/
def AllLeft (numWorkers : Nat) (state : SharingState) : Prop :=
  ∀ i < numWorkers, state.loop i = .left

/-- What the workers took: each a part of its share, in order, and all of it when it has
left the loop; nothing is lost then and nothing was taken twice. -/
structure SharedOut (numWorkers : Nat) (paths : List CString) (state : SharingState) :
    Prop where
  processed : ∀ i < numWorkers, state.processed i <+: share numWorkers i paths
  defined : ∀ i < numWorkers, state.loop i ≠ .undefined
  complete : ∀ i < numWorkers, state.loop i = .left →
    state.processed i = share numWorkers i paths
  once : AllLeft numWorkers state →
    ((List.range numWorkers).flatMap state.processed).Perm paths

theorem Shared.sharedOut (someWorker : 0 < numWorkers)
    (shared : Shared numWorkers paths state) : SharedOut numWorkers paths state := by
  have kept : ∀ i < numWorkers, ∃ unsent,
      MessageState.BoundariesKept (share numWorkers i paths) (state.view i unsent) := by
    intro i inside
    obtain ⟨unsent, _, order⟩ := shared i inside
    exact ⟨unsent, order.boundariesKept⟩
  have complete : ∀ i < numWorkers, state.loop i = .left →
      state.processed i = share numWorkers i paths := by
    intro i inside hasLeft
    obtain ⟨_, boundaries⟩ := kept i inside
    exact boundaries.complete hasLeft
  refine ⟨fun i inside => ?_, fun i inside => ?_, complete, fun allLeft => ?_⟩
  · obtain ⟨_, boundaries⟩ := kept i inside
    exact boundaries.processed
  · obtain ⟨_, boundaries⟩ := kept i inside
    exact boundaries.defined
  · have same : (List.range numWorkers).flatMap state.processed =
        (List.range numWorkers).flatMap fun i => share numWorkers i paths := by
      refine List.flatMap_congr fun i member => ?_
      have inside := List.mem_range.mp member
      exact complete i inside (allLeft i inside)
    rw [same]
    exact flatMap_share_perm someWorker paths

end Sharing

section Schedule

variable {numWorkers : Nat} {paths : List CString} {state : SharingState}
  {events : List SharingEvent}

theorem mem_sharingWrites (someWorker : 0 < numWorkers) {write : PipeWrite}
    (member : write ∈ sharingWrites numWorkers paths) :
    ∃ i < numWorkers, ∃ content ∈ paths ++ [stop], write = writeTo i content := by
  rw [sharingWrites, List.mem_append, List.mapIdx_eq_zipIdx_map, List.mem_map,
    List.mem_map] at member
  rcases member with ⟨turn, inPaths, rfl⟩ | ⟨i, inside, rfl⟩
  · exact ⟨turn.2 % numWorkers, Nat.mod_lt _ someWorker, turn.1,
      List.mem_append_left _ (List.fst_mem_of_mem_zipIdx inPaths), rfl⟩
  · exact ⟨i, List.mem_range.mp inside, stop,
      List.mem_append_right _ (List.mem_singleton_self stop), rfl⟩

/-- Without anything to be read or written, every worker has left its loop. -/
theorem Shared.allLeft (shared : Shared numWorkers paths state) (allSent : state.unsent = [])
    (empty : ∀ i < numWorkers, state.contents (pipe (i + 2)) = []) :
    AllLeft numWorkers state := by
  intro i inside
  obtain ⟨unsent, filtered, order⟩ := shared i inside
  have kept := order.boundariesKept
  rw [allSent, List.filter_nil, eq_comm, List.map_eq_nil_iff] at filtered
  exact kept.left_iff.mpr ⟨filtered, empty i inside⟩

/-- A message that fits the block is read at once. -/
theorem exists_read {content : CString} (fits : (message content).length ≤ strSize)
    (processed : List CString) :
    ∃ after, MessageState.Step ⟨[], message content, .receiving, processed⟩ .read after ∧
      after.contents = [] := by
  have whole : (message content).take strSize = message content := List.take_of_length_le fits
  have rest : (message content).drop strSize = [] := List.drop_of_length_le fits
  have ready : message content ≠ [] := MessageState.message_ne_nil content
  by_cases last : content = stop
  · refine ⟨_, .stop ready ?_, rest⟩
    rw [whole, last, MessageState.workerTurn_stop]
  · refine ⟨_, @MessageState.Step.path [] _ processed content ready ?_, rest⟩
    rw [whole, MessageState.workerTurn_message last]

/-- When all pipes are empty, what is written next can be read next. -/
theorem MessageRun.exchange (absent : stop ∉ paths) {waiting : List PipeWrite} {i : Nat}
    {content : CString}
    (run : MessageRun numWorkers (sharingWrites numWorkers paths) events state)
    (unsent : state.unsent = writeTo i content :: waiting) (inside : i < numWorkers)
    (fits : (message content).length ≤ strSize) (empty : ∀ fifo, state.contents fifo = []) :
    ∃ more after, MessageRun numWorkers (sharingWrites numWorkers paths) more after ∧
      after.unsent = waiting ∧ ∀ fifo, after.contents fifo = [] := by
  obtain ⟨unsentTo, filtered, order⟩ := run.shared absent i inside
  obtain ⟨_, contents, loop, processed⟩ := state
  dsimp only at unsent empty filtered
  subst unsent
  rw [List.filter_cons_of_pos (by simp [writeTo])] at filtered
  obtain ⟨first, later, rfl, _, _⟩ := List.map_eq_cons_iff.mp filtered.symm
  have kept := order.boundariesKept
  have receiving : loop i = .receiving := by
    cases here : loop i with
    | receiving => rfl
    | left => exact absurd (kept.left_iff.mp here).1 (List.cons_ne_nil _ _)
    | undefined => exact absurd here kept.defined
  have noRead : ∀ state, ReadsMessage state .write := by simp [ReadsMessage]
  have written := run.nextBy .write ⟨noRead _, .write⟩
  have inPipe : Function.update contents (pipe (i + 2))
      (contents (pipe (i + 2)) ++ message content) (pipe (i + 2)) = message content := by
    rw [Function.update_self, empty, List.nil_append]
  obtain ⟨after, stepTo, drained⟩ := exists_read fits (processed i)
  have reads : ReadsMessage ⟨waiting, Function.update contents (pipe (i + 2))
      (contents (pipe (i + 2)) ++ message content), loop, processed⟩ (.turn i .read) := by
    rintro j same
    cases same
    refine ⟨content, ?_⟩
    dsimp only
    rw [inPipe, List.take_of_length_le fits]
  have turn := written.nextBy (.turn i .read) ⟨reads, .turn inside (by
    dsimp only [view, writeTo]
    rw [receiving, inPipe]
    exact stepTo)⟩
  refine ⟨_, _, turn, rfl, fun fifo => ?_⟩
  by_cases same : fifo = pipe (i + 2)
  · simp [same, drained]
  · simp [same, writeTo, empty]

/-- When every message is read before the next one is written, all workers get to leave
their loops. -/
theorem exists_allLeft (someWorker : 0 < numWorkers) (absent : stop ∉ paths)
    (fit : ∀ path ∈ paths, path.chars.length < strSize) :
    ∃ events state, MessageRun numWorkers (sharingWrites numWorkers paths) events state ∧
      AllLeft numWorkers state := by
  have onwards : ∀ (waiting : List PipeWrite) (events : List SharingEvent) (state : SharingState),
      MessageRun numWorkers (sharingWrites numWorkers paths) events state →
      state.unsent = waiting → waiting ⊆ sharingWrites numWorkers paths →
      (∀ fifo, state.contents fifo = []) →
      ∃ events state, MessageRun numWorkers (sharingWrites numWorkers paths) events state ∧
        AllLeft numWorkers state := by
    intro waiting
    induction waiting with
    | nil =>
        intro events state run allSent _ empty
        exact ⟨events, state, run, (run.shared absent).allLeft allSent fun _ _ => empty _⟩
    | cons write waiting ih =>
        intro events state run unsent within empty
        rw [List.cons_subset] at within
        obtain ⟨i, inside, content, member, rfl⟩ := mem_sharingWrites someWorker within.1
        have fits : (message content).length ≤ strSize := by
          rw [message, List.length_append, List.length_singleton]
          rcases List.mem_append.mp member with path | last
          · exact fit content path
          · rw [List.mem_singleton.mp last]
            decide
        obtain ⟨more, after, further, rest, drained⟩ :=
          run.exchange absent unsent inside fits empty
        exact ih more after further rest within.2 drained
  exact onwards _ [] _ .start rfl (List.Subset.refl _) fun _ => rfl

end Schedule

/-- The sites that were saved get to the workers, however many entries their directory has,
when the shell takes the names as they are and `ls` can read the directory: the file that
`bashls` writes is read back as the list of their paths, and `jobExecutor` writes them so
that, in any order of steps in which each read returns one message, the workers take each
path once, each worker its share in order; and there is such an order that ends when the
paths fit the block of a worker. -/
theorem saved_sites_shared {shell : Shell} {listing : Listing} (gives : shell.Gives listing)
    {numWorkers : Nat} (someWorker : 0 < numWorkers) (few : numWorkers < 5000)
    (fits : (listing.files.length + numWorkers - 1) / numWorkers * numWorkers < 2 ^ 31)
    (short : ∀ path ∈ listing.paths, path.chars.length < 2 ^ 31 - 1) :
    (∃ found, Outcome.Settles (getFileOfPaths · (bashls shell listing.dir) 16)
        (.returns found) ∧
      HoldsPaths found.nodes found.P (listing.paths.map CString.chars) ∧
      found.N = listing.files.length) ∧
    ∃ writes,
      Outcome.Settles (fun fuel => jobExecutor fuel numWorkers listing.paths) (.returns writes) ∧
      (∀ events state, MessageRun numWorkers writes events state →
        SharedOut numWorkers listing.paths state) ∧
      ((∀ path ∈ listing.paths, path.chars.length < strSize) →
        ∃ events state, MessageRun numWorkers writes events state ∧
          AllLeft numWorkers state) := by
  have number : listing.paths.length = listing.files.length := by
    rw [Listing.paths, List.length_map]
  have isInt : listing.files.length < 2 ^ 31 := by
    refine lt_of_le_of_lt ?_ fits
    have divided := Nat.lt_div_mul_add someWorker (a := listing.files.length + numWorkers - 1)
    omega
  have absent := listing.stop_not_mem
  refine ⟨⟨_, getFileOfPaths_bashls gives, chain_holds [] listing.paths, ?_⟩, _,
    jobExecutor_writes someWorker few ?_ short, fun events state run => ?_, fun fit => ?_⟩
  · dsimp only
    rw [number]
    exact (toInt_eq_iff listing.files.length).mpr isInt
  · unfold fullRounds
    simp only [number, fits]
  · exact (run.shared absent).sharedOut someWorker
  · exact exists_allLeft someWorker absent fit

/-- The two sites of the `pathsfile` that is in the repository. -/
def twoSites : Listing where
  dir := ⟨"save_dir".toList, by decide⟩
  files := [⟨"site0".toList, by decide⟩, ⟨"site1".toList, by decide⟩]
  dirPlain := by decide
  filesPlain := by
    intro file member
    rcases List.mem_pair.mp member with rfl | rfl <;> decide

theorem saved_sites_shared_two_sites :
    (∃ found, Outcome.Settles
        (getFileOfPaths · (bashls (.listing "site0\nsite1\n".toList) twoSites.dir) 16)
        (.returns found) ∧
      HoldsPaths found.nodes found.P (twoSites.paths.map CString.chars) ∧
      found.N = twoSites.files.length) ∧
    ∃ writes,
      Outcome.Settles (fun fuel => jobExecutor fuel 5 twoSites.paths) (.returns writes) ∧
      (∀ events state, MessageRun 5 writes events state →
        SharedOut 5 twoSites.paths state) ∧
      ∃ events state, MessageRun 5 writes events state ∧ AllLeft 5 state := by
  obtain ⟨readBack, writes, settles, shared, onwards⟩ :=
    @saved_sites_shared (.listing "site0\nsite1\n".toList) twoSites rfl 5 (by decide)
      (by decide) (by decide) (by decide)
  exact ⟨readBack, writes, settles, shared, onwards (by decide)⟩

end SharingState

end WebCrawl
