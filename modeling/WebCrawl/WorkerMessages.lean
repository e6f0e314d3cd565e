import WebCrawl.PathDistribution

/-!
# The messages to a worker

`jobExecutor` writes the paths of a worker and then `"stop"` into one pipe, each
with its NUL.  The worker reads what is in the pipe, at most eighty bytes, and
takes the string at the start of the block.  Neither side knows where a message
of the other ends: a read that does not return one message returns a part of
one, or drops those behind the first.
-/

namespace WebCrawl

/-- A string as it is written to a pipe. -/
def message (content : CString) : List Char :=
  content.chars ++ ['\x00']

/-- The size of the blocks that a worker reads into. -/
def strSize : Nat :=
  80

/-- The string at the start of a block that is printed, which must end inside it. -/
def blockString (str : List Char) : Outcome CString :=
  if '\x00' ∈ str then .returns (CString.ofBlock str) else .faults

/-- The string at the start of a block that is only compared with the commands: none of
them has more than three characters, so four decide. -/
def blockCommand (str : List Char) : Outcome (List Char) :=
  if '\x00' ∉ str ∧ str.length < 4 then .faults else .returns (cstr str)

/-- A turn of the loop of `worker`: the string that it takes from the bytes which it
read, or nothing when it leaves the loop. -/
def workerTurn (str : List Char) : Outcome (Option CString) := do
  let path ← blockString str
  if path = stop then return none else return some path

inductive WorkerLoop where
  | receiving
  | left
  | undefined
  deriving DecidableEq

/-- What is to be written, what is in the pipe, and what the worker took so far. -/
@[ext]
structure MessageState where
  unsent : List CString
  contents : List Char
  loop : WorkerLoop
  processed : List CString

inductive MessageEvent where
  | write
  | retry
  | read
  deriving DecidableEq

namespace MessageState

def initial (paths : List CString) : MessageState where
  unsent := paths ++ [stop]
  contents := []
  loop := .receiving
  processed := []

/-- The pipe does not block: without contents, `read` fails and is tried again. -/
inductive Step : MessageState → MessageEvent → MessageState → Prop
  | write {content unsent contents loop processed} :
      Step ⟨content :: unsent, contents, loop, processed⟩ .write
        ⟨unsent, contents ++ message content, loop, processed⟩
  | retry {unsent processed} :
      Step ⟨unsent, [], .receiving, processed⟩ .retry ⟨unsent, [], .receiving, processed⟩
  | path {unsent contents processed str} (ready : contents ≠ [])
      (turn : workerTurn (contents.take strSize) = .returns (some str)) :
      Step ⟨unsent, contents, .receiving, processed⟩ .read
        ⟨unsent, contents.drop strSize, .receiving, processed ++ [str]⟩
  | stop {unsent contents processed} (ready : contents ≠ [])
      (turn : workerTurn (contents.take strSize) = .returns none) :
      Step ⟨unsent, contents, .receiving, processed⟩ .read
        ⟨unsent, contents.drop strSize, .left, processed⟩
  | fault {unsent contents processed} (ready : contents ≠ [])
      (turn : workerTurn (contents.take strSize) = .faults) :
      Step ⟨unsent, contents, .receiving, processed⟩ .read
        ⟨unsent, contents.drop strSize, .undefined, processed⟩

/-- The strings that the worker took are the paths, and it leaves the loop when
nothing is left to be read. -/
structure BoundariesKept (paths : List CString) (state : MessageState) : Prop where
  processed : state.processed <+: paths
  defined : state.loop ≠ .undefined
  left_iff : state.loop = .left ↔ state.unsent = [] ∧ state.contents = []
  complete : state.loop = .left → state.processed = paths

/-- A read returns one message: the first of the pipe is the only one in it, or as
long as the block. -/
def ReadsMessage (state : MessageState) (event : MessageEvent) : Prop :=
  event = .read → ∃ content, state.contents.take strSize = message content

/-- The runs in which every read returns one message. -/
abbrev MessageRun (paths : List CString) :=
  LabelledRun.Run
    (fun state event after => ReadsMessage state event ∧ Step state event after)
    (initial paths)

abbrev Run (paths : List CString) :=
  LabelledRun.Run Step (initial paths)

section Messages

variable {content other : CString} {rest : List Char} {waiting : List CString}

theorem cstr_message_append : cstr (message content ++ rest) = content.chars := by
  rw [message, List.append_assoc, List.singleton_append, cstr_append_nul content.nulFree]

theorem ofBlock_message : CString.ofBlock (message content) = content := by
  ext1
  have whole := @cstr_message_append content []
  rw [List.append_nil] at whole
  exact whole

theorem blockString_message : blockString (message content) = .returns content := by
  have ended : '\x00' ∈ message content := by simp [message]
  rw [blockString, if_pos ended, ofBlock_message]

theorem workerTurn_message (path : content ≠ stop) :
    workerTurn (message content) = .returns (some content) := by
  rw [workerTurn, blockString_message, Outcome.returns_bind, if_neg path]
  rfl

theorem workerTurn_stop : workerTurn (message stop) = .returns none := by
  decide

/-- A block that is one message is the first message of the pipe. -/
theorem take_messages (whole : ((content :: waiting).flatMap message).take strSize =
      message other) :
    other = content ∧
      ((content :: waiting).flatMap message).drop strSize = waiting.flatMap message := by
  have split := List.take_append_drop strSize ((content :: waiting).flatMap message)
  rw [whole, List.flatMap_cons] at split
  have strings := congrArg cstr split
  rw [cstr_message_append, cstr_message_append] at strings
  have same : other = content := CString.ext strings
  refine ⟨same, ?_⟩
  rw [same] at split
  exact List.append_cancel_left split

theorem flatMap_message_eq_nil (empty : waiting.flatMap message = []) : waiting = [] := by
  cases waiting with
  | nil => rfl
  | cons content waiting => simp [message] at empty

theorem append_stop {paths before after : List CString} (absent : stop ∉ paths)
    (same : before ++ stop :: after = paths ++ [stop]) : before = paths ∧ after = [] := by
  induction paths generalizing before with
  | nil =>
      cases before with
      | nil => exact ⟨rfl, (List.cons.inj same).2⟩
      | cons first before => simp at same
  | cons path paths ih =>
      rw [List.mem_cons, not_or] at absent
      cases before with
      | nil => exact absurd (List.cons.inj same).1 absent.1
      | cons first before =>
          obtain ⟨sameFirst, sameRest⟩ := List.cons.inj same
          obtain ⟨sameBefore, none⟩ := ih absent.2 sameRest
          exact ⟨by rw [sameFirst, sameBefore], none⟩

end Messages

/-- The messages in the pipe stand between those taken and those to be written. -/
def InOrder (paths : List CString) (state : MessageState) : Prop :=
  match state.loop with
  | .receiving => stop ∉ state.processed ∧
      ∃ waiting, state.contents = waiting.flatMap message ∧
        state.processed ++ (waiting ++ state.unsent) = paths ++ [stop]
  | .left => state.unsent = [] ∧ state.contents = [] ∧ state.processed = paths
  | .undefined => False

section Order

variable {paths : List CString} {state after : MessageState} {event : MessageEvent}

theorem inOrder_initial : InOrder paths (initial paths) :=
  ⟨List.not_mem_nil, [], rfl, rfl⟩

/-- The pipe is not empty, so the read returns its first message. -/
theorem InOrder.first {unsent processed : List CString} {contents : List Char}
    (order : InOrder paths ⟨unsent, contents, .receiving, processed⟩)
    (ready : contents ≠ [])
    (reads : ReadsMessage ⟨unsent, contents, .receiving, processed⟩ .read) :
    ∃ content waiting, contents.take strSize = message content ∧
      contents.drop strSize = waiting.flatMap message ∧ stop ∉ processed ∧
      processed ++ content :: (waiting ++ unsent) = paths ++ [stop] := by
  obtain ⟨notYet, waiting, rfl, order⟩ := order
  obtain ⟨other, whole⟩ := reads rfl
  cases waiting with
  | nil => exact absurd rfl ready
  | cons content waiting =>
      obtain ⟨rfl, rest⟩ := take_messages whole
      exact ⟨other, waiting, whole, rest, notYet, order⟩

theorem InOrder.step (absent : stop ∉ paths) (order : InOrder paths state)
    (reads : ReadsMessage state event) (stepTo : Step state event after) :
    InOrder paths after := by
  cases stepTo with
  | @write content unsent contents loop processed =>
      cases loop with
      | receiving =>
          obtain ⟨notYet, waiting, pipe, order⟩ := order
          refine ⟨notYet, waiting ++ [content], ?_, ?_⟩
          · change contents = waiting.flatMap message at pipe
            simp [pipe]
          · simpa using order
      | left => exact absurd order.1 (List.cons_ne_nil _ _)
      | undefined => exact order.elim
  | retry => exact order
  | path ready turn =>
      obtain ⟨content, waiting, whole, rest, notYet, ordered⟩ := order.first ready reads
      rw [whole] at turn
      by_cases last : content = stop
      · rw [last, workerTurn_stop] at turn
        cases turn
      · rw [workerTurn_message last] at turn
        cases turn
        refine ⟨?_, waiting, rest, ?_⟩
        · rw [List.mem_append, not_or, List.mem_singleton]
          exact ⟨notYet, Ne.symm last⟩
        · rw [List.append_assoc]
          exact ordered
  | stop ready turn =>
      obtain ⟨content, waiting, whole, rest, notYet, ordered⟩ := order.first ready reads
      rw [whole] at turn
      by_cases last : content = stop
      · rw [last] at ordered
        obtain ⟨all, none⟩ := append_stop absent ordered
        rw [List.append_eq_nil_iff] at none
        rw [none.1] at rest
        exact ⟨none.2, rest, all⟩
      · rw [workerTurn_message last] at turn
        cases turn
  | fault ready turn =>
      obtain ⟨content, waiting, whole, rest, notYet, ordered⟩ := order.first ready reads
      rw [whole, workerTurn, blockString_message, Outcome.returns_bind] at turn
      split at turn <;> cases turn

theorem InOrder.boundariesKept (order : InOrder paths state) :
    BoundariesKept paths state := by
  obtain ⟨unsent, contents, loop, processed⟩ := state
  cases loop with
  | receiving =>
      obtain ⟨notYet, waiting, pipe, order⟩ := order
      dsimp only at notYet pipe order
      have unfinished : ¬ (unsent = [] ∧ contents = []) := by
        rintro ⟨rfl, rfl⟩
        have none := flatMap_message_eq_nil pipe.symm
        rw [none, List.append_nil, List.append_nil] at order
        exact notYet (by simp [order])
      refine ⟨?_, nofun, ?_, nofun⟩
      · have initial : processed <+: paths ++ [stop] := ⟨waiting ++ unsent, order⟩
        rcases List.prefix_concat_iff.mp initial with whole | kept
        · exact absurd (by simp [whole]) notYet
        · exact kept
      · exact ⟨nofun, fun finished => absurd finished unfinished⟩
  | left =>
      obtain ⟨none, empty, all⟩ := order
      refine ⟨?_, nofun, ?_, fun _ => all⟩
      · exact all ▸ List.prefix_refl _
      · exact ⟨fun _ => ⟨none, empty⟩, fun _ => rfl⟩
  | undefined => exact order.elim

/-- When every read returns one message and no path is the word that ends the loop, the
worker takes the paths as they were sent. -/
theorem boundaries_kept (absent : stop ∉ paths) {events : List MessageEvent}
    (run : MessageRun paths events state) : BoundariesKept paths state := by
  have order : InOrder paths state :=
    run.invariant (InOrder paths) inOrder_initial
      fun _ _ _ held stepTo => held.step absent stepTo.1 stepTo.2
  exact order.boundariesKept

end Order

section Turns

variable {paths : List CString}

theorem message_ne_nil (content : CString) : message content ≠ [] := by
  simp [message]

/-- A message that fits the block is written and then read. -/
theorem MessageRun.turn {unsent processed : List CString} {content : CString}
    {events : List MessageEvent} (fits : content.chars.length < strSize)
    (run : MessageRun paths events ⟨content :: unsent, [], .receiving, processed⟩) :
    ∃ more, MessageRun paths more
      (if content = stop then ⟨unsent, [], .left, processed⟩
        else ⟨unsent, [], .receiving, processed ++ [content]⟩) := by
  have length : (message content).length ≤ strSize := by
    rw [message, List.length_append, List.length_singleton]
    exact fits
  have whole : (message content).take strSize = message content :=
    List.take_of_length_le length
  have rest : (message content).drop strSize = [] := List.drop_of_length_le length
  have writes : ReadsMessage ⟨content :: unsent, [], .receiving, processed⟩ .write :=
    nofun
  have written := run.next ⟨writes, .write⟩
  have reads : ReadsMessage ⟨unsent, [] ++ message content, .receiving, processed⟩ .read :=
    fun _ => ⟨content, whole⟩
  have ready : [] ++ message content ≠ [] := message_ne_nil content
  split
  case isTrue last =>
    have taken := written.next ⟨reads, .stop ready (by
      rw [List.nil_append, whole, last, workerTurn_stop])⟩
    rw [List.nil_append, rest] at taken
    exact ⟨_, taken⟩
  case isFalse path =>
    have taken := written.next ⟨reads, .path ready (by
      rw [List.nil_append, whole, workerTurn_message path])⟩
    rw [List.nil_append, rest] at taken
    exact ⟨_, taken⟩

/-- Paths that fit the block arrive when the two sides take turns. -/
theorem exists_messageRun (absent : stop ∉ paths)
    (fit : ∀ path ∈ paths, path.chars.length < strSize) :
    ∃ events, MessageRun paths events ⟨[], [], .left, paths⟩ := by
  have turns : ∀ (rest before : List CString), before ++ rest = paths →
      ∀ events, MessageRun paths events ⟨rest ++ [stop], [], .receiving, before⟩ →
      ∃ events, MessageRun paths events ⟨[], [], .left, paths⟩ := by
    intro rest
    induction rest with
    | nil =>
        intro before split events run
        rw [List.append_nil] at split
        obtain ⟨more, finished⟩ := MessageRun.turn (by decide) run
        rw [if_pos rfl, split] at finished
        exact ⟨more, finished⟩
    | cons path rest ih =>
        intro before split events run
        have member : path ∈ paths := by simp [← split]
        obtain ⟨more, taken⟩ := MessageRun.turn (fit path member) run
        have other : path ≠ stop := fun same => absent (same ▸ member)
        rw [if_neg other] at taken
        exact ih (before ++ [path]) (by simpa using split) more taken
  exact turns paths [] rfl [] LabelledRun.Run.start

end Turns

def samplePaths : List CString :=
  [firstPath, secondPath]

theorem boundaries_kept_two_paths :
    ∃ events, MessageRun samplePaths events ⟨[], [], .left, samplePaths⟩ ∧
      BoundariesKept samplePaths ⟨[], [], .left, samplePaths⟩ := by
  obtain ⟨events, run⟩ := @exists_messageRun samplePaths (by decide) (by decide)
  exact ⟨events, run, boundaries_kept (by decide) run⟩

/-- Two paths that are written before the worker reads arrive as one. -/
theorem boundaries_lost :
    ∃ events state, Run samplePaths events state ∧
      state.loop = .left ∧ state.processed = [firstPath] ∧
      ¬ BoundariesKept samplePaths state := by
  have written : Run samplePaths _ _ :=
    (LabelledRun.Run.start.next Step.write).next Step.write
  have taken := written.next (@Step.path _ _ _ firstPath (by decide)
    (by decide))
  have finished := (taken.next Step.write).next (Step.stop (by decide) (by decide))
  refine ⟨_, _, finished, rfl, rfl, ?_⟩
  intro kept
  have all := kept.complete rfl
  exact absurd (congrArg List.length all) (by decide)

end MessageState

end WebCrawl
