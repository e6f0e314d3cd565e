import WebCrawl.CString
import WebCrawl.LabelledRun
import WebCrawl.Polling
import Mathlib.Algebra.BigOperators.Group.List.Basic

/-!
# How the programs are asked for their counters

Both programs count pages and bytes, and both print the two counters in their reply to
STATS, having read them without the lock that their threads hold when they change them.
The pages are a number of them, as an `int`, and the bytes the sizes of the first so many
pages.  Reading and replying is a poller, whatever happens to the counters meanwhile.
-/

namespace WebCrawl

/-- Where the main thread stands with a reply to STATS. -/
inductive PollPoint where
  | idle
  | reading (pages bytes : Option Int)
  | replying (pages bytes : Int)
  deriving DecidableEq

/-- What the main thread does when the counters have some values, and what it replies. -/
inductive PollStep (pages bytes : Int) :
    PollPoint → Option (Int × Int) → PollPoint → Prop
  | stay {point : PollPoint} : PollStep pages bytes point none point
  | start : PollStep pages bytes .idle none (.reading none none)
  | readPages {readBytes : Option Int} :
      PollStep pages bytes (.reading none readBytes) none (.reading (some pages) readBytes)
  | readBytes {readPages : Option Int} :
      PollStep pages bytes (.reading readPages none) none (.reading readPages (some bytes))
  | print {readPages readBytes : Int} :
      PollStep pages bytes (.reading (some readPages) (some readBytes)) none
        (.replying readPages readBytes)
  | reply {readPages readBytes : Int} :
      PollStep pages bytes (.replying readPages readBytes) (some (readPages, readBytes)) .idle

/-- The sizes of the first pages, as they are printed. -/
def sizeOfFirst (sizes : List Int) (number : Nat) : Int :=
  toInt (sizes.take number).sum

def printedCounters (sizes : List Int) (reading : Nat × Nat) : Int × Int :=
  (toInt reading.1, sizeOfFirst sizes reading.2)

/-- What the main thread has read is what the poller has. -/
def PollPoint.Holds (sizes : List Int) (poll : Polling.State Nat Nat) : PollPoint → Prop
  | .idle => poll.first = none ∧ poll.second = none
  | .reading pages bytes =>
      pages = poll.first.map (fun number : Nat => toInt number) ∧
        bytes = poll.second.map (sizeOfFirst sizes)
  | .replying pages bytes =>
      ∃ number entered, poll.first = some number ∧ poll.second = some entered ∧
        (pages, bytes) = printedCounters sizes (number, entered)

/-- A poller of the number of pages that were served and of those that were entered with
their sizes. -/
structure Tracks (served : Nat) (sizes : List Int) (shown : List (Int × Int))
    (point : PollPoint) (poll : Polling.State Nat Nat) : Prop where
  now : poll.now = (served, sizes.length)
  ascending : Polling.Ascending poll
  shown : shown = poll.shown.map (printedCounters sizes)
  point : point.Holds sizes poll

section Tracking

variable {served more : Nat} {sizes others : List Int} {shown : List (Int × Int)}
variable {point after : PollPoint} {poll : Polling.State Nat Nat} {reply : Option (Int × Int)}

theorem tracks_initial : Tracks 0 [] [] .idle ⟨(0, 0), none, none, []⟩ where
  now := rfl
  ascending := Polling.ascending_of_nothing rfl rfl rfl
  shown := rfl
  point := ⟨rfl, rfl⟩

theorem sizeOfFirst_append {number : Nat} (inside : number ≤ sizes.length) :
    sizeOfFirst (sizes ++ others) number = sizeOfFirst sizes number := by
  rw [sizeOfFirst, List.take_append_of_le_length inside, sizeOfFirst]

theorem sizeOfFirst_length (sizes : List Int) :
    sizeOfFirst sizes sizes.length = toInt sizes.sum := by
  rw [sizeOfFirst, List.take_length]

/-- What was read does not change when more pages are entered. -/
theorem Tracks.grow (tracks : Tracks served sizes shown point poll) :
    ∃ later, Polling.Steps poll later ∧
      Tracks (served + more) (sizes ++ others) shown point later := by
  obtain ⟨now, ascending, same, holds⟩ := tracks
  have entered : ∀ pair ∈ poll.shown, pair.2 ≤ sizes.length := by
    intro pair member
    have atMost := (ascending.shown_le pair member).2
    rwa [now] at atMost
  have read : ∀ number, poll.second = some number → number ≤ sizes.length := by
    intro number isRead
    have atMost := ascending.second_le isRead
    rwa [now] at atMost
  have stepTo : Polling.Step poll
      { poll with now := (served + more, (sizes ++ others).length) } := by
    apply Polling.Step.grow
    rw [now]
    exact ⟨Nat.le_add_right _ _, by simp⟩
  refine ⟨_, .single stepTo, rfl, ascending.step stepTo, ?_, ?_⟩
  · rw [same]
    refine List.map_congr_left fun pair member => ?_
    rw [printedCounters, printedCounters, sizeOfFirst_append (entered pair member)]
  · cases point with
    | idle => exact holds
    | reading pages bytes =>
        refine ⟨holds.1, holds.2.trans ?_⟩
        cases isRead : poll.second with
        | none => rfl
        | some number =>
            exact congrArg some (sizeOfFirst_append (read number isRead)).symm
    | replying pages bytes =>
        obtain ⟨number, entered, first, second, values⟩ := holds
        refine ⟨number, entered, first, second, values.trans ?_⟩
        rw [printedCounters, printedCounters, sizeOfFirst_append (read entered second)]

/-- What the main thread does is what the poller does. -/
theorem Tracks.step (tracks : Tracks served sizes shown point poll)
    (stepTo : PollStep (toInt served) (toInt sizes.sum) point reply after) :
    ∃ later, Polling.Steps poll later ∧
      Tracks served sizes (shown ++ reply.toList) after later := by
  obtain ⟨now, ascending, same, holds⟩ := tracks
  cases stepTo with
  | stay => exact ⟨poll, .refl, now, ascending, (List.append_nil _).trans same, holds⟩
  | start =>
      refine ⟨poll, .refl, now, ascending, (List.append_nil _).trans same, ?_⟩
      exact ⟨by rw [holds.1]; rfl, by rw [holds.2]; rfl⟩
  | readPages =>
      have stepTo : Polling.Step poll { poll with first := some poll.now.1 } := .readFirst
      refine ⟨_, .single stepTo, now, ascending.step stepTo, (List.append_nil _).trans same, ?_⟩
      exact ⟨by rw [now]; rfl, holds.2⟩
  | readBytes =>
      have stepTo : Polling.Step poll { poll with second := some poll.now.2 } := .readSecond
      refine ⟨_, .single stepTo, now, ascending.step stepTo, (List.append_nil _).trans same, ?_⟩
      exact ⟨holds.1, by rw [now, Option.map_some, sizeOfFirst_length]⟩
  | print =>
      refine ⟨poll, .refl, now, ascending, (List.append_nil _).trans same, ?_⟩
      obtain ⟨number, first, isNumber⟩ := Option.map_eq_some_iff.mp holds.1.symm
      obtain ⟨entered, second, isSize⟩ := Option.map_eq_some_iff.mp holds.2.symm
      refine ⟨number, entered, first, second, ?_⟩
      rw [printedCounters, isNumber, isSize]
  | reply =>
      obtain ⟨number, entered, first, second, values⟩ := holds
      have stepTo := Polling.Step.shows first second
      refine ⟨_, .single stepTo, now, ascending.step stepTo, ?_, rfl, rfl⟩
      rw [List.map_append, ← same, values]
      rfl

end Tracking

/-- A program that is asked for its counters: what is counted along its runs, what was
replied, and where its main thread stands. -/
structure Polled {State Event : Type*} (step : State → Event → State → Prop) (initial : State)
    (served : List Event → Nat) (sizes : List Event → List Int)
    (shown : List Event → List (Int × Int)) (point : State → PollPoint) : Prop where
  served_append : ∀ events more, served (events ++ more) = served events + served more
  sizes_append : ∀ events more, sizes (events ++ more) = sizes events ++ sizes more
  shown_append : ∀ events more, shown (events ++ more) = shown events ++ shown more
  start : point initial = .idle
  polls : ∀ {events : List Event} {state after : State} {event : Event},
    LabelledRun.Run step initial events state → step state event after →
      ∃ reply, shown [event] = reply.toList ∧
        PollStep (toInt (served events)) (toInt (sizes events).sum) (point state) reply
          (point after)

namespace Polled

variable {State Event : Type*} {step : State → Event → State → Prop} {initial : State}
variable {served : List Event → Nat} {sizes : List Event → List Int}
variable {shown : List Event → List (Int × Int)} {point : State → PollPoint}
variable {events before during : List Event} {state after : State}

theorem tracks_initial (polled : Polled step initial served sizes shown point) :
    Tracks (served []) (sizes []) (shown []) (point initial) ⟨(0, 0), none, none, []⟩ := by
  have noneServed := polled.served_append [] []
  have noSizes := polled.sizes_append [] []
  have noneShown := polled.shown_append [] []
  rw [List.append_nil] at noneServed noSizes noneShown
  rw [Nat.left_eq_add.mp noneServed, List.self_eq_append_right.mp noSizes,
    List.self_eq_append_right.mp noneShown, polled.start]
  exact WebCrawl.tracks_initial

theorem tracks_onwards (polled : Polled step initial served sizes shown point)
    {poll : Polling.State Nat Nat} (run : LabelledRun.Run step initial before state)
    (tracks : Tracks (served before) (sizes before) (shown before) (point state) poll)
    (behind : LabelledRun.Run step state during after) :
    ∃ later, Polling.Steps poll later ∧
      Tracks (served (before ++ during)) (sizes (before ++ during)) (shown (before ++ during))
        (point after) later := by
  induction behind with
  | start => exact ⟨poll, .refl, by rwa [List.append_nil]⟩
  | @next during _ event _ behind stepTo ih =>
      obtain ⟨middle, first, tracks⟩ := ih
      obtain ⟨reply, replies, polls⟩ := polled.polls (run.append behind) stepTo
      obtain ⟨next, second, tracks⟩ := tracks.step polls
      obtain ⟨later, third, tracks⟩ :=
        @Tracks.grow _ (served [event]) _ (sizes [event]) _ _ _ tracks
      refine ⟨later, (first.trans second).trans third, ?_⟩
      rw [← List.append_assoc, polled.served_append, polled.sizes_append, polled.shown_append,
        replies]
      exact tracks

theorem tracks_of_run (polled : Polled step initial served sizes shown point)
    (run : LabelledRun.Run step initial events state) :
    ∃ poll, Tracks (served events) (sizes events) (shown events) (point state) poll := by
  obtain ⟨poll, _, tracks⟩ := polled.tracks_onwards .start polled.tracks_initial run
  exact ⟨poll, tracks⟩

/-- What the main thread has read are values of an `int`. -/
theorem read_ints (polled : Polled step initial served sizes shown point)
    (run : LabelledRun.Run step initial events state) {pages bytes : Int}
    (hasRead : point state = .reading (some pages) (some bytes)) :
    toInt pages = pages ∧ toInt bytes = bytes := by
  obtain ⟨poll, tracks⟩ := polled.tracks_of_run run
  have holds := tracks.point
  rw [hasRead] at holds
  obtain ⟨_, _, rfl⟩ := Option.map_eq_some_iff.mp holds.1.symm
  obtain ⟨_, _, rfl⟩ := Option.map_eq_some_iff.mp holds.2.symm
  exact ⟨toInt_toInt _, toInt_toInt _⟩

/-- What is replied was there since the main thread had read nothing. -/
theorem shown_between (polled : Polled step initial served sizes shown point)
    {pages bytes : Int} (run : LabelledRun.Run step initial before state)
    (unread : point state = .reading none none)
    (behind : LabelledRun.Run step state during after)
    (replying : point after = .replying pages bytes) :
    ∃ number entered,
      (pages, bytes) = printedCounters (sizes (before ++ during)) (number, entered) ∧
      (served before, (sizes before).length) ≤ (number, entered) ∧
      (number, entered) ≤ (served (before ++ during), (sizes (before ++ during)).length) := by
  obtain ⟨poll, tracks⟩ := polled.tracks_of_run run
  obtain ⟨later, steps, tracksLater⟩ := polled.tracks_onwards run tracks behind
  have nothing := tracks.point
  rw [unread] at nothing
  have since : Polling.Since poll.now poll := Polling.since_unread (le_refl _)
    (Option.map_eq_none_iff.mp nothing.1.symm) (Option.map_eq_none_iff.mp nothing.2.symm)
  have holds := tracksLater.point
  rw [replying] at holds
  obtain ⟨number, entered, first, second, values⟩ := holds
  have pagesSince := (since.steps steps).first number first
  have bytesSince := (since.steps steps).second entered second
  rw [tracks.now, tracksLater.now] at pagesSince bytesSince
  exact ⟨number, entered, values, ⟨pagesSince.1, bytesSince.1⟩, pagesSince.2, bytesSince.2⟩

/-- No reply goes back behind an earlier one. -/
theorem shown_ascends (polled : Polled step initial served sizes shown point)
    (run : LabelledRun.Run step initial events state) :
    ∃ readings : List (Nat × Nat),
      shown events = readings.map (printedCounters (sizes events)) ∧
      readings.Pairwise (· ≤ ·) ∧
      ∀ reading ∈ readings, reading ≤ (served events, (sizes events).length) := by
  obtain ⟨poll, tracks⟩ := polled.tracks_of_run run
  refine ⟨poll.shown, tracks.shown, tracks.ascending.ordered, fun reading member => ?_⟩
  rw [← tracks.now]
  exact tracks.ascending.shown_le reading member

end Polled

end WebCrawl
