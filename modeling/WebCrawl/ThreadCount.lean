import WebCrawl.LabelledRun
import WebCrawl.QueueRefinement

/-!
# Which thread counts leave the socket queue usable

`myhttpd` takes any string of digits for `-t` and uses its `int` value as the
number of threads and as the size of the socket queue.  The queue keeps one
cell free, so a single thread gets a queue that is full while it is empty, no
thread at all a division by zero, and a count that the conversion makes
negative a queue without a cell to store the first socket in.
-/

namespace WebCrawl

def validate (a : CString) : Int :=
  if a.chars.all Char.isDigit then 0 else -1

/-- `num_of_threads`, read from the argument of `-t`. -/
def numOfThreads (argument : CString) : Int :=
  atoi argument.chars

namespace Queue

open BoundedFifo

/-- The next call on the queue.  The state is `none` behind a call that is
undefined, and no call follows it. -/
inductive Calls : Option Queue → Call Cell → Option Queue → Prop
  | next (oura : Queue) (request : Call Cell) :
      Calls (some oura) request ((oura.call request).map Prod.snd)

/-- The remainder by the size is defined, and the queue is not full and empty
at the same time. -/
def Usable (oura : Queue) : Prop :=
  oura.full.isSome = true ∧ ¬ (oura.full = some true ∧ oura.empty = true)

variable {oura : Queue} {size : Int}

/-- A ring of two cells or more is never full and empty at once. -/
theorem WellFormed.usable (wellFormed : oura.WellFormed)
    (twoCells : 2 ≤ oura.size) : oura.Usable := by
  refine ⟨by simp [full_eq wellFormed], ?_⟩
  rintro ⟨isFull, isEmpty⟩
  rw [full_eq wellFormed, (empty_iff wellFormed).mp isEmpty] at isFull
  have oneCell : 1 = oura.size.toNat := by simpa using isFull
  omega

theorem full_create (nonzero : size ≠ 0) :
    (create size).full = some (decide ((1 : Int).tmod size = 0)) := by
  rw [full, next, if_neg (by exact nonzero)]
  rfl

theorem one_tmod_negative (negative : size ≤ -2) :
    (1 : Int).tmod size = 1 := by
  obtain ⟨magnitude, rfl⟩ : ∃ magnitude, size = -magnitude :=
    ⟨-size, by omega⟩
  rw [Int.tmod_neg, Int.tmod_eq_of_lt (by omega) (by omega)]

/-- The queue of a negative size is not full, and its first push stores
outside the block without cells. -/
theorem push_create_negative (negative : size ≤ -2) (element : Cell) :
    (create size).push element = none := by
  have notFull : (create size).full = some false := by
    rw [full_create (by omega), one_tmod_negative negative]
    rfl
  have noCell : (create size).buffer = [] := by
    simp [create, Int.toNat_of_nonpos (show size ≤ 0 by omega)]
  simp only [push, notFull, noCell]
  rfl

open LabelledRun

/-- A run of calls on a new queue of two cells or more stays defined, and the
queue it reaches is usable. -/
theorem usable_of_run (twoCells : 2 ≤ size) {requests : List (Call Cell)}
    {state : Option Queue} (run : Run Calls (some (create size)) requests state) :
    ∃ oura, state = some oura ∧ oura.Usable := by
  have kept := run.invariant
    (fun reached => ∃ oura stored, reached = some oura ∧ Follows size oura stored)
    ⟨_, [], rfl, follows_create (by omega)⟩
    (fun _ request _ before called => by
      obtain ⟨_, stored, rfl, follows⟩ := before
      cases called with
      | next =>
          obtain ⟨after, answers, stillFollows⟩ := follows_call request follows
          exact ⟨after, _, by rw [answers]; rfl, stillFollows⟩)
  obtain ⟨oura, stored, rfl, follows⟩ := kept
  exact ⟨oura, rfl, follows.wellFormed.usable (by rw [follows.size]; exact twoCells)⟩

end Queue

open LabelledRun in
/-- Every run of pushes and pops on the queue of the server is defined and
reaches a queue whose remainder is defined and which is not full and empty at
once, exactly when the thread count is 2 or more; this holds of every argument
string, in particular of those that `validate` accepts. -/
theorem connection_queue_usable_iff (argument : CString) :
    (∀ requests state,
      Run Queue.Calls (some (Queue.create (numOfThreads argument))) requests state →
        ∃ oura, state = some oura ∧ oura.Usable) ↔
      2 ≤ numOfThreads argument := by
  generalize numOfThreads argument = size
  constructor
  · intro usable
    obtain ⟨_, created, defined, notBoth⟩ := usable [] _ .start
    cases created
    by_contra small
    have cases : size = 0 ∨ size = 1 ∨ size = -1 ∨ size ≤ -2 := by omega
    rcases cases with rfl | rfl | rfl | negative
    · exact absurd defined (by decide)
    · exact notBoth (by decide)
    · exact notBoth (by decide)
    · -- the producer hands over its first socket
      obtain ⟨oura, reached, _⟩ := usable [.push (some 0)] _
        (Run.start.next (.next (Queue.create size) (.push (some 0))))
      simp [Queue.call, Queue.push_create_negative negative] at reached
  · intro large requests state run
    exact Queue.usable_of_run large run

/-- The thread counts 1, 0 and 4294967294 pass the argument check.  With 1 the
new queue is full and empty at once, and the producer of the server falls
asleep waiting for room in it; with 0 the remainder is undefined; the last one
is the `int` -2, and the first push is undefined. -/
theorem connection_queue_unusable_one_thread :
    validate ⟨['1'], by decide⟩ = 0 ∧ validate ⟨['0'], by decide⟩ = 0 ∧
    validate ⟨"4294967294".toList, by decide⟩ = 0 ∧
    (Queue.create (numOfThreads ⟨['1'], by decide⟩)).full = some true ∧
    (Queue.create (numOfThreads ⟨['1'], by decide⟩)).empty = true ∧
    (Queue.create (numOfThreads ⟨['0'], by decide⟩)).full = none ∧
    numOfThreads ⟨"4294967294".toList, by decide⟩ = -2 ∧
    (Queue.create (-2)).push (some 5) = none ∧
    ¬ ∀ argument : CString, validate argument = 0 →
      ∀ requests state,
        LabelledRun.Run Queue.Calls (some (Queue.create (numOfThreads argument)))
            requests state →
          ∃ oura, state = some oura ∧ oura.Usable := by
  refine ⟨by decide, by decide, by decide, by decide, by decide, by decide,
    by decide, by decide, ?_⟩
  intro usable
  obtain ⟨_, created, _, notBoth⟩ := usable ⟨['1'], by decide⟩ (by decide) [] _ .start
  cases created
  exact notBoth (by decide)

end WebCrawl
