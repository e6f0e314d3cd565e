import WebCrawl.BoundedFifo
import WebCrawl.ConnectionQueueContents

/-!
# The socket queue is a bounded queue

Every sequence of calls of `Queue_push` and `Queue_pop` gets the replies of a
first-in first-out list, whose capacity is one less than the size of the ring.
The two indices alone decide them; what they delimit in the ring is the list.
-/

namespace WebCrawl

namespace Queue

open BoundedFifo

/-- A call of `Queue_push` or of `Queue_pop`, which return 1 or 0. -/
def call (oura : Queue) : Call Cell → Option (Reply Cell × Queue)
  | .push element => do
      let (pushed, oura) ← oura.push element
      return (.pushed pushed, oura)
  | .pop element => do
      let (popped, element, oura) ← oura.pop element
      return (.popped popped element, oura)

variable {oura after : Queue} {request : Call Cell} {reply : Reply Cell}

/-- A call that returns 0 leaves the queue as it was, and no call counts a page
or a byte. -/
theorem call_changes (called : oura.call request = some (reply, after)) :
    (reply.succeeded = false → after = oura) ∧
      after.pagesServed = oura.pagesServed ∧
      after.bytesReturned = oura.bytesReturned := by
  cases request with
  | push element =>
      obtain ⟨⟨pushed, oura⟩, push, same⟩ := Option.bind_eq_some_iff.mp called
      cases same
      rcases push_changes push with ⟨_, rfl⟩ | ⟨succeeded, piso, rfl⟩
      · exact ⟨fun _ => rfl, rfl, rfl⟩
      · exact ⟨by simp [Reply.succeeded, succeeded], rfl, rfl⟩
  | pop element =>
      obtain ⟨⟨popped, value, oura⟩, pop, same⟩ := Option.bind_eq_some_iff.mp called
      cases same
      rcases pop_changes pop with ⟨_, _, rfl⟩ | ⟨succeeded, embros, rfl⟩
      · exact ⟨fun _ => rfl, rfl, rfl⟩
      · exact ⟨by simp [Reply.succeeded, succeeded], rfl, rfl⟩

/-- The queue holds the list in a ring of the given size and has counted
nothing. -/
structure Follows (size : Int) (oura : Queue) (stored : List Cell) : Prop where
  wellFormed : oura.WellFormed
  size : oura.size = size
  contents : oura.contents = stored
  pagesServed : oura.pagesServed = 0
  bytesReturned : oura.bytesReturned = 0

variable {size : Int} {stored : List Cell}

theorem follows_create (positive : 1 ≤ size) : Follows size (create size) [] where
  wellFormed := create_wellFormed positive
  size := rfl
  contents := contents_create size
  pagesServed := rfl
  bytesReturned := rfl

theorem Follows.called (follows : Follows size oura stored)
    (called : oura.call request = some (reply, after))
    (wellFormed : after.WellFormed) (sameSize : after.size = oura.size)
    {left : List Cell} (contents : after.contents = left) :
    Follows size after left where
  wellFormed := wellFormed
  size := sameSize.trans follows.size
  contents := contents
  pagesServed := (call_changes called).2.1.trans follows.pagesServed
  bytesReturned := (call_changes called).2.2.trans follows.bytesReturned

/-- The queue has room exactly when the list is below its capacity. -/
theorem Follows.full_eq (follows : Follows size oura stored) :
    oura.full = some !decide (stored.length < (size - 1).toNat) := by
  have within : oura.contents.length < oura.size.toNat := by
    rw [contents_length]
    exact RingBuffer.used_lt follows.wellFormed.embros_toNat_lt
      follows.wellFormed.piso_toNat_lt
  rw [follows.contents, follows.size] at within
  rw [Queue.full_eq follows.wellFormed, follows.size, follows.contents,
    ← decide_not]
  simp only [Option.some.injEq, decide_eq_decide]
  omega

theorem follows_call (request : Call Cell) (follows : Follows size oura stored) :
    ∃ after, oura.call request =
        some ((step (size - 1).toNat stored request).1, after) ∧
      Follows size after (step (size - 1).toNat stored request).2 := by
  cases request with
  | push element =>
      by_cases room : stored.length < (size - 1).toNat
      · have notFull : oura.full = some false := by
          rw [follows.full_eq, decide_eq_true room]
          rfl
        obtain ⟨after, push, wellFormed, contents, sameSize⟩ :=
          push_of_room follows.wellFormed notFull element
        have called : oura.call (.push element) = some (.pushed true, after) := by
          simp [call, push]
        simp only [step, if_pos room]
        exact ⟨after, called, follows.called called wellFormed sameSize
          (by rw [contents, follows.contents])⟩
      · have isFull : oura.full = some true := by
          rw [follows.full_eq, decide_eq_false room]
          rfl
        have called : oura.call (.push element) = some (.pushed false, oura) := by
          simp [call, push_of_full isFull]
        simp only [step, if_neg room]
        exact ⟨oura, called, follows⟩
  | pop element =>
      cases stored with
      | nil =>
          have isEmpty := (empty_iff follows.wellFormed).mpr follows.contents
          have called : oura.call (.pop element) =
              some (.popped false element, oura) := by
            simp [call, pop_of_empty isEmpty]
          exact ⟨oura, called, follows⟩
      | cons first rest =>
          have nonempty : oura.empty = false := by
            rw [Bool.eq_false_iff, Ne, empty_iff follows.wellFormed, follows.contents]
            simp
          obtain ⟨value, after, pop, wellFormed, contents, sameSize⟩ :=
            pop_of_nonempty follows.wellFormed nonempty element
          rw [follows.contents] at contents
          obtain ⟨rfl, left⟩ := List.cons.inj contents
          have called : oura.call (.pop element) =
              some (.popped true first, after) := by
            simp [call, pop]
          exact ⟨after, called, follows.called called wellFormed sameSize left.symm⟩

/-- Whatever is pushed and popped, the queue replies as a first-in first-out
list of capacity `n - 1` does, both indices stay in the ring, nothing is counted
and a call that returns 0 changes nothing. -/
theorem queue_refines_fifo {n : Int} (positive : 1 ≤ n) (requests : List (Call Cell)) :
    ∃ oura, calls Queue.call (create n) requests =
        some ((run (n - 1).toNat [] requests).1, oura) ∧
      oura.contents = (run (n - 1).toNat [] requests).2 ∧
      (0 ≤ oura.embros ∧ oura.embros < n) ∧ (0 ≤ oura.piso ∧ oura.piso < n) ∧
      oura.pagesServed = 0 ∧ oura.bytesReturned = 0 ∧
      ∀ request reply after, oura.call request = some (reply, after) →
        reply.succeeded = false → after = oura := by
  obtain ⟨oura, called, follows⟩ := calls_refine
    (fun _ _ request held => follows_call request held) (follows_create positive) requests
  have wellFormed := follows.wellFormed
  refine ⟨oura, called, follows.contents, ?_, ?_, follows.pagesServed,
    follows.bytesReturned, fun _ _ _ again => (call_changes again).1⟩
  · exact ⟨wellFormed.embros_nonneg, follows.size ▸ wellFormed.embros_lt⟩
  · exact ⟨wellFormed.piso_nonneg, follows.size ▸ wellFormed.piso_lt⟩

theorem queue_refines_fifo_two_cells :
    ∃ oura, calls Queue.call (create 2) [.push (some 7), .push (some 8), .pop none] =
        some ((run 1 [] [.push (some 7), .push (some 8), .pop none]).1, oura) ∧
      oura.contents = (run 1 [] [.push (some 7), .push (some 8), .pop none]).2 ∧
      (0 ≤ oura.embros ∧ oura.embros < 2) ∧ (0 ≤ oura.piso ∧ oura.piso < 2) ∧
      oura.pagesServed = 0 ∧ oura.bytesReturned = 0 ∧
      ∀ request reply after, oura.call request = some (reply, after) →
        reply.succeeded = false → after = oura :=
  queue_refines_fifo (by decide) _

end Queue

end WebCrawl
