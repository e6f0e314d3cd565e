import Mathlib.Data.List.Basic

/-!
# Streams that arrive in pieces

What a reader of a byte stream receives depends on how the stream was cut on
its way.  A stream is a list of arrivals, each a non-empty piece of the data or
a failure of one call, and a flag that says whether its end follows or silence.
A call asks for a number of elements and gets at most one piece.  `Delivers`
forgets the pieces: it is what all streams with the same data have in common.
-/

namespace SegmentedStream

variable {α : Type*}

inductive Arrival (α : Type*) where
  | piece (first : α) (more : List α)
  | failure
  deriving DecidableEq, Repr

structure Stream (α : Type*) where
  arrivals : List (Arrival α)
  closed : Bool
  deriving DecidableEq, Repr

/-- What one call gives: data, of which there is none at the end of the
stream, an error, or no answer at all. -/
inductive ReadResult (α : Type*) where
  | data (received : List α) (rest : Stream α)
  | failed (rest : Stream α)
  | blocked
  deriving DecidableEq, Repr

def Stream.read (stream : Stream α) (count : Nat) : ReadResult α :=
  if count = 0 then .data [] stream
  else
    match stream.arrivals with
    | [] => if stream.closed then .data [] stream else .blocked
    | .failure :: later => .failed { stream with arrivals := later }
    | .piece first more :: later =>
        match (first :: more).drop count with
        | [] => .data (first :: more) { stream with arrivals := later }
        | next :: others =>
            .data ((first :: more).take count)
              { stream with arrivals := .piece next others :: later }

/-- The stream of the given data in one piece. -/
def Stream.ofData (closed : Bool) : List α → Stream α
  | [] => ⟨[], closed⟩
  | first :: more => ⟨[.piece first more], closed⟩

/-- The arrivals are exactly the given data, without failures. -/
inductive Carries : List (Arrival α) → List α → Prop
  | nil : Carries [] []
  | cons {first more later data} :
      Carries later data →
        Carries (.piece first more :: later) (first :: (more ++ data))

theorem Carries.unique {arrivals : List (Arrival α)} {data other : List α}
    (carries : Carries arrivals data) (carriesOther : Carries arrivals other) :
    data = other := by
  induction carries generalizing other with
  | nil =>
      cases carriesOther
      rfl
  | cons _ ih =>
      cases carriesOther with
      | cons later => rw [ih later]

structure Stream.Delivers (stream : Stream α) (data : List α) (closed : Bool) :
    Prop where
  carries : Carries stream.arrivals data
  closing : stream.closed = closed

namespace Stream

variable {stream : Stream α} {data : List α} {closed : Bool} {first : α}

theorem ofData_delivers (closed : Bool) (data : List α) :
    (ofData closed data).Delivers data closed := by
  cases data with
  | nil => exact ⟨.nil, rfl⟩
  | cons first more =>
      exact ⟨by simpa [ofData] using @Carries.cons _ first more _ _ .nil, rfl⟩

/-- A call on a stream with data gives a non-empty part of the data. -/
theorem Delivers.read (delivers : stream.Delivers (first :: data) closed)
    {count : Nat} (positive : 0 < count) :
    ∃ received unread rest, stream.read count = .data (first :: received) rest ∧
      data = received ++ unread ∧ received.length < count ∧
      rest.Delivers unread closed := by
  obtain ⟨arrivals, ends⟩ := stream
  obtain ⟨carries, closing⟩ := delivers
  dsimp only at carries closing
  subst closing
  cases carries with
  | @cons _ more later lastData carries =>
      cases remaining : more.drop (count - 1) with
      | nil =>
          have short : more.length ≤ count - 1 := List.drop_eq_nil_iff.mp remaining
          refine ⟨more, lastData, ⟨later, ends⟩, ?_, rfl, by omega, ⟨carries, rfl⟩⟩
          simp [Stream.read, Nat.ne_of_gt positive, List.drop_cons positive, remaining]
      | cons next others =>
          have split : more.take (count - 1) ++ (next :: others) = more := by
            rw [← remaining, List.take_append_drop]
          refine ⟨more.take (count - 1), next :: others ++ lastData,
            ⟨.piece next others :: later, ends⟩, ?_, ?_, ?_, ⟨carries.cons, rfl⟩⟩
          · simp [Stream.read, Nat.ne_of_gt positive, List.drop_cons positive,
              List.take_cons positive, remaining]
          · rw [← List.append_assoc, split]
          · rw [List.length_take]
            omega

theorem Delivers.read_one (delivers : stream.Delivers (first :: data) closed) :
    ∃ rest, stream.read 1 = .data [first] rest ∧ rest.Delivers data closed := by
  obtain ⟨received, unread, rest, read, split, short, delivered⟩ :=
    delivers.read Nat.one_pos
  have noMore : received = [] := List.eq_nil_of_length_eq_zero (by omega)
  subst noMore
  rw [List.nil_append] at split
  subst split
  exact ⟨rest, read, delivered⟩

theorem Delivers.read_end (delivers : stream.Delivers [] closed) {count : Nat}
    (positive : 0 < count) :
    stream.read count = if closed then .data [] stream else .blocked := by
  obtain ⟨arrivals, ends⟩ := stream
  obtain ⟨carries, closing⟩ := delivers
  dsimp only at carries closing
  cases carries
  simp [Stream.read, Nat.ne_of_gt positive, closing]

end Stream

/-- The other direction: each call passes on only as much as its grant allows,
everything once the grants are used up, and calls fail when the peer has taken
as much as it ever will. -/
structure Sink (α : Type*) where
  grants : List Nat
  limit : Option Nat
  sent : List α
  deriving DecidableEq, Repr

namespace Sink

variable {sink : Sink α} {data : List α}

/-- One call: how much of the data was passed on, or `none` for an error. -/
def write (sink : Sink α) (data : List α) : Option (Nat × Sink α) :=
  if sink.limit = some 0 ∧ data ≠ [] then none
  else
    let granted := (sink.grants.head?.map (· + 1)).getD data.length
    let count := min (min data.length granted) (sink.limit.getD data.length)
    some (count,
      { grants := sink.grants.tail
        limit := sink.limit.map (· - count)
        sent := sink.sent ++ data.take count })

/-- The peer takes at least so much more. -/
def Takes (sink : Sink α) (amount : Nat) : Prop :=
  ∀ limit, sink.limit = some limit → amount ≤ limit

/-- All the data has been passed on. -/
structure Passed (sink : Sink α) (data : List α) (after : Sink α) : Prop where
  sent : after.sent = sink.sent ++ data
  limit : after.limit = sink.limit.map (· - data.length)

theorem Passed.refl : Passed sink [] sink :=
  ⟨by simp, by simp⟩

theorem Passed.trans {more : List α} {middle after : Sink α}
    (first : Passed sink data middle) (second : Passed middle more after) :
    Passed sink (data ++ more) after where
  sent := by rw [second.sent, first.sent, List.append_assoc]
  limit := by
    rw [second.limit, first.limit, Option.map_map, List.length_append]
    congr 1
    funext limit
    simp only [Function.comp_apply]
    omega

theorem Passed.takes_iff {after : Sink α} {amount : Nat}
    (passed : Passed sink data after) (took : sink.Takes data.length) :
    after.Takes amount ↔ sink.Takes (data.length + amount) := by
  constructor
  · intro takes limit limited
    have bound := takes (limit - data.length) (by rw [passed.limit, limited]; rfl)
    have room := took limit limited
    omega
  · intro takes limit limited
    rw [passed.limit, Option.map_eq_some_iff] at limited
    obtain ⟨before, limitedBefore, rfl⟩ := limited
    have bound := takes before limitedBefore
    omega

theorem write_nil :
    ∃ after, sink.write [] = some (0, after) ∧ Passed sink [] after := by
  refine ⟨⟨sink.grants.tail, sink.limit, sink.sent⟩, ?_, by simp, by simp⟩
  simp [write]

theorem write_refused (nonempty : data ≠ []) (exhausted : sink.limit = some 0) :
    sink.write data = none := by
  simp [write, nonempty, exhausted]

theorem write_progress (nonempty : data ≠ []) (takesMore : sink.limit ≠ some 0) :
    ∃ count after, sink.write data = some (count, after) ∧ 0 < count ∧
      count ≤ data.length ∧ sink.Takes count ∧
      Passed sink (data.take count) after := by
  have positive : 0 < data.length := List.length_pos_iff.mpr nonempty
  obtain ⟨grants, limit, sent⟩ := sink
  have granted : 0 < (grants.head?.map (· + 1)).getD data.length := by
    cases grants <;> simp [positive]
  dsimp only at takesMore
  have within : min (min data.length ((grants.head?.map (· + 1)).getD data.length))
      (limit.getD data.length) ≤ data.length :=
    Nat.le_trans (Nat.min_le_left _ _) (Nat.min_le_left _ _)
  refine ⟨_, _, if_neg fun refused => takesMore refused.1, ?_, within, ?_, rfl, ?_⟩
  · cases limit with
    | none => exact Nat.lt_min.mpr ⟨Nat.lt_min.mpr ⟨positive, granted⟩, positive⟩
    | some limit =>
        have room : 0 < limit := Nat.pos_of_ne_zero fun zero =>
          takesMore (by rw [zero])
        exact Nat.lt_min.mpr ⟨Nat.lt_min.mpr ⟨positive, granted⟩, room⟩
  · rintro bound rfl
    exact Nat.min_le_right _ _
  · rw [List.length_take_of_le within]

/-- A call fails, or passes on some of the data it has. -/
theorem write_refused_or_progress (sink : Sink α) (data : List α) :
    sink.write data = none ∨ ∃ count after, sink.write data = some (count, after) ∧
      min 1 data.length ≤ count ∧ count ≤ data.length ∧ Passed sink (data.take count) after := by
  by_cases empty : data = []
  · obtain ⟨after, written, passed⟩ := sink.write_nil
    subst empty
    exact .inr ⟨0, after, written, Nat.zero_le 0, Nat.le_refl 0, passed⟩
  · by_cases exhausted : sink.limit = some 0
    · exact .inl (write_refused empty exhausted)
    · obtain ⟨count, after, written, positive, within, _, passed⟩ :=
        write_progress empty exhausted
      exact .inr ⟨count, after, written, by omega, within, passed⟩

end Sink

end SegmentedStream
