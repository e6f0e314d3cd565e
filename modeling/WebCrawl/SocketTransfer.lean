import WebCrawl.SocketLines

/-!
# Transferring whole buffers

`socket_read` and `socket_write` repeat calls until as much was transferred as
an `int` says.  A read at the end of the stream gives nothing and is repeated
for ever; a negative amount becomes an enormous one when it is converted to
`size_t`, which both calls refuse.
-/

namespace WebCrawl

abbrev Client := SegmentedStream.Sink Char

/-- The conversion of an `int` to `size_t`. -/
def toSize (number : Int) : Nat :=
  (number % 2 ^ 64).toNat

/-- `socket_read` into a buffer with the given room; `none` when it returns the
result of a failed call. -/
def socketRead : Nat → Nat → Int → Socket → Outcome (Option (List Char) × Socket)
  | 0, _, _, _ => .unfinished
  | fuel + 1, room, len, sock =>
      if len < 0 then .returns (none, sock)
      else
        match sock.read (toSize len) with
        | .blocked => .unfinished
        | .failed rest => .returns (none, rest)
        | .data received rest =>
            if room < received.length then .faults
            else
              let len := len - received.length
              if 0 < len then do
                let (more, sock) ← socketRead fuel (room - received.length) len rest
                return (more.map (received ++ ·), sock)
              else return (some received, rest)

/-- `socket_write`; `none` when it returns the result of a failed call. -/
def socketWrite : Nat → Client → List Char → Int → Outcome (Option Client)
  | 0, _, _, _ => .unfinished
  | fuel + 1, sock, buf, len =>
      if len < 0 then .returns none
      else
        match sock.write (buf.take len.toNat) with
        | none => .returns none
        | some (count, sock) =>
            let len := len - count
            if 0 < len then socketWrite fuel sock (buf.drop count) len
            else .returns (some sock)

/-- A call that asks for the next data gets a part of it. -/
theorem read_wanted {sock : Socket} {wanted rest : List Char} {closed : Bool}
    (delivers : sock.Delivers (wanted ++ rest) closed) :
    ∃ received more next, wanted = received ++ more ∧
      min 1 wanted.length ≤ received.length ∧
      sock.read wanted.length = .data received next ∧ next.Delivers (more ++ rest) closed := by
  cases wanted with
  | nil => exact ⟨[], [], sock, rfl, Nat.zero_le _, rfl, delivers⟩
  | cons first wanted =>
      obtain ⟨received, unread, next, read, split, short, delivered⟩ :=
        delivers.read (Nat.succ_pos wanted.length)
      have within : received.length ≤ wanted.length := Nat.le_of_lt_succ short
      rcases List.append_eq_append_iff.mp split with ⟨extra, left, right⟩ | ⟨more, rfl, rfl⟩
      · have noExtra : extra = [] := by
          rw [left, List.length_append] at within
          exact List.eq_nil_of_length_eq_zero (by omega)
        subst noExtra
        rw [List.append_nil] at left
        rw [List.nil_append] at right
        subst left right
        exact ⟨first :: received, [], next, by simp, by simp, read, delivered⟩
      · exact ⟨first :: received, more, next, rfl, by simp, read, delivered⟩

theorem socketRead_negative {sock : Socket} {room : Nat} {len : Int} (negative : len < 0) :
    Outcome.Settles (socketRead · room len sock) (.returns (none, sock)) := by
  refine .of_succ rfl ((Outcome.Settles.const (.returns (none, sock))).congr fun fuel => ?_)
  rw [socketRead, if_pos negative]

theorem socketRead_received {sock next : Socket} {received : List Char} {room : Nat} {len : Int}
    (nonneg : 0 ≤ len) (read : sock.read (toSize len) = .data received next)
    (fits : received.length ≤ room) (fuel : Nat) :
    socketRead (fuel + 1) room len sock =
      if 0 < len - received.length then do
        let (more, sock) ← socketRead fuel (room - received.length) (len - received.length) next
        return (more.map (received ++ ·), sock)
      else .returns (some received, next) := by
  have inRoom : ¬ room < received.length := Nat.not_lt.mpr fits
  simp only [socketRead, if_neg (not_lt.mpr nonneg), read, if_neg inRoom]
  rfl

theorem socketRead_data {sock : Socket} {wanted rest : List Char} {closed : Bool}
    {room : Nat} {len : Int} (delivers : sock.Delivers (wanted ++ rest) closed)
    (lenEq : len = wanted.length) (isInt : len < 2 ^ 31)
    (fits : wanted.length ≤ room) :
    ∃ after, Outcome.Settles (socketRead · room len sock)
        (.returns (some wanted, after)) ∧ after.Delivers rest closed := by
  obtain ⟨size, sizeEq⟩ : ∃ size, size = wanted.length := ⟨_, rfl⟩
  induction size using Nat.strong_induction_on
    generalizing sock wanted room len with
  | _ size ih =>
      have asked : toSize len = wanted.length := by
        unfold toSize
        omega
      obtain ⟨received, more, next, rfl, progress, read, delivered⟩ := read_wanted delivers
      rw [← asked] at read
      rw [List.length_append] at lenEq sizeEq fits progress
      by_cases done : more = []
      · subst done
        refine ⟨next, .of_round rfl fun fuel => ?_, delivered⟩
        rw [List.length_nil] at lenEq
        rw [socketRead_received (by omega) read (by omega), if_neg (by omega), List.append_nil]
      · have missing : 0 < more.length := List.length_pos_iff.mpr done
        have left : len - received.length = more.length := by omega
        obtain ⟨after, settles, afterDelivers⟩ :=
          ih more.length (by omega) delivered left (by omega)
            (show more.length ≤ room - received.length by omega) rfl
        refine ⟨after, .of_succ rfl ?_, afterDelivers⟩
        have goesOn : 0 < len - received.length := by omega
        simp only [socketRead_received (by omega) read (by omega : received.length ≤ room),
          if_pos goesOn]
        exact settles.bind_returns (.const _)

/-- At the end of the stream the loop for the missing bytes never ends. -/
theorem socketRead_end {sock : Socket} {closed : Bool} {room : Nat} {len : Int}
    (delivers : sock.Delivers [] closed) (positive : 0 < len) (isInt : len < 2 ^ 31) :
    Outcome.Settles (socketRead · room len sock) .unfinished := by
  have asked : 0 < toSize len := by
    unfold toSize
    omega
  apply Outcome.Settles.of_unfinished
  intro fuel
  induction fuel generalizing room with
  | zero => rfl
  | succ fuel ih =>
      rw [socketRead, if_neg (by omega), delivers.read_end asked]
      cases closed with
      | false => rfl
      | true =>
          simp [positive, ih]

theorem socketRead_endless {sock : Socket} {data : List Char} {closed : Bool}
    {room : Nat} {len : Int} (delivers : sock.Delivers data closed)
    (short : (data.length : Int) < len)
    (isInt : len < 2 ^ 31) (fits : data.length ≤ room) :
    Outcome.Settles (socketRead · room len sock) .unfinished := by
  obtain ⟨size, sizeEq⟩ : ∃ size, size = data.length := ⟨_, rfl⟩
  induction size using Nat.strong_induction_on
    generalizing sock data room len with
  | _ size ih =>
      cases data with
      | nil => exact socketRead_end delivers short isInt
      | cons first data =>
          have asked : 0 < toSize len := by
            unfold toSize
            omega
          obtain ⟨received, unread, next, read, rfl, _, delivered⟩ :=
            delivers.read asked
          rw [← List.cons_append, List.length_append] at short fits sizeEq
          have progress : 0 < (first :: received).length := Nat.succ_pos _
          have later := ih unread.length (by omega) delivered
            (show (unread.length : Int) < len - (first :: received).length by omega)
            (by omega)
            (show unread.length ≤ room - (first :: received).length by omega) rfl
          refine .of_succ rfl ?_
          have goesOn : 0 < len - (first :: received).length := by omega
          simp only [if_pos goesOn,
            socketRead_received (by omega) read (by omega : (first :: received).length ≤ room)]
          exact later.bind_unfinished

section Writing

variable {sock : Client} {data : List Char} {len : Int}

/-- What `socket_write` does with data that the peer takes, and with data of
which it takes only a part. -/
def WriteResult (sock : Client) (data : List Char) (result : Option Client) : Prop :=
  (∀ after, result = some after → sock.Takes data.length ∧ sock.Passed data after) ∧
    (result = none → ¬ sock.Takes data.length)

theorem WriteResult.of_nil {after : Client} (passed : sock.Passed [] after) :
    WriteResult sock [] (some after) := by
  refine ⟨?_, by simp⟩
  rintro _ ⟨⟩
  exact ⟨fun _ _ => Nat.zero_le _, passed⟩

theorem WriteResult.of_rest {middle : Client} {count : Nat}
    {result : Option Client} (within : count ≤ data.length)
    (took : sock.Takes count) (passed : sock.Passed (data.take count) middle)
    (rest : WriteResult middle (data.drop count) result) :
    WriteResult sock data result := by
  have counted : (data.take count).length = count := List.length_take_of_le within
  have takes : middle.Takes (data.drop count).length ↔ sock.Takes data.length := by
    rw [passed.takes_iff (by rwa [counted]), counted, List.length_drop,
      Nat.add_sub_cancel' within]
  refine ⟨fun after same => ?_, fun failed => takes.not.mp (rest.2 failed)⟩
  obtain ⟨restTakes, restPassed⟩ := rest.1 after same
  have whole := passed.trans restPassed
  rw [List.take_append_drop] at whole
  exact ⟨takes.mp restTakes, whole⟩

theorem socketWrite_refused (lenEq : len = data.length) (refused : sock.write data = none)
    (fuel : Nat) : socketWrite (fuel + 1) sock data len = .returns none := by
  simp [socketWrite, lenEq, refused]

theorem socketWrite_passed {count : Nat} {middle : Client} (lenEq : len = data.length)
    (written : sock.write data = some (count, middle)) (fuel : Nat) :
    socketWrite (fuel + 1) sock data len =
      if 0 < len - count then socketWrite fuel middle (data.drop count) (len - count)
      else .returns (some middle) := by
  have notNegative : ¬ len < 0 := by omega
  have whole : data.take len.toNat = data := by
    rw [lenEq]
    exact List.take_length
  simp only [socketWrite, if_neg notNegative, whole, written]

/-- Writing data as long as an `int` says always ends. -/
theorem socketWrite_settles (lenEq : len = data.length) :
    ∃ result, Outcome.Settles (socketWrite · sock data len) (.returns result) ∧
      WriteResult sock data result := by
  obtain ⟨size, sizeEq⟩ : ∃ size, size = data.length := ⟨_, rfl⟩
  induction size using Nat.strong_induction_on generalizing sock data len with
  | _ size ih =>
      by_cases empty : data = []
      · subst empty
        obtain ⟨after, written, passed⟩ := sock.write_nil
        refine ⟨some after, .of_round rfl fun fuel => ?_, .of_nil passed⟩
        rw [socketWrite_passed lenEq written, if_neg (by simp [lenEq])]
      by_cases exhausted : sock.limit = some 0
      · have refused := SegmentedStream.Sink.write_refused empty exhausted
        refine ⟨none, .of_round rfl (socketWrite_refused lenEq refused),
          by simp, fun _ takes => ?_⟩
        exact empty (List.eq_nil_of_length_eq_zero
          (Nat.le_zero.mp (takes 0 exhausted)))
      · obtain ⟨count, middle, written, positive, within, took, passed⟩ :=
          SegmentedStream.Sink.write_progress empty exhausted
        have leftLength : (data.drop count).length = data.length - count :=
          List.length_drop
        by_cases done : count = data.length
        · refine ⟨some middle, .of_round rfl fun fuel => ?_, ?_⟩
          · rw [socketWrite_passed lenEq written, if_neg (by omega)]
          · apply WriteResult.of_rest within took passed
            rw [done, List.drop_length]
            exact .of_nil .refl
        · obtain ⟨result, settles, rest⟩ := ih (data.length - count) (by omega)
            (show len - count = (data.drop count).length by omega) leftLength.symm
          refine ⟨result, .of_succ rfl (settles.congr fun fuel => ?_),
            .of_rest within took passed rest⟩
          rw [socketWrite_passed lenEq written, if_pos (by omega)]

theorem socketWrite_take (fuel : Nat) (sock : Client) (data : List Char)
    (len : Int) :
    socketWrite fuel sock data len =
      socketWrite fuel sock (data.take len.toNat) len := by
  induction fuel generalizing sock data len with
  | zero => rfl
  | succ fuel ih =>
      simp only [socketWrite, List.take_take, Nat.min_self]
      split
      · rfl
      · cases sock.write (data.take len.toNat) with
        | none => rfl
        | some written =>
            obtain ⟨count, after⟩ := written
            have left : (len - count).toNat = len.toNat - count := by omega
            dsimp only
            rw [ih after (data.drop count), ih after ((data.take _).drop count),
              List.drop_take, left, List.take_take, Nat.min_self]

theorem socketWrite_part (nonneg : 0 ≤ len) (within : len ≤ data.length) :
    ∃ result, Outcome.Settles (socketWrite · sock data len) (.returns result) ∧
      WriteResult sock (data.take len.toNat) result := by
  have partLength : len = (data.take len.toNat).length := by
    rw [List.length_take]
    omega
  obtain ⟨result, settles, written⟩ := socketWrite_settles partLength
  exact ⟨result, settles.congr fun fuel => socketWrite_take fuel sock data len,
    written⟩

theorem socketWrite_negative (negative : len < 0) :
    Outcome.Settles (socketWrite · sock data len) (.returns none) := by
  refine .of_succ rfl ((Outcome.Settles.const (.returns none)).congr fun fuel => ?_)
  rw [socketWrite, if_pos negative]

end Writing

end WebCrawl
