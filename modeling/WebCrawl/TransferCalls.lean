import WebCrawl.SocketTransfer
import Mathlib.Algebra.BigOperators.Group.Finset.Basic
import Mathlib.Data.List.GetD

/-!
# Transfers as sequences of calls

`socket_read` and `socket_write` with the results of their calls one after the
other: each is an error, or says how many of the bytes asked for were taken.
How far a transfer comes, and what is returned, depends on the results alone;
the bytes are those at the start of the buffer or of the stream.  The body of
the loops is run for an empty buffer too, so an error of its call is returned.
-/

namespace WebCrawl

/-- What a call returns that is asked for so many bytes. -/
def CallResult (requested result : Int) : Prop :=
  -2 ^ 31 ≤ result ∧ result < 0 ∨ min 1 requested ≤ result ∧ result ≤ requested

/-- The bytes that the first calls transferred. -/
def transferred (results : Nat → Int) (calls : Nat) : Int :=
  ∑ call ∈ Finset.range calls, results call

/-- The results of calls that are asked for what is still missing. -/
def CallResults (len : Int) (results : Nat → Int) : Prop :=
  ∀ call, (∀ earlier, earlier < call → 0 ≤ results earlier) →
    CallResult (len - transferred results call) (results call)

/-- The results of the calls behind the first one. -/
def laterResults (results : Nat → Int) (call : Nat) : Int :=
  results (call + 1)

/-- How far a transfer comes, and what is returned: an empty buffer needs a call
that does not fail. -/
structure Transfer (len : Nat) (results : Nat → Int) (value : Int) (count : Nat) : Prop where
  within : count ≤ len
  whole : value = 0 ↔ count = len ∧ (len = 0 → 0 ≤ results 0)
  failed : value ≠ 0 → ∃ call, value = results call ∧ value < 0 ∧
    (∀ earlier, earlier < call → 0 ≤ results earlier) ∧ count = transferred results call

namespace Calls

/-- `socket_write`, which returns a result, with the bytes that were handed over.  Only
a call that fails may be asked for more than the buffer has. -/
def socketWrite : Nat → (Nat → Int) → List Char → Int → Outcome (Int × List Char)
  | 0, _, _, _ => .unfinished
  | fuel + 1, results, buf, len =>
      let count := toInt (results 0)
      if count < 0 then .returns (count, [])
      else
        if buf.length < toSize len then .faults
        else
          let len := len - count
          if 0 < len then do
            let (value, handed) ←
              socketWrite fuel (laterResults results) (buf.drop count.toNat) len
            return (value, buf.take count.toNat ++ handed)
          else return (0, buf.take count.toNat)

/-- The next bytes of a stream. -/
def streamBytes (stream : Nat → Char) (count : Nat) : List Char :=
  (List.range count).map stream

/-- `socket_read`, which returns a result, with what the buffer then holds and the
number of bytes taken from the stream. -/
def socketRead : Nat → (Nat → Int) → (Nat → Char) → List Char → Int →
    Outcome (Int × List Char × Nat)
  | 0, _, _, _, _ => .unfinished
  | fuel + 1, results, stream, buf, len =>
      let count := toInt (results 0)
      if count < 0 then .returns (count, buf, 0)
      else
        if buf.length < toSize len then .faults
        else
          let received := streamBytes stream count.toNat
          let len := len - count
          if 0 < len then do
            let (value, buf, taken) ←
              socketRead fuel (laterResults results) (fun place => stream (count.toNat + place))
                (buf.drop count.toNat) len
            return (value, received ++ buf, count.toNat + taken)
          else return (0, received ++ buf.drop count.toNat, count.toNat)

/-- The loop of both functions, with the number of bytes alone. -/
def transferLoop : Nat → (Nat → Int) → Int → Outcome (Int × Nat)
  | 0, _, _ => .unfinished
  | fuel + 1, results, len =>
      let count := toInt (results 0)
      if count < 0 then .returns (count, 0)
      else
        let len := len - count
        if 0 < len then do
          let (value, more) ← transferLoop fuel (laterResults results) len
          return (value, count.toNat + more)
        else return (0, count.toNat)

end Calls

section Results

variable {results : Nat → Int} {len : Int}

theorem transferred_succ (results : Nat → Int) (calls : Nat) :
    transferred results (calls + 1) =
      results 0 + transferred (laterResults results) calls := by
  rw [transferred, Finset.sum_range_succ', add_comm]
  rfl

theorem CallResults.first (valid : CallResults len results) : CallResult len (results 0) := by
  have first := valid 0 (by omega)
  rwa [transferred, Finset.range_zero, Finset.sum_empty, sub_zero] at first

theorem CallResults.later (valid : CallResults len results) (nonneg : 0 ≤ results 0) :
    CallResults (len - results 0) (laterResults results) := by
  intro call succeeded
  have next := valid (call + 1) (by
    rintro (_ | earlier) before
    · exact nonneg
    · exact succeeded earlier (by omega))
  rwa [transferred_succ, ← sub_sub] at next

theorem CallResults.of_first (first : CallResult len (results 0))
    (later : 0 ≤ results 0 → CallResults (len - results 0) (laterResults results)) :
    CallResults len results := by
  rintro (_ | call) succeeded
  · rwa [transferred, Finset.range_zero, Finset.sum_empty, sub_zero]
  · rw [transferred_succ, ← sub_sub]
    exact later (succeeded 0 (Nat.succ_pos call)) call fun earlier before =>
      succeeded (earlier + 1) (Nat.succ_lt_succ before)

theorem CallResults.of_error (len : Int) : CallResults len fun _ => -1 :=
  .of_first (.inl (by decide)) (absurd · (by decide))

/-- The first call fails, or transfers a number of the bytes asked for; the later
ones are then asked for the others. -/
theorem CallResults.error_or_count {len : Nat} (valid : CallResults len results)
    (isInt : len < 2 ^ 31) :
    (results 0 < 0 ∧ toInt (results 0) = results 0) ∨
      ∃ count : Nat, results 0 = count ∧ min 1 len ≤ count ∧ count ≤ len ∧
        CallResults (len - count : Nat) (laterResults results) := by
  rcases valid.first with ⟨bound, negative⟩ | ⟨atLeast, atMost⟩
  · exact .inl ⟨negative, toInt_of_bounds bound (by omega)⟩
  · have nonneg : 0 ≤ results 0 := by omega
    obtain ⟨count, result⟩ := Int.eq_ofNat_of_zero_le nonneg
    have later := valid.later nonneg
    rw [result] at later atLeast atMost
    rw [← Nat.cast_sub (by omega)] at later
    exact .inr ⟨count, result, by omega, by omega, later⟩

end Results

section Transfers

variable {results : Nat → Int} {len : Nat} {value : Int}

theorem Transfer.of_error (negative : results 0 < 0) :
    Transfer len results (results 0) 0 where
  within := Nat.zero_le len
  whole := by omega
  failed _ := ⟨0, rfl, negative, fun _ before => absurd before (Nat.not_lt_zero _), rfl⟩

theorem Transfer.of_whole (result : results 0 = len) : Transfer len results 0 len where
  within := Nat.le_refl len
  whole := by simp [result]
  failed noError := absurd rfl noError

theorem Transfer.of_part {count more : Nat} (result : results 0 = count) (part : count < len)
    (rest : Transfer (len - count) (laterResults results) value more) :
    Transfer len results value (count + more) where
  within := by
    have within := rest.within
    omega
  whole := by
    rw [rest.whole]
    omega
  failed := by
    intro noSuccess
    obtain ⟨call, same, negative, succeeded, transferredCount⟩ := rest.failed noSuccess
    refine ⟨call + 1, same, negative, ?_, ?_⟩
    · rintro (_ | earlier) before
      · omega
      · exact succeeded earlier (by omega)
    · rw [transferred_succ, result, ← transferredCount, Nat.cast_add]

namespace Calls

section Rounds

variable {buf : List Char} {count : Nat}

theorem toSize_length (isInt : buf.length < 2 ^ 31) : toSize buf.length = buf.length := by
  unfold toSize
  omega

theorem toInt_result (result : results 0 = count) (isInt : len < 2 ^ 31) (atMost : count ≤ len) :
    toInt (results 0) = count := by
  rw [result]
  exact toInt_of_range (by omega) (by omega)

theorem transferLoop_count (result : results 0 = count) (isInt : len < 2 ^ 31)
    (atMost : count ≤ len) (fuel : Nat) :
    transferLoop (fuel + 1) results len =
      if count < len then do
        let (value, more) ← transferLoop fuel (laterResults results) (len - count : Nat)
        return (value, count + more)
      else .returns (0, count) := by
  have noError : ¬ (count : Int) < 0 := by omega
  have goesOn : 0 < (len : Int) - count ↔ count < len := by omega
  rw [transferLoop, toInt_result result isInt atMost, Nat.cast_sub atMost]
  simp only [if_neg noError, goesOn, Int.toNat_natCast]
  rfl

theorem socketWrite_count (result : results 0 = count) (isInt : buf.length < 2 ^ 31)
    (atMost : count ≤ buf.length) (fuel : Nat) :
    socketWrite (fuel + 1) results buf buf.length =
      if count < buf.length then do
        let (value, handed) ←
          socketWrite fuel (laterResults results) (buf.drop count) (buf.drop count).length
        return (value, buf.take count ++ handed)
      else .returns (0, buf.take count) := by
  have noError : ¬ (count : Int) < 0 := by omega
  have goesOn : 0 < (buf.length : Int) - count ↔ count < buf.length := by omega
  rw [socketWrite, toSize_length isInt, toInt_result result isInt atMost, List.length_drop,
    Nat.cast_sub atMost]
  simp only [Nat.lt_irrefl, if_false, if_neg noError, goesOn, Int.toNat_natCast]
  rfl

theorem socketRead_count (result : results 0 = count) (isInt : buf.length < 2 ^ 31)
    (atMost : count ≤ buf.length) (stream : Nat → Char) (fuel : Nat) :
    socketRead (fuel + 1) results stream buf buf.length =
      if count < buf.length then do
        let (value, rest, taken) ←
          socketRead fuel (laterResults results) (fun place => stream (count + place))
            (buf.drop count) (buf.drop count).length
        return (value, streamBytes stream count ++ rest, count + taken)
      else .returns (0, streamBytes stream count ++ buf.drop count, count) := by
  have noError : ¬ (count : Int) < 0 := by omega
  have goesOn : 0 < (buf.length : Int) - count ↔ count < buf.length := by omega
  rw [socketRead, toSize_length isInt, toInt_result result isInt atMost, List.length_drop,
    Nat.cast_sub atMost]
  simp only [Nat.lt_irrefl, if_false, if_neg noError, goesOn, Int.toNat_natCast]
  rfl

end Rounds

/-- Each call makes progress, so the loop returns. -/
theorem transferLoop_settles (valid : CallResults len results) (isInt : len < 2 ^ 31) :
    ∃ value count, Outcome.Settles (transferLoop · results len) (.returns (value, count)) ∧
      Transfer len results value count := by
  induction len using Nat.strong_induction_on generalizing results with
  | _ len ih =>
      rcases valid.error_or_count isInt with ⟨negative, stored⟩ |
        ⟨count, result, atLeast, atMost, later⟩
      · refine ⟨results 0, 0, .of_round rfl fun fuel => ?_, .of_error negative⟩
        simp only [transferLoop, stored, if_pos negative]
      by_cases whole : count = len
      · subst whole
        refine ⟨0, count, .of_round rfl fun fuel => ?_, .of_whole result⟩
        rw [transferLoop_count result isInt atMost, if_neg (Nat.lt_irrefl count)]
      · obtain ⟨value, more, settles, rest⟩ := ih (len - count) (by omega) later (by omega)
        refine ⟨value, count + more, .of_succ rfl ?_, .of_part result (by omega) rest⟩
        simp only [transferLoop_count result isInt atMost, if_pos (by omega : count < len)]
        exact settles.bind_returns (.const _)

/-- The bytes handed over are those at the start of the buffer. -/
theorem socketWrite_eq {buf : List Char} (valid : CallResults buf.length results)
    (isInt : buf.length < 2 ^ 31) (fuel : Nat) :
    socketWrite fuel results buf buf.length = (do
      let (value, count) ← transferLoop fuel results buf.length
      return (value, buf.take count)) := by
  induction fuel generalizing results buf with
  | zero => rfl
  | succ fuel ih =>
      rcases valid.error_or_count isInt with ⟨negative, stored⟩ |
        ⟨count, result, _, atMost, later⟩
      · simp [socketWrite, transferLoop, stored, negative]
      · rw [← List.length_drop] at later
        rw [socketWrite_count result isInt atMost, transferLoop_count result isInt atMost,
          ← List.length_drop, ih later (by rw [List.length_drop]; omega)]
        split
        · simp [List.take_add]
        · rfl

theorem streamBytes_add (stream : Nat → Char) (count more : Nat) :
    streamBytes stream (count + more) =
      streamBytes stream count ++ streamBytes (fun place => stream (count + place)) more := by
  rw [streamBytes, List.range_add, List.map_append, List.map_map]
  rfl

/-- The bytes taken from the stream are at the start of the buffer, and behind
them the buffer is what it was. -/
theorem socketRead_eq {buf : List Char} (valid : CallResults buf.length results)
    (isInt : buf.length < 2 ^ 31) (stream : Nat → Char) (fuel : Nat) :
    socketRead fuel results stream buf buf.length = (do
      let (value, count) ← transferLoop fuel results buf.length
      return (value, streamBytes stream count ++ buf.drop count, count)) := by
  induction fuel generalizing results buf stream with
  | zero => rfl
  | succ fuel ih =>
      rcases valid.error_or_count isInt with ⟨negative, stored⟩ |
        ⟨count, result, _, atMost, later⟩
      · simp [socketRead, transferLoop, stored, negative, streamBytes]
      · rw [← List.length_drop] at later
        rw [socketRead_count result isInt atMost, transferLoop_count result isInt atMost,
          ← List.length_drop, ih later (by rw [List.length_drop]; omega)]
        split
        · simp [streamBytes_add]
        · rfl

theorem partialTransfers_resumed {buf : List Char} (isInt : buf.length < 2 ^ 31)
    (valid : CallResults buf.length results) (stream : Nat → Char) :
    ∃ value count,
      Outcome.Settles (socketWrite · results buf buf.length)
        (.returns (value, buf.take count)) ∧
      Outcome.Settles (socketRead · results stream buf buf.length)
        (.returns (value, streamBytes stream count ++ buf.drop count, count)) ∧
      Transfer buf.length results value count := by
  obtain ⟨value, count, settles, transfer⟩ := transferLoop_settles valid isInt
  refine ⟨value, count, ?_, ?_, transfer⟩
  · exact (settles.bind_returns (.const _)).congr (socketWrite_eq valid isInt)
  · exact (settles.bind_returns (.const _)).congr (socketRead_eq valid isInt stream)

/-- A call that takes two bytes, and one that fails. -/
def twoThenError (call : Nat) : Int :=
  [2].getD call (-1)

theorem partialTransfers_resumed_two :
    ∃ value count,
      Outcome.Settles (socketWrite · twoThenError ['a', 'b', 'c'] 3)
        (.returns (value, ['a', 'b', 'c'].take count)) ∧
      Outcome.Settles (socketRead · twoThenError Char.ofNat ['a', 'b', 'c'] 3)
        (.returns (value, streamBytes Char.ofNat count ++ ['a', 'b', 'c'].drop count, count)) ∧
      Transfer 3 twoThenError value count := by
  have valid : CallResults ['a', 'b', 'c'].length twoThenError := by
    rintro (_ | _ | call) succeeded
    · simp [CallResult, transferred, twoThenError]
    · simp [CallResult, transferred, twoThenError]
    · exact absurd (succeeded 1 (by omega)) (by decide)
  exact partialTransfers_resumed (by decide) valid Char.ofNat

/-- The call for an empty buffer can fail as well. -/
theorem emptyTransfer_failed :
    ¬ ∀ (buf : List Char) (results : Nat → Int), buf.length < 2 ^ 31 →
      CallResults buf.length results → ∃ value handed,
        Outcome.Settles (socketWrite · results buf buf.length) (.returns (value, handed)) ∧
        (value = 0 ↔ handed = buf) := by
  intro claimed
  obtain ⟨value, handed, settles, zeroIff⟩ :=
    claimed [] (fun _ => -1) (by decide) (.of_error _)
  have fails : Outcome.Settles (socketWrite · (fun _ => -1) [] 0) (.returns (-1, [])) :=
    .of_round rfl fun _ => rfl
  cases settles.unique fails
  exact absurd (zeroIff.mpr rfl) (by decide)

end Calls

end Transfers

/-- A first result and those of the calls behind it. -/
def resultsFrom (first : Int) (later : Nat → Int) : Nat → Int
  | 0 => first
  | call + 1 => later call

section Sockets

variable {results : Nat → Int}

/-- Writing so much to a client is what the calls with these results do. -/
def WritesAs (sock : Client) (data : List Char) (len : Int) (results : Nat → Int) : Prop :=
  ∀ fuel, (do
      let after ← socketWrite fuel sock data len
      return after.map (·.sent)) = (do
      let (value, handed) ← Calls.socketWrite fuel results data len
      return if value = 0 then some (sock.sent ++ handed) else none)

section Writing

variable {sock middle : Client} {data : List Char} {count : Nat}

theorem WritesAs.of_error {len : Int}
    (fails : ∀ fuel, socketWrite (fuel + 1) sock data len = .returns none) :
    WritesAs sock data len fun _ => -1
  | 0 => rfl
  | fuel + 1 => by
      rw [fails]
      rfl

theorem WritesAs.of_whole (isInt : data.length < 2 ^ 31)
    (written : sock.write data = some (data.length, middle))
    (passed : sock.Passed data middle) (result : results 0 = data.length) :
    WritesAs sock data data.length results
  | 0 => rfl
  | fuel + 1 => by
      rw [socketWrite_passed rfl written, if_neg (by omega),
        Calls.socketWrite_count result isInt (Nat.le_refl _), if_neg (Nat.lt_irrefl _)]
      simp [passed.sent]

theorem WritesAs.of_part (isInt : data.length < 2 ^ 31)
    (written : sock.write data = some (count, middle))
    (passed : sock.Passed (data.take count) middle) (part : count < data.length)
    (result : results 0 = count)
    (rest : WritesAs middle (data.drop count) (data.drop count).length
      (laterResults results)) :
    WritesAs sock data data.length results
  | 0 => rfl
  | fuel + 1 => by
      have left : (data.length : Int) - count = (data.drop count).length := by
        rw [List.length_drop, Nat.cast_sub (Nat.le_of_lt part)]
      rw [socketWrite_passed rfl written, if_pos (by omega), left, rest fuel,
        Calls.socketWrite_count result isInt (Nat.le_of_lt part), if_pos part]
      simp [passed.sent]

end Writing

/-- Writing to a client is a sequence of calls. -/
theorem socketWrite_calls (sock : Client) {data : List Char} (isInt : data.length < 2 ^ 31) :
    ∃ results, CallResults data.length results ∧
      WritesAs sock data data.length results := by
  obtain ⟨size, sizeEq⟩ : ∃ size, size = data.length := ⟨_, rfl⟩
  induction size using Nat.strong_induction_on generalizing sock data with
  | _ size ih =>
      rcases sock.write_refused_or_progress data with refused |
        ⟨count, middle, written, atLeast, atMost, passed⟩
      · exact ⟨fun _ => -1, .of_error _, .of_error (socketWrite_refused rfl refused)⟩
      have first : CallResult data.length count := .inr (by omega)
      by_cases whole : count = data.length
      · subst whole
        rw [List.take_length] at passed
        exact ⟨resultsFrom data.length fun _ => -1, .of_first first fun _ => .of_error _,
          .of_whole isInt written passed rfl⟩
      · obtain ⟨later, valid, rest⟩ := ih (data.length - count) (by omega) middle
          (show (data.drop count).length < 2 ^ 31 by rw [List.length_drop]; omega)
          List.length_drop.symm
        rw [List.length_drop, Nat.cast_sub atMost] at valid
        exact ⟨resultsFrom count later, .of_first first fun _ => valid,
          .of_part isInt written passed (by omega) rfl rest⟩

/-- A write of a negative amount is a call that fails. -/
theorem socketWrite_calls_negative (sock : Client) (data : List Char) {len : Int}
    (negative : len < 0) :
    ∃ results, CallResults len results ∧ WritesAs sock data len results :=
  ⟨fun _ => -1, .of_error _, .of_error fun _ => by rw [socketWrite, if_pos negative]⟩

/-- Reading so much from a socket is what the calls with these results do to its
data. -/
def ReadsAs (sock : Socket) (data buf : List Char) (len : Int) (results : Nat → Int) : Prop :=
  ∀ fuel, (do
      let (received, _) ← socketRead fuel buf.length len sock
      return received) = (do
      let (value, memory, _) ← Calls.socketRead fuel results (data.getD · '\x00') buf len
      return if value = 0 then some memory else none)

section Reading

variable {sock next : Socket} {received data buf : List Char}

theorem streamBytes_getD (received more : List Char) (default : Char) :
    Calls.streamBytes ((received ++ more).getD · default) received.length = received := by
  apply List.ext_getElem
  · simp [Calls.streamBytes]
  · intro place _ inReceived
    simp [Calls.streamBytes, List.getElem?_append_left, inReceived]

theorem getD_behind (received more : List Char) (default : Char) (place : Nat) :
    (received ++ more).getD (received.length + place) default = more.getD place default := by
  rw [List.getD_append_right _ _ _ _ (Nat.le_add_right _ _), Nat.add_sub_cancel_left]

theorem ReadsAs.of_whole (isInt : buf.length < 2 ^ 31)
    (read : sock.read buf.length = .data received next) (whole : received.length = buf.length)
    (result : results 0 = received.length) : ReadsAs sock (received ++ data) buf buf.length results
  | 0 => rfl
  | fuel + 1 => by
      rw [← Calls.toSize_length isInt] at read
      rw [socketRead_received (Int.natCast_nonneg _) read (by omega), if_neg (by omega),
        Calls.socketRead_count result isInt (by omega), if_neg (by omega), streamBytes_getD,
        whole, List.drop_length, List.append_nil]
      rfl

theorem ReadsAs.of_part (isInt : buf.length < 2 ^ 31)
    (read : sock.read buf.length = .data received next) (part : received.length < buf.length)
    (result : results 0 = received.length)
    (rest : ReadsAs next data (buf.drop received.length) (buf.drop received.length).length
      (laterResults results)) :
    ReadsAs sock (received ++ data) buf buf.length results
  | 0 => rfl
  | fuel + 1 => by
      have left : (buf.length : Int) - received.length = (buf.drop received.length).length := by
        rw [List.length_drop, Nat.cast_sub (by omega)]
      have mapped := congrArg (· >>= fun more => .returns (more.map (received ++ ·)))
        (rest fuel)
      rw [← Calls.toSize_length isInt] at read
      rw [socketRead_received (Int.natCast_nonneg _) read (by omega), if_pos (by omega), left,
        Calls.socketRead_count result isInt (by omega), if_pos part]
      simp only [List.length_drop, streamBytes_getD, getD_behind] at mapped ⊢
      simpa [bind_assoc, apply_ite (Option.map _)] using mapped

end Reading

/-- Reading from a socket is a sequence of calls. -/
theorem socketRead_calls {sock : Socket} {wanted rest buf : List Char} {closed : Bool}
    (delivers : sock.Delivers (wanted ++ rest) closed)
    (lengthEq : buf.length = wanted.length) (isInt : buf.length < 2 ^ 31) :
    ∃ results, CallResults buf.length results ∧
      ReadsAs sock (wanted ++ rest) buf buf.length results := by
  obtain ⟨size, sizeEq⟩ : ∃ size, size = wanted.length := ⟨_, rfl⟩
  induction size using Nat.strong_induction_on generalizing sock wanted buf with
  | _ size ih =>
      obtain ⟨received, more, next, rfl, progress, read, delivered⟩ := read_wanted delivers
      rw [← lengthEq] at read progress sizeEq
      rw [List.length_append] at lengthEq
      rw [List.append_assoc]
      have first : CallResult buf.length received.length := .inr (by omega)
      by_cases whole : received.length = buf.length
      · exact ⟨resultsFrom received.length fun _ => -1, .of_first first fun _ => .of_error _,
          .of_whole isInt read whole rfl⟩
      · have left : (buf.drop received.length).length = more.length := by
          rw [List.length_drop]
          omega
        obtain ⟨later, valid, rest⟩ := ih more.length (by omega) delivered left (by omega) rfl
        rw [List.length_drop, Nat.cast_sub (by omega)] at valid
        exact ⟨resultsFrom received.length later, .of_first first fun _ => valid,
          .of_part isInt read (by omega) rfl rest⟩

/-- A read of a negative amount is a call that fails. -/
theorem socketRead_calls_negative (sock : Socket) (data buf : List Char) {len : Int}
    (negative : len < 0) :
    ∃ results, CallResults len results ∧ ReadsAs sock data buf len results := by
  refine ⟨fun _ => -1, .of_error _, fun fuel => ?_⟩
  cases fuel with
  | zero => rfl
  | succ fuel =>
      rw [socketRead, if_pos negative]
      rfl

end Sockets

end WebCrawl
