import WebCrawl.AnswerDecoding

/-!
# Where the answer parser reaches

`readAnswerFromServer` checks the length of the first line of an answer.  The
offset into the fourth line and the number that stands there are not checked,
so the server decides which byte is read and how much memory is asked for.  For
a negative number there is no memory, but no read either, and the failure of
the read is returned; the successor of the largest `int` is undefined.
-/

namespace WebCrawl

/-- The accesses of `readAnswerFromServer` to what it reads, with the memory
they go to: the two offsets into the first line, the offset into the line with
the length, the request for memory and the closing NUL. -/
inductive AnswerAccess where
  | statusLine (index : Nat) (block : List Char)
  | lengthLine (block : List Char)
  | allocation (contentSize : Int)
  | terminator (contentSize : Int) (room : Nat)
  deriving DecidableEq

namespace AnswerAccess

def InRange : AnswerAccess → Prop
  | .statusLine index block => index < block.length
  | .lengthLine block => 16 < block.length
  | .allocation contentSize => 0 < contentSize + 1 ∧ contentSize + 1 < 2 ^ 31
  | .terminator contentSize room => 0 ≤ contentSize ∧ contentSize < room

end AnswerAccess

/-- The accesses made on a stream, each after everything that comes before it
in `readAnswerFromServer`. -/
inductive Performs (sock : Socket) : AnswerAccess → Prop
  | statusLine {line : List Char} {after : Socket} {index : Nat} :
      Outcome.Settles (inputStringFd · 15 sock) (.returns (line, after)) →
      ¬ toSize (toInt (strlen line)) < statusLineLength →
      index = 12 ∨ index = 9 → Performs sock (.statusLine index line)
  | lengthLine {code : Int} {block : List Char} {after : Socket} :
      Outcome.Settles (readLengthLine · sock) (.returns (some (code, block), after)) →
      Performs sock (.lengthLine block)
  | allocation {code : Int} {block : List Char} {after middle : Socket} :
      Outcome.Settles (readLengthLine · sock) (.returns (some (code, block), after)) →
      16 < block.length →
      Outcome.Settles (consumeLines · 3 after) (.returns middle) →
      Performs sock (.allocation (atoi (block.drop 16)))
  | terminator {code : Int} {block content : List Char} {after middle last : Socket} :
      Outcome.Settles (readLengthLine · sock) (.returns (some (code, block), after)) →
      16 < block.length →
      Outcome.Settles (consumeLines · 3 after) (.returns middle) →
      Outcome.Settles (socketRead · (mallocRoom (atoi (block.drop 16) + 1))
        (atoi (block.drop 16)) middle) (.returns (some content, last)) →
      Performs sock (.terminator (atoi (block.drop 16))
        (mallocRoom (atoi (block.drop 16) + 1)))

/-- `readAnswerFromServer` returns -1, whatever the page and where it is saved. -/
def Refuses (sock : Socket) : Prop :=
  ∀ env fileName, ∃ after, Outcome.Settles (readAnswerFromServer · env sock fileName)
    (.returns (none, after))

/-- Every access is in range, unless -1 is returned, and nothing undefined happens
before the delivery. -/
structure StaysInside (sock : Socket) : Prop where
  inRange : ∀ access, Performs sock access → access.InRange ∨ Refuses sock
  defined : ¬ Outcome.Settles (receiveAnswer · sock) .faults

/-- The fourth line and what follows it, when the first line is accepted. -/
def announced (closed : Bool) (data : List Char) : Option (List Char × List Char) :=
  (nextLine closed data).bind fun (line, rest) =>
    if AcceptedLine line then (afterLines closed 2 rest).bind (nextLine closed) else none

/-- The fourth line reaches as far as the offset, and the number from there on,
if it is used, has a successor that is an `int`. -/
def SoundLength (closed : Bool) (lengthLine rest : List Char) : Prop :=
  16 ≤ lengthLine.length ∧
    ((afterLines closed 3 rest).isSome →
      atoi ((lengthLine ++ ['\x00']).drop 16) ≠ 2 ^ 31 - 1)

/-- Every length that a stream gets to announce is sound. -/
def SoundlyAnnounced (closed : Bool) (data : List Char) : Prop :=
  ∀ lengthLine rest, announced closed data = some (lengthLine, rest) →
    SoundLength closed lengthLine rest

section Safety

variable {sock : Socket} {data line rest : List Char} {closed : Bool}

/-- A line that passes the check is at least as long as the status line, also
when its length is no `int`. -/
theorem statusLineLength_le (accepted : ¬ toSize (toInt (strlen line)) < statusLineLength) :
    statusLineLength ≤ line.length := by
  have fifteen : statusLineLength = 15 := rfl
  have within : strlen line ≤ line.length := (List.takeWhile_sublist _).length_le
  have notMore := toInt_le (strlen line)
  obtain ⟨lower, upper⟩ := toInt_bounds (strlen line)
  rw [fifteen] at accepted ⊢
  by_contra short
  have same : toInt (strlen line) = strlen line :=
    toInt_of_range (by omega) (by omega)
  rw [same, toSize] at accepted
  omega

theorem announced_line (next : nextLine closed data = some (line, rest)) :
    announced closed data =
      if AcceptedLine line then (afterLines closed 2 rest).bind (nextLine closed)
      else none := by
  rw [announced, next, Option.bind_some]

theorem readLengthLine_refused (delivers : sock.Delivers data closed)
    (next : nextLine closed data = some (line, rest)) (refused : ¬ AcceptedLine line) :
    ∃ after, Outcome.Settles (readLengthLine · sock) (.returns (none, after)) := by
  obtain ⟨after, readLine, _⟩ := inputStringFd_line delivers next (by decide : 0 < 15)
  refine ⟨after, readLine.bind_returns ?_⟩
  simp only [strlen_append_nul]
  by_cases short : toSize (toInt (strlen line)) < statusLineLength
  · simp only [if_pos short]
    exact .const _
  · have otherCode : ¬ (lineCode line = 404 ∨ lineCode line = 403 ∨ lineCode line = 200) :=
      fun known => refused ⟨Nat.le_of_not_lt short, known⟩
    simp only [lineCode] at otherCode
    simp only [if_neg short, if_neg otherCode]
    exact .const _

/-- The beginning gives the fourth line, unless it does not get that far. -/
theorem readLengthLine_cases (delivers : sock.Delivers data closed) :
    (announced closed data = none ∧
      (Outcome.Settles (readLengthLine · sock) .unfinished ∨
        ∃ after, Outcome.Settles (readLengthLine · sock) (.returns (none, after)))) ∨
    ∃ lengthLine rest code after, announced closed data = some (lengthLine, rest) ∧
      Outcome.Settles (readLengthLine · sock)
        (.returns (some (code, lengthLine ++ ['\x00']), after)) ∧
      after.Delivers rest closed := by
  cases next : nextLine closed data with
  | none =>
      have nothing : announced closed data = none := by
        rw [announced, next, Option.bind_none]
      exact Or.inl ⟨nothing, Or.inl (readLengthLine_endless delivers next)⟩
  | some first =>
      obtain ⟨line, behind⟩ := first
      rw [announced_line next]
      by_cases accepted : AcceptedLine line
      swap
      · rw [if_neg accepted]
        exact Or.inl ⟨rfl, Or.inr (readLengthLine_refused delivers next accepted)⟩
      rw [if_pos accepted]
      obtain ⟨second, delivered, continues⟩ :=
        readLengthLine_accepted delivers next accepted
      cases two : afterLines closed 2 behind with
      | none =>
          exact Or.inl ⟨rfl, Or.inl
            (continues _ (consumeLines_endless delivered two).bind_unfinished)⟩
      | some fourth =>
          obtain ⟨third, skipped, delivered⟩ := consumeLines_lines delivered two
          rw [Option.bind_some]
          cases last : nextLine closed fourth with
          | none =>
              exact Or.inl ⟨rfl, Or.inl (continues _ (skipped.bind_returns
                (inputStringFd_endless delivered last (by decide))))⟩
          | some found =>
              obtain ⟨lengthLine, rest⟩ := found
              obtain ⟨after, read, delivered⟩ :=
                inputStringFd_line delivered last (by decide : 0 < 10)
              exact Or.inr ⟨lengthLine, rest, lineCode line, after, rfl,
                continues _ (skipped.bind_returns read), delivered⟩

/-- The offsets into the first line are always in range. -/
theorem statusLine_inRange {index : Nat} {block : List Char}
    (performed : Performs sock (.statusLine index block)) : index < block.length := by
  cases performed with
  | statusLine read accepted place =>
      have fifteen : statusLineLength = 15 := rfl
      have long := statusLineLength_le accepted
      omega

theorem receiveContent_defined {code size : Int} (delivers : sock.Delivers data closed)
    (small : size < 2 ^ 31 - 1) :
    ∃ result, Outcome.Settles (receiveContent · code size sock) result ∧
      result ≠ .faults := by
  by_cases negative : size < 0
  · exact ⟨_, receiveContent_negative negative, nofun⟩
  by_cases short : (data.length : Int) < size
  · exact ⟨_, receiveContent_short delivers short small, nofun⟩
  · have split := List.take_append_drop size.toNat data
    rw [← split] at delivers
    obtain ⟨after, _, received⟩ := @receiveContent_data _ _ code size _ _ delivers
      (by rw [List.length_take]; omega) small
    exact ⟨_, received, nofun⟩

theorem atoi_lt (block : List Char) : atoi block < 2 ^ 31 :=
  (toInt_bounds _).2

section Announced

variable {code : Int} {lengthLine : List Char} {after : Socket}

/-- A negative number in the fourth line is refused. -/
theorem refuses_of_negative
    (read : Outcome.Settles (readLengthLine · sock)
      (.returns (some (code, lengthLine ++ ['\x00']), after)))
    (long : 16 ≤ lengthLine.length) {middle : Socket}
    (skipped : Outcome.Settles (consumeLines · 3 after) (.returns middle))
    (negative : atoi ((lengthLine ++ ['\x00']).drop 16) < 0) : Refuses sock :=
  fun _ _ => ⟨middle, readAnswerFromServer_refused (receiveAnswer_sized read long
    (skipped.bind_returns (receiveContent_negative negative)))⟩

theorem inRange_of_sound
    (read : Outcome.Settles (readLengthLine · sock)
      (.returns (some (code, lengthLine ++ ['\x00']), after)))
    (delivered : after.Delivers rest closed)
    (sound : SoundLength closed lengthLine rest) {access : AnswerAccess}
    (performed : Performs sock access) : access.InRange ∨ Refuses sock := by
  obtain ⟨long, bounded⟩ := sound
  cases performed with
  | statusLine first accepted place =>
      exact Or.inl (statusLine_inRange (.statusLine first accepted place))
  | lengthLine other =>
      cases other.unique read
      rw [AnswerAccess.InRange, List.length_append, List.length_singleton]
      omega
  | allocation other _ skipped =>
      cases other.unique read
      have notLargest := bounded (consumeLines_isSome delivered skipped)
      have isInt := atoi_lt ((lengthLine ++ ['\x00']).drop 16)
      by_cases negative : atoi ((lengthLine ++ ['\x00']).drop 16) < 0
      · exact Or.inr (refuses_of_negative read long skipped negative)
      · exact Or.inl ⟨by omega, by omega⟩
  | terminator other _ skipped filled =>
      cases other.unique read
      have notLargest := bounded (consumeLines_isSome delivered skipped)
      have isInt := atoi_lt ((lengthLine ++ ['\x00']).drop 16)
      have nonneg : 0 ≤ atoi ((lengthLine ++ ['\x00']).drop 16) := by
        by_contra negative
        cases filled.unique (socketRead_negative (not_le.mp negative))
      obtain ⟨size, sizeEq⟩ := Int.eq_ofNat_of_zero_le nonneg
      rw [AnswerAccess.InRange, sizeEq, mallocRoom_succ (by omega)]
      omega

theorem defined_of_sound
    (read : Outcome.Settles (readLengthLine · sock)
      (.returns (some (code, lengthLine ++ ['\x00']), after)))
    (delivered : after.Delivers rest closed)
    (sound : SoundLength closed lengthLine rest) :
    ¬ Outcome.Settles (receiveAnswer · sock) .faults := by
  obtain ⟨long, bounded⟩ := sound
  intro faulted
  cases three : afterLines closed 3 rest with
  | none =>
      cases faulted.unique (receiveAnswer_sized read long
        (consumeLines_endless delivered three).bind_unfinished)
  | some last =>
      obtain ⟨middle, skipped, delivered⟩ := consumeLines_lines delivered three
      have notLargest := bounded (Option.isSome_iff_exists.mpr ⟨last, three⟩)
      have isInt := atoi_lt ((lengthLine ++ ['\x00']).drop 16)
      obtain ⟨result, received, defined⟩ :=
        @receiveContent_defined _ _ _ code (atoi ((lengthLine ++ ['\x00']).drop 16)) delivered
          (by omega)
      exact defined (faulted.unique
        (receiveAnswer_sized read long (skipped.bind_returns received))).symm

/-- A short fourth line is read behind its end. -/
theorem receiveAnswer_short
    (read : Outcome.Settles (readLengthLine · sock)
      (.returns (some (code, lengthLine ++ ['\x00']), after)))
    (short : lengthLine.length < 16) :
    Outcome.Settles (receiveAnswer · sock) .faults := by
  have outside : (lengthLine ++ ['\x00']).length ≤ 16 := by
    rw [List.length_append, List.length_singleton]
    omega
  refine (read.bind_returns ?_).congr (receiveAnswer_eq · sock)
  simp only [receiveSized, if_pos outside]
  exact .const _

/-- The largest `int` in the fourth line is not refused. -/
theorem not_refuses_of_largest
    (read : Outcome.Settles (readLengthLine · sock)
      (.returns (some (code, lengthLine ++ ['\x00']), after)))
    (long : 16 ≤ lengthLine.length) {middle : Socket} {last : List Char}
    (skipped : Outcome.Settles (consumeLines · 3 after) (.returns middle))
    (delivered : middle.Delivers last closed)
    (largest : atoi ((lengthLine ++ ['\x00']).drop 16) = 2 ^ 31 - 1) : ¬ Refuses sock := by
  intro refuses
  obtain ⟨_, refused⟩ := refuses openDirectory indexPage
  rcases @receiveContent_oversized _ _ code _ _ delivered largest with endless | faulted
  · cases refused.unique (readAnswerFromServer_unfinished
      (receiveAnswer_sized read long (skipped.bind_returns endless)))
  · cases refused.unique (readAnswerFromServer_faults
      (receiveAnswer_sized read long (skipped.bind_returns faulted)))

theorem soundLength_of_staysInside
    (read : Outcome.Settles (readLengthLine · sock)
      (.returns (some (code, lengthLine ++ ['\x00']), after)))
    (delivered : after.Delivers rest closed) (inside : StaysInside sock) :
    SoundLength closed lengthLine rest := by
  have long : 16 ≤ lengthLine.length := by
    by_contra short
    exact inside.defined (receiveAnswer_short read (not_le.mp short))
  refine ⟨long, fun complete largest => ?_⟩
  obtain ⟨last, three⟩ := Option.isSome_iff_exists.mp complete
  obtain ⟨middle, skipped, delivered⟩ := consumeLines_lines delivered three
  have within : 16 < (lengthLine ++ ['\x00']).length := by
    rw [List.length_append, List.length_singleton]
    omega
  rcases inside.inRange _ (.allocation read within skipped) with ⟨_, below⟩ | refuses
  · omega
  · exact not_refuses_of_largest read long skipped delivered largest refuses

end Announced

/-- Without a fourth line only the first one is looked into. -/
theorem staysInside_of_none (nothing : Outcome.Settles (readLengthLine · sock) .unfinished ∨
    ∃ after, Outcome.Settles (readLengthLine · sock) (.returns (none, after))) :
    StaysInside sock := by
  have noLine : ∀ found after, ¬ Outcome.Settles (readLengthLine · sock)
      (.returns (some found, after)) := by
    intro found after read
    rcases nothing with endless | ⟨middle, refused⟩
    · cases read.unique endless
    · cases read.unique refused
  refine ⟨fun access performed => ?_, fun faulted => ?_⟩
  · cases performed with
    | statusLine first accepted place =>
        exact Or.inl (statusLine_inRange (.statusLine first accepted place))
    | lengthLine read | allocation read | terminator read => exact absurd read (noLine _ _)
  · rcases nothing with endless | ⟨middle, refused⟩
    · cases faulted.unique (receiveAnswer_unfinished endless)
    · have returned : Outcome.Settles (receiveAnswer · sock) (.returns (none, middle)) :=
        (refused.bind_returns (.const _)).congr (receiveAnswer_eq · sock)
      cases faulted.unique returned

/-- The parser stays inside its buffers exactly when the fourth line is long
enough and the number in it is not the largest one. -/
theorem readAnswerFromServer_staysInside_iff (delivers : sock.Delivers data closed) :
    StaysInside sock ↔ SoundlyAnnounced closed data := by
  rcases readLengthLine_cases delivers with
    ⟨noLine, nothing⟩ | ⟨lengthLine, rest, code, after, announcedEq, read, delivered⟩
  · refine iff_of_true (staysInside_of_none nothing) fun lengthLine rest found => ?_
    rw [noLine] at found
    cases found
  · constructor
    · intro inside other behind found
      rw [announcedEq] at found
      cases found
      exact soundLength_of_staysInside read delivered inside
    · intro sound
      have soundLength := sound lengthLine rest announcedEq
      exact ⟨fun access => inRange_of_sound read delivered soundLength,
        defined_of_sound read delivered soundLength⟩

end Safety

/-- An answer whose fourth line is the given one. -/
def answerWithLength (lengthLine body : List Char) : List Char :=
  crlfLines ["HTTP/1.1 200 OK".toList, [], [], lengthLine, [], [], []] ++ body

theorem readAnswerFromServer_staysInside_iff_three :
    StaysInside
      (.ofData true (answerWithLength "Content-Length: 3".toList "abc".toList)) := by
  apply (readAnswerFromServer_staysInside_iff
    (SegmentedStream.Stream.ofData_delivers true _)).mpr
  intro lengthLine rest found
  have announcedEq :
      announced true (answerWithLength "Content-Length: 3".toList "abc".toList) =
        some ("Content-Length: 3".toList, crlfLines [[], [], []] ++ "abc".toList) := by
    decide
  rw [announcedEq] at found
  cases found
  exact ⟨by decide, by decide⟩

/-- A fourth line without a number is too short for the offset. -/
theorem readAnswerFromServer_short_length_line :
    Outcome.Settles
      (readAnswerFromServer · openDirectory
        (.ofData true (answerWithLength "Content-Length:".toList [])) indexPage) .faults ∧
    ¬ StaysInside (.ofData true (answerWithLength "Content-Length:".toList [])) := by
  have announcedEq : announced true (answerWithLength "Content-Length:".toList []) =
      some ("Content-Length:".toList, crlfLines [[], [], []]) := by
    decide
  have delivers := SegmentedStream.Stream.ofData_delivers true
    (answerWithLength "Content-Length:".toList [])
  rcases readLengthLine_cases delivers with
    ⟨noLine, _⟩ | ⟨lengthLine, rest, code, after, found, read, _⟩
  · rw [announcedEq] at noLine
    cases noLine
  · rw [announcedEq] at found
    cases found
    have faulted := receiveAnswer_short read (by decide)
    exact ⟨faulted.bind_faults.congr (readAnswerFromServer_eq · _ _ _),
      fun inside => inside.defined faulted⟩

end WebCrawl
