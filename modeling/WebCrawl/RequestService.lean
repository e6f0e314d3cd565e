import WebCrawl.ServerRequest

/-!
# Which requests are served

A server thread is done with a connection when `getRequest` returns.  What a
client sends decides that: `recv_get` needs a first line of more than thirteen
characters and five more lines, and each missing one is waited for for ever.
-/

namespace WebCrawl

@[simp]
theorem strlen_append_nul (line : List Char) :
    strlen (line ++ ['\x00']) = strlen line := by
  have same : cstr (line ++ ['\x00']) = cstr line := by
    induction line with
    | nil => rfl
    | cons ch line ih =>
        unfold cstr at ih ⊢
        by_cases isNul : ch = '\x00'
        · simp [isNul]
        · simpa [isNul] using ih
  rw [strlen, same, strlen]

section Receiving

variable {rootDir : CString} {sock : Socket} {data line rest : List Char}
variable {closed : Bool}

theorem recvGet_endless (delivers : sock.Delivers data closed)
    (noLine : nextLine closed data = none) :
    Outcome.Settles (recvGet · rootDir sock) .unfinished :=
  (inputStringFd_endless delivers noLine (by decide)).bind_unfinished

theorem toSize_le_emptyRequestLength {length : Int} (isInt : length < 2 ^ 31)
    (notBelow : -2 ^ 31 ≤ length) :
    toSize length ≤ emptyRequestLength ↔ 0 ≤ length ∧ length ≤ 13 := by
  have thirteen : emptyRequestLength = 13 := rfl
  rw [thirteen, toSize]
  omega

theorem recvGet_short (delivers : sock.Delivers data closed)
    (next : nextLine closed data = some (line, rest))
    (nonneg : 0 ≤ toInt (strlen line)) (short : toInt (strlen line) ≤ 13) :
    ∃ after, Outcome.Settles (recvGet · rootDir sock) (.returns (none, after)) ∧
      after.Delivers rest closed := by
  obtain ⟨after, settles, delivered⟩ :=
    inputStringFd_line delivers next (by decide : 0 < 10)
  have refused := (toSize_le_emptyRequestLength (toInt_bounds _).2
    (toInt_bounds _).1).mpr ⟨nonneg, short⟩
  refine ⟨after, settles.bind_returns ?_, delivered⟩
  simpa [refused] using Outcome.Settles.const _

/-- A first line whose length is negative as an `int` is cut before its start. -/
theorem recvGet_negative (delivers : sock.Delivers data closed)
    (next : nextLine closed data = some (line, rest))
    (negative : toInt (strlen line) < 0) :
    Outcome.Settles (recvGet · rootDir sock) .faults := by
  obtain ⟨after, settles, _⟩ :=
    inputStringFd_line delivers next (by decide : 0 < 10)
  have accepted : ¬ toSize (toInt (strlen line)) ≤ emptyRequestLength := by
    rw [toSize_le_emptyRequestLength (toInt_bounds _).2 (toInt_bounds _).1]
    omega
  have beforeStart : toInt (strlen line) < 9 := by omega
  refine settles.bind_returns ?_
  simpa [accepted, beforeStart] using Outcome.Settles.const _

theorem recvGet_long (delivers : sock.Delivers data closed)
    (next : nextLine closed data = some (line, rest))
    (long : 13 < toInt (strlen line)) :
    ∃ middle : Socket, middle.Delivers rest closed ∧
      ∀ result, Outcome.Settles (consumeLines · 5 middle) result →
        Outcome.Settles (recvGet · rootDir sock)
          (result >>= fun after =>
            .returns (some (requestName rootDir (line ++ ['\x00'])), after)) := by
  obtain ⟨middle, settles, delivered⟩ :=
    inputStringFd_line delivers next (by decide : 0 < 10)
  have accepted : ¬ toSize (toInt (strlen line)) ≤ emptyRequestLength := by
    rw [toSize_le_emptyRequestLength (toInt_bounds _).2 (toInt_bounds _).1]
    omega
  have inside : ¬ toInt (strlen line) < 9 := by omega
  refine ⟨middle, delivered, fun result consumed => settles.bind_returns ?_⟩
  simp only [strlen_append_nul, if_neg accepted, if_neg inside]
  exact consumed.bind fun _ _ => .const _

theorem recvGet_name {last : List Char} (delivers : sock.Delivers data closed)
    (next : nextLine closed data = some (line, rest))
    (long : 13 < toInt (strlen line)) (lines : afterLines closed 5 rest = some last) :
    ∃ after, Outcome.Settles (recvGet · rootDir sock)
        (.returns (some (requestName rootDir (line ++ ['\x00'])), after)) ∧
      after.Delivers last closed := by
  obtain ⟨middle, middleDelivers, received⟩ := recvGet_long delivers next long
  obtain ⟨after, consumed, delivered⟩ := consumeLines_lines middleDelivers lines
  exact ⟨after, received _ consumed, delivered⟩

theorem recvGet_waiting (delivers : sock.Delivers data closed)
    (next : nextLine closed data = some (line, rest))
    (long : 13 < toInt (strlen line)) (missing : afterLines closed 5 rest = none) :
    Outcome.Settles (recvGet · rootDir sock) .unfinished := by
  obtain ⟨middle, middleDelivers, received⟩ := recvGet_long delivers next long
  exact received _ (consumeLines_endless middleDelivers missing)

/-- What `recv_get` does with a first line: it is undefined, refuses the line
without reading on, waits for one of the five lines after it, or cuts out the
name. -/
theorem recvGet_cases (rootDir : CString) (delivers : sock.Delivers data closed)
    (next : nextLine closed data = some (line, rest)) :
    (toInt (strlen line) < 0 ∧ Outcome.Settles (recvGet · rootDir sock) .faults) ∨
    (0 ≤ toInt (strlen line) ∧ toInt (strlen line) ≤ 13 ∧ ∃ after,
      Outcome.Settles (recvGet · rootDir sock) (.returns (none, after)) ∧
      after.Delivers rest closed) ∨
    (13 < toInt (strlen line) ∧ afterLines closed 5 rest = none ∧
      Outcome.Settles (recvGet · rootDir sock) .unfinished) ∨
    (13 < toInt (strlen line) ∧ ∃ last after, afterLines closed 5 rest = some last ∧
      Outcome.Settles (recvGet · rootDir sock)
        (.returns (some (requestName rootDir (line ++ ['\x00'])), after)) ∧
      after.Delivers last closed) := by
  by_cases negative : toInt (strlen line) < 0
  · exact Or.inl ⟨negative, recvGet_negative delivers next negative⟩
  have nonneg : 0 ≤ toInt (strlen line) := by omega
  by_cases short : toInt (strlen line) ≤ 13
  · exact Or.inr (Or.inl ⟨nonneg, short, recvGet_short delivers next nonneg short⟩)
  have long : 13 < toInt (strlen line) := by omega
  cases lines : afterLines closed 5 rest with
  | none =>
      exact Or.inr (Or.inr (Or.inl ⟨long, rfl, recvGet_waiting delivers next long lines⟩))
  | some last =>
      obtain ⟨after, named, delivered⟩ := recvGet_name delivers next long lines
      exact Or.inr (Or.inr (Or.inr ⟨long, last, after, rfl, named, delivered⟩))

/-- A name that `recv_get` returns is cut out of a first line that is long
enough. -/
theorem recvGet_returned {rootDir name : CString} {after : Socket}
    (delivers : sock.Delivers data closed)
    (next : nextLine closed data = some (line, rest))
    (received : Outcome.Settles (recvGet · rootDir sock) (.returns (some name, after))) :
    13 < toInt (strlen line) ∧ name = requestName rootDir (line ++ ['\x00']) := by
  rcases recvGet_cases rootDir delivers next with
    ⟨_, faulted⟩ | ⟨_, _, _, refused, _⟩ | ⟨_, _, waiting⟩ | ⟨long, _, _, _, named, _⟩
  · cases received.unique faulted
  · cases received.unique refused
  · cases received.unique waiting
  · cases received.unique named
    exact ⟨long, rfl⟩

end Receiving

section Answering

variable {client : Client} {buf msg : List Char}

/-- The client takes the header and as much of the message as is sent. -/
def Accepts (client : Client) (buf msg : List Char) : Prop :=
  0 ≤ toInt (strlen msg) ∧
    client.Takes (buf.length + (toInt (strlen msg)).toNat)

theorem toInt_le (number : Nat) : toInt number ≤ number := by
  unfold toInt
  rw [Int.bmod_def]
  omega

/-- Sending the answer ends, in the end of the process unless the client takes
all of it. -/
theorem writeAnswer_settles (small : buf.length < 2 ^ 31) :
    (¬ Accepts client buf msg ∧
      Outcome.Settles (writeAnswer · client buf msg) .exits) ∨
    (Accepts client buf msg ∧
      ∃ after, Outcome.Settles (writeAnswer · client buf msg) (.returns after) ∧
        client.Passed (buf ++ (cstr msg).take (toInt (strlen msg)).toNat) after) := by
  have bufLength : toInt buf.length = buf.length :=
    toInt_of_range (by omega) (by omega)
  obtain ⟨sent, headerSettles, headerSent, headerFailed⟩ :=
    @socketWrite_settles client buf _ bufLength
  cases sent with
  | none =>
      refine Or.inl ⟨fun accepts => headerFailed rfl ?_,
        headerSettles.bind_returns (.const _)⟩
      exact fun limit limited => (Nat.le_add_right _ _).trans
        (accepts.2 limit limited)
  | some middle =>
      obtain ⟨headerTaken, headerPassed⟩ := headerSent middle rfl
      by_cases negative : toInt (strlen msg) < 0
      · exact Or.inl ⟨fun accepts => absurd accepts.1 (by omega),
          headerSettles.bind_returns
            ((socketWrite_negative negative).bind_returns (.const _))⟩
      have nonneg : 0 ≤ toInt (strlen msg) := by omega
      obtain ⟨sent, bodySettles, bodySent, bodyFailed⟩ :=
        @socketWrite_part middle (cstr msg) _ nonneg (toInt_le (strlen msg))
      have bodyLength : ((cstr msg).take (toInt (strlen msg)).toNat).length =
          (toInt (strlen msg)).toNat := by
        have bound := toInt_le (strlen msg)
        rw [List.length_take, ← strlen]
        omega
      rw [bodyLength, headerPassed.takes_iff headerTaken] at bodySent bodyFailed
      cases sent with
      | none =>
          exact Or.inl ⟨fun accepts => bodyFailed rfl accepts.2,
            headerSettles.bind_returns (bodySettles.bind_returns (.const _))⟩
      | some after =>
          obtain ⟨bodyTaken, bodyPassed⟩ := bodySent after rfl
          exact Or.inr ⟨⟨nonneg, bodyTaken⟩, after,
            headerSettles.bind_returns (bodySettles.bind_returns (.const _)),
            headerPassed.trans bodyPassed⟩

end Answering

section Serving

variable {env : ServerEnv} {sock : Socket} {client : Client}
variable {data line rest : List Char} {closed : Bool}

def ServerEnv.response (env : ServerEnv) (line : List Char) : Response :=
  (env.file (requestName env.rootDir (line ++ ['\x00']))).response

def ServerEnv.header (env : ServerEnv) (response : Response) : List Char :=
  WebCrawl.header response.status env.date (toInt (strlen response.msg))

/-- The bytes of the answer to a request with the given first line. -/
def ServerEnv.answer (env : ServerEnv) (line : List Char) : List Char :=
  env.header (env.response line) ++
    (cstr (env.response line).msg).take (toInt (strlen (env.response line).msg)).toNat

/-- The client takes the whole answer to a request with the given first line. -/
def ServerEnv.Accepts (env : ServerEnv) (client : Client) (line : List Char) : Prop :=
  WebCrawl.Accepts client (env.header (env.response line)) (env.response line).msg

/-- The data starts with a line of more than thirteen characters, five more
lines follow, and the client takes the answer. -/
def Servable (env : ServerEnv) (client : Client) (closed : Bool)
    (data : List Char) : Prop :=
  ∃ line rest, nextLine closed data = some (line, rest) ∧
    13 < toInt (strlen line) ∧ (afterLines closed 5 rest).isSome ∧
    env.Accepts client line

theorem getRequest_named {result : Outcome Client} {after : Socket}
    (received : Outcome.Settles (recvGet · env.rootDir sock)
      (.returns (some (requestName env.rootDir (line ++ ['\x00'])), after)))
    (answered : Outcome.Settles
      (writeAnswer · client (env.header (env.response line)) (env.response line).msg)
      result) :
    Outcome.Settles (getRequest · env sock client)
      (result >>= fun client =>
        .returns ⟨after, client, (env.response line).served⟩) := by
  have fits : ¬ 10000 ≤ (env.header (env.response line)).length :=
    Nat.not_le_of_gt (header_fits _ _ env.dateFits)
  refine received.bind_returns ?_
  dsimp only
  simp only [ServerEnv.header, ServerEnv.response] at fits answered ⊢
  simp only [if_neg fits]
  exact answered.bind fun _ _ => .const _

theorem getRequest_endless (delivers : sock.Delivers data closed)
    (noLine : nextLine closed data = none) :
    Outcome.Settles (getRequest · env sock client) .unfinished :=
  (recvGet_endless delivers noLine).bind_unfinished

theorem getRequest_short (delivers : sock.Delivers data closed)
    (next : nextLine closed data = some (line, rest))
    (nonneg : 0 ≤ toInt (strlen line)) (short : toInt (strlen line) ≤ 13) :
    Outcome.Settles (getRequest · env sock client) .exits := by
  obtain ⟨after, received, _⟩ := recvGet_short delivers next nonneg short
  exact received.bind_returns (.const _)

/-- A complete request is served when the client takes the answer, and ends the
process otherwise. -/
theorem getRequest_complete {last : List Char} (delivers : sock.Delivers data closed)
    (next : nextLine closed data = some (line, rest))
    (long : 13 < toInt (strlen line)) (lines : afterLines closed 5 rest = some last) :
    (¬ env.Accepts client line ∧
      Outcome.Settles (getRequest · env sock client) .exits) ∨
    (env.Accepts client line ∧ ∃ exchange,
      Outcome.Settles (getRequest · env sock client) (.returns exchange) ∧
      client.Passed (env.answer line) exchange.client) := by
  obtain ⟨after, received, _⟩ := recvGet_name delivers next long lines
  have small := Nat.lt_of_lt_of_le (header_fits (env.response line).status
    (strlen (env.response line).msg) env.dateFits) (by decide : 10000 ≤ 2 ^ 31)
  rcases writeAnswer_settles small with
    ⟨refuses, ended⟩ | ⟨accepts, sent, answered, passed⟩
  · exact Or.inl ⟨refuses, getRequest_named received ended⟩
  · exact Or.inr ⟨accepts, _, getRequest_named received answered, passed⟩

/-- A connection is served exactly when the client sent a complete request and
takes the answer; everything else ends the process or holds up the thread. -/
theorem getRequest_returns_iff (delivers : sock.Delivers data closed) :
    (∃ exchange, Outcome.Settles (getRequest · env sock client)
      (.returns exchange)) ↔ Servable env client closed data := by
  constructor
  · rintro ⟨exchange, served⟩
    cases next : nextLine closed data with
    | none => cases served.unique (getRequest_endless delivers next)
    | some found =>
        obtain ⟨line, rest⟩ := found
        rcases recvGet_cases env.rootDir delivers next with
          ⟨_, faulted⟩ | ⟨nonneg, short, _⟩ | ⟨_, _, waiting⟩ | ⟨long, last, _, lines, _⟩
        · have ended : Outcome.Settles (getRequest · env sock client) .faults :=
            faulted.bind_faults
          cases served.unique ended
        · cases served.unique (getRequest_short delivers next nonneg short)
        · have endless : Outcome.Settles (getRequest · env sock client) .unfinished :=
            waiting.bind_unfinished
          cases served.unique endless
        · rcases getRequest_complete delivers next long lines with
            ⟨_, ended⟩ | ⟨accepts, _⟩
          · cases served.unique ended
          · exact ⟨line, rest, next, long, by rw [lines]; rfl, accepts⟩
  · rintro ⟨line, rest, next, long, complete, accepts⟩
    obtain ⟨last, lines⟩ := Option.isSome_iff_exists.mp complete
    rcases getRequest_complete delivers next long lines with
      ⟨refuses, _⟩ | ⟨_, exchange, served, _⟩
    · exact absurd accepts refuses
    · exact ⟨exchange, served⟩

end Serving

/-- A site without files, asked by a client that takes every answer. -/
def emptySite : ServerEnv where
  rootDir := ⟨"/srv".toList, by decide⟩
  file := fun _ => .missing
  date := ⟨"Thu, 01 Jan 1970 00:00:00 UTC".toList, by decide⟩
  dateFits := by decide

def patientClient : Client :=
  ⟨[], none, []⟩

theorem getRequest_returns_iff_empty_site :
    (∃ exchange, Outcome.Settles
      (getRequest · emptySite
        (.ofData true "GET /index HTTP/1.1\n\n\n\n\n\n".toList) patientClient)
      (.returns exchange)) :=
  (getRequest_returns_iff (SegmentedStream.Stream.ofData_delivers _ _)).mpr
    ⟨"GET /index HTTP/1.1".toList, "\n\n\n\n\n".toList, by decide, by decide, by decide,
      by decide, by simp [SegmentedStream.Sink.Takes, patientClient]⟩

/-- A client that sends nothing holds up its thread for ever, and one that
sends a short line ends the server. -/
theorem getRequest_not_returning :
    (¬ ∃ exchange, Outcome.Settles
      (getRequest · emptySite (.ofData true []) patientClient) (.returns exchange)) ∧
    Outcome.Settles
      (getRequest · emptySite (.ofData true "GET\r\n".toList) patientClient)
      .exits := by
  constructor
  · rintro ⟨exchange, served⟩
    have endless := served.unique (getRequest_endless
      (SegmentedStream.Stream.ofData_delivers true []) rfl)
    cases endless
  · exact getRequest_short (SegmentedStream.Stream.ofData_delivers true _)
      (show nextLine true _ = some ("GET".toList, []) by decide) (by decide) (by decide)

end WebCrawl
