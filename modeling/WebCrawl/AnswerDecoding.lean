import WebCrawl.ContentProcessing
import WebCrawl.RequestDecoding

/-!
# The crawler decodes what the server answers

`readAnswerFromServer` finds the status and the length of the content at fixed
offsets in the first and the fourth line of the header, and reads the content
as a whole.
-/

namespace WebCrawl

/-- What happens to the content of an answer. -/
inductive Delivery where
  | processed (page : Processed)
  | printed (text : CString)
  deriving DecidableEq

/-- What `readAnswerFromServer` did when it returns 0: the page counts as
downloaded, with its size, exactly when it is processed. -/
structure Decoded where
  code : Int
  contentSize : Int
  content : List Char
  delivery : Delivery
  deriving DecidableEq

/-- The room that `malloc` gives for a size computed as an `int`; a negative
size is too large for it. -/
def mallocRoom (size : Int) : Nat :=
  (toInt size).toNat

def statusLineLength : Nat :=
  strlen "HTTP/1.1 xxx xx".toList

/-- The end of `readAnswerFromServer`, with the content in its buffer. -/
def deliver (fuel : Nat) (env : CrawlerEnv) (code : Int) (content : List Char)
    (fileName : CString) : Outcome Delivery := do
  if code = 200 then
    let page ← contentProcessing fuel env content fileName
    return .processed page
  else return .printed (.ofBlock content)

/-- `readAnswerFromServer`; `none` when it returns -1. -/
def readAnswerFromServer (fuel : Nat) (env : CrawlerEnv) (sock : Socket)
    (fileName : CString) : Outcome (Option Decoded × Socket) := do
  let (line, sock) ← inputStringFd fuel 15 sock
  if toSize (toInt (strlen line)) < statusLineLength then return (none, sock)
  else
    let code := atoi ((line.set 12 '\x00').drop 9)
    if code = 404 ∨ code = 403 ∨ code = 200 then
      let sock ← consumeLines fuel 2 sock
      let (lengthLine, sock) ← inputStringFd fuel 10 sock
      -- Behind the block there is nothing that `atoi` may read.
      if lengthLine.length ≤ 16 then .faults
      else
        let contentSize := atoi (lengthLine.drop 16)
        let sock ← consumeLines fuel 3 sock
        let room := mallocRoom (contentSize + 1)
        let (content, sock) ← socketRead fuel room contentSize sock
        match content with
        | none => return (none, sock)
        | some content =>
            if contentSize < 0 ∨ (room : Int) ≤ contentSize then .faults
            else
              let content := content ++ ['\x00']
              let delivery ← deliver fuel env code content fileName
              return (some ⟨code, contentSize, content, delivery⟩, sock)
    else return (none, sock)

/-- What `readAnswerFromServer` has in hand before it delivers the content. -/
structure Received where
  code : Int
  contentSize : Int
  content : List Char
  deriving DecidableEq

def receiveContent (fuel : Nat) (code contentSize : Int) (sock : Socket) :
    Outcome (Option Received × Socket) := do
  let room := mallocRoom (contentSize + 1)
  let (content, sock) ← socketRead fuel room contentSize sock
  match content with
  | none => return (none, sock)
  | some content =>
      if contentSize < 0 ∨ (room : Int) ≤ contentSize then .faults
      else return (some ⟨code, contentSize, content ++ ['\x00']⟩, sock)

/-- The part of `readAnswerFromServer` before the delivery. -/
def receiveAnswer (fuel : Nat) (sock : Socket) :
    Outcome (Option Received × Socket) := do
  let (line, sock) ← inputStringFd fuel 15 sock
  if toSize (toInt (strlen line)) < statusLineLength then return (none, sock)
  else
    let code := atoi ((line.set 12 '\x00').drop 9)
    if code = 404 ∨ code = 403 ∨ code = 200 then
      let sock ← consumeLines fuel 2 sock
      let (lengthLine, sock) ← inputStringFd fuel 10 sock
      if lengthLine.length ≤ 16 then .faults
      else
        let contentSize := atoi (lengthLine.drop 16)
        let sock ← consumeLines fuel 3 sock
        receiveContent fuel code contentSize sock
    else return (none, sock)

/-- The delivery of what was received, if anything was. -/
def deliverReceived (fuel : Nat) (env : CrawlerEnv) (fileName : CString) :
    Option Received × Socket → Outcome (Option Decoded × Socket)
  | (none, sock) => .returns (none, sock)
  | (some ⟨code, contentSize, content⟩, sock) => do
      let delivery ← deliver fuel env code content fileName
      return (some ⟨code, contentSize, content, delivery⟩, sock)

theorem readAnswerFromServer_eq (fuel : Nat) (env : CrawlerEnv) (sock : Socket)
    (fileName : CString) :
    readAnswerFromServer fuel env sock fileName =
      receiveAnswer fuel sock >>= deliverReceived fuel env fileName := by
  rw [readAnswerFromServer, receiveAnswer, bind_assoc]
  apply bind_congr
  rintro ⟨line, sock⟩
  dsimp only
  split
  · rfl
  split
  · rw [bind_assoc]
    apply bind_congr
    intro sock
    rw [bind_assoc]
    apply bind_congr
    rintro ⟨lengthLine, sock⟩
    dsimp only
    split
    · rfl
    rw [bind_assoc]
    apply bind_congr
    intro sock
    rw [receiveContent, bind_assoc]
    apply bind_congr
    rintro ⟨content, sock⟩
    cases content with
    | none => rfl
    | some content =>
        dsimp only
        split <;> rfl
  · rfl

/-- The beginning of `readAnswerFromServer`, up to the line with the length; the
block that holds it comes with the code. -/
def readLengthLine (fuel : Nat) (sock : Socket) :
    Outcome (Option (Int × List Char) × Socket) := do
  let (line, sock) ← inputStringFd fuel 15 sock
  if toSize (toInt (strlen line)) < statusLineLength then return (none, sock)
  else
    let code := atoi ((line.set 12 '\x00').drop 9)
    if code = 404 ∨ code = 403 ∨ code = 200 then
      let sock ← consumeLines fuel 2 sock
      let (lengthLine, sock) ← inputStringFd fuel 10 sock
      return (some (code, lengthLine), sock)
    else return (none, sock)

/-- What `readAnswerFromServer` makes of the line with the length, if there is
one, before the delivery. -/
def receiveSized (fuel : Nat) :
    Option (Int × List Char) × Socket → Outcome (Option Received × Socket)
  | (none, sock) => .returns (none, sock)
  | (some (code, lengthLine), sock) =>
      if lengthLine.length ≤ 16 then .faults
      else do
        let sock ← consumeLines fuel 3 sock
        receiveContent fuel code (atoi (lengthLine.drop 16)) sock

theorem receiveAnswer_eq (fuel : Nat) (sock : Socket) :
    receiveAnswer fuel sock = readLengthLine fuel sock >>= receiveSized fuel := by
  rw [receiveAnswer, readLengthLine, bind_assoc]
  apply bind_congr
  rintro ⟨line, sock⟩
  dsimp only
  split
  · rfl
  split
  · rw [bind_assoc]
    apply bind_congr
    intro sock
    rw [bind_assoc]
    rfl
  · rfl

/-- The code in a first line. -/
def lineCode (line : List Char) : Int :=
  atoi (((line ++ ['\x00']).set 12 '\x00').drop 9)

/-- A first line that passes the checks of its length and its code. -/
def AcceptedLine (line : List Char) : Prop :=
  statusLineLength ≤ toSize (toInt (strlen line)) ∧
    (lineCode line = 404 ∨ lineCode line = 403 ∨ lineCode line = 200)

instance (line : List Char) : Decidable (AcceptedLine line) :=
  inferInstanceAs (Decidable (_ ∧ _))

def Status.code : Status → Int
  | .ok => 200
  | .forbidden => 403
  | .notFound => 404

section Decoding

variable {env : CrawlerEnv} {fileName : CString} {sock : Socket} {closed : Bool}

/-- The code stands between the ninth and the twelfth character. -/
theorem lineCode_status (status : Status) :
    lineCode (statusStart ++ status.text) = status.code := by
  cases status <;> decide

theorem acceptedLine_status (status : Status) :
    AcceptedLine (statusStart ++ status.text) := by
  cases status <;> decide

theorem lengthLine_size {size : Int} (isInt : toInt size = size) :
    atoi ((lengthStart ++ decimal size ++ ['\x00']).drop 16) = size := by
  have start : lengthStart.length = 16 := rfl
  rw [List.append_assoc, ← start, List.drop_left]
  obtain ⟨above, below⟩ := isInt ▸ toInt_bounds size
  by_cases negative : size < 0
  · exact atoi_decimal_negative [] above negative
  · obtain ⟨number, rfl⟩ := Int.eq_ofNat_of_zero_le (Int.not_lt.mp negative)
    exact atoi_decimal [] (by omega)

theorem mallocRoom_succ {size : Nat} (small : size < 2 ^ 31 - 1) :
    mallocRoom (size + 1) = size + 1 := by
  rw [mallocRoom, toInt_of_range (by omega) (by omega)]
  omega

theorem oneLine_append {first second : List Char} :
    OneLine (first ++ second) ↔ OneLine first ∧ OneLine second := by
  simp only [OneLine, List.mem_append, not_or]
  tauto

theorem oneLine_toDigits (number : Nat) : OneLine (Nat.toDigits 10 number) := by
  have digits : ∀ ch ∈ Nat.toDigits 10 number, ch.isDigit = true := fun ch member =>
    Nat.isDigit_of_mem_toDigits (by decide : 0 < 10) (by decide : 10 ≤ 10) member
  exact ⟨fun member => absurd (digits _ member) (by decide),
    fun member => absurd (digits _ member) (by decide)⟩

theorem oneLine_decimal (size : Int) : OneLine (decimal size) := by
  have digits := oneLine_toDigits size.natAbs
  unfold decimal
  split
  · exact oneLine_cons.mpr ⟨by decide, digits⟩
  · exact digits

theorem header_length (status : Status) (date : CString) (size : Int) :
    (header status date size).length =
      (statusStart ++ status.text).length + 2 +
        (crlfLines [dateStart ++ date.chars, serverLine]).length +
        ((lengthStart ++ decimal size).length + 2) +
        (crlfLines [typeLine, connectionLine, []]).length := by
  have empty : (crlfLines []).length = 0 := rfl
  simp only [header, headerLines, length_crlfLines_cons, empty]
  omega

theorem oneLine_headerLines (status : Status) {date : CString} (size : Int)
    (dateLine : OneLine date.chars) :
    ∀ line ∈ headerLines status date size, OneLine line := by
  have statusLine : OneLine (statusStart ++ status.text) := by
    cases status <;> decide
  have lengthLine : OneLine (lengthStart ++ decimal size) :=
    oneLine_append.mpr ⟨by decide, oneLine_decimal size⟩
  have date : OneLine (dateStart ++ date.chars) :=
    oneLine_append.mpr ⟨by decide, dateLine⟩
  have server : OneLine serverLine := by decide
  have type : OneLine typeLine := by decide
  have connection : OneLine connectionLine := by decide
  have blank : OneLine [] := by decide
  simp only [headerLines, List.forall_mem_cons]
  exact ⟨statusLine, date, server, lengthLine, type, connection, blank, by simp⟩

/-- The bytes of an answer with the given status and message. -/
def answerBytes (status : Status) (date body : CString) : List Char :=
  header status date (toInt body.chars.length) ++ body.chars

/-- These are the bytes that `getRequest` writes. -/
theorem answer_eq_answerBytes (server : ServerEnv) {line : List Char} {body : CString}
    (msg : (server.response line).msg = body.chars ++ ['\x00'])
    (isInt : body.chars.length < 2 ^ 31) :
    server.answer line =
      answerBytes (server.response line).status server.date body := by
  have message : cstr (body.chars ++ ['\x00']) = body.chars :=
    cstr_append_nul body.nulFree
  have length : toInt body.chars.length = body.chars.length :=
    toInt_of_range (by omega) (by omega)
  rw [ServerEnv.answer, ServerEnv.header, answerBytes, msg, strlen, message, length]
  simp

section Beginning

variable {data line rest lengthLine : List Char} {code : Int} {after : Socket}

theorem readLengthLine_endless (delivers : sock.Delivers data closed)
    (noLine : nextLine closed data = none) :
    Outcome.Settles (readLengthLine · sock) .unfinished :=
  (inputStringFd_endless delivers noLine (by decide)).bind_unfinished

theorem receiveAnswer_unfinished
    (endless : Outcome.Settles (readLengthLine · sock) .unfinished) :
    Outcome.Settles (receiveAnswer · sock) .unfinished :=
  endless.bind_unfinished.congr (receiveAnswer_eq · sock)

/-- Behind an accepted line two lines are skipped, and the fourth is read. -/
theorem readLengthLine_accepted (delivers : sock.Delivers data closed)
    (next : nextLine closed data = some (line, rest)) (accepted : AcceptedLine line) :
    ∃ second : Socket, second.Delivers rest closed ∧
      ∀ result, Outcome.Settles (fun fuel => consumeLines fuel 2 second >>=
          inputStringFd fuel 10) result →
        Outcome.Settles (readLengthLine · sock)
          (result >>= fun (block, after) => .returns (some (lineCode line, block), after)) := by
  obtain ⟨second, readLine, delivered⟩ :=
    inputStringFd_line delivers next (by decide : 0 < 15)
  obtain ⟨long, known⟩ := accepted
  simp only [lineCode] at known
  refine ⟨second, delivered, fun result settles => readLine.bind_returns ?_⟩
  simp only [strlen_append_nul, if_neg (Nat.not_lt.mpr long), if_pos known]
  have both := @Outcome.Settles.bind _ _ _ _ (fun found _ =>
    .returns (some (lineCode line, found.1), found.2)) _ settles
    fun found _ => .const _
  refine both.congr fun fuel => ?_
  rw [bind_assoc]
  rfl

theorem receiveAnswer_sized {result : Outcome (Option Received × Socket)}
    (read : Outcome.Settles (readLengthLine · sock)
      (.returns (some (code, lengthLine ++ ['\x00']), after)))
    (long : 16 ≤ lengthLine.length)
    (settles : Outcome.Settles (fun fuel => consumeLines fuel 3 after >>=
      receiveContent fuel code (atoi ((lengthLine ++ ['\x00']).drop 16))) result) :
    Outcome.Settles (receiveAnswer · sock) result := by
  have inside : ¬ (lengthLine ++ ['\x00']).length ≤ 16 := by
    rw [List.length_append, List.length_singleton]
    omega
  refine (read.bind_returns ?_).congr (receiveAnswer_eq · sock)
  simp only [receiveSized, if_neg inside]
  exact settles

end Beginning

/-- Of an answer that is cut off either the header stays incomplete, and is
waited for, or the content is read from what is left. -/
theorem receiveAnswer_header {status : Status} {date : CString} {size : Int}
    {body : List Char} {cut : Nat} (dateLine : OneLine date.chars)
    (isInt : toInt size = size)
    (delivers : sock.Delivers ((header status date size ++ body).take cut) closed) :
    (cut + closed.toNat < (header status date size).length ∧
      Outcome.Settles (receiveAnswer · sock) .unfinished) ∨
    ((header status date size).length ≤ cut + closed.toNat ∧ ∃ middle : Socket,
      middle.Delivers (body.take (cut - (header status date size).length)) closed ∧
      ∀ result, Outcome.Settles (receiveContent · status.code size middle) result →
        Outcome.Settles (receiveAnswer · sock) result) := by
  have bit := Bool.toNat_le closed
  have lines := oneLine_headerLines status size dateLine
  simp only [headerLines, List.forall_mem_cons] at lines
  obtain ⟨statusLine, dated, server, lengthLine, type, connection, blank, _⟩ := lines
  have long : 16 ≤ (lengthStart ++ decimal size).length := by
    have start : lengthStart.length = 16 := rfl
    rw [List.length_append, start]
    omega
  have total := header_length status date size
  have two := length_crlfLines_cons (dateStart ++ date.chars) [serverLine]
  have three := length_crlfLines_cons typeLine [connectionLine, []]
  rw [header, headerLines] at delivers
  have next := nextLine_crlf_take closed cut [dateStart ++ date.chars, serverLine,
    lengthStart ++ decimal size, typeLine, connectionLine, []] body statusLine
  by_cases first : (statusStart ++ status.text).length + 2 ≤ cut + closed.toNat
  swap
  · rw [if_neg first] at next
    exact Or.inl ⟨by omega, receiveAnswer_unfinished (readLengthLine_endless delivers next)⟩
  rw [if_pos first] at next
  obtain ⟨second, delivers, continues⟩ :=
    readLengthLine_accepted delivers next (acceptedLine_status status)
  rcases consumeLines_crlf_take [dateStart ++ date.chars, serverLine] delivers
      (by simp [dated, server]) (List.cons_ne_nil _ _) with
    ⟨short, endless⟩ | ⟨_, third, consumedTwo, delivers⟩
  · exact Or.inl ⟨by omega,
      receiveAnswer_unfinished (continues _ endless.bind_unfinished)⟩
  rcases inputStringFd_crlf_take delivers lengthLine (by decide : 0 < 10) with
    ⟨short, endless⟩ | ⟨_, fourth, readLength, delivers⟩
  · exact Or.inl ⟨by omega,
      receiveAnswer_unfinished (continues _ (consumedTwo.bind_returns endless))⟩
  have read := continues _ (consumedTwo.bind_returns readLength)
  rw [Outcome.returns_bind, lineCode_status] at read
  rcases consumeLines_crlf_take [typeLine, connectionLine, []] delivers
      (by simp [type, connection, blank]) (List.cons_ne_nil _ _) with
    ⟨short, endless⟩ | ⟨_, last, consumedThree, delivers⟩
  · exact Or.inl ⟨by omega, receiveAnswer_sized read long endless.bind_unfinished⟩
  have left : cut - (header status date size).length =
      cut - ((statusStart ++ status.text).length + 2) -
        (crlfLines [dateStart ++ date.chars, serverLine]).length -
        ((lengthStart ++ decimal size).length + 2) -
        (crlfLines [typeLine, connectionLine, []]).length := by
    omega
  refine Or.inr ⟨by omega, last, ?_, fun result received => ?_⟩
  · rw [left]
    exact delivers
  · apply receiveAnswer_sized read long
    rw [lengthLine_size isInt]
    exact consumedThree.bind_returns received

theorem receiveContent_data {code size : Int} {part rest : List Char}
    (delivers : sock.Delivers (part ++ rest) closed) (sizeEq : size = part.length)
    (small : size < 2 ^ 31 - 1) :
    ∃ after : Socket, after.Delivers rest closed ∧
      Outcome.Settles (receiveContent · code size sock)
        (.returns (some ⟨code, size, part ++ ['\x00']⟩, after)) := by
  subst sizeEq
  have room := mallocRoom_succ (by omega : part.length < 2 ^ 31 - 1)
  obtain ⟨after, readContent, delivered⟩ := socketRead_data delivers rfl (by omega)
    (show part.length ≤ mallocRoom (part.length + 1) by omega)
  have inside : ¬ ((part.length : Int) < 0 ∨
      (mallocRoom (part.length + 1) : Int) ≤ part.length) := by
    omega
  refine ⟨after, delivered, readContent.bind_returns ?_⟩
  simp only [if_neg inside]
  exact .const _

theorem receiveContent_whole {code size : Int} {part : List Char}
    (delivers : sock.Delivers part closed) (sizeEq : size = part.length)
    (small : size < 2 ^ 31 - 1) :
    ∃ after : Socket, after.Delivers [] closed ∧
      Outcome.Settles (receiveContent · code size sock)
        (.returns (some ⟨code, size, part ++ ['\x00']⟩, after)) := by
  rw [← List.append_nil part] at delivers
  exact receiveContent_data delivers sizeEq small

theorem receiveContent_short {code size : Int} {part : List Char}
    (delivers : sock.Delivers part closed) (short : (part.length : Int) < size)
    (small : size < 2 ^ 31 - 1) :
    Outcome.Settles (receiveContent · code size sock) .unfinished := by
  obtain ⟨length, rfl⟩ := Int.eq_ofNat_of_zero_le (by omega : 0 ≤ size)
  have room := mallocRoom_succ (by omega : length < 2 ^ 31 - 1)
  exact (socketRead_endless delivers short (by omega) (by omega)).bind_unfinished

/-- For `INT_MAX` bytes there is no buffer. -/
theorem receiveContent_oversized {code size : Int} {part : List Char}
    (delivers : sock.Delivers part closed) (largest : size = 2 ^ 31 - 1) :
    Outcome.Settles (receiveContent · code size sock) .unfinished ∨
    Outcome.Settles (receiveContent · code size sock) .faults := by
  cases part with
  | nil => exact Or.inl (socketRead_end delivers (by omega) (by omega)).bind_unfinished
  | cons first part =>
      have noRoom : mallocRoom (size + 1) = 0 := by
        subst largest
        rfl
      have asked : 0 < toSize size := by
        unfold toSize
        omega
      obtain ⟨received, unread, next, read, _⟩ := delivers.read asked
      have faulted : Outcome.Settles (socketRead · 0 size sock) .faults := by
        refine .of_succ rfl ?_
        simp only [socketRead, if_neg (by omega : ¬ size < 0), read, List.length_cons,
          Nat.succ_pos, ↓reduceIte]
        exact .const _
      rw [← noRoom] at faulted
      exact Or.inr faulted.bind_faults

/-- A negative size is no size for a read, whose failure is returned. -/
theorem receiveContent_negative {code size : Int} (negative : size < 0) :
    Outcome.Settles (receiveContent · code size sock) (.returns (none, sock)) :=
  (socketRead_negative negative).bind_returns (.const _)

theorem readAnswerFromServer_received {received : Received} {after : Socket}
    {result : Outcome Delivery}
    (got : Outcome.Settles (receiveAnswer · sock) (.returns (some received, after)))
    (delivered : Outcome.Settles
      (deliver · env received.code received.content fileName) result) :
    Outcome.Settles (readAnswerFromServer · env sock fileName)
      (result >>= fun delivery => .returns
        (some ⟨received.code, received.contentSize, received.content, delivery⟩,
          after)) := by
  obtain ⟨code, contentSize, content⟩ := received
  refine Outcome.Settles.congr ?_ (readAnswerFromServer_eq · env sock fileName)
  refine got.bind_returns ?_
  exact delivered.bind fun _ _ => .const _

theorem readAnswerFromServer_unfinished
    (endless : Outcome.Settles (receiveAnswer · sock) .unfinished) :
    Outcome.Settles (readAnswerFromServer · env sock fileName) .unfinished :=
  endless.bind_unfinished.congr (readAnswerFromServer_eq · env sock fileName)

theorem readAnswerFromServer_faults
    (faulted : Outcome.Settles (receiveAnswer · sock) .faults) :
    Outcome.Settles (readAnswerFromServer · env sock fileName) .faults :=
  faulted.bind_faults.congr (readAnswerFromServer_eq · env sock fileName)

theorem readAnswerFromServer_refused {after : Socket}
    (refused : Outcome.Settles (receiveAnswer · sock) (.returns (none, after))) :
    Outcome.Settles (readAnswerFromServer · env sock fileName) (.returns (none, after)) :=
  (refused.bind_returns (.const _)).congr (readAnswerFromServer_eq · env sock fileName)

/-- On the bytes of an answer everything up to the delivery succeeds, and the
delivery gets what the server sent. -/
theorem readAnswerFromServer_delivers {status : Status} {date body : CString}
    (dateLine : OneLine date.chars) (small : body.chars.length < 2 ^ 31 - 1)
    (delivers : sock.Delivers (answerBytes status date body) closed) :
    ∃ after, SegmentedStream.Stream.Delivers after [] closed ∧
      ∀ result, Outcome.Settles
          (deliver · env status.code (body.chars ++ ['\x00']) fileName) result →
        Outcome.Settles (readAnswerFromServer · env sock fileName)
          (result >>= fun delivery => .returns
            (some ⟨status.code, body.chars.length, body.chars ++ ['\x00'], delivery⟩,
              after)) := by
  have size : toInt body.chars.length = body.chars.length :=
    toInt_of_range (by omega) (by omega)
  have whole : (header status date body.chars.length ++ body.chars).take
        ((header status date body.chars.length).length + body.chars.length) =
      header status date body.chars.length ++ body.chars := by
    rw [← List.length_append, List.take_length]
  rw [answerBytes, size, ← whole] at delivers
  rcases receiveAnswer_header dateLine size delivers with
    ⟨short, _⟩ | ⟨_, middle, delivers, received⟩
  · omega
  · rw [Nat.add_sub_cancel_left, List.take_length] at delivers
    obtain ⟨after, delivered, content⟩ :=
      receiveContent_whole delivers rfl (by omega)
    exact ⟨after, delivered, fun result settles =>
      readAnswerFromServer_received (received _ content) settles⟩

/-- A page that is to be processed can be saved and has only closed links. -/
def Deliverable (env : CrawlerEnv) (status : Status) (body fileName : CString) : Prop :=
  status = .ok → Savable env fileName ∧ LinksClosed body.chars

theorem deliver_settles (env : CrawlerEnv) (status : Status) (body fileName : CString) :
    (Deliverable env status body fileName ∧ ∃ delivery, Outcome.Settles
      (deliver · env status.code (body.chars ++ ['\x00']) fileName)
      (.returns delivery)) ∨
    (¬ Deliverable env status body fileName ∧ Outcome.Settles
      (deliver · env status.code (body.chars ++ ['\x00']) fileName) .faults) := by
  by_cases ok : status = .ok
  · subst ok
    rcases contentProcessing_settles env body fileName with
      ⟨savable, closed, page, processed, _⟩ | ⟨broken, faulted⟩
    · exact Or.inl ⟨fun _ => ⟨savable, closed⟩, _, processed.bind_returns (.const _)⟩
    · exact Or.inr ⟨fun deliverable => broken (deliverable rfl), faulted.bind_faults⟩
  · refine Or.inl ⟨fun isOk => absurd isOk ok,
      .printed (.ofBlock (body.chars ++ ['\x00'])), ?_⟩
    have otherCode : ¬ status.code = 200 := by
      cases status with
      | ok => exact absurd rfl ok
      | forbidden | notFound => decide
    simp only [deliver, if_neg otherCode]
    exact .const _

/-- `readAnswerFromServer` returns 0 with exactly what the server sent, and with
nothing left to read, when the page can be delivered. -/
theorem readAnswerFromServer_decodes_iff {status : Status} {date body : CString}
    (dateLine : OneLine date.chars) (small : body.chars.length < 2 ^ 31 - 1)
    (delivers : sock.Delivers (answerBytes status date body) closed) :
    (∃ decoded after, Outcome.Settles (readAnswerFromServer · env sock fileName)
        (.returns (some decoded, after)) ∧
      decoded.code = status.code ∧ decoded.contentSize = body.chars.length ∧
      decoded.content = body.chars ++ ['\x00'] ∧
      SegmentedStream.Stream.Delivers after [] closed) ↔
    Deliverable env status body fileName := by
  obtain ⟨after, delivered, decodes⟩ :=
    @readAnswerFromServer_delivers env fileName _ _ _ _ _ dateLine small delivers
  rcases deliver_settles env status body fileName with
    ⟨deliverable, delivery, settles⟩ | ⟨undeliverable, faulted⟩
  · exact iff_of_true ⟨_, after, decodes _ settles, rfl, rfl, rfl, delivered⟩
      deliverable
  · refine iff_of_false ?_ undeliverable
    rintro ⟨decoded, other, settles, _⟩
    cases settles.unique (decodes _ faulted)

end Decoding

def closedPage : CString :=
  ⟨"<a href=\"/x\">\n".toList, by decide⟩

def unclosedPage : CString :=
  ⟨"<a href=\"x\n".toList, by decide⟩

theorem readAnswerFromServer_decodes_iff_closed_page :
    ∃ decoded after, Outcome.Settles
        (readAnswerFromServer · openDirectory
          (.ofData true (answerBytes .ok emptySite.date closedPage))
          indexPage)
        (.returns (some decoded, after)) ∧
      decoded.code = 200 ∧
      decoded.contentSize = closedPage.chars.length ∧
      decoded.content = closedPage.chars ++ ['\x00'] ∧
      SegmentedStream.Stream.Delivers after [] true :=
  (readAnswerFromServer_decodes_iff (by decide) (by decide)
    (SegmentedStream.Stream.ofData_delivers true _)).mpr
    fun _ => ⟨⟨by decide, rfl⟩, by decide⟩

/-- A page with a link that has no closing quote crashes the crawler, so that
`readAnswerFromServer` does not return 0. -/
theorem readAnswerFromServer_unclosed :
    Outcome.Settles
      (readAnswerFromServer · openDirectory
        (.ofData true (answerBytes .ok emptySite.date unclosedPage)) indexPage)
      .faults ∧
    ¬ ∃ decoded after, Outcome.Settles
      (readAnswerFromServer · openDirectory
        (.ofData true (answerBytes .ok emptySite.date unclosedPage)) indexPage)
      (.returns (some decoded, after)) := by
  obtain ⟨after, _, decodes⟩ := @readAnswerFromServer_delivers openDirectory indexPage
    _ _ .ok emptySite.date unclosedPage (by decide) (by decide)
    (SegmentedStream.Stream.ofData_delivers true _)
  rcases deliver_settles openDirectory .ok unclosedPage indexPage with
    ⟨deliverable, _⟩ | ⟨_, faulted⟩
  · exact absurd (deliverable rfl).2 (by decide)
  · refine ⟨decodes _ faulted, ?_⟩
    rintro ⟨decoded, other, settles⟩
    cases settles.unique (decodes _ faulted)

end WebCrawl
