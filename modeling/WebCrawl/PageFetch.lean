import WebCrawl.PageDelivery

/-!
# One page over the wire

`get` sends a request, a server thread answers it, and `readAnswerFromServer`
takes the answer.  The bytes may arrive in any pieces on either side.  What the
crawler then has in hand is a function of the file that the server finds under
the page: the pieces and the date leave no trace.
-/

namespace WebCrawl

/-- The crawler asks for a page on a connection of its own, which it keeps open and
reads to its end; a server thread serves the connection and closes it. -/
inductive Fetches (server : ServerEnv) (page : CString) : Received → Prop
  | exchanged {bytes : List Char} {request sock after : Socket} {client : Client}
      {exchange : Exchange} {received : Received} :
      getMessage page = .returns bytes →
      request.Delivers bytes false →
      client.sent = [] → client.limit = none →
      Outcome.Settles (getRequest · server request client) (.returns exchange) →
      sock.Delivers exchange.client.sent true →
      Outcome.Settles (receiveAnswer · sock) (.returns (some received, after)) →
      Fetches server page received

/-- The name of the file for a page below `root_dir`. -/
def pagePath (rootDir page : CString) : CString where
  chars := rootDir.chars ++ '/' :: page.chars
  nulFree := by simp [rootDir.nulFree, page.nulFree]

/-- What the crawler has in hand of a file that the server finds. -/
def FileAccess.received (access : FileAccess) : Received where
  code := access.response.status.code
  contentSize := strlen access.response.msg
  content := cstr access.response.msg ++ ['\x00']

/-- A page name that makes one line of a request that fits into the buffer of `get`. -/
structure Requestable (page : CString) : Prop where
  noReturn : '\r' ∉ page.chars
  noNewline : '\n' ∉ page.chars
  fits : (requestText page).length < 10000

namespace Requestable

variable {server : ServerEnv} {page : CString}

theorem message (requestable : Requestable page) :
    getMessage page = .returns (requestText page ++ ['\x00']) := by
  have fits := requestable.fits
  rw [getMessage, if_neg (by omega)]

theorem nextLine_message (requestable : Requestable page) (closed : Bool) :
    nextLine closed (requestText page ++ ['\x00']) =
      some (requestLine page, crlfLines requestHeaders ++ ['\x00']) :=
  nextLine_crlf closed requestHeaders ['\x00']
    (oneLine_requestLine requestable.noReturn requestable.noNewline)

theorem line_short (requestable : Requestable page) :
    13 < (requestLine page).length ∧ (requestLine page).length < 2 ^ 31 := by
  have fits := requestable.fits
  have start : requestStart.length = 5 := rfl
  have version : requestVersion.length = 9 := rfl
  rw [requestText_eq, List.length_append] at fits
  refine ⟨?_, by omega⟩
  simp only [requestLine, List.length_append, start, version]
  omega

theorem requests (requestable : Requestable page) {request : Socket} {closed : Bool}
    (delivers : request.Delivers (requestText page ++ ['\x00']) closed) :
    Requests request (requestLine page) := by
  obtain ⟨long, isInt⟩ := requestable.line_short
  refine ⟨_, closed, _, ['\x00'], delivers, requestable.nextLine_message closed, ?_,
    afterLines_crlf closed _ oneLine_requestHeaders⟩
  rw [toInt_strlen (nulFree_requestLine page) isInt]
  omega

/-- The request names the file for the page. -/
theorem requested (requestable : Requestable page) :
    server.requested (requestLine page) = server.file (pagePath server.rootDir page) := by
  obtain ⟨long, isInt⟩ := requestable.line_short
  rw [ServerEnv.requested]
  refine congrArg server.file (CString.ext ?_)
  rw [requestName_chars (nulFree_requestLine page) long isInt, requestLine_name]
  rfl

end Requestable

section Fetching

variable {server : ServerEnv} {page : CString} {received : Received}

/-- The answer to a page whose content leaves room for a NUL in a buffer. -/
theorem answer_received {line : List Char}
    (small : strlen (server.requested line).response.msg < 2 ^ 31 - 1) :
    Receivable server line ∧
      (⟨(server.response line).status.code, server.contentLength line,
        (server.body line).chars ++ ['\x00']⟩ : Received) =
          (server.requested line).received := by
  change strlen (server.response line).msg < 2 ^ 31 - 1 at small
  have length : server.contentLength line = strlen (server.response line).msg :=
    toInt_of_range (by omega) (by omega)
  have body : (server.body line).chars = cstr (server.response line).msg := by
    simp only [ServerEnv.body, CString.take, CString.ofBlock_chars]
    apply List.take_of_length_le
    rw [length, strlen]
    omega
  refine ⟨⟨by omega, by omega⟩, ?_⟩
  rw [body, length]
  rfl

/-- Whatever pieces the request and the answer arrive in, the crawler receives exactly
what the file for the page gives, and it can always receive it. -/
theorem fetches_iff (dateLine : OneLine server.date.chars) (requestable : Requestable page)
    (small : strlen (server.file (pagePath server.rootDir page)).response.msg < 2 ^ 31 - 1) :
    Fetches server page received ↔
      received = (server.file (pagePath server.rootDir page)).received := by
  have requested : server.requested (requestLine page) =
      server.file (pagePath server.rootDir page) := requestable.requested
  rw [← requested] at small ⊢
  obtain ⟨receivable, same⟩ := answer_received small
  constructor
  · rintro ⟨sent, request, fresh, _, served, answer, got⟩
    rw [requestable.message] at sent
    cases sent
    obtain ⟨_, bytes⟩ := (requestable.requests request).answered fresh served
    rw [bytes] at answer
    obtain ⟨after, expected⟩ := receiveAnswer_answer dateLine receivable answer
    cases got.unique expected
    exact same
  · rintro rfl
    have requests := requestable.requests
      (SegmentedStream.Stream.ofData_delivers false (requestText page ++ ['\x00']))
    have patient : patientClient.limit = none := rfl
    obtain ⟨exchange, served⟩ := requests.served patient receivable.1
    obtain ⟨_, bytes⟩ := requests.answered rfl served
    have answer := SegmentedStream.Stream.ofData_delivers true exchange.client.sent
    obtain ⟨after, got⟩ := receiveAnswer_answer dateLine receivable (bytes ▸ answer)
    rw [same] at got
    exact .exchanged requestable.message (SegmentedStream.Stream.ofData_delivers false _)
      rfl rfl served answer (bytes ▸ got)

end Fetching

end WebCrawl
