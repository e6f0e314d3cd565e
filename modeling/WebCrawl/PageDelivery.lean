import WebCrawl.AnswerTruncation

/-!
# From the server's file to the crawler's file

A page goes through a check for reading, an opening for reading and writing, a
block that is used as a string twice, a decimal number, a counted read and a
last use as a string.  The strings end at the first NUL, and the opening asks
for more than the check.
-/

namespace WebCrawl

/-- The client has sent a complete request that starts with the given line. -/
def Requests (request : Socket) (line : List Char) : Prop :=
  ∃ data closed rest last, request.Delivers data closed ∧
    nextLine closed data = some (line, rest) ∧ 13 < toInt (strlen line) ∧
    afterLines closed 5 rest = some last

/-- The file that a request with the given first line names. -/
def ServerEnv.requested (env : ServerEnv) (line : List Char) : FileAccess :=
  env.file (requestName env.rootDir (line ++ ['\x00']))

section Delivery

variable {server : ServerEnv} {env : CrawlerEnv} {fileName : CString}
variable {request : Socket} {client : Client} {line content : List Char}

/-- The request is answered with 200 and, however the answer travels, the
crawler saves the given content. -/
def Arrives (server : ServerEnv) (env : CrawlerEnv) (request : Socket)
    (client : Client) (line : List Char) (fileName : CString)
    (content : List Char) : Prop :=
  (server.response line).status = .ok ∧
  ∃ exchange, Outcome.Settles (getRequest · server request client)
      (.returns exchange) ∧
    ∀ sock : Socket, sock.Delivers exchange.client.sent true →
      ∃ received after page,
        Outcome.Settles (receiveAnswer · sock) (.returns (some received, after)) ∧
        received.code = 200 ∧
        savePage env received.content fileName = .returns page ∧
        page.saved.chars = content

/-- A client that takes the whole answer gets the bytes of the answer. -/
theorem Requests.answered (requests : Requests request line)
    (fresh : client.sent = []) {exchange : Exchange}
    (served : Outcome.Settles (getRequest · server request client)
      (.returns exchange)) :
    0 ≤ server.contentLength line ∧ exchange.client.sent = server.answer line := by
  obtain ⟨data, closed, rest, last, delivers, next, long, lines⟩ := requests
  rcases getRequest_complete delivers next long lines with
    ⟨_, ended⟩ | ⟨accepts, other, returned, passed⟩
  · cases served.unique ended
  · cases served.unique returned
    refine ⟨accepts.1, ?_⟩
    rw [passed.sent, fresh, List.nil_append]

theorem Requests.served (requests : Requests request line)
    (unlimited : client.limit = none) (nonneg : 0 ≤ server.contentLength line) :
    ∃ exchange, Outcome.Settles (getRequest · server request client)
      (.returns exchange) := by
  obtain ⟨data, closed, rest, last, delivers, next, long, lines⟩ := requests
  have takes : server.Accepts client line :=
    ⟨nonneg, fun limit limited => by rw [unlimited] at limited; cases limited⟩
  rcases getRequest_complete delivers next long lines with
    ⟨refuses, _⟩ | ⟨_, exchange, returned, _⟩
  · exact absurd takes refuses
  · exact ⟨exchange, returned⟩

/-- What the crawler receives of a whole answer. -/
theorem receiveAnswer_answer {sock : Socket} (dateLine : OneLine server.date.chars)
    (receivable : Receivable server line)
    (delivers : sock.Delivers (server.answer line) true) :
    ∃ after, Outcome.Settles (receiveAnswer · sock) (.returns
      (some ⟨(server.response line).status.code, server.contentLength line,
        (server.body line).chars ++ ['\x00']⟩, after)) := by
  have total : (server.answer line).length =
      (server.headerText line).length + (server.body line).chars.length := by
    rw [ServerEnv.answer_eq, List.length_append]
  have whole : (server.answer line).take (server.answer line).length =
      server.answer line := List.take_length
  rw [← whole] at delivers
  exact receiveAnswer_complete dateLine receivable (by omega) (by omega) delivers

theorem Arrives.receivable (arrives : Arrives server env request client line
      fileName content)
    (requests : Requests request line) (fresh : client.sent = [])
    (dateLine : OneLine server.date.chars) :
    Receivable server line ∧ Savable env fileName ∧
      content = (server.body line).chars := by
  obtain ⟨_, exchange, served, crawled⟩ := arrives
  obtain ⟨_, sent⟩ := requests.answered fresh served
  obtain ⟨received, after, page, settles, _, saved, same⟩ :=
    crawled _ (SegmentedStream.Stream.ofData_delivers true _)
  rw [sent] at settles
  have delivers := SegmentedStream.Stream.ofData_delivers true (server.answer line)
  have whole : (server.answer line).take (server.answer line).length =
      server.answer line := List.take_length
  by_cases receivable : Receivable server line
  · obtain ⟨other, got⟩ := receiveAnswer_answer dateLine receivable delivers
    cases settles.unique got
    obtain ⟨savable, copied⟩ := savePage_returns saved
    rw [copied, CString.ofBlock_chars, cstr_append_nul (server.body line).nulFree] at same
    exact ⟨receivable, savable, same.symm⟩
  · rw [← whole] at settles delivers
    exact absurd settles (receiveAnswer_unreceivable dateLine receivable delivers)

theorem body_readable (readable : server.requested line = .readable content)
    (nulFree : '\x00' ∉ content) (small : content.length < 2 ^ 31 - 1) :
    (server.response line).status = .ok ∧
      server.contentLength line = content.length ∧
      (server.body line).chars = content := by
  have response : server.response line = (FileAccess.readable content).response := by
    rw [← readable]
    rfl
  have text : cstr (content ++ ['\x00']) = content := cstr_append_nul nulFree
  have length : server.contentLength line = content.length := by
    rw [ServerEnv.contentLength, response]
    simp only [FileAccess.response, strlen, text]
    exact toInt_of_range (by omega) (by omega)
  refine ⟨by rw [response]; rfl, length, ?_⟩
  rw [ServerEnv.body, length, response]
  simp [CString.take, FileAccess.response, text]

/-- A page arrives as it is exactly when its file can be opened for writing, too, when
it has no NUL and leaves room for one in a buffer, and when the crawler can save it. -/
theorem served_page_arrives_iff (requests : Requests request line)
    (unlimited : client.limit = none) (fresh : client.sent = [])
    (dateLine : OneLine server.date.chars)
    (accessible : server.requested line = .unopenable ∨
      server.requested line = .readable content) :
    Arrives server env request client line fileName content ↔
      server.requested line = .readable content ∧ '\x00' ∉ content ∧
        content.length < 2 ^ 31 - 1 ∧ Savable env fileName := by
  constructor
  · intro arrives
    obtain ⟨⟨nonneg, small⟩, savable, same⟩ :=
      arrives.receivable requests fresh dateLine
    have length := server.body_length line
    refine ⟨accessible.resolve_left fun unopenable => ?_, ?_, ?_, savable⟩
    · have response : server.response line = FileAccess.unopenable.response := by
        rw [← unopenable]
        rfl
      have ok := arrives.1
      rw [response] at ok
      cases ok
    · rw [same]
      exact (server.body line).nulFree
    · rw [same]
      omega
  · rintro ⟨readable, nulFree, small, savable⟩
    obtain ⟨ok, length, body⟩ := body_readable readable nulFree small
    have nonneg : 0 ≤ server.contentLength line := by omega
    obtain ⟨exchange, served⟩ := requests.served unlimited nonneg
    obtain ⟨_, sent⟩ := requests.answered fresh served
    refine ⟨ok, exchange, served, fun sock delivers => ?_⟩
    rw [sent] at delivers
    obtain ⟨after, received⟩ :=
      receiveAnswer_answer dateLine ⟨nonneg, by omega⟩ delivers
    obtain ⟨page, saved⟩ := savePage_of_savable
      ((server.body line).chars ++ ['\x00']) savable
    refine ⟨_, after, page, received, by rw [ok]; rfl, saved, ?_⟩
    rw [(savePage_returns saved).2, CString.ofBlock_chars,
      cstr_append_nul (server.body line).nulFree, body]

end Delivery

def siteOf (file : FileAccess) : ServerEnv :=
  { emptySite with file := fun _ => file }

def indexRequest : Socket :=
  .ofData true "GET /index HTTP/1.1\n\n\n\n\n\n".toList

theorem indexRequest_requests : Requests indexRequest indexLine :=
  ⟨_, true, _, _, SegmentedStream.Stream.ofData_delivers true _,
    (by decide : _ = some (indexLine, "\n\n\n\n\n".toList)), by decide,
    (by decide : _ = some [])⟩

theorem served_page_arrives_iff_text :
    Arrives (siteOf (.readable "text".toList)) openDirectory indexRequest patientClient
      indexLine indexPage "text".toList :=
  (served_page_arrives_iff indexRequest_requests rfl rfl (by decide) (Or.inr rfl)).mpr
    ⟨rfl, by decide, by decide, by decide, rfl⟩

/-- Of a page with a NUL only what stands before it arrives, and a page that must not
be written to is not found. -/
theorem served_page_changed :
    ¬ Arrives (siteOf (.readable ['a', '\x00', 'b'])) openDirectory indexRequest
      patientClient indexLine indexPage ['a', '\x00', 'b'] ∧
    ¬ Arrives (siteOf .unopenable) openDirectory indexRequest patientClient
      indexLine indexPage "text".toList := by
  constructor
  · intro arrives
    obtain ⟨_, _, same⟩ := arrives.receivable indexRequest_requests rfl (by decide)
    exact absurd (same ▸ CString.nulFree _ : '\x00' ∉ ['a', '\x00', 'b']) (by decide)
  · rintro ⟨ok, _⟩
    cases ok

end WebCrawl
