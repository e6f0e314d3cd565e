import WebCrawl.SocketTransfer

/-!
# Serving one request

`recv_get` and `getRequest` of a server thread.  The files below `root_dir` and
the date are parameters, and so is how much of the answer the client takes.
-/

namespace WebCrawl

/-- What the calls of `access` and `fopen` find under a name. -/
inductive FileAccess where
  | missing
  | forbidden
  | unopenable
  | readable (content : List Char)
  deriving DecidableEq, Repr

/-- What a server thread finds around it.  The date is what `strftime` writes
into 80 bytes. -/
structure ServerEnv where
  rootDir : CString
  file : CString → FileAccess
  date : CString
  dateFits : date.chars.length < 80

inductive Status where
  | ok
  | forbidden
  | notFound
  deriving DecidableEq, Repr

def Status.text : Status → List Char
  | .ok => "200 OK".toList
  | .forbidden => "403 Forbidden".toList
  | .notFound => "404 Not Found".toList

/-- What `getRequest` answers: the status, the block with the message and, when
it counts the page as served, the size that it adds. -/
structure Response where
  status : Status
  msg : List Char
  served : Option Nat
  deriving DecidableEq, Repr

def notFound : Response where
  status := .notFound
  msg := "<html>Sorry dude, couldn't find this file.</html>\x00".toList
  served := none

def FileAccess.response : FileAccess → Response
  | .missing | .unopenable => notFound
  | .forbidden =>
      { status := .forbidden
        msg := "<html>Trying to access this file but don't think I can make it.</html>\x00".toList
        served := none }
  | .readable content =>
      { status := .ok
        msg := content ++ ['\x00']
        served := some content.length }

def statusStart : List Char :=
  "HTTP/1.1 ".toList

def dateStart : List Char :=
  "Date: ".toList

def serverLine : List Char :=
  "Server: myhttpd/1.0.0 (Ubuntu64)".toList

def lengthStart : List Char :=
  "Content-Length: ".toList

def typeLine : List Char :=
  "Content-Type: text/html".toList

def connectionLine : List Char :=
  "Connection: Closed".toList

/-- The lines of the header that `getRequest` prints, the last one blank. -/
def headerLines (status : Status) (date : CString) (length : Int) :
    List (List Char) :=
  [statusStart ++ status.text, dateStart ++ date.chars, serverLine,
    lengthStart ++ decimal length, typeLine, connectionLine, []]

def header (status : Status) (date : CString) (length : Int) : List Char :=
  crlfLines (headerLines status date length)

/-- The name that `recv_get` makes from the block with the request line. -/
def requestName (rootDir : CString) (line : List Char) : CString :=
  rootDir.strcat
    (.ofBlock ((line.set (toInt (strlen line) - 9).toNat '\x00').drop 4))

def emptyRequestLength : Nat :=
  strlen "GET  HTTP/1.1".toList

/-- `recv_get`; `none` when it returns -1.  The loop at its end is that of
`consumeLines`. -/
def recvGet (fuel : Nat) (rootDir : CString) (sock : Socket) :
    Outcome (Option CString × Socket) := do
  let (line, sock) ← inputStringFd fuel 10 sock
  let length := toInt (strlen line)
  if toSize length ≤ emptyRequestLength then return (none, sock)
  else if length < 9 then .faults
  else
    let sock ← consumeLines fuel 5 sock
    return (some (requestName rootDir line), sock)

/-- The two calls of `socket_write` with which `getRequest` sends its answer. -/
def writeAnswer (fuel : Nat) (newsock : Client) (buf msg : List Char) :
    Outcome Client := do
  match ← socketWrite fuel newsock buf (toInt buf.length) with
  | none => .exits
  | some newsock =>
      match ← socketWrite fuel newsock (cstr msg) (toInt (strlen msg)) with
      | none => .exits
      | some newsock => return newsock

/-- What is left after a request was served. -/
structure Exchange where
  unread : Socket
  client : Client
  served : Option Nat

def getRequest (fuel : Nat) (env : ServerEnv) (newsock : Socket)
    (client : Client) : Outcome Exchange := do
  let (name, newsock) ← recvGet fuel env.rootDir newsock
  match name with
  | none => .exits
  | some name =>
      let response := (env.file name).response
      let buf := header response.status env.date (toInt (strlen response.msg))
      if 10000 ≤ buf.length then .faults
      else
        let client ← writeAnswer fuel client buf response.msg
        return ⟨newsock, client, response.served⟩

theorem decimal_length (number : Int) : (decimal (toInt number)).length ≤ 11 := by
  obtain ⟨above, below⟩ := toInt_bounds number
  have digits : (Nat.toDigits 10 (toInt number).natAbs).length ≤ 10 := by
    rw [Nat.length_toDigits_le_iff (by decide) (by decide)]
    omega
  unfold decimal
  split
  · rw [List.length_cons]
    omega
  · omega

/-- The buffer for the header is always large enough. -/
theorem header_fits (status : Status) {date : CString} (length : Int)
    (dateFits : date.chars.length < 80) :
    (header status date (toInt length)).length < 10000 := by
  have digits := decimal_length length
  have statusText : status.text.length ≤ 13 := by
    cases status <;> decide
  have texts : statusStart.length = 9 ∧ dateStart.length = 6 ∧
      serverLine.length = 32 ∧ lengthStart.length = 16 ∧
      typeLine.length = 23 ∧ connectionLine.length = 18 :=
    ⟨rfl, rfl, rfl, rfl, rfl, rfl⟩
  rw [header, crlfLines, List.length_flatMap]
  simp only [headerLines, List.map_cons, List.map_nil, List.sum_cons, List.sum_nil,
    List.length_append, List.length_cons, List.length_nil]
  omega

end WebCrawl
