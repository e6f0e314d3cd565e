import WebCrawl.RequestService

/-!
# The server decodes what the crawler asks for

`get` prints the page name into a request line with five header lines behind
it, and `recv_get` cuts the name out again.  The two agree as long as the page
name has no carriage return, which is where the line reader stops and link
extraction does not.
-/

namespace WebCrawl

/-- The header lines that `get` sends after the request line. -/
def requestHeaders : List (List Char) :=
  ["User-Agent: Mozilla/4.0 (compatible; MSIE5.01; Windows NT)".toList,
    "Host: www.tutorialspoint.com".toList, "Accept-Language: en-us".toList,
    "Accept-Encoding: gzip, deflate".toList, "Connection: Keep-Alive".toList]

def requestStart : List Char :=
  "GET /".toList

def requestVersion : List Char :=
  " HTTP/1.1".toList

/-- The request line of `get`, without its end. -/
def requestLine (page : CString) : List Char :=
  requestStart ++ (page.chars ++ requestVersion)

def requestText (page : CString) : List Char :=
  crlfLines (requestLine page :: requestHeaders)

theorem requestText_eq (page : CString) :
    requestText page =
      requestLine page ++ '\r' :: '\n' :: crlfLines requestHeaders := by
  simp [requestText, crlfLines]

theorem requestText_length (page : CString) :
    (requestText page).length = page.chars.length + 186 := by
  have start : requestStart.length = 5 := rfl
  have version : requestVersion.length = 9 := rfl
  have headers : (crlfLines requestHeaders).length = 170 := rfl
  rw [requestText_eq, requestLine]
  simp only [List.length_append, List.length_cons, start, version, headers]
  omega

/-- The bytes that `get` sends: the text and its NUL, if `msg` has room. -/
def getMessage (page : CString) : Outcome (List Char) :=
  if 10000 < (requestText page).length + 1 then .faults
  else .returns (requestText page ++ ['\x00'])

theorem toInt_strlen {line : List Char} (nulFree : '\x00' ∉ line)
    (isInt : line.length < 2 ^ 31) : toInt (strlen line) = line.length := by
  rw [strlen, cstr_of_nulFree nulFree]
  exact toInt_of_range (by omega) (by omega)

theorem requestName_chars {rootDir : CString} {line : List Char}
    (nulFree : '\x00' ∉ line) (long : 13 < line.length)
    (isInt : line.length < 2 ^ 31) :
    (requestName rootDir (line ++ ['\x00'])).chars =
      rootDir.chars ++ (line.drop 4).take (line.length - 13) := by
  have length := toInt_strlen nulFree isInt
  have cutAt : ((line.length : Int) - 9).toNat = line.length - 9 := by omega
  have cut : ((line ++ ['\x00']).set (line.length - 9) '\x00').drop 4 =
      (line.drop 4).take (line.length - 13) ++
        '\x00' :: (line ++ ['\x00']).drop (line.length - 9 + 1) := by
    rw [List.set_eq_take_append_cons_drop, if_pos (by rw [List.length_append]; omega),
      List.take_append_of_le_length (by omega),
      List.drop_append_of_le_length (by simp; omega), List.drop_take]
    congr 2
  have nameNulFree : '\x00' ∉ (line.drop 4).take (line.length - 13) := fun member =>
    nulFree (List.mem_of_mem_drop (List.mem_of_mem_take member))
  rw [requestName, strlen_append_nul, length, cutAt, cut]
  simp [cstr_append_nul nameNulFree]

theorem requestStart_eq : requestStart = ['G', 'E', 'T', ' ', '/'] := by
  decide

theorem requestLine_name (page : CString) :
    ((requestLine page).drop 4).take ((requestLine page).length - 13) =
      '/' :: page.chars := by
  have version : requestVersion.length = 9 := rfl
  have length : (requestLine page).length - 13 = ('/' :: page.chars).length := by
    simp only [requestLine, requestStart_eq, List.length_append, List.length_cons,
      List.length_nil, version]
    omega
  have behind : (requestLine page).drop 4 = ('/' :: page.chars) ++ requestVersion := by
    rw [requestLine, requestStart_eq]
    rfl
  rw [length, behind, List.take_left]

theorem nulFree_requestLine (page : CString) : '\x00' ∉ requestLine page := by
  have start : '\x00' ∉ requestStart := by decide
  have version : '\x00' ∉ requestVersion := by decide
  simp [requestLine, start, version, page.nulFree]

theorem oneLine_requestLine {page : CString} (noReturn : '\r' ∉ page.chars)
    (noNewline : '\n' ∉ page.chars) : OneLine (requestLine page) := by
  have start : '\r' ∉ requestStart ∧ '\n' ∉ requestStart := by decide
  have version : '\r' ∉ requestVersion ∧ '\n' ∉ requestVersion := by decide
  simp [OneLine, requestLine, start, version, noReturn, noNewline]

theorem oneLine_requestHeaders : ∀ line ∈ requestHeaders, OneLine line := by
  decide

section Decoding

variable {rootDir page : CString} {sock : Socket} {closed : Bool}

theorem getMessage_short (short : page.chars.length < 9000) :
    getMessage page = .returns (requestText page ++ ['\x00']) := by
  rw [getMessage, requestText_length, if_neg (by omega)]

theorem getMessage_fits {bytes : List Char} (sent : getMessage page = .returns bytes) :
    bytes = requestText page ++ ['\x00'] ∧ (requestText page).length < 10000 := by
  unfold getMessage at sent
  split at sent
  · cases sent
  · cases sent
    exact ⟨rfl, by omega⟩

theorem recvGet_decodes (noReturn : '\r' ∉ page.chars)
    (noNewline : '\n' ∉ page.chars) (small : (requestText page).length < 10000)
    (delivers : sock.Delivers (requestText page ++ ['\x00']) closed) :
    ∃ name after, Outcome.Settles (recvGet · rootDir sock)
        (.returns (some name, after)) ∧
      name.chars = rootDir.chars ++ '/' :: page.chars ∧
      after.Delivers ['\x00'] closed := by
  have next : nextLine closed (requestText page ++ ['\x00']) =
      some (requestLine page, crlfLines requestHeaders ++ ['\x00']) :=
    nextLine_crlf closed _ _ (oneLine_requestLine noReturn noNewline)
  have short : (requestLine page).length < 10000 := by
    rw [requestText_eq, List.length_append] at small
    omega
  have long : 13 < (requestLine page).length := by
    have start : requestStart.length = 5 := rfl
    have version : requestVersion.length = 9 := rfl
    simp only [requestLine, List.length_append, start, version]
    omega
  have length := toInt_strlen (nulFree_requestLine page) (by omega)
  obtain ⟨after, received, delivered⟩ := recvGet_name delivers next
    (by rw [length]; omega) (afterLines_crlf closed _ oneLine_requestHeaders)
  refine ⟨_, after, received, ?_, delivered⟩
  rw [requestName_chars (nulFree_requestLine page) long (by omega),
    requestLine_name]

/-- A carriage return in the page name ends the request line before its time. -/
theorem nextLine_requestText_return (carriageReturn : '\r' ∈ page.chars)
    (noNewline : '\n' ∉ page.chars) :
    ∃ before more rest, page.chars = before ++ '\r' :: more ∧
      nextLine closed (requestText page ++ ['\x00']) =
        some (requestStart ++ before, rest) := by
  obtain ⟨before, more, split, firstReturn⟩ :=
    List.eq_append_cons_of_mem carriageReturn
  obtain ⟨swallowed, rest, restEq⟩ : ∃ swallowed rest,
      more ++ (requestVersion ++ '\r' :: '\n' :: (crlfLines requestHeaders ++
        ['\x00'])) = swallowed :: rest :=
    List.exists_cons_of_ne_nil (by simp)
  have data : requestText page ++ ['\x00'] =
      (requestStart ++ before) ++ '\r' :: swallowed :: rest := by
    rw [← restEq, requestText_eq, requestLine, split]
    simp
  have oneLine : OneLine (requestStart ++ before) := by
    have start : '\r' ∉ requestStart ∧ '\n' ∉ requestStart := by decide
    rw [split] at noNewline
    simp only [List.mem_append, not_or] at noNewline
    simp [OneLine, start, firstReturn, noNewline.1]
  refine ⟨before, more, rest, split, ?_⟩
  rw [data, nextLine_append closed _ oneLine]
  simp [nextLine]

/-- The name that is cut out of such a line is too short. -/
theorem recvGet_misreads (carriageReturn : '\r' ∈ page.chars)
    (noNewline : '\n' ∉ page.chars) (small : (requestText page).length < 10000)
    (delivers : sock.Delivers (requestText page ++ ['\x00']) closed)
    {name : CString} {after : Socket}
    (received : Outcome.Settles (recvGet · rootDir sock)
      (.returns (some name, after))) :
    name.chars.length < rootDir.chars.length + page.chars.length := by
  obtain ⟨before, more, rest, split, next⟩ :=
    @nextLine_requestText_return page closed carriageReturn noNewline
  have start : requestStart.length = 5 := rfl
  have lineLength : (requestStart ++ before).length = 5 + before.length := by
    rw [List.length_append, start]
  have pageLength : page.chars.length = before.length + more.length + 1 := by
    rw [split, List.length_append, List.length_cons]
    omega
  have pageSmall : page.chars.length < 10000 := by
    rw [requestText_length] at small
    omega
  have nulFree : '\x00' ∉ requestStart ++ before := fun member =>
    nulFree_requestLine page (by
      rw [requestLine, split]
      simpa using Or.imp_right Or.inl (List.mem_append.mp member))
  have length := toInt_strlen nulFree (by omega)
  obtain ⟨long, rfl⟩ := recvGet_returned delivers next received
  rw [length] at long
  rw [requestName_chars nulFree (by omega) (by omega), List.length_append, List.length_take]
  omega

/-- The server decodes the page that the crawler asks for, and leaves only the
closing NUL unread, exactly when the page name has no carriage return. -/
theorem recvGet_decodes_iff {bytes : List Char} (noNewline : '\n' ∉ page.chars)
    (sent : getMessage page = .returns bytes) (delivers : sock.Delivers bytes closed) :
    (∃ name after, Outcome.Settles (recvGet · rootDir sock)
        (.returns (some name, after)) ∧
      name.chars = rootDir.chars ++ '/' :: page.chars ∧
      after.Delivers ['\x00'] closed) ↔
    '\r' ∉ page.chars := by
  obtain ⟨rfl, small⟩ := getMessage_fits sent
  constructor
  · rintro ⟨name, after, received, decoded, _⟩ carriageReturn
    have tooShort := recvGet_misreads carriageReturn noNewline small delivers received
    rw [decoded, List.length_append, List.length_cons] at tooShort
    omega
  · intro noReturn
    exact recvGet_decodes noReturn noNewline small delivers

end Decoding

def indexPage : CString :=
  ⟨"index".toList, by decide⟩

def returnPage : CString :=
  ⟨"a\rb".toList, by decide⟩

theorem recvGet_decodes_iff_index :
    ∃ name after, Outcome.Settles
        (recvGet · emptySite.rootDir
          (.ofData false (requestText indexPage ++ ['\x00'])))
        (.returns (some name, after)) ∧
      name.chars = emptySite.rootDir.chars ++ '/' :: indexPage.chars ∧
      after.Delivers ['\x00'] false :=
  (recvGet_decodes_iff (by decide : '\n' ∉ indexPage.chars)
    (getMessage_short (by decide))
    (SegmentedStream.Stream.ofData_delivers false _)).mpr (by decide)

theorem recvGet_misreads_return :
    getMessage returnPage = .returns (requestText returnPage ++ ['\x00']) ∧
    ¬ ∃ name after, Outcome.Settles
        (recvGet · emptySite.rootDir
          (.ofData false (requestText returnPage ++ ['\x00'])))
        (.returns (some name, after)) ∧
      name.chars = emptySite.rootDir.chars ++ '/' :: returnPage.chars ∧
      after.Delivers ['\x00'] false := by
  have sent := getMessage_short (by decide : returnPage.chars.length < 9000)
  refine ⟨sent, ?_⟩
  rintro ⟨name, after, received, decoded, _⟩
  have tooShort := recvGet_misreads (by decide : '\r' ∈ returnPage.chars) (by decide)
    (getMessage_fits sent).2 (SegmentedStream.Stream.ofData_delivers false _) received
  rw [decoded, List.length_append, List.length_cons] at tooShort
  omega

end WebCrawl
