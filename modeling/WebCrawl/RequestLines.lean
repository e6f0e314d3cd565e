import WebCrawl.RequestDecoding

/-!
# Which requests are recognised

`recv_get` accepts a request line by its length and cuts the path at fixed
offsets from both ends, and it reads five more lines whatever they are.  So it
takes lines for requests that are none, and it only reads a request to its end
when the request has four header lines.
-/

namespace WebCrawl

def methodStart : List Char :=
  "GET ".toList

/-- A request line that asks for a path. -/
def GetLine (line path : List Char) : Prop :=
  line = methodStart ++ (path ++ requestVersion) ∧ path ≠ []

theorem cstr_length_le (before behind : List Char) :
    (cstr (before ++ '\x00' :: behind)).length ≤ before.length := by
  induction before with
  | nil => simp [cstr]
  | cons first before ih =>
      rw [List.cons_append, cstr, List.takeWhile_cons]
      split
      next => exact Nat.succ_le_succ ih
      next => simp

/-- The name ends nine characters before the end that the length of the line
has as an `int`. -/
theorem requestName_length_le {rootDir : CString} {line : List Char}
    (long : 13 < toInt (strlen line)) :
    ((requestName rootDir (line ++ ['\x00'])).chars.length : Int) ≤
      rootDir.chars.length + (toInt (strlen line) - 13) := by
  obtain ⟨place, placeEq⟩ : ∃ place : Nat, (place : Int) = toInt (strlen line) - 9 :=
    ⟨(toInt (strlen line) - 9).toNat, by omega⟩
  have within : strlen line ≤ line.length := (List.takeWhile_sublist _).length_le
  have notMore := toInt_le (strlen line)
  have cutAt : (toInt (strlen line) - 9).toNat = place := by omega
  have inside : place < (line ++ ['\x00']).length := by
    rw [List.length_append]
    omega
  have cut : ((line ++ ['\x00']).set place '\x00').drop 4 =
      ((line ++ ['\x00']).take place).drop 4 ++
        '\x00' :: (line ++ ['\x00']).drop (place + 1) := by
    rw [List.set_eq_take_append_cons_drop, if_pos inside,
      List.drop_append_of_le_length (by rw [List.length_take]; omega)]
  have short := cstr_length_le (((line ++ ['\x00']).take place).drop 4)
    ((line ++ ['\x00']).drop (place + 1))
  rw [List.length_drop, List.length_take_of_le (Nat.le_of_lt inside)] at short
  rw [requestName, strlen_append_nul, cutAt, cut, CString.strcat_chars,
    List.length_append, CString.ofBlock_chars]
  omega

section Lines

variable {rootDir : CString} {sock : Socket} {data line path rest : List Char}
variable {closed : Bool}

theorem GetLine.nulFree (isGet : GetLine line path) (pathNulFree : '\x00' ∉ path) :
    '\x00' ∉ line := by
  have start : '\x00' ∉ methodStart := by decide
  have version : '\x00' ∉ requestVersion := by decide
  rw [isGet.1]
  simp [start, version, pathNulFree]

theorem GetLine.length (isGet : GetLine line path) :
    line.length = path.length + 13 ∧ 13 < line.length := by
  have positive : 0 < path.length := List.length_pos_iff.mpr isGet.2
  have length : line.length = path.length + 13 := by
    have start : methodStart.length = 4 := rfl
    have version : requestVersion.length = 9 := rfl
    rw [isGet.1, List.length_append, List.length_append, start, version]
    omega
  omega

theorem GetLine.path_eq (isGet : GetLine line path) :
    (line.drop 4).take (line.length - 13) = path := by
  have length : line.length - 13 = path.length := by
    rw [isGet.length.1]
    omega
  have behind : line.drop 4 = path ++ requestVersion := by
    rw [isGet.1]
    rfl
  rw [length, behind, List.take_left]

/-- `recv_get` returns 0 with the name of the path for a line that asks for one,
and -1 for any other line. -/
structure Recognises (rootDir : CString) (sock : Socket) (line : List Char) : Prop where
  accepts : ∀ path, GetLine line path → ∃ name after,
    Outcome.Settles (recvGet · rootDir sock) (.returns (some name, after)) ∧
      name.chars = rootDir.chars ++ path
  refuses : (∀ path, ¬ GetLine line path) → ∃ after,
    Outcome.Settles (recvGet · rootDir sock) (.returns (none, after))

/-- A line that asks for a path is recognised as long as it is a C string and
its length an `int`. -/
theorem accepts_iff (isGet : GetLine line path) (delivers : sock.Delivers data closed)
    (next : nextLine closed data = some (line, rest))
    (complete : (afterLines closed 5 rest).isSome) :
    (∃ name after, Outcome.Settles (recvGet · rootDir sock)
        (.returns (some name, after)) ∧ name.chars = rootDir.chars ++ path) ↔
      '\x00' ∉ line ∧ line.length < 2 ^ 31 := by
  obtain ⟨length, long⟩ := isGet.length
  constructor
  · rintro ⟨name, after, received, nameEq⟩
    have pathNulFree : '\x00' ∉ path := fun member =>
      name.nulFree (nameEq ▸ List.mem_append_right _ member)
    have nulFree := isGet.nulFree pathNulFree
    have whole : strlen line = line.length := by rw [strlen, cstr_of_nulFree nulFree]
    refine ⟨nulFree, ?_⟩
    obtain ⟨long, rfl⟩ := recvGet_returned delivers next received
    have short := @requestName_length_le rootDir line long
    have upper := (toInt_bounds (strlen line)).2
    rw [nameEq, List.length_append] at short
    omega
  · rintro ⟨nulFree, isInt⟩
    have lineLength := toInt_strlen nulFree isInt
    obtain ⟨last, lines⟩ := Option.isSome_iff_exists.mp complete
    obtain ⟨after, received, _⟩ :=
      @recvGet_name rootDir _ _ _ _ _ _ delivers next (by omega) lines
    refine ⟨_, after, received, ?_⟩
    rw [requestName_chars nulFree long isInt, isGet.path_eq]

theorem refuses_iff (delivers : sock.Delivers data closed)
    (next : nextLine closed data = some (line, rest)) :
    (∃ after, Outcome.Settles (recvGet · rootDir sock) (.returns (none, after))) ↔
      0 ≤ toInt (strlen line) ∧ toInt (strlen line) ≤ 13 := by
  constructor
  · rintro ⟨after, received⟩
    rcases recvGet_cases rootDir delivers next with
      ⟨_, faulted⟩ | ⟨nonneg, short, _⟩ | ⟨_, _, waiting⟩ | ⟨_, _, _, _, named, _⟩
    · cases received.unique faulted
    · exact ⟨nonneg, short⟩
    · cases received.unique waiting
    · cases received.unique named
  · rintro ⟨nonneg, short⟩
    obtain ⟨after, refused, _⟩ := @recvGet_short rootDir _ _ _ _ _ delivers next nonneg short
    exact ⟨after, refused⟩

/-- A first line is recognised for what it is exactly when it asks for a path,
or when it does not and is too short to be accepted. -/
theorem recvGet_recognises_iff (delivers : sock.Delivers data closed)
    (next : nextLine closed data = some (line, rest))
    (complete : (afterLines closed 5 rest).isSome) :
    Recognises rootDir sock line ↔
      ((∃ path, GetLine line path) ∧ '\x00' ∉ line ∧ line.length < 2 ^ 31) ∨
      ((∀ path, ¬ GetLine line path) ∧
        0 ≤ toInt (strlen line) ∧ toInt (strlen line) ≤ 13) := by
  by_cases isGet : ∃ path, GetLine line path
  · obtain ⟨path, isGet⟩ := isGet
    constructor
    · intro recognises
      have accepted := recognises.accepts path isGet
      exact Or.inl ⟨⟨path, isGet⟩, (accepts_iff isGet delivers next complete).mp accepted⟩
    · rintro (⟨_, readable⟩ | ⟨noGet, _⟩)
      · exact ⟨fun other isOther => (accepts_iff isOther delivers next complete).mpr readable,
          fun noGet => absurd isGet (noGet path)⟩
      · exact absurd isGet (noGet path)
  · rw [not_exists] at isGet
    constructor
    · intro recognises
      have refused := recognises.refuses isGet
      exact Or.inr ⟨isGet, (refuses_iff delivers next).mp refused⟩
    · rintro (⟨⟨path, isPath⟩, _⟩ | ⟨_, short⟩)
      · exact absurd isPath (isGet path)
      · exact ⟨fun path isPath => absurd isPath (isGet path),
          fun _ => (refuses_iff delivers next).mpr short⟩

end Lines

def getLine : List Char :=
  "GET /site/page HTTP/1.1".toList

def postLine : List Char :=
  "POST /site/page HTTP/1.1".toList

theorem recvGet_recognises_iff_get :
    Recognises emptySite.rootDir (.ofData true (getLine ++ "\n\n\n\n\n\n".toList)) getLine := by
  refine (recvGet_recognises_iff (SegmentedStream.Stream.ofData_delivers true _)
    (show nextLine true _ = some (getLine, "\n\n\n\n\n".toList) by decide) (by decide)).mpr ?_
  exact Or.inl ⟨⟨"/site/page".toList, rfl, by decide⟩, by decide, by decide⟩

/-- A request of another method is accepted, under a name with a blank in it. -/
theorem recvGet_accepts_post :
    (∀ path, ¬ GetLine postLine path) ∧
    (∃ name after, Outcome.Settles
        (recvGet · emptySite.rootDir
          (.ofData true (postLine ++ "\n\n\n\n\n\n".toList)))
        (.returns (some name, after)) ∧
      name.chars = emptySite.rootDir.chars ++ " /site/page".toList) ∧
    ¬ Recognises emptySite.rootDir (.ofData true (postLine ++ "\n\n\n\n\n\n".toList))
      postLine := by
  have noGet : ∀ path, ¬ GetLine postLine path := by
    intro path isGet
    have firstChar : postLine.head? = some 'G' := congrArg List.head? isGet.1
    exact absurd firstChar (by decide)
  have next : nextLine true (postLine ++ "\n\n\n\n\n\n".toList) =
      some (postLine, "\n\n\n\n\n".toList) := by
    decide
  have delivers := SegmentedStream.Stream.ofData_delivers true
    (postLine ++ "\n\n\n\n\n\n".toList)
  obtain ⟨after, received, _⟩ := @recvGet_name emptySite.rootDir _ _ _ _ _ _ delivers next
    (by decide) (show afterLines true 5 "\n\n\n\n\n".toList = some [] by decide)
  refine ⟨noGet, ⟨_, after, received, by decide⟩, fun recognises => ?_⟩
  obtain ⟨other, refused⟩ := recognises.refuses noGet
  cases received.unique refused

/-- Text without the characters that separate the parts of a request. -/
def Visible (text : List Char) : Prop :=
  text ≠ [] ∧ ∀ ch ∈ text, ch ∉ [' ', '\r', '\n', '\x00']

instance (text : List Char) : Decidable (Visible text) :=
  have := List.decidableBAll (fun ch => ch ∉ [' ', '\r', '\n', '\x00']) text
  instDecidableAnd

/-- A header field, printed as one line. -/
structure HeaderField where
  name : List Char
  value : List Char
  nameVisible : Visible name
  valueLine : OneLine value

def HeaderField.line (field : HeaderField) : List Char :=
  field.name ++ ':' :: field.value

/-- A request without a body. -/
structure HttpRequest where
  method : List Char
  target : List Char
  headers : List HeaderField
  methodVisible : Visible method
  targetVisible : Visible target

namespace HttpRequest

variable (request : HttpRequest)

def requestLine : List Char :=
  request.method ++ ' ' :: (request.target ++ requestVersion)

/-- The lines behind the request line, the last one blank. -/
def laterLines : List (List Char) :=
  request.headers.map HeaderField.line ++ [[]]

theorem laterLines_ne_nil : request.laterLines ≠ [] := by
  simp [laterLines]

def text : List Char :=
  crlfLines (request.requestLine :: request.laterLines)

end HttpRequest

theorem Visible.oneLine {text : List Char} (visible : Visible text) : OneLine text := by
  constructor <;> intro member <;> exact visible.2 _ member (by decide)

theorem Visible.nulFree {text : List Char} (visible : Visible text) : '\x00' ∉ text :=
  fun member => visible.2 _ member (by decide)

section Requests

variable {request : HttpRequest} {sock : Socket} {rest : List Char} {closed : Bool}

theorem HttpRequest.oneLine_requestLine (request : HttpRequest) :
    OneLine request.requestLine := by
  have blank : OneLine (' ' :: requestVersion) := by decide
  have method := request.methodVisible.oneLine
  have target := request.targetVisible.oneLine
  simp only [OneLine, HttpRequest.requestLine, List.mem_append, List.mem_cons] at *
  tauto

theorem HttpRequest.nulFree_requestLine (request : HttpRequest) :
    '\x00' ∉ request.requestLine := by
  have blank : '\x00' ∉ ' ' :: requestVersion := by decide
  have method := request.methodVisible.nulFree
  have target := request.targetVisible.nulFree
  simp only [HttpRequest.requestLine, List.mem_append, List.mem_cons] at *
  tauto

theorem HttpRequest.oneLine_laterLines (request : HttpRequest) :
    ∀ line ∈ request.laterLines, OneLine line := by
  intro line member
  rcases List.mem_append.mp member with header | blank
  · obtain ⟨field, _, rfl⟩ := List.mem_map.mp header
    have name := field.nameVisible.oneLine
    have value := field.valueLine
    have colon : OneLine [':'] := by decide
    simp only [OneLine, HeaderField.line, List.mem_append, List.mem_cons] at *
    tauto
  · rw [List.mem_singleton.mp blank]
    exact ⟨List.not_mem_nil, List.not_mem_nil⟩

theorem length_crlfLines_pos {lines : List (List Char)} (nonempty : lines ≠ []) :
    0 < (crlfLines lines).length := by
  obtain ⟨line, others, rfl⟩ := List.exists_cons_of_ne_nil nonempty
  rw [length_crlfLines_cons]
  omega

/-- Five lines are read after the request line: exactly the rest of the request
only if they are all there is of it. -/
theorem afterLines_five_iff (closed : Bool) {lines : List (List Char)} (rest : List Char)
    (oneLine : ∀ line ∈ lines, OneLine line) :
    afterLines closed 5 (crlfLines lines ++ rest) = some rest ↔ lines.length = 5 := by
  constructor
  · intro exactly
    rcases Nat.lt_trichotomy lines.length 5 with few | five | many
    · obtain ⟨missing, missingEq⟩ : ∃ missing, 5 = lines.length + (missing + 1) :=
        ⟨4 - lines.length, by omega⟩
      rw [missingEq, afterLines_add, afterLines_crlf closed rest oneLine,
        Option.bind_some] at exactly
      have shorter := afterLines_shorter exactly
      omega
    · exact five
    · have split : crlfLines lines ++ rest =
          crlfLines (lines.take 5) ++ (crlfLines (lines.drop 5) ++ rest) := by
        rw [← List.append_assoc, crlfLines, crlfLines, crlfLines, ← List.flatMap_append,
          List.take_append_drop]
      have five : (lines.take 5).length = 5 := List.length_take_of_le (by omega)
      have firstFive : ∀ line ∈ lines.take 5, OneLine line := fun line member =>
        oneLine line (List.mem_of_mem_take member)
      have read := afterLines_crlf closed (crlfLines (lines.drop 5) ++ rest) firstFive
      rw [five, ← split, exactly] at read
      have left := congrArg List.length (Option.some.inj read)
      have unread : 0 < (lines.drop 5).length := by
        rw [List.length_drop]
        omega
      have longer := length_crlfLines_pos (List.ne_nil_of_length_pos unread)
      rw [List.length_append] at left
      omega
  · intro five
    have read := afterLines_crlf closed rest oneLine
    rwa [five] at read

/-- A request is read up to its blank line, and nothing more is waited for or
read, exactly when it has four header lines and its request line is accepted. -/
theorem recvGet_reads_request_iff {rootDir : CString}
    (delivers : sock.Delivers (request.text ++ rest) closed) :
    (∃ result after, Outcome.Settles (recvGet · rootDir sock) (.returns (result, after)) ∧
        after.Delivers rest closed) ↔
      request.headers.length = 4 ∧ 13 < toInt request.requestLine.length := by
  have next : nextLine closed (request.text ++ rest) =
      some (request.requestLine, crlfLines request.laterLines ++ rest) :=
    nextLine_crlf closed _ rest request.oneLine_requestLine
  have length : strlen request.requestLine = request.requestLine.length := by
    rw [strlen, cstr_of_nulFree request.nulFree_requestLine]
  have five := afterLines_five_iff closed rest request.oneLine_laterLines
  rw [HttpRequest.laterLines, List.length_append, List.length_map, List.length_singleton,
    ← HttpRequest.laterLines, Nat.add_right_cancel_iff] at five
  rw [← length, ← five]
  constructor
  · rintro ⟨result, after, received, delivered⟩
    rcases recvGet_cases rootDir delivers next with
      ⟨_, faulted⟩ | ⟨_, _, other, refused, left⟩ | ⟨_, _, waiting⟩ |
        ⟨long, last, other, lines, named, left⟩
    · cases received.unique faulted
    · cases received.unique refused
      have same := congrArg List.length (left.carries.unique delivered.carries)
      have unread := length_crlfLines_pos request.laterLines_ne_nil
      rw [List.length_append] at same
      omega
    · cases received.unique waiting
    · cases received.unique named
      rw [left.carries.unique delivered.carries] at lines
      exact ⟨lines, long⟩
  · rintro ⟨lines, long⟩
    obtain ⟨after, received, delivered⟩ :=
      @recvGet_name rootDir _ _ _ _ _ _ delivers next long lines
    exact ⟨_, after, received, delivered⟩

end Requests

def hostField : HeaderField where
  name := "Host".toList
  value := " localhost".toList
  nameVisible := by decide
  valueLine := by decide

/-- A request with the given number of header lines. -/
def pageRequest (fields : Nat) : HttpRequest where
  method := "GET".toList
  target := "/site/page".toList
  headers := List.replicate fields hostField
  methodVisible := by decide
  targetVisible := by decide

theorem recvGet_reads_request_iff_four :
    ∃ result after, Outcome.Settles
        (recvGet · emptySite.rootDir (.ofData false ((pageRequest 4).text ++ [])))
        (.returns (result, after)) ∧
      after.Delivers [] false :=
  (recvGet_reads_request_iff (SegmentedStream.Stream.ofData_delivers false _)).mpr
    ⟨rfl, by decide⟩

/-- A request with one header line is complete, and yet waited for. -/
theorem recvGet_waits_for_lines :
    Outcome.Settles
      (recvGet · emptySite.rootDir (.ofData false (pageRequest 1).text)) .unfinished ∧
    ¬ ∃ result after, Outcome.Settles
        (recvGet · emptySite.rootDir (.ofData false (pageRequest 1).text))
        (.returns (result, after)) ∧
      after.Delivers [] false := by
  have waits : Outcome.Settles
      (recvGet · emptySite.rootDir (.ofData false (pageRequest 1).text)) .unfinished :=
    recvGet_waiting (SegmentedStream.Stream.ofData_delivers false _)
      (show nextLine false (pageRequest 1).text =
        some (getLine, crlfLines (pageRequest 1).laterLines) by decide)
      (by decide) (by decide)
  refine ⟨waits, ?_⟩
  rintro ⟨result, after, received, _⟩
  cases waits.unique received

end WebCrawl
