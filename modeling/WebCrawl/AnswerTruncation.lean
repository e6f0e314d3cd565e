import WebCrawl.AnswerDecoding

/-!
# Answers that are cut off

When the connection is closed too early, `read` gives nothing, again and again.
Neither the loop that reads a line nor the loop that reads the content takes
that for an end: both ask again.  So an answer that is cut off is not reported
but waited for.  The exceptions lack only the very last newline of the header:
an empty page, which counts as received, and a page whose length is negative as
an `int`, which is refused whether or not it is whole.
-/

namespace WebCrawl

/-- The length that the header announces. -/
def ServerEnv.contentLength (env : ServerEnv) (line : List Char) : Int :=
  toInt (strlen (env.response line).msg)

/-- What is sent behind the header. -/
def ServerEnv.body (env : ServerEnv) (line : List Char) : CString :=
  (CString.ofBlock (env.response line).msg).take (env.contentLength line).toNat

def ServerEnv.headerText (env : ServerEnv) (line : List Char) : List Char :=
  WebCrawl.header (env.response line).status env.date (env.contentLength line)

theorem ServerEnv.answer_eq (env : ServerEnv) (line : List Char) :
    env.answer line = env.headerText line ++ (env.body line).chars := by
  simp only [ServerEnv.answer, ServerEnv.headerText, ServerEnv.header, ServerEnv.body,
    ServerEnv.contentLength, CString.take, CString.ofBlock_chars]

theorem ServerEnv.body_length (env : ServerEnv) (line : List Char) :
    (env.body line).chars.length = (env.contentLength line).toNat := by
  have bound := toInt_le (strlen (env.response line).msg)
  have length : (cstr (env.response line).msg).length =
      strlen (env.response line).msg := rfl
  simp only [ServerEnv.body, ServerEnv.contentLength, CString.take, CString.ofBlock_chars,
    List.length_take, length]
  omega

section Truncation

variable {server : ServerEnv} {env : CrawlerEnv} {fileName : CString}
variable {sock : Socket} {line : List Char} {cut : Nat}

/-- The header announces the length of a content for which there is a buffer. -/
def Receivable (server : ServerEnv) (line : List Char) : Prop :=
  0 ≤ server.contentLength line ∧ server.contentLength line < 2 ^ 31 - 1

instance (server : ServerEnv) (line : List Char) : Decidable (Receivable server line) :=
  inferInstanceAs (Decidable (_ ∧ _))

/-- What a stream with a part of the answer gives once the header is read. -/
theorem receiveAnswer_cut (dateLine : OneLine server.date.chars)
    (delivers : sock.Delivers ((server.answer line).take cut) true) :
    (cut + 1 < (server.headerText line).length ∧
      Outcome.Settles (receiveAnswer · sock) .unfinished) ∨
    ((server.headerText line).length ≤ cut + 1 ∧ ∃ middle : Socket,
      middle.Delivers
        ((server.body line).chars.take (cut - (server.headerText line).length)) true ∧
      ∀ result, Outcome.Settles (receiveContent · (server.response line).status.code
          (server.contentLength line) middle) result →
        Outcome.Settles (receiveAnswer · sock) result) := by
  rw [ServerEnv.answer_eq] at delivers
  exact receiveAnswer_header dateLine (toInt_toInt _) delivers

/-- A cut that leaves out more than the newline of an empty page's header is
waited over for ever. -/
theorem readAnswerFromServer_cut_endless (dateLine : OneLine server.date.chars)
    (receivable : Receivable server line)
    (short : cut + 1 < (server.headerText line).length ∨
      cut < (server.headerText line).length + (server.body line).chars.length ∧
        (server.body line).chars ≠ [])
    (delivers : sock.Delivers ((server.answer line).take cut) true) :
    Outcome.Settles (readAnswerFromServer · env sock fileName) .unfinished := by
  apply readAnswerFromServer_unfinished
  rcases receiveAnswer_cut dateLine delivers with
    ⟨_, endless⟩ | ⟨complete, middle, middleDelivers, received⟩
  · exact endless
  · obtain ⟨missing, nonempty⟩ := short.resolve_left (by omega)
    have positive := List.length_pos_iff.mpr nonempty
    have length := server.body_length line
    obtain ⟨nonneg, small⟩ := receivable
    refine received _ (receiveContent_short middleDelivers ?_ small)
    rw [List.length_take]
    omega

theorem receiveAnswer_complete (dateLine : OneLine server.date.chars)
    (receivable : Receivable server line)
    (complete : (server.headerText line).length ≤ cut + 1)
    (whole : (server.body line).chars.length ≤ cut - (server.headerText line).length)
    (delivers : sock.Delivers ((server.answer line).take cut) true) :
    ∃ after, Outcome.Settles (receiveAnswer · sock) (.returns
      (some ⟨(server.response line).status.code, server.contentLength line,
        (server.body line).chars ++ ['\x00']⟩, after)) := by
  rcases receiveAnswer_cut dateLine delivers with
    ⟨short, _⟩ | ⟨_, middle, middleDelivers, received⟩
  · omega
  · have length := server.body_length line
    obtain ⟨nonneg, small⟩ := receivable
    rw [List.take_of_length_le whole] at middleDelivers
    obtain ⟨after, _, content⟩ :=
      receiveContent_whole middleDelivers (by omega) small
    exact ⟨after, received _ content⟩

/-- A negative length is no size for the read of the content, so that the
answer is refused once its header is read. -/
theorem receiveAnswer_negative (dateLine : OneLine server.date.chars)
    (negative : server.contentLength line < 0)
    (complete : (server.headerText line).length ≤ cut + 1)
    (delivers : sock.Delivers ((server.answer line).take cut) true) :
    ∃ after, Outcome.Settles (receiveAnswer · sock) (.returns (none, after)) := by
  rcases receiveAnswer_cut dateLine delivers with
    ⟨short, _⟩ | ⟨_, middle, _, received⟩
  · omega
  · exact ⟨middle, received _ (receiveContent_negative negative)⟩

theorem receiveAnswer_oversized (dateLine : OneLine server.date.chars)
    (largest : server.contentLength line = 2 ^ 31 - 1)
    (delivers : sock.Delivers ((server.answer line).take cut) true) :
    Outcome.Settles (receiveAnswer · sock) .unfinished ∨
    Outcome.Settles (receiveAnswer · sock) .faults := by
  rcases receiveAnswer_cut dateLine delivers with
    ⟨_, endless⟩ | ⟨_, middle, middleDelivers, received⟩
  · exact Or.inl endless
  · exact (receiveContent_oversized middleDelivers largest).imp (received _) (received _)

/-- A length that is no size of a buffer is negative or the largest one. -/
theorem contentLength_largest (unreceivable : ¬ Receivable server line)
    (nonneg : ¬ server.contentLength line < 0) :
    server.contentLength line = 2 ^ 31 - 1 := by
  have below := (toInt_bounds (strlen (server.response line).msg)).2
  simp only [Receivable, ServerEnv.contentLength] at unreceivable nonneg ⊢
  omega

theorem receiveAnswer_unreceivable (dateLine : OneLine server.date.chars)
    (unreceivable : ¬ Receivable server line)
    (delivers : sock.Delivers ((server.answer line).take cut) true)
    {received : Received} {after : Socket} :
    ¬ Outcome.Settles (receiveAnswer · sock) (.returns (some received, after)) := by
  intro settles
  by_cases negative : server.contentLength line < 0
  · rcases receiveAnswer_cut dateLine delivers with ⟨_, endless⟩ | ⟨_, middle, _, behind⟩
    · cases settles.unique endless
    · cases settles.unique (behind _ (receiveContent_negative negative))
  · rcases receiveAnswer_oversized dateLine (contentLength_largest unreceivable negative)
      delivers with endless | faulted
    · cases settles.unique endless
    · cases settles.unique faulted

/-- `readAnswerFromServer` ends and says whether the whole answer arrived. -/
def ReportsWhole (env : CrawlerEnv) (fileName : CString) (sock : Socket) (whole : Prop) :
    Prop :=
  ∃ result after, Outcome.Settles (readAnswerFromServer · env sock fileName)
      (.returns (result, after)) ∧
    (result.isSome ↔ whole)

theorem reportsWhole_of_receivable (dateLine : OneLine server.date.chars)
    (receivable : Receivable server line)
    (delivers : sock.Delivers ((server.answer line).take cut) true)
    (within : cut ≤ (server.answer line).length) :
    ReportsWhole env fileName sock (cut = (server.answer line).length) ↔
      cut = (server.answer line).length ∧
        Deliverable env (server.response line).status (server.body line) fileName := by
  have total : (server.answer line).length =
      (server.headerText line).length + (server.body line).chars.length := by
    rw [ServerEnv.answer_eq, List.length_append]
  by_cases whole : cut + 1 < (server.headerText line).length ∨
      cut < (server.headerText line).length + (server.body line).chars.length ∧
        (server.body line).chars ≠ []
  · have endless := @readAnswerFromServer_cut_endless _ env fileName _ _ _ dateLine
      receivable whole delivers
    refine iff_of_false ?_ (fun all => by omega)
    rintro ⟨result, after, settles, _⟩
    cases settles.unique endless
  obtain ⟨after, received⟩ := receiveAnswer_complete dateLine receivable
    (by omega) (by
      rw [not_or, not_and_or, not_not] at whole
      rcases whole.2 with complete | empty
      · omega
      · rw [empty]
        exact Nat.zero_le _) delivers
  rcases deliver_settles env (server.response line).status (server.body line)
      fileName with ⟨deliverable, delivery, settles⟩ | ⟨undeliverable, faulted⟩
  · have returned := readAnswerFromServer_received received settles
    constructor
    · rintro ⟨result, other, settled, reported⟩
      cases settled.unique returned
      exact ⟨reported.mp rfl, deliverable⟩
    · rintro ⟨complete, _⟩
      exact ⟨_, _, returned, fun _ => complete, fun _ => rfl⟩
  · have crashed := readAnswerFromServer_received received faulted
    refine iff_of_false ?_ fun all => undeliverable all.2
    rintro ⟨result, other, settled, _⟩
    cases settled.unique crashed

/-- With a negative length the answer is refused as soon as its header is read,
which the last newline is not needed for. -/
theorem reportsWhole_of_negative (dateLine : OneLine server.date.chars)
    (negative : server.contentLength line < 0)
    (delivers : sock.Delivers ((server.answer line).take cut) true)
    (within : cut ≤ (server.answer line).length) :
    ReportsWhole env fileName sock (cut = (server.answer line).length) ↔
      cut + 1 = (server.answer line).length := by
  have empty := server.body_length line
  have total : (server.answer line).length = (server.headerText line).length := by
    rw [ServerEnv.answer_eq, List.length_append]
    omega
  by_cases complete : (server.headerText line).length ≤ cut + 1
  · obtain ⟨after, refused⟩ := receiveAnswer_negative dateLine negative complete delivers
    have returned : Outcome.Settles (readAnswerFromServer · env sock fileName)
        (.returns (none, after)) := readAnswerFromServer_refused refused
    constructor
    · rintro ⟨result, other, settled, reported⟩
      cases settled.unique returned
      have notWhole : ¬ cut = (server.answer line).length := by simpa using reported
      omega
    · intro oneMissing
      exact ⟨none, after, returned, nofun, by omega⟩
  · refine iff_of_false ?_ (by omega)
    rintro ⟨result, other, settled, _⟩
    rcases receiveAnswer_cut dateLine delivers with ⟨_, endless⟩ | ⟨reached, _⟩
    · cases settled.unique (readAnswerFromServer_unfinished endless)
    · exact complete reached

/-- `readAnswerFromServer` ends and says whether the whole answer arrived only when
it did arrive and can be received and delivered, or when the length is negative
and nothing but the last newline of the header is missing. -/
theorem readAnswerFromServer_reports_iff (dateLine : OneLine server.date.chars)
    (within : cut ≤ (server.answer line).length)
    (delivers : sock.Delivers ((server.answer line).take cut) true) :
    (∃ result after, Outcome.Settles (readAnswerFromServer · env sock fileName)
        (.returns (result, after)) ∧
      (result.isSome ↔ cut = (server.answer line).length)) ↔
    (cut = (server.answer line).length ∧ Receivable server line ∧
      Deliverable env (server.response line).status (server.body line) fileName) ∨
    (cut + 1 = (server.answer line).length ∧ server.contentLength line < 0) := by
  by_cases receivable : Receivable server line
  · have notNegative := not_lt.mpr receivable.1
    exact (reportsWhole_of_receivable dateLine receivable delivers within).trans
      (by simp [receivable, notNegative])
  by_cases negative : server.contentLength line < 0
  · exact (reportsWhole_of_negative dateLine negative delivers within).trans
      (by simp [receivable, negative])
  · have largest := contentLength_largest receivable negative
    refine iff_of_false ?_ (by simp [receivable, negative])
    rintro ⟨result, after, settled, _⟩
    rcases receiveAnswer_oversized dateLine largest delivers with endless | faulted
    · cases settled.unique (readAnswerFromServer_unfinished endless)
    · cases settled.unique (readAnswerFromServer_faults faulted)

end Truncation

def indexLine : List Char :=
  "GET /index HTTP/1.1".toList

theorem readAnswerFromServer_reports_iff_whole :
    ∃ result after, Outcome.Settles
        (readAnswerFromServer · openDirectory
          (.ofData true ((emptySite.answer indexLine).take
            (emptySite.answer indexLine).length)) indexPage)
        (.returns (result, after)) ∧
      (result.isSome ↔
        (emptySite.answer indexLine).length = (emptySite.answer indexLine).length) :=
  (readAnswerFromServer_reports_iff (by decide) (Nat.le_refl _)
    (SegmentedStream.Stream.ofData_delivers true _)).mpr
    (Or.inl ⟨rfl, by decide, fun isOk => absurd isOk (by decide)⟩)

/-- The connection is closed after the first byte of the content. -/
theorem readAnswerFromServer_waits :
    Outcome.Settles
      (readAnswerFromServer · openDirectory
        (.ofData true ((emptySite.answer indexLine).take
          ((emptySite.headerText indexLine).length + 1))) indexPage)
      .unfinished ∧
    ¬ ∃ after, Outcome.Settles
      (readAnswerFromServer · openDirectory
        (.ofData true ((emptySite.answer indexLine).take
          ((emptySite.headerText indexLine).length + 1))) indexPage)
      (.returns (none, after)) := by
  have length : (emptySite.body indexLine).chars.length = 49 := by
    rw [ServerEnv.body_length]
    decide
  have nonempty : (emptySite.body indexLine).chars ≠ [] :=
    List.length_pos_iff.mp (by omega)
  have endless := @readAnswerFromServer_cut_endless emptySite openDirectory indexPage
    _ indexLine ((emptySite.headerText indexLine).length + 1) (by decide) (by decide)
    (Or.inr ⟨by omega, nonempty⟩) (SegmentedStream.Stream.ofData_delivers true _)
  refine ⟨endless, ?_⟩
  rintro ⟨after, settles⟩
  cases settles.unique endless

end WebCrawl
