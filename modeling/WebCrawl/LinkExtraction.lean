import WebCrawl.PageList

/-!
# Extracting the links of a page

The loop of `contentProcessing` walks over the page in place: it cuts each
line at its newline, tests whether the line starts like a link and cuts the
target at the closing quote.  A `LinkScan` is the block with the page and the
pointer `content` into it.  The part of the page that is still ahead of the
pointer is untouched, which reduces one round of the loop to the first line of
that part.
-/

namespace WebCrawl

def linkStart : List Char :=
  "<a href=\"".toList

/-- The block that holds the page, and the address that `content` points to. -/
structure LinkScan where
  block : List Char
  content : Nat
  deriving DecidableEq, Repr

/-- What one round of the loop does: leave it, pass over a line, or extract a
link from it. -/
inductive LineAction where
  | finished
  | skipped (after : LinkScan)
  | extracted (link : CString) (after : LinkScan)
  deriving DecidableEq

namespace LinkScan

/-- The loop is entered with the whole page, closed by the NUL that
`readAnswerFromServer` stores. -/
def start (content : CString) : LinkScan :=
  ⟨content.chars ++ ['\x00'], 0⟩

/-- One round of the loop of `contentProcessing`, up to the critical section
that adds the link. -/
def line (scan : LinkScan) : Outcome LineAction := do
  let tok ← strchr '\n' (scan.block.drop scan.content) scan.content
  match tok with
  | none => return .finished
  | some tok =>
      let block := scan.block.set tok '\x00'
      let after : LinkScan := ⟨block, tok + 1⟩
      if ← strncmpEq linkStart (block.drop scan.content) then
        let start := scan.content + 9
        match ← strchr '"' (block.drop start) start with
        | none => .faults
        | some quote =>
            let block := block.set quote '\x00'
            return .extracted (.ofBlock (block.drop start)) { after with block }
      else
        return .skipped after

/-- The links that the loop extracts from its current round on. -/
inductive Extracts : LinkScan → CString → Prop
  | here {scan after : LinkScan} {link : CString} :
      scan.line = .returns (.extracted link after) → Extracts scan link
  | afterLink {scan after : LinkScan} {link later : CString} :
      scan.line = .returns (.extracted link after) →
        Extracts after later → Extracts scan later
  | afterText {scan after : LinkScan} {later : CString} :
      scan.line = .returns (.skipped after) →
        Extracts after later → Extracts scan later

theorem extracts_of_skipped {scan after : LinkScan} {link : CString}
    (round : scan.line = .returns (.skipped after)) :
    scan.Extracts link ↔ after.Extracts link := by
  constructor
  · intro extracts
    cases extracts with
    | here other | afterLink other => simp [round] at other
    | afterText other later =>
        rw [round] at other
        cases other
        exact later
  · exact .afterText round

theorem extracts_of_extracted {scan after : LinkScan} {first link : CString}
    (round : scan.line = .returns (.extracted first after)) :
    scan.Extracts link ↔ link = first ∨ after.Extracts link := by
  constructor
  · intro extracts
    cases extracts with
    | here other =>
        rw [round] at other
        cases other
        exact Or.inl rfl
    | afterLink other later =>
        rw [round] at other
        cases other
        exact Or.inr later
    | afterText other => simp [round] at other
  · rintro (rfl | later)
    · exact .here round
    · exact .afterLink round later

theorem not_extracts_of_finished {scan : LinkScan} {link : CString}
    (round : scan.line = .returns .finished) : ¬ scan.Extracts link := by
  intro extracts
  cases extracts with
  | here other | afterLink other | afterText other => simp [round] at other

/-- The text ahead of the pointer is intact. -/
def Ahead (scan : LinkScan) (rest : List Char) : Prop :=
  '\x00' ∉ rest ∧ ∃ passed, scan.block = passed ++ (rest ++ ['\x00']) ∧
    scan.content = passed.length

theorem ahead_start (content : CString) :
    (start content).Ahead content.chars :=
  ⟨content.nulFree, [], rfl, rfl⟩

section Rounds

variable {text rest : List Char}

private theorem cut (front middle back : List Char) (old : Char) :
    (front ++ (middle ++ old :: back)).set (front.length + middle.length) '\x00' =
      front ++ (middle ++ '\x00' :: back) := by
  simp

theorem line_last (passed behind : List Char) (noNewline : '\n' ∉ rest)
    (nulFree : '\x00' ∉ rest) :
    (LinkScan.mk (passed ++ (rest ++ '\x00' :: behind)) passed.length).line =
      .returns .finished := by
  have search : strchr '\n' ((passed ++ (rest ++ '\x00' :: behind)).drop passed.length)
      passed.length = .returns none := by
    rw [List.drop_left]
    exact strchr_missing behind _ noNewline nulFree (by decide)
  simp only [line, search, Outcome.returns_bind, Outcome.pure_eq]

/-- A round on a line that is ended by a newline, up to the search for the
closing quote. -/
private theorem line_newline (passed tail : List Char) (oneLine : '\n' ∉ text)
    (nulFree : '\x00' ∉ text) :
    (LinkScan.mk (passed ++ (text ++ '\n' :: tail)) passed.length).line =
      if linkStart.isPrefixOf text then do
        let block := passed ++ (text ++ '\x00' :: tail)
        let start := passed.length + 9
        match ← strchr '"' (block.drop start) start with
        | none => .faults
        | some quote =>
            let block := block.set quote '\x00'
            .returns (.extracted (.ofBlock (block.drop start))
              ⟨block, passed.length + text.length + 1⟩)
      else
        .returns (.skipped ⟨passed ++ (text ++ '\x00' :: tail),
          passed.length + text.length + 1⟩) := by
  have search : strchr '\n' ((passed ++ (text ++ '\n' :: tail)).drop passed.length)
      passed.length = .returns (some (passed.length + text.length)) := by
    rw [List.drop_left]
    exact strchr_found _ _ oneLine nulFree
  have compare : strncmpEq linkStart
      ((passed ++ (text ++ '\x00' :: tail)).drop passed.length) =
      .returns (linkStart.isPrefixOf text) := by
    rw [List.drop_left]
    exact strncmpEq_append_nul _ (by decide)
  simp only [line, search, Outcome.returns_bind]
  rw [cut, compare, Outcome.returns_bind]
  rfl

theorem line_other (passed tail : List Char) (oneLine : '\n' ∉ text)
    (nulFree : '\x00' ∉ text) (notLink : ¬ linkStart <+: text) :
    (LinkScan.mk (passed ++ (text ++ '\n' :: tail)) passed.length).line =
      .returns (.skipped ⟨(passed ++ text ++ ['\x00']) ++ tail,
        (passed ++ text ++ ['\x00']).length⟩) := by
  have noPrefix : linkStart.isPrefixOf text = false := by
    rw [Bool.eq_false_iff]
    exact fun isPrefix => notLink (List.isPrefixOf_iff_prefix.mp isPrefix)
  have place : passed.length + text.length + 1 = (passed ++ text ++ ['\x00']).length := by
    simp
    omega
  rw [line_newline passed tail oneLine nulFree, noPrefix, place]
  simp

/-- The search for the closing quote starts behind the text that marks a link. -/
private theorem line_linkStart (passed tail more : List Char)
    (oneLine : '\n' ∉ linkStart ++ more) (nulFree : '\x00' ∉ linkStart ++ more) :
    (LinkScan.mk (passed ++ ((linkStart ++ more) ++ '\n' :: tail)) passed.length).line =
      (strchr '"' (more ++ '\x00' :: tail) (passed ++ linkStart).length >>= fun quote =>
        match quote with
        | none => .faults
        | some quote =>
            let block := ((passed ++ linkStart) ++ (more ++ '\x00' :: tail)).set quote '\x00'
            .returns (.extracted (.ofBlock (block.drop (passed ++ linkStart).length))
              ⟨block, passed.length + (linkStart ++ more).length + 1⟩)) := by
  have isPrefix : linkStart.isPrefixOf (linkStart ++ more) = true :=
    List.isPrefixOf_iff_prefix.mpr (List.prefix_append _ _)
  have blockEq : passed ++ ((linkStart ++ more) ++ '\x00' :: tail) =
      (passed ++ linkStart) ++ (more ++ '\x00' :: tail) := by
    simp
  have startEq : passed.length + 9 = (passed ++ linkStart).length := by
    rw [List.length_append]
    rfl
  rw [line_newline passed tail oneLine nulFree, isPrefix, if_pos rfl, blockEq, startEq]
  dsimp only
  rw [List.drop_left]

theorem line_target (passed tail : List Char) {target more : List Char}
    (oneLine : '\n' ∉ linkStart ++ (target ++ '"' :: more))
    (nulFree : '\x00' ∉ linkStart ++ (target ++ '"' :: more))
    (firstQuote : '"' ∉ target) :
    ∃ link : CString, link.chars = target ∧
      (LinkScan.mk (passed ++ ((linkStart ++ (target ++ '"' :: more)) ++ '\n' :: tail))
        passed.length).line =
      .returns (.extracted link
        ⟨((passed ++ linkStart) ++ (target ++ '\x00' :: (more ++ ['\x00']))) ++ tail,
          ((passed ++ linkStart) ++ (target ++ '\x00' :: (more ++ ['\x00']))).length⟩) := by
  have targetNulFree : '\x00' ∉ target := fun member =>
    nulFree (List.mem_append_right _ (List.mem_append_left _ member))
  have blockEq : (target ++ '"' :: more) ++ '\x00' :: tail =
      target ++ '"' :: (more ++ '\x00' :: tail) := by
    simp
  have round := line_linkStart passed tail (target ++ '"' :: more) oneLine nulFree
  rw [blockEq, strchr_found _ _ firstQuote targetNulFree, Outcome.returns_bind] at round
  dsimp only at round
  rw [cut, List.drop_left] at round
  have place : passed.length + (linkStart ++ (target ++ '"' :: more)).length + 1 =
      ((passed ++ linkStart) ++ (target ++ '\x00' :: (more ++ ['\x00']))).length := by
    simp only [List.length_append, List.length_cons, List.length_nil]
    omega
  refine ⟨.ofBlock (target ++ '\x00' :: (more ++ '\x00' :: tail)),
    cstr_append_nul targetNulFree, ?_⟩
  rw [round, place]
  simp

theorem line_unquoted (passed tail : List Char) {unclosed : List Char}
    (oneLine : '\n' ∉ linkStart ++ unclosed) (nulFree : '\x00' ∉ linkStart ++ unclosed)
    (noQuote : '"' ∉ unclosed) :
    (LinkScan.mk (passed ++ ((linkStart ++ unclosed) ++ '\n' :: tail)) passed.length).line =
      .faults := by
  have unclosedNulFree : '\x00' ∉ unclosed := fun member =>
    nulFree (List.mem_append_right _ member)
  rw [line_linkStart passed tail unclosed oneLine nulFree,
    strchr_missing _ _ noQuote unclosedNulFree (by decide)]
  rfl

variable {scan : LinkScan}

theorem Ahead.scan_eq (ahead : scan.Ahead (text ++ '\n' :: rest)) :
    '\x00' ∉ text ∧ '\x00' ∉ rest ∧ ∃ passed,
      scan = ⟨passed ++ (text ++ '\n' :: (rest ++ ['\x00'])), passed.length⟩ := by
  obtain ⟨block, content⟩ := scan
  obtain ⟨nulFree, passed, rfl, rfl⟩ := ahead
  refine ⟨fun member => nulFree (List.mem_append_left _ member),
    fun member => nulFree (by simp [member]), passed, ?_⟩
  simp

theorem Ahead.of_passed (passed : List Char) (nulFree : '\x00' ∉ rest) :
    Ahead ⟨passed ++ (rest ++ ['\x00']), passed.length⟩ rest :=
  ⟨nulFree, passed, rfl, rfl⟩

theorem line_finished (ahead : scan.Ahead rest) (noNewline : '\n' ∉ rest) :
    scan.line = .returns .finished := by
  obtain ⟨block, content⟩ := scan
  obtain ⟨nulFree, passed, rfl, rfl⟩ := ahead
  exact line_last passed [] noNewline nulFree

theorem line_text (ahead : scan.Ahead (text ++ '\n' :: rest))
    (oneLine : '\n' ∉ text) (notLink : ¬ linkStart <+: text) :
    ∃ after, scan.line = .returns (.skipped after) ∧ after.Ahead rest := by
  obtain ⟨textNulFree, restNulFree, passed, rfl⟩ := ahead.scan_eq
  exact ⟨_, line_other passed _ oneLine textNulFree notLink, .of_passed _ restNulFree⟩

theorem line_link {target more : List Char}
    (ahead : scan.Ahead ((linkStart ++ (target ++ '"' :: more)) ++ '\n' :: rest))
    (oneLine : '\n' ∉ linkStart ++ (target ++ '"' :: more))
    (firstQuote : '"' ∉ target) :
    ∃ link after, scan.line = .returns (.extracted link after) ∧
      link.chars = target ∧ after.Ahead rest := by
  obtain ⟨textNulFree, restNulFree, passed, rfl⟩ := ahead.scan_eq
  obtain ⟨link, chars, round⟩ :=
    line_target passed (rest ++ ['\x00']) oneLine textNulFree firstQuote
  exact ⟨link, _, round, chars, .of_passed _ restNulFree⟩

/-- A line that starts like a link and has no closing quote makes the loop
store through the null pointer that `strchr` returned. -/
theorem line_unclosed {unclosed : List Char}
    (ahead : scan.Ahead ((linkStart ++ unclosed) ++ '\n' :: rest))
    (oneLine : '\n' ∉ linkStart ++ unclosed) (noQuote : '"' ∉ unclosed) :
    scan.line = .faults := by
  obtain ⟨textNulFree, _, passed, rfl⟩ := ahead.scan_eq
  exact line_unquoted passed _ oneLine textNulFree noQuote

end Rounds

end LinkScan

end WebCrawl
