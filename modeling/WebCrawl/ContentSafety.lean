import WebCrawl.ContentProcessing

/-!
# Pages that crash the crawler

Whatever lies behind the NUL that ends a page has no effect on
`contentProcessing`: no search runs past it.  What the page itself holds decides
whether the null pointer is dereferenced that `strchr` returns for a link
without a closing quote.
-/

namespace WebCrawl

/-- The loop does not look behind the end of the string, nor at what it has
passed. -/
theorem extractLinks_behind (fuel : Nat) {rest : List Char} (nulFree : '\x00' ∉ rest)
    (passed first behind : List Char) :
    extractLinks fuel ⟨passed ++ (rest ++ '\x00' :: behind), passed.length⟩ =
      extractLinks fuel ⟨first ++ (rest ++ ['\x00']), first.length⟩ := by
  induction fuel generalizing rest passed first with
  | zero => rfl
  | succ fuel ih =>
      rw [extractLinks, extractLinks]
      by_cases newline : '\n' ∈ rest
      · obtain ⟨line, later, rfl, oneLine⟩ := List.eq_append_cons_of_mem newline
        have lineNulFree : '\x00' ∉ line := fun member =>
          nulFree (List.mem_append_left _ member)
        have laterNulFree : '\x00' ∉ later := fun member => nulFree (by simp [member])
        simp only [List.append_assoc line, List.cons_append]
        rcases link_cases line with
          ⟨target, more, firstQuote, rfl⟩ | ⟨target, unquoted, rfl⟩ | isLink
        · obtain ⟨link, chars, round⟩ := LinkScan.line_target passed
            (later ++ '\x00' :: behind) oneLine lineNulFree firstQuote
          obtain ⟨same, sameChars, sameRound⟩ := LinkScan.line_target first
            (later ++ ['\x00']) oneLine lineNulFree firstQuote
          obtain rfl : link = same := CString.ext (chars.trans sameChars.symm)
          rw [round, sameRound]
          simp only [Outcome.returns_bind]
          rw [ih laterNulFree]
        · rw [LinkScan.line_unquoted passed _ oneLine lineNulFree unquoted,
            LinkScan.line_unquoted first _ oneLine lineNulFree unquoted]
        · rw [LinkScan.line_other passed _ oneLine lineNulFree isLink,
            LinkScan.line_other first _ oneLine lineNulFree isLink]
          exact ih laterNulFree _ _
      · rw [LinkScan.line_last passed behind newline nulFree,
          LinkScan.line_last first [] newline nulFree]

/-- A block splits at its first NUL into its string and what lies behind. -/
theorem cstr_split (content behind : List Char) :
    ∃ hidden, content ++ '\x00' :: behind =
      (CString.ofBlock content).chars ++ '\x00' :: hidden := by
  by_cases closed : '\x00' ∈ content
  · obtain ⟨string, rest, rfl, nulFree⟩ := List.eq_append_cons_of_mem closed
    exact ⟨rest ++ '\x00' :: behind, by simp [cstr_append_nul nulFree]⟩
  · exact ⟨behind, by simp [cstr_of_nulFree closed]⟩

theorem contentProcessing_behind (fuel : Nat) (env : CrawlerEnv) (fileName page : CString)
    (behind : List Char) :
    contentProcessing fuel env (page.chars ++ '\x00' :: behind) fileName =
      contentProcessing fuel env (page.chars ++ ['\x00']) fileName := by
  have links := extractLinks_behind fuel page.nulFree [] [] behind
  have saved : CString.ofBlock (page.chars ++ '\x00' :: behind) =
      .ofBlock (page.chars ++ ['\x00']) :=
    CString.ext ((cstr_append_nul page.nulFree).trans (cstr_append_nul page.nulFree).symm)
  simp only [List.nil_append, List.length_nil] at links
  simp only [contentProcessing, links, saved]

/-- Whatever bytes a server sends and whatever lies behind them,
`contentProcessing` finishes with a page that can be saved exactly when every
line of the page that starts like a link has a closing quote. -/
theorem contentProcessing_survives_iff (content : List Char) :
    (∀ env fileName, Savable env fileName → ∃ processed, ∀ behind,
      Outcome.Settles (contentProcessing · env (content ++ '\x00' :: behind) fileName)
        (.returns processed)) ↔
    LinksClosed (CString.ofBlock content).chars := by
  have same : ∀ env fileName behind fuel,
      contentProcessing fuel env (content ++ '\x00' :: behind) fileName =
        contentProcessing fuel env ((CString.ofBlock content).chars ++ ['\x00']) fileName := by
    intro env fileName behind fuel
    obtain ⟨hidden, split⟩ := cstr_split content behind
    rw [split, contentProcessing_behind]
  constructor
  · intro survives
    have savable : Savable openDirectory (.ofBlock []) := ⟨by decide, rfl⟩
    obtain ⟨processed, settles⟩ := survives openDirectory _ savable
    have finished := (settles []).congr fun fuel => (same _ _ [] fuel).symm
    rcases contentProcessing_settles openDirectory (.ofBlock content) (.ofBlock []) with
      ⟨_, closed, _⟩ | ⟨_, faulted⟩
    · exact closed
    · cases finished.unique faulted
  · intro closed env fileName savable
    rcases contentProcessing_settles env (.ofBlock content) fileName with
      ⟨_, _, processed, settles, _⟩ | ⟨broken, _⟩
    · exact ⟨processed, fun behind => settles.congr (same env fileName behind)⟩
    · exact absurd ⟨savable, closed⟩ broken

/-- A link that the page ends in the middle of. -/
def cutLink : List Char :=
  "text\n<a href=\"/cut\n".toList

theorem contentProcessing_crashes :
    Savable openDirectory (.ofBlock []) ∧
    Outcome.Settles (contentProcessing · openDirectory (cutLink ++ ['\x00']) (.ofBlock []))
      .faults ∧
    ¬ ∀ env fileName, Savable env fileName → ∃ processed, ∀ behind,
      Outcome.Settles (contentProcessing · env (cutLink ++ '\x00' :: behind) fileName)
        (.returns processed) := by
  have savable : Savable openDirectory (.ofBlock []) := ⟨by decide, rfl⟩
  have unclosed : ¬ LinksClosed (CString.ofBlock cutLink).chars := by decide
  have faulted : Outcome.Settles
      (contentProcessing · openDirectory (cutLink ++ ['\x00']) (.ofBlock [])) .faults := by
    rcases contentProcessing_settles openDirectory (.ofBlock cutLink) (.ofBlock []) with
      ⟨_, closed, _⟩ | ⟨_, faulted⟩
    · exact absurd closed unclosed
    · exact faulted
  refine ⟨savable, faulted, fun survives => ?_⟩
  obtain ⟨processed, settles⟩ := survives openDirectory (.ofBlock []) savable
  cases (settles []).unique faulted

end WebCrawl
