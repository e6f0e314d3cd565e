import WebCrawl.LinkWorklist

/-!
# Pages without a final newline

The loop of `contentProcessing` ends when there is no further newline, so the
text behind the last one is never examined.  That matters when this text starts
like a link whose target is neither in the lists nor in an earlier line.
-/

namespace WebCrawl

/-- The text of a page behind its last newline. -/
def lastLine (text : List Char) : List Char :=
  ((text.splitOn '\n').getLast?).getD []

/-- The page with a newline after its text. -/
def endLine (page : CString) : CString :=
  page.strcat ⟨['\n'], by decide⟩

theorem pageLines_concat (text : List Char) :
    pageLines (text ++ ['\n']) = pageLines text ++ [lastLine text] := by
  have nonempty : text.splitOn '\n' ≠ [] := List.splitOn_ne_nil _ _
  rw [pageLines, List.splitOn_append_cons_self, List.splitOn_nil, List.dropLast_concat,
    pageLines, lastLine, List.getLast?_eq_some_getLast nonempty, Option.getD_some,
    List.dropLast_concat_getLast]

theorem chars_injective : Function.Injective CString.chars :=
  fun _ _ same => CString.ext same

theorem LinksClosed.of_endLine {page : CString}
    (closed : LinksClosed (endLine page).chars) : LinksClosed page.chars := by
  intro line member
  apply closed
  rw [endLine, CString.strcat_chars, pageLines_concat]
  exact List.mem_append_left _ member

/-- The last line of a page does not name a page that is in neither list and in
no earlier line. -/
def LastLineKnown (page : CString) (lists : CrawlLists) : Prop :=
  ∀ target, linkTarget (lastLine page.chars) = some target →
    target ∈ (lists.pagesAdded ++ lists.pagesToAdd).map CString.chars ∨
      target ∈ (pageLines page.chars).filterMap linkTarget

theorem lookUp_pagesToAdd_iff (lists : CrawlLists) (link : CString) :
    (lists.lookUp link).pagesToAdd = lists.pagesToAdd ↔
      link ∈ lists.pagesAdded ∨ link ∈ lists.pagesToAdd := by
  rw [CrawlLists.lookUp]
  by_cases listed : link ∈ lists.pagesAdded ∨ link ∈ lists.pagesToAdd
  · simp [listed]
  · rw [if_neg (by simpa using listed)]
    simp [listed, listAdd]

theorem mem_foldl_lookUp (links : List CString) (lists : CrawlLists) (link : CString) :
    (link ∈ (links.foldl CrawlLists.lookUp lists).pagesAdded ∨
      link ∈ (links.foldl CrawlLists.lookUp lists).pagesToAdd) ↔
    link ∈ lists.pagesAdded ++ lists.pagesToAdd ∨ link ∈ links := by
  rw [foldl_lookUp, FirstOccurrences.foldl_takeUp]
  simp only [List.mem_append, List.mem_reverse, List.mem_eraseDups, List.mem_filter,
    decide_eq_true_eq]
  tauto

/-- A page and the page with a newline at its end add the same links exactly
when the last line is no link, or is one to a page that is in a list or in an
earlier line. -/
theorem final_newline_ignored_iff {page : CString}
    (closed : LinksClosed (endLine page).chars) (env : CrawlerEnv) (fileName : CString)
    (lists : CrawlLists) :
    ∃ unended ended,
      Outcome.Settles
        (contentProcessingAlone · env (page.chars ++ ['\x00']) fileName lists)
        (savePage env (page.chars ++ ['\x00']) fileName >>= fun _ => .returns unended) ∧
      Outcome.Settles
        (contentProcessingAlone · env ((endLine page).chars ++ ['\x00']) fileName lists)
        (savePage env ((endLine page).chars ++ ['\x00']) fileName >>= fun _ =>
          .returns ended) ∧
      (unended.pagesToAdd = ended.pagesToAdd ↔ LastLineKnown page lists) := by
  obtain ⟨links, linkChars, settles⟩ := contentProcessingAlone_settles closed.of_endLine
  obtain ⟨more, moreChars, moreSettles⟩ := contentProcessingAlone_settles closed
  refine ⟨_, _, settles env fileName lists, moreSettles env fileName lists, ?_⟩
  rw [endLine, CString.strcat_chars, pageLines_concat, List.filterMap_append,
    ← linkChars] at moreChars
  cases target : linkTarget (lastLine page.chars) with
  | none =>
      have same : more = links := by
        apply chars_injective.list_map
        simpa [target] using moreChars
      rw [same]
      exact iff_of_true rfl fun other isTarget => by simp [target] at isTarget
  | some chars =>
      obtain ⟨first, last, rfl, firstChars, lastChars⟩ :
          ∃ first last, more = first ++ last ∧ first.map CString.chars =
            links.map CString.chars ∧ last.map CString.chars = [chars] :=
        List.map_eq_append_iff.mp (by simpa [target] using moreChars)
      obtain rfl := chars_injective.list_map firstChars
      obtain ⟨link, rfl, linkEq⟩ := List.map_eq_singleton_iff.mp lastChars
      rw [List.foldl_append, List.foldl_cons, List.foldl_nil, eq_comm,
        lookUp_pagesToAdd_iff, mem_foldl_lookUp, LastLineKnown, target, ← linkChars,
        ← linkEq]
      simp only [Option.some.injEq, forall_eq', List.mem_map_of_injective chars_injective]

/-- A page whose only line is a link and has no newline. -/
def lastLinkPage : CString :=
  ⟨"<a href=\"/last\">".toList, by decide⟩

/-- A link to a page that is in a list adds nothing, with or without its newline. -/
theorem final_newline_ignored_iff_last_link :
    ∃ unended ended : CrawlLists,
      Outcome.Settles
        (contentProcessingAlone · openDirectory (lastLinkPage.chars ++ ['\x00'])
          lastLinkPage ⟨[], [⟨"/last".toList, by decide⟩]⟩)
        (savePage openDirectory (lastLinkPage.chars ++ ['\x00']) lastLinkPage >>= fun _ =>
          .returns unended) ∧
      Outcome.Settles
        (contentProcessingAlone · openDirectory ((endLine lastLinkPage).chars ++ ['\x00'])
          lastLinkPage ⟨[], [⟨"/last".toList, by decide⟩]⟩)
        (savePage openDirectory ((endLine lastLinkPage).chars ++ ['\x00']) lastLinkPage >>=
          fun _ => .returns ended) ∧
      unended.pagesToAdd = ended.pagesToAdd := by
  obtain ⟨unended, ended, withoutEnd, withEnd, ignored⟩ :=
    final_newline_ignored_iff (by decide : LinksClosed (endLine lastLinkPage).chars)
      openDirectory lastLinkPage ⟨[], [⟨"/last".toList, by decide⟩]⟩
  refine ⟨unended, ended, withoutEnd, withEnd, ignored.mpr fun target isTarget => Or.inl ?_⟩
  rw [show linkTarget (lastLine lastLinkPage.chars) = some "/last".toList by decide,
    Option.some.injEq] at isTarget
  subst isTarget
  exact List.mem_singleton_self _

/-- Without its newline the link is not found. -/
theorem final_newline_decides :
    lastLinkPage.chars.getLast? ≠ some '\n' ∧ LinksClosed (endLine lastLinkPage).chars ∧
    ∃ link unended ended, link.chars = "/last".toList ∧
      Outcome.Settles
        (contentProcessingAlone · openDirectory (lastLinkPage.chars ++ ['\x00'])
          lastLinkPage ⟨[], []⟩) (.returns unended) ∧
      unended.pagesToAdd = [] ∧
      Outcome.Settles
        (contentProcessingAlone · openDirectory ((endLine lastLinkPage).chars ++ ['\x00'])
          lastLinkPage ⟨[], []⟩) (.returns ended) ∧
      ended.pagesToAdd = [link] := by
  have closed : LinksClosed (endLine lastLinkPage).chars := by decide
  obtain ⟨links, linkChars, settles⟩ := contentProcessingAlone_settles closed.of_endLine
  obtain ⟨more, moreChars, moreSettles⟩ := contentProcessingAlone_settles closed
  have noLinks : links = [] := List.map_eq_nil_iff.mp linkChars
  have oneLink : more.map CString.chars = ["/last".toList] := moreChars
  obtain ⟨link, rfl, linkEq⟩ := List.map_eq_singleton_iff.mp oneLink
  subst noLinks
  exact ⟨by decide, closed, link, _, _, linkEq, settles openDirectory lastLinkPage ⟨[], []⟩,
    rfl, moreSettles openDirectory lastLinkPage ⟨[], []⟩, rfl⟩

end WebCrawl
