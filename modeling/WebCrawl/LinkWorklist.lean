import WebCrawl.ContentProcessing
import WebCrawl.CrawlThreads
import WebCrawl.FirstOccurrences

/-!
# What a page adds to the list

`contentProcessing` looks up each link that it extracts in both lists and adds
a new one in front of `pagesToAdd`.  Run alone it adds exactly the targets of
the lines that start like a link, as far as they are new.  The steps of a
thread of the crawler that nobody interrupts do the same.
-/

namespace WebCrawl

structure CrawlLists where
  pagesToAdd : PageList
  pagesAdded : PageList
  deriving DecidableEq

/-- The critical section of `contentProcessing`. -/
def CrawlLists.lookUp (lists : CrawlLists) (link : CString) : CrawlLists :=
  if listCheck lists.pagesAdded link || listCheck lists.pagesToAdd link then lists
  else { lists with pagesToAdd := listAdd lists.pagesToAdd link }

/-- The loop of `contentProcessing` when no other thread enters its critical
section. -/
def processLinks : Nat → LinkScan → CrawlLists → Outcome CrawlLists
  | 0, _, _ => .unfinished
  | fuel + 1, scan, lists => do
      match ← scan.line with
      | .finished => return lists
      | .skipped after => processLinks fuel after lists
      | .extracted link after => processLinks fuel after (lists.lookUp link)

/-- `contentProcessing` run alone, with its effect on the lists. -/
def contentProcessingAlone (fuel : Nat) (env : CrawlerEnv) (content : List Char)
    (fileName : CString) (lists : CrawlLists) : Outcome CrawlLists := do
  let _ ← savePage env content fileName
  processLinks fuel ⟨content, 0⟩ lists

theorem processLinks_eq (fuel : Nat) (scan : LinkScan) (lists : CrawlLists) :
    processLinks fuel scan lists =
      extractLinks fuel scan >>= fun links =>
        .returns (links.foldl CrawlLists.lookUp lists) := by
  induction fuel generalizing scan lists with
  | zero => rfl
  | succ fuel ih =>
      rw [processLinks, extractLinks]
      cases scan.line with
      | returns action =>
          cases action with
          | finished => rfl
          | skipped after => exact ih after lists
          | extracted link after =>
              simp only [Outcome.returns_bind, ih, bind_assoc, Outcome.pure_eq,
                List.foldl_cons]
      | exits | faults | unfinished => rfl

/-- The loop run alone does with the links that `contentProcessing` extracts
what its critical section does with each. -/
theorem contentProcessingAlone_eq (fuel : Nat) (env : CrawlerEnv)
    (content : List Char) (fileName : CString) (lists : CrawlLists) :
    contentProcessingAlone fuel env content fileName lists =
      contentProcessing fuel env content fileName >>= fun processed =>
        .returns (processed.links.foldl CrawlLists.lookUp lists) := by
  rw [contentProcessingAlone, contentProcessing_eq, processLinks_eq]
  simp only [bind_assoc, Outcome.returns_bind]

theorem foldl_lookUp (links : List CString) (lists : CrawlLists) :
    links.foldl CrawlLists.lookUp lists =
      { lists with pagesToAdd :=
          links.foldl (FirstOccurrences.takeUp lists.pagesAdded) lists.pagesToAdd } := by
  have one : ∀ (lists : CrawlLists) link, lists.lookUp link =
      { lists with pagesToAdd :=
          FirstOccurrences.takeUp lists.pagesAdded lists.pagesToAdd link } := by
    intro lists link
    simp only [CrawlLists.lookUp, FirstOccurrences.takeUp, Bool.or_eq_true,
      listCheck_iff]
    split <;> rfl
  induction links generalizing lists with
  | nil => rfl
  | cons link links ih => rw [List.foldl_cons, ih, one, List.foldl_cons]

section Pages

theorem contentProcessingAlone_settles {page : CString}
    (closed : LinksClosed page.chars) :
    ∃ targets : List CString,
      targets.map CString.chars = (pageLines page.chars).filterMap linkTarget ∧
      ∀ env fileName lists, Outcome.Settles
        (contentProcessingAlone · env (page.chars ++ ['\x00']) fileName lists)
        (savePage env (page.chars ++ ['\x00']) fileName >>= fun _ =>
          .returns (targets.foldl CrawlLists.lookUp lists)) := by
  obtain ⟨result, settles, loop⟩ := extractLinks_settles (LinkScan.ahead_start page)
  rcases loop with ⟨_, targets, rfl, same⟩ | ⟨unclosed, _⟩
  · refine ⟨targets, same, fun env fileName lists => ?_⟩
    refine (Outcome.Settles.const (savePage env _ fileName)).bind fun _ _ => ?_
    simp only [processLinks_eq]
    exact settles.bind_returns (.const _)
  · exact absurd closed unclosed

theorem pageLines_flatMap {lines : List (List Char)}
    (oneLine : ∀ line ∈ lines, '\n' ∉ line) :
    pageLines (lines.flatMap (· ++ ['\n'])) = lines := by
  induction lines with
  | nil => exact pageLines_unended List.not_mem_nil
  | cons line lines ih =>
      rw [List.forall_mem_cons] at oneLine
      rw [List.flatMap_cons, List.append_assoc, List.singleton_append,
        pageLines_cons _ oneLine.1, ih oneLine.2]

/-- On a page of lines whose links are closed `contentProcessing` leaves
`pagesAdded` as it is and puts in front of `pagesToAdd` the targets that are in
neither list, each once, at its first occurrence and the last one first. -/
theorem contentProcessing_adds_targets {page : CString} {lines : List (List Char)}
    (pageEq : page.chars = lines.flatMap (· ++ ['\n']))
    (oneLine : ∀ line ∈ lines, '\n' ∉ line)
    (closed : ∀ line ∈ lines, LinkClosed line) :
    ∃ targets : List CString,
      targets.map CString.chars = lines.filterMap linkTarget ∧
      ∀ env fileName lists, Outcome.Settles
        (contentProcessingAlone · env (page.chars ++ ['\x00']) fileName lists)
        (savePage env (page.chars ++ ['\x00']) fileName >>= fun _ => .returns
          { pagesToAdd := (targets.filter fun target =>
                target ∉ lists.pagesAdded ∧ target ∉ lists.pagesToAdd).eraseDups.reverse ++
              lists.pagesToAdd
            pagesAdded := lists.pagesAdded }) := by
  have sameLines : pageLines page.chars = lines := by
    rw [pageEq, pageLines_flatMap oneLine]
  have allClosed : LinksClosed page.chars := by
    rw [LinksClosed, sameLines]
    exact closed
  obtain ⟨targets, same, settles⟩ := contentProcessingAlone_settles allClosed
  rw [sameLines] at same
  refine ⟨targets, same, fun env fileName lists => ?_⟩
  have processed := settles env fileName lists
  rw [foldl_lookUp, FirstOccurrences.foldl_takeUp] at processed
  exact processed

/-- A page with two links, one of them twice. -/
def linkLines : List (List Char) :=
  ["<a href=\"/one\">one</a>".toList, "some text".toList,
    "<a href=\"/two\">".toList, "<a href=\"/one\">again</a>".toList]

def linkPage : CString :=
  ⟨linkLines.flatMap (· ++ ['\n']), by decide⟩

theorem contentProcessing_adds_targets_link_page :
    ∃ targets : List CString,
      targets.map CString.chars = linkLines.filterMap linkTarget ∧
      ∀ env fileName lists, Outcome.Settles
        (contentProcessingAlone · env (linkPage.chars ++ ['\x00']) fileName lists)
        (savePage env (linkPage.chars ++ ['\x00']) fileName >>= fun _ => .returns
          { pagesToAdd := (targets.filter fun target =>
                target ∉ lists.pagesAdded ∧ target ∉ lists.pagesToAdd).eraseDups.reverse ++
              lists.pagesToAdd
            pagesAdded := lists.pagesAdded }) :=
  contentProcessing_adds_targets rfl (by decide) (by decide)

end Pages

namespace CrawlState

variable {threads : Nat} {serves : CString → Answer → Prop}

/-- A link that a thread extracts is looked up in one step. -/
theorem exists_lookUp_step {state : CrawlState threads} {thread : Fin threads}
    {page link : CString} {scan next : LinkScan}
    (here : state.point thread = .processing page scan)
    (round : scan.line = .returns (.extracted link next)) :
    ∃ event after, Step serves state event after ∧
      after.point thread = .processing page next ∧
      CrawlLists.lookUp ⟨state.pagesToAdd, state.pagesAdded⟩ link =
        ⟨after.pagesToAdd, after.pagesAdded⟩ ∧
      after.workers = state.workers := by
  cases listed : listCheck state.pagesAdded link || listCheck state.pagesToAdd link with
  | true =>
      refine ⟨_, _, .known here round listed, by simp, ?_, rfl⟩
      rw [CrawlLists.lookUp, if_pos listed]
      rfl
  | false =>
      obtain ⟨point, signal⟩ :=
        @Monitor.Signal.exists_after _ _ _ (· = CrawlPoint.asleep) (fun _ => .atTop)
          (state.setPoint thread (.processing page next)).point
      refine ⟨_, _, .add here round listed signal, ?_, ?_, rfl⟩
      · rcases signal.point_eq thread with same | ⟨sleeping, _⟩
        · simpa using same
        · simp at sleeping
      · rw [CrawlLists.lookUp, if_neg (by simp [listed])]

/-- A thread that nobody interrupts while it processes a page changes the lists
as `contentProcessing` run alone does. -/
theorem processes_alone {fuel : Nat} {scan : LinkScan} {lists : CrawlLists}
    {state : CrawlState threads} {thread : Fin threads} {page : CString}
    (here : state.point thread = .processing page scan)
    (returned : processLinks fuel scan ⟨state.pagesToAdd, state.pagesAdded⟩ =
      .returns lists) :
    ∃ events after, LabelledRun.Run (Step serves) state events after ∧
      after.point thread = .finished page ∧
      lists = ⟨after.pagesToAdd, after.pagesAdded⟩ ∧
      after.workers = state.workers := by
  induction fuel generalizing scan state with
  | zero => simp [processLinks] at returned
  | succ fuel ih =>
      rw [processLinks] at returned
      obtain ⟨action, round, rest⟩ := Outcome.bind_eq_returns returned
      cases action with
      | finished =>
          cases rest
          have left : Step serves state .internal (state.setPoint thread (.finished page)) :=
            .leave here round
          exact ⟨_, _, LabelledRun.Run.start.next left, by simp, rfl, rfl⟩
      | skipped next =>
          have skipped : Step serves state .internal
              (state.setPoint thread (.processing page next)) :=
            .skip here round
          have there : (state.setPoint thread (.processing page next)).point thread =
              .processing page next := by
            simp
          obtain ⟨events, after, later, finished, same, workers⟩ := ih there rest
          exact ⟨_, after, (LabelledRun.Run.start.next skipped).append later, finished,
            same, workers⟩
      | extracted link next =>
          obtain ⟨event, middle, looked, there, listsEq, kept⟩ :=
            @exists_lookUp_step _ serves _ _ _ _ _ _ here round
          dsimp only at rest
          rw [listsEq] at rest
          obtain ⟨events, after, later, finished, same, workers⟩ := ih there rest
          exact ⟨_, after, (LabelledRun.Run.start.next looked).append later, finished,
            same, workers.trans kept⟩

end CrawlState

end WebCrawl
