import WebCrawl.CrawlUniqueness
import WebCrawl.Exploration

/-!
# When the crawl is finished

The server answers every page name in one fixed way, so the pages form a graph.
The crawl explores it: a page is taken when `list_rem` removes it, and its
links are pending as long as the thread that took it has not looked them up.
Such a thread is counted in `workers` all the while.
-/

namespace WebCrawl

/-- The graph that the crawler follows when every page has a fixed answer. -/
def Links (web : CString → Answer) (page link : CString) : Prop :=
  (web page).code = 200 ∧ (LinkScan.start (web page).content).Extracts link

/-- The links that a thread at some point has still to look up. -/
def CrawlPoint.Pending (web : CString → Answer) :
    CrawlPoint → CString → CString → Prop
  | .getting page, source, link => source = page ∧ Links web page link
  | .processing page scan, source, link => source = page ∧ scan.Extracts link
  | .atTop, _, _ | .asleep, _, _ | .finished _, _, _ => False

/-- A link that was extracted is the first one that was to come. -/
theorem CrawlPoint.pending_extracted {web : CString → Answer} {scan after : LinkScan}
    {page link source target : CString} (round : scan.line = .returns (.extracted link after)) :
    (CrawlPoint.processing page scan).Pending web source target ↔
      source = page ∧ target = link ∨
        (CrawlPoint.processing page after).Pending web source target := by
  rw [CrawlPoint.Pending, CrawlPoint.Pending, LinkScan.extracts_of_extracted round, and_or_left]

namespace CrawlState

variable {threads : Nat} {web : CString → Answer} {startingURL : CString}

/-- The steps of the crawler against a fixed web. -/
abbrev WebStep (web : CString → Answer) :
    CrawlState threads → CrawlEvent threads → CrawlState threads → Prop :=
  Step fun page answer => answer = web page

def PendingLink (web : CString → Answer) (point : Fin threads → CrawlPoint)
    (page link : CString) : Prop :=
  ∃ thread, (point thread).Pending web page link

theorem pendingLink_update {point : Fin threads → CrawlPoint}
    {thread : Fin threads} {target : CrawlPoint} {page link : CString} :
    PendingLink web (Function.update point thread target) page link ↔
      target.Pending web page link ∨
        ∃ other, other ≠ thread ∧ (point other).Pending web page link := by
  constructor
  · rintro ⟨other, isPending⟩
    by_cases moved : other = thread
    · subst other
      rw [Function.update_self] at isPending
      exact Or.inl isPending
    · rw [Function.update_of_ne moved] at isPending
      exact Or.inr ⟨other, moved, isPending⟩
  · rintro (isPending | ⟨other, unmoved, isPending⟩)
    · exact ⟨thread, by rwa [Function.update_self]⟩
    · exact ⟨other, by rwa [Function.update_of_ne unmoved]⟩

theorem pendingLink_iff (thread : Fin threads)
    {point : Fin threads → CrawlPoint} {page link : CString} :
    PendingLink web point page link ↔
      (point thread).Pending web page link ∨
        ∃ other, other ≠ thread ∧ (point other).Pending web page link := by
  rw [← pendingLink_update, Function.update_eq_self]

/-- The exploration that the two lists and the threads stand for. -/
abbrev Explores (web : CString → Answer) (startingURL : CString)
    (pagesToAdd pagesAdded : PageList) (point : Fin threads → CrawlPoint) : Prop :=
  Exploration.Covers (Links web) startingURL (· ∈ pagesToAdd) (· ∈ pagesAdded)
    (PendingLink web point)

section Moves

variable {pagesToAdd pagesAdded : PageList} {point : Fin threads → CrawlPoint}
variable {thread : Fin threads} {target : CrawlPoint}

/-- A thread goes on: it may drop a link only when the link is in a list. -/
theorem Explores.move {after : PageList}
    (explores : Explores web startingURL pagesToAdd pagesAdded point)
    (keeps : ∀ page ∈ pagesToAdd, page ∈ after)
    (discovers : ∀ link ∈ after, link ∈ pagesToAdd ∨
      ∃ page, (point thread).Pending web page link)
    (narrows : ∀ page link, target.Pending web page link →
      (point thread).Pending web page link)
    (closes : ∀ page link, (point thread).Pending web page link →
      target.Pending web page link ∨ link ∈ after ∨ link ∈ pagesAdded) :
    Explores web startingURL after pagesAdded
      (Function.update point thread target) := by
  apply explores.follow keeps
  · intro link listed
    rcases discovers link listed with old | ⟨page, isPending⟩
    · exact Or.inl old
    · exact Or.inr ⟨page, thread, isPending⟩
  · intro page link isPending
    rw [pendingLink_update] at isPending
    exact (pendingLink_iff thread).mpr (isPending.imp_left (narrows page link))
  · intro page link isPending
    rw [pendingLink_iff thread] at isPending
    rw [pendingLink_update]
    rcases isPending with own | others
    · rcases closes page link own with still | listed
      · exact Or.inl (Or.inl still)
      · exact Or.inr listed
    · exact Or.inl (Or.inr others)

theorem Explores.advance
    (explores : Explores web startingURL pagesToAdd pagesAdded point)
    (narrows : ∀ page link, target.Pending web page link →
      (point thread).Pending web page link)
    (closes : ∀ page link, (point thread).Pending web page link →
      target.Pending web page link ∨ link ∈ pagesToAdd ∨ link ∈ pagesAdded) :
    Explores web startingURL pagesToAdd pagesAdded
      (Function.update point thread target) :=
  explores.move (fun _ => id) (fun _ => Or.inl) narrows closes

/-- A thread has followed a link when its target is in a list. -/
theorem Explores.follow_link {after : PageList} {page link : CString} {scan next : LinkScan}
    (explores : Explores web startingURL pagesToAdd pagesAdded point)
    (here : point thread = .processing page scan)
    (round : scan.line = .returns (.extracted link next))
    (keeps : ∀ other ∈ pagesToAdd, other ∈ after)
    (discovers : ∀ other ∈ after, other = link ∨ other ∈ pagesToAdd)
    (listed : link ∈ after ∨ link ∈ pagesAdded) :
    Explores web startingURL after pagesAdded
      (Function.update point thread (.processing page next)) := by
  apply explores.move keeps
  · intro other isListed
    rcases discovers other isListed with rfl | old
    · refine Or.inr ⟨page, ?_⟩
      rw [here, CrawlPoint.pending_extracted round]
      exact Or.inl ⟨rfl, rfl⟩
    · exact Or.inl old
  · intro source target later
    rw [here, CrawlPoint.pending_extracted round]
    exact Or.inr later
  · intro source target isPending
    rw [here, CrawlPoint.pending_extracted round] at isPending
    rcases isPending with ⟨_, rfl⟩ | later
    · exact Or.inr listed
    · exact Or.inl later

theorem pendingLink_signal {after : Fin threads → CrawlPoint}
    (signal : Monitor.Signal (· = CrawlPoint.asleep) (fun _ => .atTop) point after) :
    PendingLink web after = PendingLink web point := by
  funext page link
  apply propext
  apply exists_congr
  intro other
  rcases signal.point_eq other with same | ⟨sleeping, woken⟩
  · rw [same]
  · rw [woken, sleeping]
    exact Iff.rfl

end Moves

theorem explores_initial :
    Explores web startingURL (initial threads startingURL).pagesToAdd
      (initial threads startingURL).pagesAdded
      (initial threads startingURL).point := by
  have noPending : ∀ page link,
      ¬ PendingLink web (initial threads startingURL).point page link := by
    rintro page link ⟨thread, isPending⟩
    exact isPending
  simpa [Explores, initial, listAdd] using
    Exploration.Covers.initial noPending

theorem explores_step {state after : CrawlState threads}
    {event : CrawlEvent threads}
    (explores : Explores web startingURL state.pagesToAdd state.pagesAdded
      state.point)
    (stepTo : WebStep web state event after) :
    Explores web startingURL after.pagesToAdd after.pagesAdded after.point := by
  cases stepTo with
  | sleep here | wake here =>
      apply explores.advance <;> simp [here, CrawlPoint.Pending]
  | @take thread page rest here _ removed =>
      rw [listRem_eq_some] at removed
      rw [removed] at explores
      apply explores.take (List.mem_cons_self : page ∈ page :: rest)
      · intro other
        simp only [mem_listAdd, List.mem_cons]
        rw [or_assoc, or_left_comm]
      · simp
      · intro other link
        rw [setPoint_point, pendingLink_update, pendingLink_iff thread, here]
        simp only [CrawlPoint.Pending, false_or]
  | receive here answered accepted =>
      subst answered
      apply explores.advance <;>
        simp +contextual [here, CrawlPoint.Pending, Links, accepted]
  | refuse here answered refused =>
      subst answered
      apply explores.advance
      · simp [CrawlPoint.Pending]
      · rintro page link isPending
        rw [here] at isPending
        obtain ⟨rfl, found, _⟩ := isPending
        rw [found] at refused
        omega
  | skip here round =>
      apply explores.advance <;>
        simp +contextual [here, CrawlPoint.Pending,
          LinkScan.extracts_of_skipped round]
  | known here round listed =>
      rw [Bool.or_eq_true, listCheck_iff, listCheck_iff] at listed
      exact explores.follow_link here round (fun _ => id) (fun _ => Or.inr) listed.symm
  | add here round _ signal =>
      dsimp only
      rw [Explores, pendingLink_signal signal]
      exact explores.follow_link here round (fun _ => List.mem_cons_of_mem _)
        (fun _ => mem_listAdd.mp) (Or.inl List.mem_cons_self)
  | leave here round =>
      apply explores.advance
      · simp [CrawlPoint.Pending]
      · rintro page link isPending
        rw [here] at isPending
        exact absurd isPending.2 (LinkScan.not_extracts_of_finished round)
  | signOff here =>
      apply explores.advance <;> simp [here, CrawlPoint.Pending]
  | search => exact explores

theorem page_signal {point after : Fin threads → CrawlPoint}
    (signal : Monitor.Signal (· = CrawlPoint.asleep) (fun _ => .atTop) point after)
    (thread : Fin threads) : (after thread).page = (point thread).page := by
  rcases signal.point_eq thread with same | ⟨sleeping, woken⟩
  · rw [same]
  · rw [woken, sleeping]
    rfl

theorem workers_initial :
    (initial threads startingURL).workers =
      (Monitor.occupancy CrawlPoint.working
        (initial threads startingURL).point : Int) := by
  rw [Monitor.occupancy_eq_zero_iff.mpr fun _ => rfl]
  rfl

/-- `workers` counts the threads that hold a page. -/
theorem workers_step {serves : CString → Answer → Prop}
    {state after : CrawlState threads} {event : CrawlEvent threads}
    (counted : state.workers =
      Monitor.occupancy CrawlPoint.working state.point)
    (stepTo : Step serves state event after) :
    after.workers = Monitor.occupancy CrawlPoint.working after.point := by
  cases stepTo with
  | take here =>
      dsimp only
      rw [setPoint_point, Monitor.occupancy_update_enter (by rw [here]; rfl) rfl,
        counted]
      rfl
  | signOff here =>
      have left := Monitor.occupancy_update_leave
        (show (state.point _).working = true by rw [here]; rfl)
        (show CrawlPoint.atTop.working = false from rfl)
      dsimp only
      rw [setPoint_point]
      omega
  | @add thread page link scan next point here _ _ signal =>
      have same : ∀ other, (point other).working =
          (Function.update state.point thread (.processing page next) other).working :=
        fun other => by
          rw [CrawlPoint.working, page_signal signal other]
          rfl
      dsimp only
      rw [Monitor.occupancy_congr same,
        Monitor.occupancy_update_same (by rw [here]; rfl)]
      exact counted
  | sleep here | wake here | receive here | refuse here | skip here
  | known here | leave here =>
      rw [setPoint_point, Monitor.occupancy_update_same (by rw [here]; rfl)]
      exact counted
  | search => exact counted

theorem workers_counted {serves : CString → Answer → Prop}
    {events : List (CrawlEvent threads)} {state : CrawlState threads}
    (run : Run serves startingURL events state) :
    state.workers = (Monitor.occupancy CrawlPoint.working state.point : Int) :=
  run.invariant
    (fun state => state.workers =
      (Monitor.occupancy CrawlPoint.working state.point : Int))
    workers_initial
    (fun _ _ _ => workers_step)

/-- A taken page is in the hands of a thread until it is signed off. -/
def Handled (events : List (CrawlEvent threads))
    (point : Fin threads → CrawlPoint) (page : CString) : Prop :=
  (∃ thread, (point thread).page = some page) ∨
    ∃ thread, CrawlEvent.signOff thread page ∈ events

theorem Handled.step {events : List (CrawlEvent threads)}
    {point after : Fin threads → CrawlPoint} {event : CrawlEvent threads}
    {page : CString} (handled : Handled events point page)
    (holds : ∀ thread, (point thread).page = some page →
      (after thread).page = some page ∨ event = .signOff thread page) :
    Handled (events ++ [event]) after page := by
  rcases handled with ⟨thread, held⟩ | ⟨thread, signedOff⟩
  · rcases holds thread held with still | rfl
    · exact Or.inl ⟨thread, still⟩
    · exact Or.inr ⟨thread, by simp⟩
  · exact Or.inr ⟨thread, List.mem_append_left _ signedOff⟩

theorem page_update {point : Fin threads → CrawlPoint} {thread : Fin threads}
    {target : CrawlPoint} (same : target.page = (point thread).page)
    (other : Fin threads) :
    (Function.update point thread target other).page = (point other).page := by
  by_cases moved : other = thread
  · subst other
    rw [Function.update_self, same]
  · rw [Function.update_of_ne moved]

theorem handled_step {state after : CrawlState threads}
    {events : List (CrawlEvent threads)} {event : CrawlEvent threads}
    (handled : ∀ page ∈ state.pagesAdded, Handled events state.point page)
    (stepTo : WebStep web state event after) :
    ∀ page ∈ after.pagesAdded, Handled (events ++ [event]) after.point page := by
  intro page taken
  cases stepTo with
  | @take thread first rest here _ _ =>
      rcases mem_listAdd.mp taken with rfl | old
      · exact Or.inl ⟨thread, by simp [CrawlPoint.page]⟩
      · apply (handled page old).step
        intro other held
        have notHere : other ≠ thread := by
          rintro rfl
          simp [here, CrawlPoint.page] at held
        left
        dsimp only
        rw [setPoint_point, Function.update_of_ne notHere, held]
  | @signOff thread first here =>
      apply (handled page taken).step
      intro other held
      by_cases moved : other = thread
      · subst other
        rw [here] at held
        cases held
        exact Or.inr rfl
      · left
        dsimp only
        rw [setPoint_point, Function.update_of_ne moved, held]
  | add here _ _ signal =>
      apply (handled page taken).step
      intro other held
      left
      dsimp only
      rw [page_signal signal, setPoint_point, page_update (by rw [here]; rfl), held]
  | sleep here | wake here | receive here | refuse here | skip here
  | known here | leave here =>
      apply (handled page taken).step
      intro other held
      left
      rw [setPoint_point, page_update (by rw [here]; rfl), held]
  | search =>
      exact (handled page taken).step fun _ held => Or.inl held

/-- Nothing is left to do: every thread waits for a page and there is none. -/
structure Quiescent (pagesAdded : PageList) (state : CrawlState threads) : Prop where
  noneToAdd : state.pagesToAdd = []
  added : state.pagesAdded = pagesAdded
  workers : state.workers = 0
  idle : ∀ thread, (state.point thread).page = none

theorem quiescent_step {pagesAdded : PageList} {state after : CrawlState threads}
    {event : CrawlEvent threads} (quiescent : Quiescent pagesAdded state)
    (stepTo : WebStep web state event after) : Quiescent pagesAdded after := by
  obtain ⟨noneToAdd, added, workers, idle⟩ := quiescent
  cases stepTo with
  | sleep here | wake here =>
      refine ⟨noneToAdd, added, workers, fun other => ?_⟩
      rw [setPoint_point, page_update (by rw [here]; rfl), idle other]
  | take _ notEmpty =>
      rw [noneToAdd] at notEmpty
      simp [listEmpty] at notEmpty
  | @receive thread _ _ here | @refuse thread _ _ here | @skip thread _ _ _ here
  | @known thread _ _ _ _ here | @add thread _ _ _ _ _ here
  | @leave thread _ _ here | @signOff thread _ here =>
      have held := idle thread
      simp [here, CrawlPoint.page] at held
  | search => exact ⟨noneToAdd, added, workers, idle⟩

/-- When the crawl is finished no thread holds a page, and the pages taken are those
that can be reached. -/
theorem finished_exact {state : CrawlState threads}
    {events : List (CrawlEvent threads)}
    (run : Run (fun page answer => answer = web page) startingURL events state)
    (seen : state.crawlingFinished = true) :
    (∀ thread, (state.point thread).page = none) ∧
      ∀ page, page ∈ state.pagesAdded ↔
        Relation.ReflTransGen (Links web) startingURL page := by
  obtain ⟨noWorkers, noneToAdd⟩ : state.workers = 0 ∧ state.pagesToAdd = [] := by
    simpa [crawlingFinished] using seen
  have counted := workers_counted run
  rw [noWorkers] at counted
  have idle : ∀ thread, (state.point thread).page = none := by
    intro thread
    have notWorking :=
      Monitor.occupancy_eq_zero_iff.mp (Int.natCast_eq_zero.mp counted.symm) thread
    simpa [CrawlPoint.working] using notWorking
  have explores := run.invariant
    (fun state => Explores web startingURL state.pagesToAdd state.pagesAdded state.point)
    explores_initial (fun _ _ _ => explores_step)
  refine ⟨idle, explores.taken_iff (by simp [noneToAdd]) ?_⟩
  rintro page link ⟨thread, isPending⟩
  have held := idle thread
  cases point : state.point thread <;>
    simp [point, CrawlPoint.Pending, CrawlPoint.page] at isPending held

/-- When the main thread sees no worker and no page to add, the pages taken are
exactly those reachable from the starting URL, each is signed off, and whatever
the threads do from then on changes neither the lists nor `workers`. -/
theorem crawl_finished {events : List (CrawlEvent threads)}
    {state : CrawlState threads}
    (run : Run (fun page answer => answer = web page) startingURL events state)
    (seen : state.crawlingFinished = true) :
    (∀ page, page ∈ state.pagesAdded ↔
      Relation.ReflTransGen (Links web) startingURL page) ∧
    (∀ page ∈ state.pagesAdded, ∃ thread,
      CrawlEvent.signOff thread page ∈ events) ∧
    ∀ more after, LabelledRun.Run (WebStep web) state more after →
      after.pagesToAdd = state.pagesToAdd ∧
      after.pagesAdded = state.pagesAdded ∧
      after.workers = state.workers := by
  obtain ⟨noWorkers, noneToAdd⟩ : state.workers = 0 ∧ state.pagesToAdd = [] := by
    simpa [crawlingFinished] using seen
  obtain ⟨idle, taken_iff⟩ := finished_exact run seen
  have handled := run.history_invariant
    (fun events state => ∀ page ∈ state.pagesAdded, Handled events state.point page)
    (fun _ taken => absurd taken List.not_mem_nil)
    (fun _ _ _ _ => handled_step)
  refine ⟨taken_iff, ?_, ?_⟩
  · intro page taken
    rcases handled page taken with ⟨thread, held⟩ | signedOff
    · simp [idle thread] at held
    · exact signedOff
  · intro more after later
    have quiescent := later.invariant (Quiescent state.pagesAdded)
      ⟨noneToAdd, rfl, noWorkers, idle⟩ (fun _ _ _ => quiescent_step)
    exact ⟨quiescent.noneToAdd.trans noneToAdd.symm, quiescent.added,
      quiescent.workers.trans noWorkers.symm⟩

theorem crawl_finished_self_link :
    (∀ page, page ∈ [selfLink] ↔
      Relation.ReflTransGen (Links fun _ => selfLinkAnswer) selfLink page) ∧
    (∀ page ∈ [selfLink], ∃ thread : Fin 1, CrawlEvent.signOff thread page ∈
      [.get 0 selfLink, .internal, .internal, .internal, .signOff 0 selfLink]) ∧
    ∀ more after,
      LabelledRun.Run (WebStep fun _ => selfLinkAnswer) selfLinkCrawled more after →
        after.pagesToAdd = [] ∧ after.pagesAdded = [selfLink] ∧
          after.workers = 0 :=
  crawl_finished selfLink_run rfl

end CrawlState

end WebCrawl
