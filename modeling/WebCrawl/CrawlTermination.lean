import WebCrawl.BoundedWork
import WebCrawl.ContentProcessing
import WebCrawl.CrawlWakeup

/-!
# The crawl terminates

A thread that is not waiting for a page takes one, which no thread does twice,
or comes a line further in the page that it holds.  When only finitely many
pages can be reached this bounds the work of all threads, in every interleaving.
As long as the crawl is not finished some thread has work to do, if the pages are
answered and their links are closed: no interleaving leads into a dead end.
-/

namespace WebCrawl

namespace LinkScan

/-- The part of the block that the loop has not passed. -/
def remaining (scan : LinkScan) : Nat :=
  scan.block.length - scan.content

end LinkScan

/-- The scan that a round of the loop leaves behind. -/
def LineAction.after : LineAction → Option LinkScan
  | .finished => none
  | .skipped after | .extracted _ after => some after

theorem strchr_bounds {char : Char} {block : List Char} {address place : Nat}
    (found : strchr char block address = .returns (some place)) :
    address ≤ place ∧ place < address + block.length := by
  induction block generalizing address with
  | nil => cases found
  | cons first rest ih =>
      rw [strchr] at found
      rw [List.length_cons]
      split at found
      · cases found
        omega
      split at found
      · cases found
      · have bounds := ih found
        omega

/-- A round that does not leave the loop passes at least the newline. -/
theorem LinkScan.line_shortens {scan after : LinkScan} {action : LineAction}
    (round : scan.line = .returns action) (goesOn : action.after = some after) :
    after.remaining < scan.remaining := by
  rw [LinkScan.line] at round
  obtain ⟨tok, found, round⟩ := Outcome.bind_eq_returns round
  cases tok with
  | none =>
      cases round
      cases goesOn
  | some tok =>
      obtain ⟨above, below⟩ := strchr_bounds found
      rw [List.length_drop] at below
      have passed : ∀ block, block.length = scan.block.length →
          LinkScan.remaining ⟨block, tok + 1⟩ < scan.remaining := by
        intro block sameLength
        unfold LinkScan.remaining
        dsimp only
        omega
      dsimp only at round
      obtain ⟨isLink, _, round⟩ := Outcome.bind_eq_returns round
      cases isLink with
      | false =>
          cases round
          cases goesOn
          exact passed _ List.length_set
      | true =>
          obtain ⟨quote, _, round⟩ := Outcome.bind_eq_returns round
          cases quote with
          | none => cases round
          | some quote =>
              cases round
              cases goesOn
              exact passed _ (by rw [List.length_set, List.length_set])

/-- The steps that a thread has still to make for the page that it holds. -/
def CrawlPoint.remaining (web : CString → Answer) : CrawlPoint → Nat
  | .atTop | .asleep => 0
  | .getting page => (web page).content.chars.length + 4
  | .processing _ scan => scan.remaining + 2
  | .finished _ => 1

namespace CrawlState

variable {threads : Nat} {web : CString → Answer} {startingURL : CString}

/-- The steps that do more than fall asleep, wake up or test for SEARCH: a page is
taken, or a thread that holds one goes on. -/
def Works (state after : CrawlState threads) : Prop :=
  after.pagesAdded ≠ state.pagesAdded ∨
    ∃ thread, (state.point thread).page ≠ none ∧ after.point thread ≠ state.point thread

theorem not_works_self (state : CrawlState threads) : ¬ Works state state := by
  rintro (listed | ⟨thread, _, moved⟩)
  · exact listed rfl
  · exact moved rfl

/-- The steps for the pages that were not taken yet. -/
def workUntaken (web : CString → Answer) (pages : Finset CString) (pagesAdded : PageList) : Nat :=
  ∑ page ∈ pages.filter (· ∉ pagesAdded), ((web page).content.chars.length + 5)

/-- The steps that are left when no page but the given ones is ever taken. -/
def workLeft (web : CString → Answer) (pages : Finset CString) (state : CrawlState threads) :
    Nat :=
  workUntaken web pages state.pagesAdded +
    BoundedWork.total (CrawlPoint.remaining web) state.point

def Reachable (web : CString → Answer) (startingURL : CString) (state : CrawlState threads) :
    Prop :=
  ∃ events, Run (fun page answer => answer = web page) startingURL events state

section Measure

variable {state after : CrawlState threads} {event : CrawlEvent threads}
variable {pages : Finset CString}

theorem Reachable.explores (reachable : Reachable web startingURL state) :
    Explores web startingURL state.pagesToAdd state.pagesAdded state.point := by
  obtain ⟨events, run⟩ := reachable
  exact run.invariant
    (fun state => Explores web startingURL state.pagesToAdd state.pagesAdded state.point)
    explores_initial (fun _ _ _ => explores_step)

theorem Reachable.nodup (reachable : Reachable web startingURL state) :
    (state.pagesToAdd ++ state.pagesAdded).Nodup := by
  obtain ⟨events, run⟩ := reachable
  exact lists_nodup run

theorem Reachable.next (reachable : Reachable web startingURL state)
    (stepTo : WebStep web state event after) : Reachable web startingURL after := by
  obtain ⟨events, run⟩ := reachable
  exact ⟨events ++ [event], run.next stepTo⟩

/-- Moving one thread changes the work left by what it changes for that thread. -/
theorem workLeft_update (web : CString → Answer) (pages : Finset CString)
    (state : CrawlState threads) (thread : Fin threads) (target : CrawlPoint) :
    workLeft web pages (state.setPoint thread target) +
        (state.point thread).remaining web =
      workLeft web pages state + target.remaining web := by
  have moved := BoundedWork.total_update (CrawlPoint.remaining web) state.point thread target
  simp only [workLeft, setPoint_pagesAdded, setPoint_point]
  omega

theorem works_setPoint {thread : Fin threads} {target : CrawlPoint}
    (works : Works state (state.setPoint thread target)) :
    (state.point thread).page ≠ none := by
  rcases works with listed | ⟨other, holds, moved⟩
  · exact absurd rfl listed
  · by_cases same : other = thread
    · exact same ▸ holds
    · rw [setPoint_point, Function.update_of_ne same] at moved
      exact absurd rfl moved

theorem workUntaken_take (web : CString → Answer) {page : CString} {pagesAdded : PageList}
    (isPage : page ∈ pages) (fresh : page ∉ pagesAdded) :
    workUntaken web pages (listAdd pagesAdded page) + ((web page).content.chars.length + 5) =
      workUntaken web pages pagesAdded := by
  have left : pages.filter (· ∉ listAdd pagesAdded page) =
      (pages.filter (· ∉ pagesAdded)).erase page := by
    ext other
    simp only [Finset.mem_filter, mem_listAdd, not_or, Finset.mem_erase]
    tauto
  have untaken : page ∈ pages.filter (· ∉ pagesAdded) :=
    Finset.mem_filter.mpr ⟨isPage, fresh⟩
  have sum := Finset.add_sum_erase _ (fun other => (web other).content.chars.length + 5)
    untaken
  rw [workUntaken, left]
  unfold workUntaken
  omega

/-- A thread that goes on with a page, as `LinkScan.line_shortens` has it. -/
theorem remaining_round {page : CString} {scan next : LinkScan} {action : LineAction}
    (round : scan.line = .returns action) (goesOn : action.after = some next) :
    (CrawlPoint.processing page next).remaining web <
      (CrawlPoint.processing page scan).remaining web :=
  Nat.add_lt_add_right (LinkScan.line_shortens round goesOn) 2

/-- A thread that goes on from a page leaves less to do. -/
theorem workLeft_lower {thread : Fin threads} {target : CrawlPoint}
    (lower : target.remaining web < (state.point thread).remaining web) :
    workLeft web pages (state.setPoint thread target) < workLeft web pages state := by
  have moved := workLeft_update web pages state thread target
  omega

/-- A thread without a page falls asleep or wakes up. -/
theorem workLeft_idle {thread : Fin threads} {target : CrawlPoint}
    (wasIdle : (state.point thread).page = none) (isIdle : target.page = none) :
    workLeft web pages (state.setPoint thread target) = workLeft web pages state ∧
      ¬ Works state (state.setPoint thread target) := by
  have nothing : ∀ point : CrawlPoint, point.page = none → point.remaining web = 0 := by
    intro point idle
    cases point with
    | atTop | asleep => rfl
    | getting | processing | finished => cases idle
  have moved := workLeft_update web pages state thread target
  rw [nothing _ wasIdle, nothing _ isIdle] at moved
  exact ⟨moved, fun works => works_setPoint works wasIdle⟩

/-- Every step of a thread that holds a page, and every page that is taken, leaves
less to do; the other steps change nothing. -/
theorem workLeft_step (reachable : Reachable web startingURL state)
    (bounded : ∀ page, Relation.ReflTransGen (Links web) startingURL page → page ∈ pages)
    (stepTo : WebStep web state event after) :
    workLeft web pages after < workLeft web pages state ∨
      workLeft web pages after = workLeft web pages state ∧ ¬ Works state after := by
  cases stepTo with
  | @sleep thread here _ | @wake thread here =>
      exact Or.inr (workLeft_idle (by rw [here]; rfl) rfl)
  | @take thread page rest here _ removed =>
      left
      rw [listRem_eq_some] at removed
      have isPage : page ∈ pages :=
        bounded page (reachable.explores.reachable page (Or.inl (by simp [removed])))
      have fresh : page ∉ state.pagesAdded := by
        have nodup := reachable.nodup
        rw [removed, List.cons_append, List.nodup_cons, List.mem_append] at nodup
        exact fun added => nodup.1 (Or.inr added)
      have moved := BoundedWork.total_update (CrawlPoint.remaining web) state.point thread
        (.getting page)
      have taken := workUntaken_take web isPage fresh
      rw [here] at moved
      simp only [CrawlPoint.remaining] at moved
      simp only [workLeft, setPoint_point]
      omega
  | @receive thread page answer here served _ =>
      left
      apply workLeft_lower
      rw [here, served]
      simp [CrawlPoint.remaining, LinkScan.remaining, LinkScan.start]
  | @refuse thread page answer here _ _ =>
      left
      apply workLeft_lower
      rw [here]
      simp [CrawlPoint.remaining]
  | @skip thread page scan next here round =>
      left
      apply workLeft_lower
      rw [here]
      exact remaining_round round rfl
  | @known thread page link scan next here round _ =>
      left
      apply workLeft_lower
      rw [here]
      exact remaining_round round rfl
  | @add thread page link scan next point here round _ signal =>
      left
      have lower : workLeft web pages (state.setPoint thread (.processing page next)) <
          workLeft web pages state := by
        apply workLeft_lower
        rw [here]
        exact remaining_round round rfl
      have woken := BoundedWork.total_signal (CrawlPoint.remaining web)
        (fun point asleep => by rw [asleep]; rfl) signal
      simp only [workLeft] at lower ⊢
      rwa [woken]
  | @leave thread page scan here round =>
      left
      apply workLeft_lower
      rw [here]
      simp [CrawlPoint.remaining]
  | @signOff thread page here =>
      left
      have lower : workLeft web pages (state.setPoint thread .atTop) <
          workLeft web pages state := by
        apply workLeft_lower
        rw [here]
        simp [CrawlPoint.remaining]
      exact lower
  | search => exact Or.inr ⟨rfl, fun works => by
      rcases works with listed | ⟨thread, _, moved⟩
      · exact listed rfl
      · exact moved rfl⟩

theorem workLeft_initial :
    workLeft web pages (initial threads startingURL) =
      ∑ page ∈ pages, ((web page).content.chars.length + 5) := by
  have untaken : pages.filter (· ∉ ([] : PageList)) = pages :=
    Finset.filter_true_of_mem fun _ _ => List.not_mem_nil
  have idle : BoundedWork.total (CrawlPoint.remaining web)
      (initial threads startingURL).point = 0 :=
    Finset.sum_eq_zero fun _ _ => rfl
  rw [workLeft, idle, workUntaken]
  exact congrArg (∑ page ∈ ·, ((web page).content.chars.length + 5)) untaken

theorem spends
    (bounded : ∀ page, Relation.ReflTransGen (Links web) startingURL page → page ∈ pages) :
    BoundedWork.Spends (@WebStep threads web) Works (Reachable web startingURL)
      (workLeft web pages) where
  keeps _ _ _ reachable stepTo := reachable.next stepTo
  work _ _ _ reachable stepTo works := by
    rcases workLeft_step reachable bounded stepTo with lower | ⟨_, idle⟩
    · exact lower
    · exact absurd works idle
  rest _ _ _ reachable stepTo _ := by
    rcases workLeft_step reachable bounded stepTo with lower | ⟨same, _⟩
    · exact lower.le
    · exact same.le

/-- However the threads are interleaved, they do not work for ever: the steps that
are more than falling asleep, waking up or testing for SEARCH are bounded by the
sizes of the pages that can be reached. -/
theorem crawl_work_bounded
    (bounded : ∀ page, Relation.ReflTransGen (Links web) startingURL page → page ∈ pages)
    {count : Nat}
    (worked : BoundedWork.Worked (WebStep web) Works (initial threads startingURL)
      count state) :
    count ≤ ∑ page ∈ pages, ((web page).content.chars.length + 5) := by
  have limit := (spends bounded).count_le ⟨[], .start⟩ worked
  rw [workLeft_initial] at limit
  exact Nat.le_of_add_right_le limit

/-- The page with a link to itself, gone through. -/
def selfLinkScanned : LinkScan :=
  ⟨"<a href=\"/a\x00>\x00\x00".toList, 14⟩

theorem selfLink_line :
    (LinkScan.start selfLinkAnswer.content).line =
      .returns (.extracted selfLink selfLinkScanned) :=
  rfl

/-- The page with a link to itself is the only one that is reached. -/
theorem reachable_selfLink {page : CString}
    (path : Relation.ReflTransGen (Links fun _ => selfLinkAnswer) selfLink page) :
    page = selfLink := by
  induction path with
  | refl => rfl
  | tail _ link _ =>
      rcases (LinkScan.extracts_of_extracted selfLink_line).mp link.2 with same | later
      · exact same
      · exact absurd later (LinkScan.not_extracts_of_finished rfl)

/-- The page with a link to another page, and this one, are the only ones reached. -/
theorem reachable_otherLink {page : CString}
    (path : Relation.ReflTransGen (Links fun _ => otherLinkAnswer) selfLink page) :
    page = selfLink ∨ page = otherLink := by
  induction path with
  | refl => exact Or.inl rfl
  | tail _ link _ =>
      rcases (LinkScan.extracts_of_extracted otherLink_line).mp link.2 with same | later
      · exact Or.inr same
      · exact absurd later (LinkScan.not_extracts_of_finished rfl)

/-- Two threads: the first one takes the page, the second one falls asleep, and the link
that the first one then adds wakes it. -/
theorem crawl_work_bounded_two_threads :
    ∃ state : CrawlState 2, state.pagesToAdd = [otherLink] ∧
      BoundedWork.Worked (WebStep fun _ => otherLinkAnswer) Works (initial 2 selfLink) 3 state ∧
      3 ≤ ∑ page ∈ {selfLink, otherLink},
        (((fun _ => otherLinkAnswer) page).content.chars.length + 5) := by
  have taken : BoundedWork.Worked (WebStep fun _ => otherLinkAnswer) Works
      (initial 2 selfLink) 1 _ := .work .start
    (.take rfl rfl rfl : WebStep _ (initial 2 selfLink) (.get 0 selfLink) _)
    (Or.inl (by simp [initial, listAdd]))
  have slept := taken.rest (@Step.sleep _ _ _ 1 rfl rfl) (by
    rintro (listed | ⟨thread, holds, moved⟩)
    · exact listed rfl
    · obtain rfl | rfl : thread = 0 ∨ thread = 1 := by omega
      · exact moved rfl
      · exact holds rfl)
  have received := slept.work (@Step.receive _ _ _ 0 selfLink _ rfl rfl rfl)
    (Or.inr ⟨0, Option.some_ne_none selfLink, CrawlPoint.noConfusion⟩)
  have added := received.work
    (@Step.add _ _ _ 0 selfLink otherLink _ _ _ rfl otherLink_line rfl (.wakes 1 rfl))
    (Or.inr ⟨0, Option.some_ne_none selfLink, by decide⟩)
  refine ⟨_, rfl, added, crawl_work_bounded (fun page path => ?_) added⟩
  rw [Finset.mem_insert, Finset.mem_singleton]
  exact reachable_otherLink path

end Measure

/-- A page that the crawler can go through: it is refused, or its links are closed. -/
def Crawlable (answer : Answer) : Prop :=
  answer.code = 404 ∨ answer.code = 403 ∨
    answer.code = 200 ∧ LinksClosed answer.content.chars

/-- A round on a part of a page with closed links does not store through a null
pointer, and the part that it leaves has closed links. -/
theorem line_of_closed {scan : LinkScan} {rest : List Char} (ahead : scan.Ahead rest)
    (closed : LinksClosed rest) :
    ∃ action, scan.line = .returns action ∧ ∀ next, action.after = some next →
      ∃ later, next.Ahead later ∧ LinksClosed later := by
  by_cases newline : '\n' ∈ rest
  · obtain ⟨line, later, rfl, oneLine⟩ := List.eq_append_cons_of_mem newline
    obtain ⟨lineClosed, laterClosed⟩ := (linksClosed_cons later oneLine).mp closed
    have goesOn : ∀ {action : LineAction} {after next : LinkScan}, after.Ahead later →
        action.after = some after → action.after = some next →
        ∃ later, next.Ahead later ∧ LinksClosed later := by
      intro action after next afterAhead isAfter isNext
      rw [isAfter] at isNext
      cases isNext
      exact ⟨later, afterAhead, laterClosed⟩
    rcases link_cases line with
      ⟨target, more, firstQuote, rfl⟩ | ⟨target, unquoted, rfl⟩ | isLink
    · obtain ⟨link, after, round, _, afterAhead⟩ := LinkScan.line_link ahead oneLine firstQuote
      exact ⟨_, round, fun next => goesOn afterAhead rfl⟩
    · have quoted := lineClosed (List.prefix_append _ _)
      rw [List.drop_left] at quoted
      exact absurd quoted unquoted
    · obtain ⟨after, round, afterAhead⟩ := LinkScan.line_text ahead oneLine isLink
      exact ⟨_, round, fun next => goesOn afterAhead rfl⟩
  · exact ⟨.finished, LinkScan.line_finished ahead newline, fun next goesOn => by cases goesOn⟩

/-- The page that a thread waits for can be reached, and the links ahead in the page
that it goes through are closed. -/
def Sound (web : CString → Answer) (startingURL : CString) : CrawlPoint → Prop
  | .getting page => Relation.ReflTransGen (Links web) startingURL page
  | .processing _ scan => ∃ rest, scan.Ahead rest ∧ LinksClosed rest
  | .atTop | .asleep | .finished _ => True

theorem sound_update {point : Fin threads → CrawlPoint} {thread : Fin threads}
    {target : CrawlPoint} (sound : ∀ other, Sound web startingURL (point other))
    (isSound : Sound web startingURL target) (other : Fin threads) :
    Sound web startingURL (Function.update point thread target other) := by
  by_cases moved : other = thread
  · subst other
    rwa [Function.update_self]
  · rw [Function.update_of_ne moved]
    exact sound other

theorem sound_round {page : CString} {scan next : LinkScan} {action : LineAction}
    (sound : Sound web startingURL (.processing page scan))
    (round : scan.line = .returns action) (goesOn : action.after = some next) :
    Sound web startingURL (.processing page next) := by
  obtain ⟨rest, ahead, closed⟩ := sound
  obtain ⟨other, sameRound, later⟩ := line_of_closed ahead closed
  rw [round] at sameRound
  cases sameRound
  exact later next goesOn

section Progress

variable {state after : CrawlState threads} {event : CrawlEvent threads}
variable {pages : Finset CString}

theorem sound_step
    (crawlable : ∀ page, Relation.ReflTransGen (Links web) startingURL page →
      Crawlable (web page))
    (reachable : Reachable web startingURL state)
    (sound : ∀ thread, Sound web startingURL (state.point thread))
    (stepTo : WebStep web state event after) (thread : Fin threads) :
    Sound web startingURL (after.point thread) := by
  cases stepTo with
  | @take _ page rest _ _ removed =>
      rw [listRem_eq_some] at removed
      have reached : Sound web startingURL (.getting page) :=
        reachable.explores.reachable page (Or.inl (by simp [removed]))
      exact sound_update sound reached thread
  | @receive mover page answer here served accepted =>
      subst served
      have reached := sound mover
      rw [here] at reached
      rcases crawlable page reached with missing | denied | ⟨_, closed⟩
      · omega
      · omega
      · have starts : Sound web startingURL
            (.processing page (.start (web page).content)) :=
          ⟨_, LinkScan.ahead_start _, closed⟩
        exact sound_update sound starts thread
  | @skip mover _ _ _ here round | @known mover _ _ _ _ here round =>
      have before := sound mover
      rw [here] at before
      exact sound_update sound (sound_round before round rfl) thread
  | @add mover page _ scan next point here round _ signal =>
      have before := sound mover
      rw [here] at before
      have goesOn : Sound web startingURL (.processing page next) := sound_round before round rfl
      have moved : Sound web startingURL
          ((state.setPoint mover (.processing page next)).point thread) :=
        sound_update sound goesOn thread
      dsimp only
      rcases signal.point_eq thread with same | ⟨_, woken⟩
      · rw [same]
        exact moved
      · rw [woken]
        trivial
  | sleep | wake | refuse | leave | signOff =>
      refine sound_update sound ?_ thread
      trivial
  | search => exact sound thread

/-- A thread that holds a page can go on with it. -/
theorem holder_moves
    (crawlable : ∀ page, Relation.ReflTransGen (Links web) startingURL page →
      Crawlable (web page))
    (sound : ∀ thread, Sound web startingURL (state.point thread)) {thread : Fin threads}
    (holds : (state.point thread).page ≠ none) :
    ∃ event after, WebStep web state event after ∧
      after.point thread ≠ state.point thread := by
  have here := sound thread
  cases point : state.point thread with
  | atTop | asleep =>
      rw [point] at holds
      exact absurd rfl holds
  | getting page =>
      rw [point] at here
      have refused : (web page).code = 404 ∨ (web page).code = 403 →
          ∃ event after, WebStep web state event after ∧
            after.point thread ≠ .getting page :=
        fun code => ⟨_, _, .refuse point rfl code, by simp⟩
      rcases crawlable page here with missing | denied | ⟨accepted, _⟩
      · exact refused (Or.inl missing)
      · exact refused (Or.inr denied)
      · exact ⟨_, _, .receive point rfl accepted, by simp⟩
  | processing page scan =>
      rw [point] at here
      obtain ⟨rest, ahead, closed⟩ := here
      obtain ⟨action, round, _⟩ := line_of_closed ahead closed
      have passes : ∀ {next : LinkScan}, action.after = some next →
          CrawlPoint.processing page next ≠ .processing page scan := by
        intro next goesOn same
        have lower : (CrawlPoint.processing page next).remaining web <
            (CrawlPoint.processing page scan).remaining web := remaining_round round goesOn
        rw [same] at lower
        exact lower.false
      cases action with
      | finished => exact ⟨_, _, .leave point round, by simp⟩
      | skipped next =>
          refine ⟨_, _, .skip point round, ?_⟩
          rw [setPoint_point, Function.update_self]
          exact passes rfl
      | extracted link next =>
          cases listed : listCheck state.pagesAdded link || listCheck state.pagesToAdd link with
          | true =>
              refine ⟨_, _, .known point round listed, ?_⟩
              rw [setPoint_point, Function.update_self]
              exact passes rfl
          | false =>
              obtain ⟨woken, signal⟩ : ∃ woken, Monitor.Signal (· = CrawlPoint.asleep)
                  (fun _ => .atTop) (state.setPoint thread (.processing page next)).point woken :=
                Monitor.Signal.exists_after _
              refine ⟨_, _, .add point round listed signal, ?_⟩
              rcases signal.point_eq thread with same | ⟨sleeping, _⟩
              · dsimp only
                rw [same, setPoint_point, Function.update_self]
                exact passes rfl
              · simp at sleeping
  | finished page => exact ⟨_, _, .signOff point, by simp⟩

/-- What holds in every state of a crawl over pages that the crawler can go through. -/
structure Live (web : CString → Answer) (startingURL : CString)
    (state : CrawlState threads) : Prop where
  reachable : Reachable web startingURL state
  counted : state.workers = Monitor.occupancy CrawlPoint.working state.point
  alert : ThreadsAlert state
  sound : ∀ thread, Sound web startingURL (state.point thread)

theorem live_initial (positive : 1 ≤ threads) :
    Live web startingURL (initial threads startingURL) where
  reachable := ⟨[], .start⟩
  counted := workers_initial
  alert _ := ⟨⟨0, positive⟩, by simp [initial]⟩
  sound _ := trivial

theorem live_step
    (crawlable : ∀ page, Relation.ReflTransGen (Links web) startingURL page →
      Crawlable (web page))
    (live : Live web startingURL state) (stepTo : WebStep web state event after) :
    Live web startingURL after where
  reachable := live.reachable.next stepTo
  counted := workers_step live.counted stepTo
  alert := threadsAlert_step live.alert stepTo
  sound := sound_step crawlable live.reachable live.sound stepTo

/-- As long as the crawl is not finished some thread has work that it can do. -/
theorem exists_working_step
    (crawlable : ∀ page, Relation.ReflTransGen (Links web) startingURL page →
      Crawlable (web page))
    (live : Live web startingURL state) (unfinished : ¬ state.crawlingFinished = true) :
    ∃ event after, WebStep web state event after ∧ Works state after := by
  have ofHolder : ∀ thread, (state.point thread).page ≠ none →
      ∃ event after, WebStep web state event after ∧ Works state after := by
    intro thread holds
    obtain ⟨event, after, stepTo, moved⟩ := holder_moves crawlable live.sound holds
    exact ⟨event, after, stepTo, Or.inr ⟨thread, holds, moved⟩⟩
  cases toAdd : state.pagesToAdd with
  | nil =>
      -- a crawl without a page to add is unfinished because of a worker
      have busy : state.workers ≠ 0 := by
        intro noWorkers
        simp [crawlingFinished, noWorkers, toAdd, listEmpty] at unfinished
      rw [live.counted, Int.natCast_ne_zero, Ne, Monitor.occupancy_eq_zero_iff] at busy
      obtain ⟨thread, working⟩ := not_forall.mp busy
      refine ofHolder thread fun idle => working ?_
      rw [CrawlPoint.working, idle]
      rfl
  | cons page rest =>
      obtain ⟨thread, awake⟩ := live.alert (by simp [toAdd])
      by_cases holds : (state.point thread).page = none
      · have top : state.point thread = .atTop := by
          cases point : state.point thread with
          | atTop => rfl
          | asleep => exact absurd point awake
          | getting | processing | finished => simp [point, CrawlPoint.page] at holds
        refine ⟨_, _, .take top (by simp [toAdd, listEmpty]) (listRem_eq_some.mpr toAdd),
          Or.inl ?_⟩
        simp [listAdd]
      · exact ofHolder thread holds

/-- From every state that the crawl can be in it can be finished. -/
theorem exists_finished (positive : 1 ≤ threads)
    (bounded : ∀ page, Relation.ReflTransGen (Links web) startingURL page → page ∈ pages)
    (crawlable : ∀ page, Relation.ReflTransGen (Links web) startingURL page →
      Crawlable (web page))
    {events : List (CrawlEvent threads)}
    (run : Run (fun page answer => answer = web page) startingURL events state) :
    ∃ more after, LabelledRun.Run (WebStep web) state more after ∧
      after.crawlingFinished = true := by
  have live := run.invariant (Live web startingURL) (live_initial positive)
    fun _ _ _ => live_step crawlable
  have finishing : BoundedWork.Spends (@WebStep threads web) Works
      (Live web startingURL) (workLeft web pages) :=
    (spends bounded).restrict (fun _ live => live.reachable)
      fun _ _ _ live stepTo => live_step crawlable live stepTo
  exact finishing.exists_done (fun _ => exists_working_step crawlable) live

end Progress

end CrawlState

end WebCrawl
