import WebCrawl.CrawlCompletion

/-!
# No page is stranded in the crawler

A thread only falls asleep on an empty list, and a link is only added by a
thread that is awake.  So as long as there is a page to add some thread has not
fallen asleep, whichever thread a signal wakes and whether or not it finds one.
`workers` counts what the history shows: the threads that have removed a page
and not yet decremented the counter.
-/

namespace WebCrawl

/-- The thread has removed a page from `pagesToAdd`. -/
def CrawlEvent.removes {threads : Nat} (thread : Fin threads) :
    CrawlEvent threads → Bool
  | .get other _ => other = thread
  | .add _ _ | .signOff _ _ | .search _ | .internal => false

/-- The thread has decremented `workers`. -/
def CrawlEvent.decrements {threads : Nat} (thread : Fin threads) :
    CrawlEvent threads → Bool
  | .signOff other _ => other = thread
  | .get _ _ | .add _ _ | .search _ | .internal => false

namespace CrawlState

variable {threads : Nat} {serves : CString → Answer → Prop}
variable {startingURL : CString}

/-- A list that holds a page has a thread awake. -/
def ThreadsAlert (state : CrawlState threads) : Prop :=
  state.pagesToAdd ≠ [] → ∃ thread, state.point thread ≠ .asleep

private theorem exists_awake_update {point : Fin threads → CrawlPoint}
    {thread : Fin threads} {target : CrawlPoint} (awake : target ≠ .asleep) :
    ∃ other, Function.update point thread target other ≠ .asleep :=
  ⟨thread, by rwa [Function.update_self]⟩

theorem threadsAlert_step {state after : CrawlState threads}
    {event : CrawlEvent threads} (alert : ThreadsAlert state)
    (stepTo : Step serves state event after) : ThreadsAlert after := by
  intro nonempty
  cases stepTo with
  | sleep _ isEmpty =>
      -- the only way to fall asleep, and it needs an empty list
      exact absurd (listEmpty_iff.mp isEmpty) nonempty
  | @add thread page _ _ next point _ _ _ signal =>
      have working : point thread = .processing page next := by
        rcases signal.point_eq thread with same | ⟨sleeping, _⟩
        · rw [same, setPoint_point, Function.update_self]
        · simp at sleeping
      exact ⟨thread, by simp [working]⟩
  | wake | take | receive | refuse | skip | known | leave | signOff =>
      exact exists_awake_update (by simp)
  | search => exact alert nonempty

/-- The difference between what a thread has removed and what it has signed off
is whether it works now. -/
def WorkingExact (events : List (CrawlEvent threads)) (state : CrawlState threads) :
    Prop :=
  ∀ thread, events.countP (·.removes thread) =
    events.countP (·.decrements thread) + (state.point thread).working.toNat

theorem WorkingExact.unmoved {events : List (CrawlEvent threads)}
    {state after : CrawlState threads} {event : CrawlEvent threads}
    (exactly : WorkingExact events state)
    (other : ∀ thread, event.removes thread = false ∧ event.decrements thread = false)
    (same : ∀ thread, (after.point thread).page = (state.point thread).page) :
    WorkingExact (events ++ [event]) after := by
  intro thread
  rw [List.countP_append, List.countP_append, exactly thread, CrawlPoint.working,
    CrawlPoint.working, same thread]
  simp [(other thread).1, (other thread).2]

theorem workingExact_step {events : List (CrawlEvent threads)}
    {state after : CrawlState threads} {event : CrawlEvent threads}
    (exactly : WorkingExact events state) (stepTo : Step serves state event after) :
    WorkingExact (events ++ [event]) after := by
  cases stepTo with
  | @take thread page _ here | @signOff thread page here =>
      intro other
      rw [List.countP_append, List.countP_append, exactly other]
      dsimp only
      rw [setPoint_point]
      by_cases moved : other = thread
      · subst other
        simp [here, CrawlEvent.removes, CrawlEvent.decrements, CrawlPoint.working,
          CrawlPoint.page]
      · simp [moved, Ne.symm moved, CrawlEvent.removes, CrawlEvent.decrements]
  | add here _ _ signal =>
      refine exactly.unmoved (fun _ => ⟨rfl, rfl⟩) fun other => ?_
      dsimp only
      rw [page_signal signal, setPoint_point, page_update (by rw [here]; rfl)]
  | sleep here | wake here | receive here | refuse here | skip here
  | known here | leave here =>
      refine exactly.unmoved (fun _ => ⟨rfl, rfl⟩) fun other => ?_
      rw [setPoint_point, page_update (by rw [here]; rfl)]
  | search => exact exactly.unmoved (fun _ => ⟨rfl, rfl⟩) fun _ => rfl

/-- No page is left to add while every thread sleeps, and `workers` is the
number of threads that have removed a page and not yet decremented it. -/
theorem no_page_stranded (positive : 1 ≤ threads)
    {events : List (CrawlEvent threads)} {state : CrawlState threads}
    (run : Run serves startingURL events state) :
    ¬ (state.pagesToAdd ≠ [] ∧ ∀ thread, state.point thread = .asleep) ∧
    state.workers = ((Finset.univ.filter fun thread =>
      events.countP (·.decrements thread) <
        events.countP (·.removes thread)).card : Int) := by
  have alert := run.invariant ThreadsAlert
    (fun _ => ⟨⟨0, positive⟩, by simp [initial]⟩)
    (fun _ _ _ => threadsAlert_step)
  have counted := workers_counted run
  have exactly := run.history_invariant WorkingExact
    (fun _ => rfl) (fun _ _ _ _ => workingExact_step)
  constructor
  · rintro ⟨nonempty, allAsleep⟩
    obtain ⟨thread, awake⟩ := alert nonempty
    exact awake (allAsleep thread)
  · have holding : ∀ thread, (events.countP (·.decrements thread) <
        events.countP (·.removes thread)) ↔ (state.point thread).working = true := by
      intro thread
      rw [exactly thread]
      cases (state.point thread).working <;> simp
    simp only [holding]
    exact counted

/-- A page whose only link is a link to another page. -/
def otherLink : CString :=
  ⟨"/b".toList, by decide⟩

def otherLinkAnswer : Answer :=
  ⟨200, ⟨"<a href=\"/b\">\n".toList, by decide⟩⟩

/-- The page with a link to another page, gone through. -/
def otherLinkScanned : LinkScan :=
  ⟨"<a href=\"/b\x00>\x00\x00".toList, 14⟩

theorem otherLink_line :
    (LinkScan.start otherLinkAnswer.content).line =
      .returns (.extracted otherLink otherLinkScanned) :=
  rfl

/-- While the first of three threads goes through the page the others fall asleep, and the
link that it adds wakes one of them. -/
theorem no_page_stranded_three_threads :
    ∃ (events : List (CrawlEvent 3)) (state : CrawlState 3),
      Run (fun _ answer => answer = otherLinkAnswer) selfLink events state ∧
      state.pagesToAdd = [otherLink] ∧ state.point 2 = .asleep ∧
      (¬ ∀ thread, state.point thread = .asleep) ∧
      state.workers = ((Finset.univ.filter fun thread =>
        events.countP (·.decrements thread) <
          events.countP (·.removes thread)).card : Int) := by
  have taken := LabelledRun.Run.start.next
    (Step.take rfl rfl rfl : Step (fun _ answer => answer = otherLinkAnswer)
      (initial 3 selfLink) (.get 0 selfLink) _)
  have oneSleeps := taken.next (@Step.sleep _ _ _ 1 rfl rfl)
  have bothSleep := oneSleeps.next (@Step.sleep _ _ _ 2 rfl rfl)
  have received := bothSleep.next (@Step.receive _ _ _ 0 selfLink _ rfl rfl rfl)
  have added := received.next
    (@Step.add _ _ _ 0 selfLink otherLink _ _ _ rfl otherLink_line rfl (.wakes 1 rfl))
  obtain ⟨someAwake, counted⟩ := no_page_stranded (by decide) added
  exact ⟨_, _, added, rfl, rfl, fun asleep => someAwake ⟨List.cons_ne_nil _ _, asleep⟩, counted⟩

end CrawlState

end WebCrawl
