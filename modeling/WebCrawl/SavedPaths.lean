import WebCrawl.CrawlCompletion
import WebCrawl.LexicalPath
import WebCrawl.PageDelivery

/-!
# Where pages are saved

`main` gives its argument `save_dir` to `mkdirs`, which cuts off a slash at its
end, and `contentProcessing` puts what is left in front of the page's name.
The names are the starting URL and the links of the pages, as they stand there.
A crawl stays inside `save_dir` as long as each name that it takes up is
confined there.
-/

namespace WebCrawl

open LexicalPath

theorem resolve_cutSlash {dir : CString} (notRoot : dir.chars ≠ ['/']) :
    isAbsolute (cutSlash dir).chars = isAbsolute dir.chars ∧
      resolve (cutSlash dir).chars = resolve dir.chars := by
  by_cases ends : dir.chars.getLast? = some '/'
  · obtain ⟨front, split⟩ := List.getLast?_eq_some_iff.mp ends
    have nonempty : front ≠ [] := by
      rintro rfl
      exact notRoot split
    have cut : (cutSlash dir).chars = front := cutSlash_chars split
    have flags := isAbsolute_append ['/'] nonempty
    rw [cut, split, resolve, resolve, flags, components_slash, components_nil,
      List.append_nil]
    exact ⟨rfl, rfl⟩
  · rw [cutSlash, if_neg ends]
    exact ⟨rfl, rfl⟩

theorem cutSlash_root {dir : CString} (root : dir.chars = ['/']) :
    (cutSlash dir).chars = [] :=
  cutSlash_chars root

theorem pathInside_root_iff (path : List Char) :
    PathInside ['/'] path ↔ path.head? = some '/' := by
  constructor
  · rintro ⟨flags, _⟩
    exact of_decide_eq_true flags
  · intro starts
    have absolute : isAbsolute path = true := decide_eq_true starts
    refine ⟨absolute, ?_, List.nil_suffix⟩
    rw [resolve, absolute, Place.parents_walk_absolute]
    rfl

/-- The paths that `contentProcessing` gives to `mkdirs` and to `fopen` for a page. -/
def SavesInside (dir saveDir page : CString) : Prop :=
  PathInside dir.chars (saveDir.strcat page).chars ∧
    ∀ name directories, mkdirs (saveDir.strcat page) = .returns (name, directories) →
      PathInside dir.chars name.chars

/-- The page's name is confined to the directory given to the crawler, and
something is left of the path when a slash at its end is cut off. -/
def PageConfined (dir page : CString) : Prop :=
  if dir.chars = ['/'] then page.chars.head? = some '/' ∧ page.chars ≠ ['/']
  else Confined (cutSlash dir).chars page.chars ∧
    (cutSlash dir).chars ++ page.chars ≠ ['/']

instance (dir page : CString) : Decidable (PageConfined dir page) :=
  inferInstanceAs (Decidable (ite _ _ _))

theorem mkdirs_returns {dir name : CString} {directories : List CString}
    (made : mkdirs dir = .returns (name, directories)) : name = cutSlash dir := by
  unfold mkdirs at made
  split at made
  · cases made
  · cases made
    rfl

theorem pathInside_strcat_iff (dir page : CString) :
    PathInside dir.chars ((cutSlash dir).strcat page).chars ∧
        ((cutSlash dir).strcat page).chars ≠ ['/'] ↔
      PageConfined dir page := by
  rw [CString.strcat_chars]
  by_cases root : dir.chars = ['/']
  · rw [PageConfined, if_pos root, root, cutSlash_root root, List.nil_append,
      pathInside_root_iff]
  · obtain ⟨flags, resolved⟩ := resolve_cutSlash root
    rw [PageConfined, if_neg root, ← pathInside_append_iff, PathInside, PathInside, flags,
      resolved]

/-- Exactly the pages with confined names are saved inside the directory. -/
theorem savesInside_iff {dir saveDir page : CString} {directories : List CString}
    (made : mkdirs dir = .returns (saveDir, directories)) :
    SavesInside dir saveDir page ↔ PageConfined dir page := by
  rw [mkdirs_returns made, ← pathInside_strcat_iff, SavesInside]
  apply and_congr_right
  intro inside
  constructor
  · intro opened isRoot
    obtain ⟨created, call⟩ := @mkdirs_nonempty ((cutSlash dir).strcat page)
      (by rw [isRoot]; exact List.cons_ne_nil _ _)
    have flags := (opened _ _ call).1
    rw [cutSlash_root isRoot, ← inside.1, isRoot] at flags
    cases flags
  · intro notRoot name created call
    obtain ⟨flags, resolved⟩ := resolve_cutSlash notRoot
    rw [mkdirs_returns call, PathInside, flags, resolved]
    exact inside

namespace CrawlState

variable {threads : Nat} {dir saveDir startingURL : CString}
variable {serves : CString → Answer → Prop}

/-- A link that is taken up is confined. -/
def LinkConfined (dir : CString) : CrawlEvent threads → Prop
  | .add _ link => PageConfined dir link
  | .get .. | .signOff .. | .search _ | .internal => True

theorem linkConfined_of_not_add {event : CrawlEvent threads}
    (notAdd : ∀ thread link, event ≠ .add thread link) : LinkConfined dir event := by
  cases event with
  | add thread link => exact absurd rfl (notAdd thread link)
  | _ => trivial

/-- The runs in which every link that is taken up is confined. -/
abbrev ConfinedRun (dir : CString) (serves : CString → Answer → Prop)
    (startingURL : CString) :=
  LabelledRun.Run
    (fun (state : CrawlState threads) event after =>
      LinkConfined dir event ∧ Step serves state event after)
    (initial threads startingURL)

/-- Every page in the list or in the hands of a thread is confined. -/
structure Confining (dir : CString) (state : CrawlState threads) : Prop where
  listed : ∀ page ∈ state.pagesToAdd, PageConfined dir page
  taken : ∀ thread page, (state.point thread).page = some page → PageConfined dir page

theorem confining_initial (start : PageConfined dir startingURL) :
    Confining dir (initial threads startingURL) where
  listed := by
    intro page listed
    rcases mem_listAdd.mp listed with rfl | old
    · exact start
    · cases old
  taken := by
    intro thread page held
    cases held

theorem Confining.move {state : CrawlState threads} {thread : Fin threads}
    {point : CrawlPoint} (confining : Confining dir state)
    (same : ∀ page, point.page = some page → (state.point thread).page = some page)
    (other : Fin threads) (page : CString)
    (held : (Function.update state.point thread point other).page = some page) :
    PageConfined dir page := by
  by_cases moved : other = thread
  · subst other
    rw [Function.update_self] at held
    exact confining.taken thread page (same page held)
  · rw [Function.update_of_ne moved] at held
    exact confining.taken other page held

theorem Confining.step {state after : CrawlState threads} {event : CrawlEvent threads}
    (confining : Confining dir state) (confined : LinkConfined dir event)
    (stepTo : Step serves state event after) : Confining dir after := by
  cases stepTo with
  | @take thread page rest here _ removed =>
      have split := listRem_eq_some.mp removed
      have listed : ∀ other, other = page ∨ other ∈ rest → PageConfined dir other := by
        intro other member
        apply confining.listed
        rw [split]
        exact List.mem_cons.mpr member
      refine ⟨fun other member => listed other (Or.inr member), fun other held isHeld => ?_⟩
      by_cases moved : other = thread
      · subst other
        apply listed
        simpa [CrawlPoint.page, eq_comm] using Or.inl isHeld
      · apply confining.taken other held
        simpa [Function.update_of_ne moved] using isHeld
  | @add thread page link scan next point here _ _ signal =>
      constructor
      · intro other member
        rcases mem_listAdd.mp member with rfl | old
        · exact confined
        · exact confining.listed other old
      · intro other held isHeld
        rw [page_signal signal other] at isHeld
        exact confining.move (by simp [here, CrawlPoint.page]) other held isHeld
  | search => exact ⟨confining.listed, confining.taken⟩
  | sleep here | wake here | receive here | refuse here | skip here
  | known here | leave here | signOff here =>
      exact ⟨confining.listed, confining.move (by simp [here, CrawlPoint.page])⟩

/-- A crawl that takes up only confined names writes only inside the directory. -/
theorem pages_saved_inside {directories : List CString}
    (made : mkdirs dir = .returns (saveDir, directories))
    (start : PageConfined dir startingURL) {events : List (CrawlEvent threads)}
    {state : CrawlState threads} (run : ConfinedRun dir serves startingURL events state)
    {thread : Fin threads} {page : CString} {scan : LinkScan}
    (processing : state.point thread = .processing page scan) :
    SavesInside dir saveDir page := by
  have confining : Confining dir state :=
    run.invariant (Confining dir) (confining_initial start)
      fun _ _ _ held stepTo => held.step stepTo.1 stepTo.2
  exact (savesInside_iff made).mpr
    (confining.taken thread page (by rw [processing]; rfl))

/-- A run that fetches its starting URL. -/
theorem run_startingURL {step : CrawlState 1 → CrawlEvent 1 → CrawlState 1 → Prop}
    {startingURL : CString}
    (includes : ∀ {state event after},
      Step (fun _ answer => answer = selfLinkAnswer) state event after →
      (∀ thread link, event ≠ .add thread link) → step state event after) :
    ∃ events state scan, LabelledRun.Run step (initial 1 startingURL) events state ∧
      state.point 0 = .processing startingURL scan := by
  have taken := (@LabelledRun.Run.start _ _ step (initial 1 startingURL)).next (includes
    (Step.take rfl rfl rfl : Step (fun _ answer => answer = selfLinkAnswer)
      (initial 1 startingURL) (.get 0 startingURL) _) (by simp))
  have received := taken.next (includes
    (@Step.receive _ _ _ 0 startingURL _ rfl rfl rfl) (by simp))
  exact ⟨_, _, _, received, rfl⟩

def savedArgument : CString :=
  ⟨"saved/".toList, by decide⟩

theorem mkdirs_savedArgument : mkdirs savedArgument = .returns (cutSlash savedArgument, []) := by
  decide

theorem pages_saved_inside_self_link :
    ∃ events state scan,
      ConfinedRun savedArgument (fun _ answer => answer = selfLinkAnswer) selfLink events
        state ∧
      (state : CrawlState 1).point 0 = .processing selfLink scan ∧
      SavesInside savedArgument (cutSlash savedArgument) selfLink := by
  obtain ⟨events, state, scan, run, processing⟩ := @run_startingURL
    (fun state event after => LinkConfined savedArgument event ∧
      Step (fun _ answer => answer = selfLinkAnswer) state event after) selfLink
    (fun stepTo notAdd => ⟨linkConfined_of_not_add notAdd, stepTo⟩)
  exact ⟨events, state, scan, run, processing,
    pages_saved_inside mkdirs_savedArgument (by decide) run processing⟩

def parentPage : CString :=
  ⟨"/../page".toList, by decide⟩

/-- A page with a parent component is saved beside the directory, and so is a
page without a slash in front. -/
theorem pages_saved_outside :
    mkdirs savedArgument = .returns (cutSlash savedArgument, []) ∧
    ∀ page ∈ [parentPage, indexPage], ∃ events state scan,
      Run (fun _ answer => answer = selfLinkAnswer) page events state ∧
      (state : CrawlState 1).point 0 = .processing page scan ∧
      ¬ SavesInside savedArgument (cutSlash savedArgument) page := by
  refine ⟨mkdirs_savedArgument, fun page member => ?_⟩
  obtain ⟨events, state, scan, run, processing⟩ := @run_startingURL
    (Step fun _ answer => answer = selfLinkAnswer) page (fun stepTo _ => stepTo)
  refine ⟨events, state, scan, run, processing, ?_⟩
  rw [savesInside_iff mkdirs_savedArgument]
  clear processing run
  revert page
  decide

end CrawlState

end WebCrawl
