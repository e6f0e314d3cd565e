import WebCrawl.CrawlThreads

/-!
# No page is crawled twice and none is dropped

The two lists together hold every URL that `list_add` ever accepted, each once:
a link is added only after it was looked up in both lists inside the same
critical section, and a page moves from one list to the other inside one.
-/

namespace WebCrawl

namespace CrawlState

variable {threads : Nat}

/-- The URLs that `list_add` accepted into `pagesToAdd`, with the one that
`main` adds. -/
def acceptedURLs (startingURL : CString) :
    List (CrawlEvent threads) → List CString
  | [] => [startingURL]
  | .add _ link :: events => link :: acceptedURLs startingURL events
  | _ :: events => acceptedURLs startingURL events

def getCalls : List (CrawlEvent threads) → List CString
  | [] => []
  | .get _ page :: events => page :: getCalls events
  | _ :: events => getCalls events

@[simp]
theorem getCalls_append (events more : List (CrawlEvent threads)) :
    getCalls (events ++ more) = getCalls events ++ getCalls more := by
  induction events with
  | nil => rfl
  | cons event events ih => cases event <;> simp [getCalls, ih]

theorem acceptedURLs_append_add (startingURL link : CString)
    (events : List (CrawlEvent threads)) (thread : Fin threads) :
    (acceptedURLs startingURL (events ++ [.add thread link])).Perm
      (link :: acceptedURLs startingURL events) := by
  induction events with
  | nil => exact List.Perm.refl _
  | cons event events ih =>
      cases event with
      | add _ other => exact (ih.cons other).trans (List.Perm.swap ..)
      | _ => exact ih

theorem acceptedURLs_append_other (startingURL : CString)
    (events : List (CrawlEvent threads)) {event : CrawlEvent threads}
    (notAdd : ∀ thread link, event ≠ .add thread link) :
    acceptedURLs startingURL (events ++ [event]) =
      acceptedURLs startingURL events := by
  induction events with
  | nil =>
      cases event with
      | add thread link => exact absurd rfl (notAdd thread link)
      | _ => rfl
  | cons first events ih => cases first <;> simp [acceptedURLs, ih]

/-- The two lists are duplicate free, hold exactly the accepted URLs, and the
pages taken so far are the ones that `get` was called on. -/
structure ListsExact (startingURL : CString)
    (events : List (CrawlEvent threads)) (state : CrawlState threads) :
    Prop where
  nodup : (state.pagesToAdd ++ state.pagesAdded).Nodup
  accepted : (state.pagesToAdd ++ state.pagesAdded).Perm
    (acceptedURLs startingURL events)
  taken : state.pagesAdded = (getCalls events).reverse

variable {serves : CString → Answer → Prop} {startingURL : CString}

theorem listsExact_initial :
    ListsExact startingURL [] (initial threads startingURL) where
  nodup := by simp [initial, listAdd]
  accepted := List.Perm.refl _
  taken := rfl

theorem listsExact_step {events : List (CrawlEvent threads)}
    {state after : CrawlState threads} {event : CrawlEvent threads}
    (exactly : ListsExact startingURL events state)
    (stepTo : Step serves state event after) :
    ListsExact startingURL (events ++ [event]) after := by
  obtain ⟨nodup, accepted, taken⟩ := exactly
  cases stepTo with
  | @take _ page rest _ _ removed =>
      rw [listRem_eq_some] at removed
      rw [removed] at nodup accepted
      have moved : (rest ++ listAdd state.pagesAdded page).Perm
          (page :: rest ++ state.pagesAdded) := List.perm_middle
      exact
        { nodup := moved.nodup_iff.mpr nodup
          accepted := by
            rw [acceptedURLs_append_other _ _ (by simp)]
            exact moved.trans accepted
          taken := by simp [getCalls, listAdd, taken] }
  | @add _ _ link _ _ point _ _ unknown =>
      have fresh : link ∉ state.pagesToAdd ++ state.pagesAdded := by
        simpa [and_comm] using unknown
      exact
        { nodup := List.nodup_cons.mpr ⟨fresh, nodup⟩
          accepted :=
            (accepted.cons link).trans (acceptedURLs_append_add ..).symm
          taken := by simpa [getCalls] using taken }
  | _ =>
      exact
        { nodup := nodup
          accepted := by
            rw [acceptedURLs_append_other _ _ (by simp)]
            exact accepted
          taken := by simpa [getCalls] using taken }

theorem lists_nodup {events : List (CrawlEvent threads)} {state : CrawlState threads}
    (run : Run serves startingURL events state) :
    (state.pagesToAdd ++ state.pagesAdded).Nodup :=
  (run.history_invariant (ListsExact startingURL) listsExact_initial
    fun _ _ _ _ => listsExact_step).nodup

/-- In every reachable state the URLs in the two lists are pairwise different,
every URL that `list_add` ever accepted is in exactly one of them, and `get`
was called at most once on each page. -/
theorem pages_crawled_once {events : List (CrawlEvent threads)}
    {state : CrawlState threads}
    (run : Run serves startingURL events state) :
    (state.pagesToAdd ++ state.pagesAdded).Nodup ∧
    (∀ url ∈ acceptedURLs startingURL events,
      Xor (url ∈ state.pagesToAdd) (url ∈ state.pagesAdded)) ∧
    (getCalls events).Nodup := by
  have exactly := run.history_invariant (ListsExact startingURL)
    listsExact_initial fun _ _ _ _ => listsExact_step
  obtain ⟨nodup, accepted, taken⟩ := exactly
  refine ⟨nodup, ?_, ?_⟩
  · intro url urlAccepted
    have disjoint := (List.nodup_append.mp nodup).2.2
    rcases List.mem_append.mp (accepted.mem_iff.mpr urlAccepted) with toAdd | added
    · exact Or.inl ⟨toAdd, fun added => disjoint url toAdd url added rfl⟩
    · exact Or.inr ⟨added, fun toAdd => disjoint url toAdd url added rfl⟩
  · have addedNodup := (List.nodup_append.mp nodup).2.1
    rw [taken] at addedNodup
    exact List.nodup_reverse.mp addedNodup

/-- A page whose only link is a link to itself. -/
def selfLink : CString :=
  ⟨"/a".toList, by decide⟩

def selfLinkAnswer : Answer :=
  ⟨200, ⟨"<a href=\"/a\">\n".toList, by decide⟩⟩

def selfLinkCrawled : CrawlState 1 :=
  { initial 1 selfLink with pagesToAdd := [], pagesAdded := [selfLink] }

theorem selfLink_run :
    Run (fun _ answer => answer = selfLinkAnswer) selfLink
      [.get 0 selfLink, .internal, .internal, .internal, .signOff 0 selfLink]
      selfLinkCrawled := by
  have taken := LabelledRun.Run.start.next
    (Step.take rfl rfl rfl : Step (fun _ answer => answer = selfLinkAnswer)
      (initial 1 selfLink) (.get 0 selfLink) _)
  have received := taken.next (@Step.receive _ _ _ 0 selfLink _ rfl rfl rfl)
  have looked := received.next (@Step.known _ _ _ 0 selfLink selfLink _ _ rfl rfl rfl)
  have left := looked.next (@Step.leave _ _ _ 0 selfLink _ rfl rfl)
  convert left.next (@Step.signOff _ _ _ 0 selfLink rfl) using 1
  · rfl
  · refine CrawlState.ext rfl rfl rfl rfl (funext fun thread => ?_)
    rw [Subsingleton.elim thread 0]
    rfl

theorem pages_crawled_once_self_link :
    (∀ url ∈ [selfLink], Xor (url ∈ ([] : PageList)) (url ∈ [selfLink])) ∧
    [selfLink].Nodup :=
  (pages_crawled_once selfLink_run).2

end CrawlState

end WebCrawl
