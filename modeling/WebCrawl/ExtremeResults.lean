import WebCrawl.CountResults

/-!
# The largest and the smallest result

`maxFinder` and `minFinder` scan the results with a comparison that is not
strict in the one and strict in the other, and exchange what the head and the
selected node hold.  Nothing else in the list changes.
-/

namespace WebCrawl

open ScanSelection

/-- What the head and the node at a place hold was exchanged, and nothing else
has changed. -/
structure Exchanged (place : Nat) (before after : List CountResult) : Prop where
  length : after.length = before.length
  perm : after.Perm before
  head : after[0]? = before[place]?
  exchanged : after[place]? = before[0]?
  others : ∀ other, other ≠ 0 → other ≠ place → after[other]? = before[other]?

/-- The test of a finder on the nodes of the list. -/
def Replaces (replaces : Int → Int → Bool) (candidate next : CountResult) : Prop :=
  replaces candidate.wordFrq next.wordFrq = true

section Selecting

variable {replaces : Int → Int → Bool}

theorem finderLoop_selects (consistent : Consistent (Replaces replaces))
    (next : List CountResult) {before after : List CountResult} {node : CountResult}
    {flag place : Nat} (selected : Selected (Replaces replaces) before node after)
    (placed : place = (before ++ node :: after).length)
    (flagged : flag = if before = [] then 0 else 1) :
    ∃ front best back, before ++ node :: after ++ next = front ++ best :: back ∧
      Selected (Replaces replaces) front best back ∧
      finderLoop replaces ⟨before.length, node⟩ flag place next =
        (⟨front.length, best⟩, if front = [] then 0 else 1) := by
  induction next generalizing before after node flag place with
  | nil => exact ⟨before, node, after, by simp, selected, by rw [finderLoop, flagged]⟩
  | cons current next ih =>
      by_cases better : replaces node.wordFrq current.wordFrq = true
      · have further : place + 1 = ((before ++ node :: after) ++ current :: []).length := by
          rw [List.length_append, placed]
          rfl
        have newFlag : 1 = if before ++ node :: after = [] then 0 else 1 := by simp
        obtain ⟨front, best, back, split, chosen, loop⟩ :=
          ih (selected.replace consistent better) further newFlag
        refine ⟨front, best, back, by simpa using split, chosen, ?_⟩
        rw [finderLoop, if_pos better, placed, ← loop, placed]
      · have further : place + 1 = (before ++ node :: (after ++ [current])).length := by
          simp only [placed, List.length_append, List.length_cons, List.length_nil]
          omega
        obtain ⟨front, best, back, split, chosen, loop⟩ :=
          ih (selected.keep better) further flagged
        refine ⟨front, best, back, by simpa using split, chosen, ?_⟩
        rw [finderLoop, if_neg better, loop]

theorem finder_selects (consistent : Consistent (Replaces replaces))
    (cRes : CountResult) (next : List CountResult) :
    ∃ front best back, cRes :: next = front ++ best :: back ∧
      Selected (Replaces replaces) front best back ∧
      finder replaces (cRes :: next) =
        ((cRes :: next).set 0 best).set front.length cRes := by
  obtain ⟨front, best, back, split, selected, loop⟩ :=
    finderLoop_selects consistent next (.start cRes) rfl rfl
  refine ⟨front, best, back, split, selected, ?_⟩
  have loop' : finderLoop replaces ⟨0, cRes⟩ 0 1 next =
      (⟨front.length, best⟩, if front = [] then 0 else 1) := loop
  rw [finder, loop']
  by_cases headBest : front = []
  · subst front
    obtain ⟨rfl, rfl⟩ := List.cons.inj split
    simp
  · simp [headBest]

theorem exchanged_set {cRes best : CountResult} {next front back : List CountResult}
    (split : cRes :: next = front ++ best :: back) :
    Exchanged front.length (cRes :: next)
      (((cRes :: next).set 0 best).set front.length cRes) := by
  have inside : front.length < (cRes :: next).length := by
    rw [split, List.length_append, List.length_cons]
    omega
  have bestAt : (cRes :: next)[front.length]? = some best := by
    rw [split]
    simp
  have best_eq : (cRes :: next)[front.length] = best := by
    rw [List.getElem?_eq_getElem inside] at bestAt
    exact Option.some.inj bestAt
  refine ⟨by simp, ?_, ?_, ?_, ?_⟩
  · have exchange := @List.set_set_perm _ (cRes :: next) 0 front.length (by simp) inside
    rwa [best_eq] at exchange
  · rw [bestAt]
    cases front with
    | nil =>
        obtain ⟨rfl, rfl⟩ := List.cons.inj split
        rfl
    | cons first front => rfl
  · rw [List.getElem?_set_self (by simpa using inside)]
    rfl
  · intro other notHead notPlace
    rw [List.getElem?_set_ne (Ne.symm notPlace), List.getElem?_set_ne (Ne.symm notHead)]

/-- A finder exchanges the head with the node that its scan selects. -/
theorem finder_exchanges (consistent : Consistent (Replaces replaces))
    (cRes : CountResult) (next : List CountResult) :
    ∃ place best, (cRes :: next)[place]? = some best ∧
      Exchanged place (cRes :: next) (finder replaces (cRes :: next)) ∧
      (∀ node ∈ finder replaces (cRes :: next), node = best ∨
        Replaces replaces node best ∨ ¬ Replaces replaces best node) ∧
      (∀ later node, place < later → (cRes :: next)[later]? = some node →
        ¬ Replaces replaces best node) ∧
      ∀ earlier node, earlier < place → (cRes :: next)[earlier]? = some node →
        Replaces replaces node best := by
  obtain ⟨front, best, back, split, selected, found⟩ :=
    finder_selects consistent cRes next
  have exchanged := exchanged_set split
  rw [← found] at exchanged
  refine ⟨front.length, best, by simp [split], exchanged, ?_, ?_, ?_⟩
  · intro node member
    exact selected.mem_cases (split ▸ exchanged.perm.mem_iff.mp member)
  · intro later node behind here
    exact selected.later_place behind (split ▸ here)
  · intro earlier node inFront here
    exact selected.earlier_place inFront (split ▸ here)

theorem consistent_le : Consistent (Replaces fun largest next => largest ≤ next) where
  trans := by
    simp only [Replaces, decide_eq_true_eq]
    omega
  rejected := by
    simp only [Replaces, decide_eq_true_eq]
    omega

theorem consistent_gt : Consistent (Replaces fun smallest next => smallest > next) where
  trans := by
    simp only [Replaces, decide_eq_true_eq]
    omega
  rejected := by
    simp only [Replaces, decide_eq_true_eq]
    omega

end Selecting

/-- Both finders exchange the head with one node and return `NULL` only for an
empty list.  `maxFinder` puts the last of the largest results at the head,
`minFinder` the first of the smallest. -/
theorem finders_select :
    maxFinder [] = [] ∧ minFinder [] = [] ∧
    ∀ (cRes : CountResult) (next : List CountResult),
      (∃ place largest, (cRes :: next)[place]? = some largest ∧
        Exchanged place (cRes :: next) (maxFinder (cRes :: next)) ∧
        (∀ node ∈ maxFinder (cRes :: next), node.wordFrq ≤ largest.wordFrq) ∧
        ∀ later node, place < later → (cRes :: next)[later]? = some node →
          node.wordFrq < largest.wordFrq) ∧
      (∃ place smallest, (cRes :: next)[place]? = some smallest ∧
        Exchanged place (cRes :: next) (minFinder (cRes :: next)) ∧
        (∀ node ∈ minFinder (cRes :: next), smallest.wordFrq ≤ node.wordFrq) ∧
        ∀ earlier node, earlier < place → (cRes :: next)[earlier]? = some node →
          smallest.wordFrq < node.wordFrq) := by
  refine ⟨rfl, rfl, fun cRes next => ⟨?_, ?_⟩⟩
  · obtain ⟨place, largest, here, exchanged, extreme, later, _⟩ :=
      finder_exchanges consistent_le cRes next
    refine ⟨place, largest, here, exchanged, fun node member => ?_,
      fun other node behind there => ?_⟩
    · rcases extreme node member with rfl | smaller | rejected
      · exact le_refl _
      · simpa [Replaces] using smaller
      · exact le_of_lt (by simpa [Replaces] using rejected)
    · simpa [Replaces] using later other node behind there
  · obtain ⟨place, smallest, here, exchanged, extreme, _, earlier⟩ :=
      finder_exchanges consistent_gt cRes next
    refine ⟨place, smallest, here, exchanged, fun node member => ?_,
      fun other node inFront there => ?_⟩
    · rcases extreme node member with rfl | larger | rejected
      · exact le_refl _
      · exact le_of_lt (by simpa [Replaces] using larger)
      · simpa [Replaces] using rejected
    · simpa [Replaces] using earlier other node inFront there

end WebCrawl
