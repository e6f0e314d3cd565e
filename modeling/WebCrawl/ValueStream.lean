import WebCrawl.Outcome
import Mathlib.Data.Finset.Card

/-!
# Drawing values until one is accepted

A stream of values that are read one after the other, from a place on.  Reading
until a value is accepted ends at the first one that is, and runs for ever when
there is none.  In a stream in which each value recurs, it is enough that some
value is accepted.  When only new values are, the place that is reached is the
first one before which so many different values occur.
-/

namespace ValueStream

universe u

variable {α : Type u}

/-- The first value from a place on that is accepted, and the place behind it. -/
def drawUntil (values : Nat → α) (accept : α → Bool) : Nat → Nat → Outcome (α × Nat)
  | 0, _ => .unfinished
  | fuel + 1, place =>
      if accept (values place) then .returns (values place, place + 1)
      else drawUntil values accept fuel (place + 1)

/-- Each value occurs behind every place. -/
def Recurs (values : Nat → α) : Prop :=
  ∀ (value : α) (place : Nat), ∃ later, place ≤ later ∧ values later = value

variable {values : Nat → α} {accept : α → Bool} {place : Nat}

/-- What a drawn value is: the first that is accepted. -/
structure DrawnAt (values : Nat → α) (accept : α → Bool) (place : Nat) (value : α)
    (next : Nat) : Prop where
  behind : place < next
  last : values (next - 1) = value
  accepted : accept value = true
  rejected : ∀ earlier, place ≤ earlier → earlier < next - 1 → accept (values earlier) = false

theorem drawUntil_returns {fuel next : Nat} {value : α}
    (drawn : drawUntil values accept fuel place = .returns (value, next)) :
    DrawnAt values accept place value next := by
  induction fuel generalizing place with
  | zero => cases drawn
  | succ fuel ih =>
      rw [drawUntil] at drawn
      split at drawn
      next accepted =>
        cases drawn
        exact ⟨Nat.lt_succ_self place, rfl, accepted, by omega⟩
      next rejects =>
        have later := ih drawn
        refine ⟨Nat.lt_of_succ_lt later.behind, later.last, later.accepted, ?_⟩
        intro earlier atLeast before
        by_cases here : earlier = place
        · rw [here]
          exact Bool.eq_false_iff.mpr rejects
        · exact later.rejected earlier (by omega) before

theorem drawUntil_cases (fuel place : Nat) :
    drawUntil values accept fuel place = .unfinished ∨
      ∃ value next, drawUntil values accept fuel place = .returns (value, next) := by
  induction fuel generalizing place with
  | zero => exact Or.inl rfl
  | succ fuel ih =>
      rw [drawUntil]
      split
      · exact Or.inr ⟨_, _, rfl⟩
      · exact ih (place + 1)

theorem drawUntil_endless (rejects : ∀ later, place ≤ later → accept (values later) = false)
    (fuel : Nat) : drawUntil values accept fuel place = .unfinished := by
  rcases @drawUntil_cases α values accept fuel place with unfinished | ⟨value, next, drawn⟩
  · exact unfinished
  · obtain ⟨behind, last, accepted, _⟩ := drawUntil_returns drawn
    rw [← last, rejects (next - 1) (by omega)] at accepted
    cases accepted

theorem drawUntil_settles {later : Nat} (atLeast : place ≤ later)
    (accepted : accept (values later) = true) :
    ∃ value next, Outcome.Settles (drawUntil values accept · place)
      (.returns (value, next)) := by
  induction distance : later - place generalizing place with
  | zero =>
      have here : later = place := by omega
      subst here
      exact ⟨values later, later + 1, .of_round rfl fun fuel => if_pos accepted⟩
  | succ distance ih =>
      by_cases first : accept (values place) = true
      · exact ⟨values place, place + 1, .of_round rfl fun fuel => if_pos first⟩
      · obtain ⟨value, next, settles⟩ := @ih (place + 1) (by omega) (by omega)
        exact ⟨value, next, .of_succ rfl (settles.congr fun fuel => if_neg first)⟩

/-- In a stream in which each value recurs, drawing ends when a value is accepted. -/
theorem Recurs.drawUntil_completes (recurs : Recurs values) {value : α}
    (accepted : accept value = true) (place : Nat) :
    Outcome.Completes (drawUntil values accept · place) := by
  obtain ⟨later, atLeast, occurs⟩ := recurs value place
  rw [← occurs] at accepted
  obtain ⟨drawn, next, settles⟩ := drawUntil_settles atLeast accepted
  exact ⟨(drawn, next), settles⟩

section Distinct

variable [DecidableEq α] {count : Nat}

/-- The values that occur before a place. -/
def drawnBefore (values : Nat → α) (place : Nat) : Finset α :=
  (Finset.range place).image values

theorem mem_drawnBefore {value : α} :
    value ∈ drawnBefore values place ↔ ∃ earlier, earlier < place ∧ values earlier = value := by
  simp [drawnBefore]

theorem drawnBefore_mono {later : Nat} (within : place ≤ later) :
    drawnBefore values place ⊆ drawnBefore values later :=
  Finset.image_subset_image (Finset.range_subset_range.mpr within)

/-- The first place before which so many different values occur. -/
structure FirstDistinct (values : Nat → α) (count place : Nat) : Prop where
  reached : (drawnBefore values place).card = count
  first : ∀ earlier, earlier < place → (drawnBefore values earlier).card < count

theorem FirstDistinct.zero (values : Nat → α) : FirstDistinct values 0 0 :=
  ⟨rfl, by omega⟩

theorem FirstDistinct.unique {later : Nat} (first : FirstDistinct values count place)
    (second : FirstDistinct values count later) : place = later := by
  by_contra differ
  rcases Nat.lt_or_gt_of_ne differ with before | behind
  · exact absurd first.reached (second.first place before).ne
  · exact absurd second.reached (first.first later behind).ne

/-- Drawing a value that did not occur before leads to one value more. -/
theorem FirstDistinct.draw {value : α} {next : Nat} (first : FirstDistinct values count place)
    (isNew : ∀ value, accept value = true ↔ value ∉ drawnBefore values place)
    (drawn : DrawnAt values accept place value next) :
    drawnBefore values next = insert value (drawnBefore values place) ∧
      FirstDistinct values (count + 1) next := by
  obtain ⟨behind, last, accepted, rejected⟩ := drawn
  have old : ∀ earlier, earlier < next - 1 → values earlier ∈ drawnBefore values place := by
    intro earlier before
    by_cases within : earlier < place
    · exact mem_drawnBefore.mpr ⟨earlier, within, rfl⟩
    · by_contra unseen
      rw [← isNew, rejected earlier (by omega) before] at unseen
      cases unseen
  have all : drawnBefore values next = insert value (drawnBefore values place) := by
    apply Finset.Subset.antisymm
    · intro other member
      obtain ⟨earlier, before, rfl⟩ := mem_drawnBefore.mp member
      by_cases isLast : earlier = next - 1
      · rw [isLast, last]
        exact Finset.mem_insert_self _ _
      · exact Finset.mem_insert_of_mem (old earlier (by omega))
    · rw [Finset.insert_subset_iff]
      exact ⟨mem_drawnBefore.mpr ⟨next - 1, by omega, last⟩, drawnBefore_mono behind.le⟩
  refine ⟨all, ?_, ?_⟩
  · rw [all, Finset.card_insert_of_notMem ((isNew value).mp accepted), first.reached]
  · intro earlier before
    have inside : drawnBefore values earlier ⊆ drawnBefore values place := by
      intro other member
      obtain ⟨index, within, rfl⟩ := mem_drawnBefore.mp member
      exact old index (by omega)
    have atMost := Finset.card_le_card inside
    rw [first.reached] at atMost
    omega

end Distinct

end ValueStream
