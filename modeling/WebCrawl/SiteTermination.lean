import WebCrawl.LinkQuota
import Mathlib.Data.Fintype.Card

/-!
# Whether the creation of web sites ends

Names are drawn until one is new, and sites until another one is found.  The
first ends as long as a site has no more pages than there are values of
`RANDOM`, and the second when there are two sites.  With one site alone, the
script runs for ever as soon as a page has more links than internal ones.
-/

namespace WebCrawl

open ValueStream (drawUntil Recurs FirstDistinct drawnBefore)

section Numbers

variable {keys : List (Nat × Nat)} {sites : Sites}

/-- The numbers in the names of the pages of a site. -/
def siteNumbers (sites : Sites) (i : Nat) : List (Fin 32768) :=
  (sites.pages.filter (·.site = i)).map SitePage.number

theorem unused_iff {i : Nat} {number : Fin 32768} :
    (SitePage.mk i number).path ∉ sites.pages.map SitePage.path ↔
      SitePage.mk i number ∉ sites.pages :=
  not_congr (List.mem_map_of_injective SitePage.path_injective)

theorem mem_siteNumbers {i : Nat} {number : Fin 32768} :
    number ∈ siteNumbers sites i ↔ SitePage.mk i number ∈ sites.pages := by
  simp only [siteNumbers, List.mem_map, List.mem_filter, decide_eq_true_eq]
  constructor
  · rintro ⟨page, ⟨isPage, rfl⟩, rfl⟩
    exact isPage
  · intro isPage
    exact ⟨⟨i, number⟩, ⟨isPage, rfl⟩, rfl⟩

theorem SitesNamed.siteNumbers_nodup (named : SitesNamed keys sites) (i : Nat) :
    (siteNumbers sites i).Nodup := by
  have pagesNodup : (sites.pages.filter (·.site = i)).Nodup :=
    named.pathsNodup.of_map.filter _
  apply pagesNodup.map_on
  rintro ⟨site, number⟩ first ⟨otherSite, otherNumber⟩ second sameNumber
  have sameSite : site = i := by simpa using (List.mem_filter.mp first).2
  have sameOther : otherSite = i := by simpa using (List.mem_filter.mp second).2
  rw [sameSite, sameOther, show number = otherNumber from sameNumber]

theorem SitesNamed.length_siteNumbers (named : SitesNamed keys sites) (i : Nat) :
    (siteNumbers sites i).length = keys.countP (·.1 = i) := by
  rw [siteNumbers, List.length_map, ← List.countP_eq_length_filter, ← named.sameKeys,
    Sites.pages, List.countP_map, List.countP_map]
  apply List.countP_congr
  intro entry isEntry
  simp [named.sameSite entry isEntry]

theorem SitesNamed.count_le (named : SitesNamed keys sites) (i : Nat) :
    keys.countP (·.1 = i) ≤ 32768 := by
  have length := (named.siteNumbers_nodup i).length_le_card
  rwa [named.length_siteNumbers, Fintype.card_fin] at length

/-- A site with fewer pages than there are numbers can have one more. -/
theorem SitesNamed.exists_unused (named : SitesNamed keys sites) {i : Nat}
    (few : keys.countP (·.1 = i) < 32768) :
    ∃ number, (SitePage.mk i number).path ∉ sites.pages.map SitePage.path := by
  have used : (siteNumbers sites i).toFinset.card < (Finset.univ : Finset (Fin 32768)).card := by
    rw [Finset.card_univ, Fintype.card_fin]
    have atMost := (siteNumbers sites i).toFinset_card_le
    rw [named.length_siteNumbers] at atMost
    omega
  obtain ⟨number, _, unused⟩ := Finset.exists_mem_notMem_of_card_lt_card used
  rw [List.mem_toFinset, mem_siteNumbers] at unused
  exact ⟨number, unused_iff.mpr unused⟩

theorem allKeys_succ (w p : Nat) :
    allKeys (w + 1) p = allKeys w p ++ (List.range p).map fun j => (w, j) := by
  simp [allKeys, List.range_succ, List.flatMap_append]

theorem countP_allKeys (w p i : Nat) :
    (allKeys w p).countP (·.1 = i) = if i < w then p else 0 := by
  induction w with
  | zero => rfl
  | succ w ih =>
      rw [allKeys_succ, List.countP_append, ih, List.countP_map]
      by_cases last : w = i
      · simp [Function.comp_def, last]
      · have same : i < w + 1 ↔ i < w := by omega
        simp [Function.comp_def, last, same]

end Numbers

namespace CreatorEnv

variable {env : CreatorEnv} {sites : Sites}

section Naming

theorem nameSites_completes (recurs : Recurs env.random) {done keys : List (Nat × Nat)}
    (before : SitesNamed done sites)
    (fits : ∀ i, (done ++ keys).countP (·.1 = i) ≤ 32768) (place : Nat) :
    Outcome.Completes (env.nameSites · keys sites place) := by
  induction keys generalizing done sites place with
  | nil => exact .const (sites, place)
  | cons key keys ih =>
      have few : done.countP (·.1 = key.1) < 32768 := by
        have fitsKey := fits key.1
        simp only [List.countP_append, List.countP_cons, decide_true, ↓reduceIte] at fitsKey
        omega
      obtain ⟨number, unused⟩ := before.exists_unused few
      have draws := @Recurs.drawUntil_completes _ _ (fun number =>
        (SitePage.mk key.1 number).path ∉ sites.pages.map SitePage.path) recurs number
        (decide_eq_true unused) place
      refine (draws.bind ?_).congr fun fuel => by rw [nameSites]
      rintro ⟨number, next⟩ ⟨fuel, drawn⟩
      have isNew := (ValueStream.drawUntil_returns drawn).accepted
      apply ih (before.add (of_decide_eq_true isNew))
      simpa using fits

/-- More pages of a site than there are numbers cannot be named. -/
theorem nameSites_endless (site : 1 ≤ env.w) (many : 32768 < env.p) (fuel : Nat) :
    env.nameSites fuel (allKeys env.w env.p) [] 0 = .unfinished := by
  rcases env.nameSites_cases fuel (allKeys env.w env.p) [] 0 with endless | ⟨result, named⟩
  · exact endless
  · have atMost := (nameSites_named .nil named).count_le 0
    rw [List.nil_append, countP_allKeys, if_pos (by omega)] at atMost
    omega

end Naming

theorem get_of_key (named : SitesNamed (allKeys env.w env.p) sites) {i j : Nat}
    (site : i < env.w) (page : j < env.p) : ∃ target, sites.get (i, j) = .returns target := by
  apply Sites.get_of_mem
  rw [named.sameKeys, mem_allKeys]
  exact ⟨site, page⟩

section Several

variable {i : Nat}

theorem exists_otherSite (several : 2 ≤ env.w) (i : Nat) :
    ∃ draw : Fin 32768, draw.val % env.w ≠ i := by
  by_cases first : i = 0
  · refine ⟨1, ?_⟩
    have one : (1 : Fin 32768).val % env.w = 1 := Nat.mod_eq_of_lt several
    omega
  · refine ⟨0, ?_⟩
    have zero : (0 : Fin 32768).val % env.w = 0 := Nat.zero_mod env.w
    omega

theorem addLink_completes (recurs : Recurs env.random) (several : 2 ≤ env.w)
    (page : 1 ≤ env.p) (named : SitesNamed (allKeys env.w env.p) sites) (own : i < env.w)
    (f place : Nat) : Outcome.Completes (env.addLink · sites i f place) := by
  have inRange : ∀ place, (env.random place).val % env.p < env.p :=
    fun place => Nat.mod_lt _ page
  by_cases remain : f ≠ 0
  · obtain ⟨target, found⟩ := get_of_key named own (inRange place)
    apply Outcome.Completes.of_eq
    intro fuel
    rw [addLink, if_pos remain, found]
    rfl
  · obtain ⟨draw, otherSite⟩ := exists_otherSite several i
    have draws := @Recurs.drawUntil_completes _ _ (fun draw => draw.val % env.w ≠ i) recurs
      draw (decide_eq_true otherSite) place
    refine (draws.bind ?_).congr fun fuel => by rw [addLink, if_neg remain]
    rintro ⟨draw, next⟩ _
    have site : draw.val % env.w < env.w := Nat.mod_lt _ (by omega)
    obtain ⟨target, found⟩ := get_of_key named site (inRange next)
    apply Outcome.Completes.of_eq
    intro fuel
    dsimp only
    rw [found]
    rfl

theorem addLinks_completes (recurs : Recurs env.random) (several : 2 ≤ env.w)
    (page : 1 ≤ env.p) (named : SitesNamed (allKeys env.w env.p) sites) (own : i < env.w)
    (linkAfterLines : Nat) (lines : List (List Char)) (count f place : Nat) :
    Outcome.Completes (env.addLinks · sites i linkAfterLines lines count f place) := by
  induction lines generalizing count f place with
  | nil => exact .const ([], place)
  | cons line lines ih =>
      by_cases isLink : count = linkAfterLines
      · have link := addLink_completes recurs several page named own f place
        refine (link.bind ?_).congr fun fuel => by rw [addLinks, if_pos isLink]
        rintro ⟨link, left, next⟩ _
        refine Outcome.Completes.bind (ih 1 left next) ?_
        rintro ⟨links, last⟩ _
        exact .const (link :: links, last)
      · exact (ih (count + 1) f place).congr fun fuel => by rw [addLinks, if_neg isLink]

theorem writePages_completes (recurs : Recurs env.random) (several : 2 ≤ env.w)
    (page : 1 ≤ env.p) (named : SitesNamed (allKeys env.w env.p) sites)
    {keys : List (Nat × Nat)} (areKeys : ∀ key ∈ keys, key ∈ allKeys env.w env.p)
    (place : Nat) : Outcome.Completes (env.writePages · sites keys place) := by
  induction keys generalizing place with
  | nil => exact .const ([], place)
  | cons key keys ih =>
      obtain ⟨isKey, others⟩ := List.forall_mem_cons.mp areKeys
      rw [mem_allKeys] at isKey
      obtain ⟨target, found⟩ := get_of_key named isKey.1 isKey.2
      have single : Outcome.Completes (env.writePage · sites key place) := by
        have links := addLinks_completes recurs several page named isKey.1
          (env.linkAfterLines (env.lineCount (place + 1)))
          (env.lineWords (env.startLine place) (env.lineCount (place + 1))) 1
          env.internalLinks (place + 2)
        refine (links.bind ?_).congr fun fuel => by rw [writePage, found, Outcome.returns_bind]
        rintro ⟨links, next⟩ _
        exact .const (_, next)
      refine single.bind ?_
      rintro ⟨written, next⟩ _
      refine Outcome.Completes.bind (ih others next) ?_
      rintro ⟨pages, last⟩ _
      exact .const (written :: pages, last)

end Several

section Single

/-- The links of a page whose numbers are drawn at a place, when each of them
takes one value. -/
def pageLinks (env : CreatorEnv) (place : Nat) : Nat :=
  (env.lineWords (env.startLine place) (env.lineCount (place + 1))).length /
    env.linkAfterLines (env.lineCount (place + 1))

theorem linksDue_page (env : CreatorEnv) (place : Nat) :
    linksDue (env.linkAfterLines (env.lineCount (place + 1)))
      (env.lineWords (env.startLine place) (env.lineCount (place + 1))).length 1 =
        env.pageLinks place := by
  rw [linksDue, Nat.add_sub_cancel, pageLinks]

/-- No page of the only site has more links than internal ones. -/
def InternalOnly (env : CreatorEnv) : Nat → Nat → Prop
  | 0, _ => True
  | pages + 1, place =>
      env.pageLinks place ≤ env.internalLinks ∧
        InternalOnly env pages (place + 2 + env.pageLinks place)

instance InternalOnly.decidable : ∀ pages place, Decidable (env.InternalOnly pages place)
  | 0, _ => isTrue trivial
  | pages + 1, place =>
      have := InternalOnly.decidable pages (place + 2 + env.pageLinks place)
      inferInstanceAs (Decidable (env.pageLinks place ≤ env.internalLinks ∧
        env.InternalOnly pages (place + 2 + env.pageLinks place)))

variable (single : env.w = 1)

include single

theorem addLink_single (named : SitesNamed (allKeys env.w env.p) sites) (page : 1 ≤ env.p)
    (f place : Nat) :
    ∃ link, ∀ fuel, env.addLink fuel sites 0 (f + 1) place = .returns (link, f, place + 1) := by
  obtain ⟨target, found⟩ := get_of_key named (i := 0) (by omega)
    (Nat.mod_lt (env.random place).val page)
  refine ⟨.internal target, fun fuel => ?_⟩
  rw [addLink, if_pos f.succ_ne_zero, found]
  rfl

theorem addLink_single_endless (fuel place : Nat) :
    env.addLink fuel sites 0 0 place = .unfinished := by
  have noSite : ∀ later, place ≤ later →
      decide ((env.random later).val % env.w ≠ 0) = false := by
    intro later _
    rw [single, Nat.mod_one]
    rfl
  rw [addLink, if_neg (by simp), ValueStream.drawUntil_endless noSite fuel]
  rfl

/-- The internal links of a page take one value each; with one link more, the page
is never finished. -/
theorem addLinks_single (named : SitesNamed (allKeys env.w env.p) sites) (page : 1 ≤ env.p)
    {linkAfterLines count : Nat} {lines : List (List Char)}
    (counting : Counting linkAfterLines count) (f place : Nat) :
    ∃ links, ∀ fuel, env.addLinks fuel sites 0 linkAfterLines lines count f place =
      if linksDue linkAfterLines lines.length count ≤ f then
        .returns (links, place + linksDue linkAfterLines lines.length count)
      else .unfinished := by
  induction lines generalizing count f place with
  | nil =>
      refine ⟨[], fun fuel => ?_⟩
      rw [List.length_nil, counting.linksDue_zero, if_pos (Nat.zero_le f)]
      rfl
  | cons line lines ih =>
      rw [List.length_cons]
      by_cases isLink : count = linkAfterLines
      · subst isLink
        rw [counting.linksDue_link]
        cases f with
        | zero =>
            refine ⟨[], fun fuel => ?_⟩
            rw [addLinks, if_pos rfl, addLink_single_endless single, if_neg (by omega)]
            rfl
        | succ f =>
            obtain ⟨link, added⟩ := addLink_single single named page f place
            obtain ⟨links, more⟩ := ih .start f (place + 1)
            refine ⟨link :: links, fun fuel => ?_⟩
            rw [addLinks, if_pos rfl, added, Outcome.returns_bind]
            dsimp only
            rw [more, Nat.add_assoc, Nat.add_comm 1]
            simp only [Nat.add_le_add_iff_right]
            split <;> rfl
      · rw [linksDue_line]
        obtain ⟨links, more⟩ := ih (counting.next isLink) f place
        exact ⟨links, fun fuel => by rw [addLinks, if_neg isLink, more]⟩

theorem writePage_single (named : SitesNamed (allKeys env.w env.p) sites) {j : Nat}
    (within : j < env.p) (place : Nat) :
    ∃ written, ∀ fuel, env.writePage fuel sites (0, j) place =
      if env.pageLinks place ≤ env.internalLinks then
        .returns (written, place + 2 + env.pageLinks place)
      else .unfinished := by
  obtain ⟨target, found⟩ := get_of_key named (i := 0) (by omega) within
  obtain ⟨links, added⟩ := @addLinks_single env sites single named (by omega)
    (env.linkAfterLines (env.lineCount (place + 1))) 1
    (env.lineWords (env.startLine place) (env.lineCount (place + 1))) .start
    env.internalLinks (place + 2)
  rw [linksDue_page] at added
  refine ⟨⟨(0, j), target, env.startLine place, env.lineCount (place + 1), links⟩,
    fun fuel => ?_⟩
  rw [writePage, found, Outcome.returns_bind]
  dsimp only
  rw [added]
  split <;> rfl

theorem writePages_single (named : SitesNamed (allKeys env.w env.p) sites)
    {keys : List (Nat × Nat)} (areKeys : ∀ key ∈ keys, key ∈ allKeys env.w env.p)
    (place : Nat) :
    ∃ result, ∀ fuel, env.writePages fuel sites keys place =
      if env.InternalOnly keys.length place then .returns result else .unfinished := by
  induction keys generalizing place with
  | nil => exact ⟨([], place), fun fuel => (if_pos trivial).symm⟩
  | cons key keys ih =>
      obtain ⟨⟨i, j⟩, rfl⟩ : ∃ other, other = key := ⟨key, rfl⟩
      obtain ⟨isKey, others⟩ := List.forall_mem_cons.mp areKeys
      rw [mem_allKeys] at isKey
      have first : i = 0 := by omega
      subst first
      obtain ⟨written, one⟩ := writePage_single single named isKey.2 place
      obtain ⟨⟨pages, last⟩, more⟩ := ih others (place + 2 + env.pageLinks place)
      refine ⟨(written :: pages, last), fun fuel => ?_⟩
      rw [writePages, one, List.length_cons]
      by_cases internal : env.pageLinks place ≤ env.internalLinks
      · rw [if_pos internal, Outcome.returns_bind]
        dsimp only
        rw [more]
        simp only [InternalOnly, internal, true_and]
        split <;> rfl
      · rw [if_neg internal, if_neg fun both => internal both.1]
        rfl

end Single

/-- The place that naming the pages of one site reaches. -/
theorem nameSites_single {fuel place next : Nat} {keys : List (Nat × Nat)} {result : Sites}
    (oneSite : ∀ key ∈ keys, key.1 = 0)
    (used : ∀ number, SitePage.mk 0 number ∈ sites.pages ↔ number ∈ drawnBefore env.random place)
    (first : FirstDistinct env.random sites.length place)
    (named : env.nameSites fuel keys sites place = .returns (result, next)) :
    FirstDistinct env.random (sites.length + keys.length) next := by
  induction keys generalizing sites place with
  | nil =>
      cases named
      exact first
  | cons key keys ih =>
      obtain ⟨⟨i, j⟩, rfl⟩ : ∃ other, other = key := ⟨key, rfl⟩
      obtain ⟨isFirst, others⟩ := List.forall_mem_cons.mp oneSite
      have zero : i = 0 := isFirst
      subst zero
      obtain ⟨number, later, drawn, rest⟩ := nameSites_cons named
      have isNew : ∀ number, decide ((SitePage.mk 0 number).path ∉
          sites.pages.map SitePage.path) = true ↔ number ∉ drawnBefore env.random place := by
        intro number
        rw [decide_eq_true_eq, unused_iff, used]
      obtain ⟨all, reached⟩ := first.draw isNew (ValueStream.drawUntil_returns drawn)
      have longer : (sites ++ [((0, j), SitePage.mk 0 number)] : Sites).length =
          sites.length + 1 := List.length_append
      rw [← longer] at reached
      have whole := ih others ?_ reached rest
      · rwa [longer, Nat.add_assoc, Nat.add_comm 1] at whole
      · intro other
        have pages : (sites ++ [((0, j), SitePage.mk 0 number)] : Sites).pages =
            sites.pages ++ [SitePage.mk 0 number] := List.map_append
        rw [pages, List.mem_append, List.mem_singleton, used, all, Finset.mem_insert, or_comm,
          SitePage.mk.injEq, eq_self, true_and]

/-- The script comes to an end. -/
def Finishes (env : CreatorEnv) : Prop :=
  ∃ result, result ≠ Outcome.unfinished ∧ Outcome.Settles env.webcreator result

theorem not_finishes (endless : ∀ fuel, env.webcreator fuel = .unfinished) : ¬ env.Finishes := by
  rintro ⟨result, finished, settles⟩
  exact finished (settles.unique (.of_unfinished endless))

theorem finishes_of_completes (recurs : Recurs env.random)
    (fits : env.w = 0 ∨ env.p ≤ 32768)
    (written : ∀ sites start, SitesNamed (allKeys env.w env.p) sites →
      (∃ fuel, env.nameSites fuel (allKeys env.w env.p) [] 0 = .returns (sites, start)) →
        Outcome.Completes
          (env.writePages · sites (env.keyOrder (allKeys env.w env.p)) start)) :
    env.Finishes := by
  have fitsAll : ∀ i : Nat, (allKeys env.w env.p).countP (·.1 = i) ≤ 32768 := by
    intro i
    rw [countP_allKeys]
    split <;> omega
  have named := nameSites_completes recurs .nil fitsAll 0
  have whole : Outcome.Completes env.webcreator := by
    refine named.bind ?_
    rintro ⟨sites, start⟩ reached
    obtain ⟨fuel, returned⟩ := reached
    have sitesNamed := nameSites_named .nil returned
    refine (written sites start sitesNamed ⟨fuel, returned⟩).bind ?_
    rintro ⟨pages, next⟩ _
    exact .const _
  obtain ⟨created, settles⟩ := whole
  exact ⟨.returns created, by simp, settles⟩

theorem finishes_of_noPages (recurs : Recurs env.random) (empty : env.w = 0 ∨ env.p = 0) :
    env.Finishes := by
  have noKeys : allKeys env.w env.p = [] := by
    apply List.eq_nil_of_length_eq_zero
    rw [length_allKeys, Nat.mul_eq_zero]
    exact empty
  have noOrder : env.keyOrder (allKeys env.w env.p) = [] := by
    have order := env.keyOrder_perm (allKeys env.w env.p)
    rw [noKeys] at order ⊢
    exact order.eq_nil
  apply finishes_of_completes recurs (by omega)
  intro sites start _ _
  rw [noOrder]
  exact .const ([], start)

theorem mem_keyOrder : ∀ key ∈ env.keyOrder (allKeys env.w env.p), key ∈ allKeys env.w env.p :=
  fun _ member => (env.keyOrder_perm _).mem_iff.mp member

theorem finishes_of_several (recurs : Recurs env.random) (several : 2 ≤ env.w)
    (page : 1 ≤ env.p) (fits : env.p ≤ 32768) : env.Finishes := by
  apply finishes_of_completes recurs (Or.inr fits)
  intro sites start named _
  exact writePages_completes recurs several page named mem_keyOrder start

section OneSite

variable (single : env.w = 1)

include single

theorem nameSites_reached {fuel start : Nat}
    (named : env.nameSites fuel (allKeys env.w env.p) [] 0 = .returns (sites, start)) :
    FirstDistinct env.random env.p start := by
  have oneSite : ∀ key ∈ allKeys env.w env.p, key.1 = 0 := by
    intro key isKey
    rw [mem_allKeys] at isKey
    omega
  have first := nameSites_single oneSite (by simp [Sites.pages, ValueStream.mem_drawnBefore])
    (.zero env.random) named
  rwa [length_allKeys, single, List.length_nil, Nat.zero_add, Nat.one_mul] at first

theorem length_keyOrder : (env.keyOrder (allKeys env.w env.p)).length = env.p := by
  rw [(env.keyOrder_perm _).length_eq, length_allKeys, single, Nat.one_mul]

theorem internalOnly_of_finishes (finishes : env.Finishes) :
    ∃ start, FirstDistinct env.random env.p start ∧ env.InternalOnly env.p start := by
  by_contra external
  refine not_finishes (fun fuel => ?_) finishes
  rw [webcreator]
  rcases env.nameSites_cases fuel (allKeys env.w env.p) [] 0 with
    endless | ⟨⟨sites, start⟩, named⟩
  · rw [endless]
    rfl
  · have notInternal : ¬ env.InternalOnly (env.keyOrder (allKeys env.w env.p)).length start := by
      rw [length_keyOrder single]
      exact fun internal => external ⟨start, nameSites_reached single named, internal⟩
    obtain ⟨result, written⟩ :=
      writePages_single single (nameSites_named .nil named) mem_keyOrder start
    rw [named, Outcome.returns_bind]
    dsimp only
    rw [written, if_neg notInternal]
    rfl

theorem finishes_of_internalOnly (recurs : Recurs env.random) (fits : env.p ≤ 32768)
    {start : Nat} (first : FirstDistinct env.random env.p start)
    (internal : env.InternalOnly env.p start) : env.Finishes := by
  apply finishes_of_completes recurs (Or.inr fits)
  intro sites place sitesNamed named
  obtain ⟨fuel, returned⟩ := named
  have samePlace := first.unique (nameSites_reached single returned)
  subst samePlace
  rw [← length_keyOrder single] at internal
  obtain ⟨result, written⟩ := writePages_single single sitesNamed mem_keyOrder start
  exact .of_eq fun fuel => (written fuel).trans (if_pos internal)

end OneSite

/-- With values that recur, the script ends when the pages of a site can be named,
and there is another site or no page has more links than internal ones. -/
theorem webcreator_finishes_iff (recurs : Recurs env.random) :
    env.Finishes ↔ env.w = 0 ∨ env.p = 0 ∨ env.p ≤ 32768 ∧
      (2 ≤ env.w ∨ ∃ start, FirstDistinct env.random env.p start ∧
        env.InternalOnly env.p start) := by
  by_cases noSite : env.w = 0
  · simp [noSite, finishes_of_noPages recurs (Or.inl noSite)]
  by_cases noPage : env.p = 0
  · simp [noPage, finishes_of_noPages recurs (Or.inr noPage)]
  by_cases fits : env.p ≤ 32768
  · by_cases single : env.w = 1
    · have alone : env.Finishes ↔ ∃ start, FirstDistinct env.random env.p start ∧
          env.InternalOnly env.p start := by
        refine ⟨internalOnly_of_finishes single, ?_⟩
        rintro ⟨start, first, internal⟩
        exact finishes_of_internalOnly single recurs fits first internal
      simp [single, noPage, fits, alone]
    · have several : 2 ≤ env.w := by omega
      simp [several, fits, finishes_of_several recurs several (by omega) fits]
  · have endless : ∀ fuel, env.webcreator fuel = .unfinished := by
      intro fuel
      rw [webcreator, nameSites_endless (by omega) (by omega) fuel]
      rfl
    simp [noSite, noPage, fits, not_finishes endless]

theorem letterLines_recurs : Recurs letterLines.random := by
  intro value place
  refine ⟨32768 * place + value.val, by omega, ?_⟩
  have stream : letterLines.random = fun place => Fin.ofNat 32768 place := rfl
  rw [stream, Fin.ext_iff, Fin.val_ofNat, Nat.mul_add_mod, Nat.mod_eq_of_lt value.isLt]

theorem webcreator_finishes_iff_letters : letterLines.Finishes :=
  (webcreator_finishes_iff letterLines_recurs).mpr
    (Or.inr (Or.inr ⟨by decide, Or.inl (by decide)⟩))

/-- One site with one page, from a text of lines with one letter. -/
def oneSite (random : Nat → Fin 32768) : CreatorEnv :=
  { letterLines with w := 1, random := random }

theorem oneSite_pageLinks (random : Nat → Fin 32768) (place : Nat) :
    (oneSite random).internalLinks < (oneSite random).pageLinks place := by
  have start : (oneSite random).startLine place ≤ 8000 := by
    have newlines : (oneSite random).text.count '\n' = 10000 := letterLines_newlines
    rw [startLine, newlines]
    omega
  have positive : 1 ≤ (oneSite random).startLine place := by
    rw [startLine]
    omega
  obtain ⟨m, count⟩ : ∃ m, m = (oneSite random).lineCount (place + 1) := ⟨_, rfl⟩
  have bounds : 1001 ≤ m ∧ m ≤ 1999 := by
    rw [count, lineCount]
    omega
  have words : (oneSite random).lineWords ((oneSite random).startLine place) m =
      List.replicate m ['a'] := letterLines_lineWords positive (by omega)
  have sites : (oneSite random).w = 1 := rfl
  have pages : (oneSite random).p = 1 := rfl
  have distance : (oneSite random).linkAfterLines m = m / 2 := by
    rw [linkAfterLines, internalLinks, externalLinks, sites, pages]
  have internal : (oneSite random).internalLinks = 1 := by rw [internalLinks, pages]
  rw [internal, pageLinks, ← count, words, distance, List.length_replicate]
  have two : 2 ≤ m / (m / 2) := by
    rw [Nat.le_div_iff_mul_le (by omega)]
    omega
  exact two

/-- With these lines, one site is not finished, whatever is drawn. -/
theorem oneSite_endless (random : Nat → Fin 32768) : ¬ (oneSite random).Finishes := by
  intro finishes
  have single : (oneSite random).w = 1 := rfl
  obtain ⟨start, _, internal⟩ := internalOnly_of_finishes single finishes
  exact absurd internal.1 (Nat.not_le_of_lt (oneSite_pageLinks random start))

theorem webcreator_endless :
    Recurs (oneSite letterLines.random).random ∧ ¬ (oneSite letterLines.random).Finishes :=
  ⟨letterLines_recurs, oneSite_endless letterLines.random⟩

end CreatorEnv

end WebCrawl
