import WebCrawl.SiteCreation

/-!
# How many links a page gets

A page is meant to have links to `p / 2 + 1` pages of its own site, and then to
`w / 2 + 1` pages of others.  The links are never counted as a whole: there is
one after every `m / (f + q)` words that the lines expand to, the first `f` of
them internal.  So a page has too many links when the quotient is rounded down
far enough, and too few when the lines have too few words.
-/

namespace WebCrawl

namespace CreatorEnv

variable {env : CreatorEnv} {fuel : Nat} {sites : Sites}

/-- As many links of both kinds as they are meant to be, and in this order. -/
def FullQuota (env : CreatorEnv) (sites : Sites) (written : WrittenPage) : Prop :=
  ∃ internals externals : List SitePage,
    written.links = internals.map .internal ++ externals.map .external ∧
      internals.length = env.p / 2 + 1 ∧ externals.length = env.w / 2 + 1 ∧
      (∀ target ∈ internals, target ∈ sites.pages ∧ target.site = written.page.site) ∧
      ∀ target ∈ externals, target ∈ sites.pages ∧ target.site ≠ written.page.site

/-- The links that a page of site `i` gets: internal ones first, as many as there
are of those, and then external ones. -/
structure LinkSplit (sites : Sites) (i f due : Nat) (internals externals : List SitePage) :
    Prop where
  internalLength : internals.length = min due f
  externalLength : externals.length = due - f
  internal : ∀ target ∈ internals, ∃ j, ((i, j), target) ∈ sites
  external : ∀ target ∈ externals, ∃ site j, site ≠ i ∧ ((site, j), target) ∈ sites

section Split

variable {i f due : Nat} {internals externals : List SitePage} {target : SitePage}

theorem LinkSplit.addInternal (split : LinkSplit sites i (f - 1) due internals externals)
    (remain : f ≠ 0) {j : Nat} (isPage : ((i, j), target) ∈ sites) :
    LinkSplit sites i f (due + 1) (target :: internals) externals := by
  obtain ⟨internalLength, externalLength, internal, external⟩ := split
  refine ⟨?_, by omega, List.forall_mem_cons.mpr ⟨⟨j, isPage⟩, internal⟩, external⟩
  rw [List.length_cons]
  omega

theorem LinkSplit.addExternal (split : LinkSplit sites i 0 due internals externals)
    {site j : Nat} (otherSite : site ≠ i) (isPage : ((site, j), target) ∈ sites) :
    LinkSplit sites i 0 (due + 1) internals (target :: externals) := by
  obtain ⟨internalLength, externalLength, internal, external⟩ := split
  refine ⟨by omega, ?_, internal,
    List.forall_mem_cons.mpr ⟨⟨site, j, otherSite, isPage⟩, external⟩⟩
  rw [List.length_cons]
  omega

theorem LinkSplit.noInternal (split : LinkSplit sites i 0 due internals externals) :
    internals = [] := by
  have length := split.internalLength
  rw [Nat.min_zero] at length
  exact List.eq_nil_of_length_eq_zero length

end Split

/-- What the loop over the lines of a page writes. -/
theorem addLinks_split {linkAfterLines count i f place next : Nat} {lines : List (List Char)}
    {links : List PageLink} (counting : Counting linkAfterLines count)
    (added : env.addLinks fuel sites i linkAfterLines lines count f place =
      .returns (links, next)) :
    ∃ internals externals, links = internals.map .internal ++ externals.map .external ∧
      LinkSplit sites i f (linksDue linkAfterLines lines.length count)
        internals externals := by
  induction lines generalizing count f place links with
  | nil =>
      cases added
      refine ⟨[], [], rfl, ?_, ?_, by simp, by simp⟩
      · simp [counting.linksDue_zero]
      · simp [counting.linksDue_zero]
  | cons line lines ih =>
      rw [addLinks] at added
      split at added
      next isLink =>
        subst isLink
        obtain ⟨⟨link, left, later⟩, first, rest⟩ := Outcome.bind_eq_returns added
        obtain ⟨⟨others, last⟩, more, done⟩ := Outcome.bind_eq_returns rest
        cases done
        obtain ⟨internals, externals, rfl, splitted⟩ := ih .start more
        rw [List.length_cons, counting.linksDue_link]
        obtain ⟨rfl, ⟨remain, target, j, rfl, isPage⟩ |
          ⟨rfl, target, site, j, rfl, otherSite, isPage⟩⟩ := addLink_returns first
        · exact ⟨target :: internals, externals, rfl, splitted.addInternal remain isPage⟩
        · have empty := splitted.noInternal
          subst empty
          exact ⟨[], target :: externals, rfl, splitted.addExternal otherSite isPage⟩
      next noLink =>
        rw [List.length_cons, linksDue_line]
        exact ih (counting.next noLink) added

/-- A page has its quota when the number of its links is that of the quota. -/
theorem fullQuota_iff_length {keys : List (Nat × Nat)} (named : SitesNamed keys sites)
    {written : WrittenPage} {place next : Nat} {key : Nat × Nat}
    (returned : env.writePage fuel sites key place = .returns (written, next)) :
    FullQuota env sites written ↔
      (env.lineWords written.k written.m).length / env.linkAfterLines written.m =
        env.internalLinks + env.externalLinks := by
  obtain ⟨rfl, isPage, added⟩ := writePage_returns returned
  obtain ⟨internals, externals, links, splitted⟩ := addLinks_split .start added
  obtain ⟨internalLength, externalLength, internal, external⟩ := splitted
  rw [linksDue, Nat.add_sub_cancel] at internalLength externalLength
  have ownSite : written.page.site = written.key.1 := named.sameSite _ isPage
  constructor
  · rintro ⟨quota, otherQuota, sameLinks, quotaLength, otherLength, _, _⟩
    have lengths := congrArg List.length (links.symm.trans sameLinks)
    simp only [List.length_append, List.length_map] at lengths
    rw [internalLinks] at internalLength externalLength ⊢
    rw [externalLinks]
    omega
  · intro due
    rw [due] at internalLength externalLength
    refine ⟨internals, externals, links, ?_, ?_, ?_, ?_⟩
    · rw [internalLength, internalLinks]
      omega
    · rw [externalLength, externalLinks]
      omega
    · intro target isTarget
      obtain ⟨j, member⟩ := internal target isTarget
      exact ⟨List.mem_map_of_mem member, (named.sameSite _ member).trans ownSite.symm⟩
    · intro target isTarget
      obtain ⟨site, j, otherSite, member⟩ := external target isTarget
      refine ⟨List.mem_map_of_mem member, ?_⟩
      rw [named.sameSite _ member, ownSite]
      exact otherSite

/-- The pages of a run that have their quota, whichever of them were written. -/
theorem writePages_fullQuota_iff {place start next : Nat} {keys : List (Nat × Nat)}
    {pages : List WrittenPage}
    (named : env.nameSites fuel (allKeys env.w env.p) [] 0 = .returns (sites, start))
    (written : env.writePages fuel sites keys place = .returns (pages, next)) :
    ∀ page ∈ pages, FullQuota env sites page ↔
      env.internalLinks + env.externalLinks ≤ page.m ∧
        (env.lineWords page.k page.m).length / env.linkAfterLines page.m =
          env.internalLinks + env.externalLinks := by
  intro page isPage
  obtain ⟨key, _, _, returned⟩ := writePages_mem written isPage
  rw [fullQuota_iff_length (nameSites_named .nil named) returned, iff_and_self]
  intro due
  by_contra few
  have noLinks : env.linkAfterLines page.m = 0 := Nat.div_eq_of_lt (by omega)
  rw [noLinks, Nat.div_zero, internalLinks] at due
  omega

/-- Two sites with one page each, from a text of lines with one letter. -/
def letterLines : CreatorEnv where
  w := 2
  p := 1
  text := (List.replicate 10000 ['a', '\n']).flatten
  enoughLines := by
    rw [List.count_flatten, List.map_replicate, List.sum_replicate_nat]
    decide
  random := fun place => Fin.ofNat 32768 place
  keyOrder := id
  keyOrder_perm := .refl
  expand := fun line => [line]

def letterSites : Sites :=
  [((0, 0), ⟨0, 0⟩), ((1, 0), ⟨1, 1⟩)]

def firstLetterPage : WrittenPage :=
  ⟨(0, 0), ⟨0, 0⟩, 4, 1004, [.internal ⟨0, 0⟩, .external ⟨1, 1⟩, .external ⟨1, 1⟩]⟩

def secondLetterPage : WrittenPage :=
  ⟨(1, 0), ⟨1, 1⟩, 11, 1011, [.internal ⟨1, 1⟩, .external ⟨0, 0⟩, .external ⟨0, 0⟩]⟩

theorem fileLines_letters (count : Nat) :
    fileLines (List.replicate count ['a', '\n']).flatten =
      List.replicate count ['a'] ++ [[]] := by
  induction count with
  | zero => exact fileLines_last (by simp)
  | succ count ih =>
      have next := @fileLines_next ['a'] (by simp [isNewline])
        (List.replicate count ['a', '\n']).flatten
      rw [ih] at next
      exact next

theorem letterLines_lineWords {k m : Nat} (positive : 1 ≤ k) (within : k + m ≤ 10001) :
    letterLines.lineWords k m = List.replicate m ['a'] := by
  have text : letterLines.text = (List.replicate 10000 ['a', '\n']).flatten := rfl
  have head : (fileLines letterLines.text).take (k + m - 1) =
      List.replicate (k + m - 1) ['a'] := by
    rw [text, fileLines_letters, List.take_append_of_le_length, List.take_replicate]
    · congr 1
      omega
    · rw [List.length_replicate]
      omega
  have lines : letterLines.selectedLines k m = List.replicate m ['a'] := by
    rw [selectedLines, head, List.length_replicate, List.drop_replicate]
    congr 1
    omega
  have expand : letterLines.expand = fun line => [line] := rfl
  simp [lineWords, lines, expand]

theorem letterLines_named :
    letterLines.nameSites 5 (allKeys 2 1) [] 0 = .returns (letterSites, 2) := by
  decide +kernel

theorem letterLines_newlines : letterLines.text.count '\n' = 10000 := by
  have text : letterLines.text = (List.replicate 10000 ['a', '\n']).flatten := rfl
  rw [text, List.count_flatten, List.map_replicate, List.sum_replicate_nat]
  decide

theorem letterLines_page {key : Nat × Nat} {page : SitePage} {place next k m : Nat}
    {links : List PageLink} (start : place % 32768 % 7998 + 2 = k)
    (count : letterLines.lineCount (place + 1) = m) (within : k + m ≤ 10001)
    (found : letterSites.get key = .returns page)
    (added : letterLines.addLinks 5 letterSites key.1 (letterLines.linkAfterLines m)
      (List.replicate m ['a']) 1 letterLines.internalLinks (place + 2) =
        .returns (links, next)) :
    letterLines.writePage 5 letterSites key place =
      .returns (⟨key, page, k, m, links⟩, next) := by
  have startLine : letterLines.startLine place = k := by
    rw [CreatorEnv.startLine, letterLines_newlines]
    exact start
  have words := letterLines_lineWords (by omega) within
  simp only [writePage, startLine, count, words, found, added, Outcome.returns_bind,
    Outcome.pure_eq]

theorem letterLines_first :
    letterLines.writePage 5 letterSites (0, 0) 2 = .returns (firstLetterPage, 9) :=
  letterLines_page rfl rfl (by decide) rfl (by decide +kernel)

theorem letterLines_second :
    letterLines.writePage 5 letterSites (1, 0) 9 = .returns (secondLetterPage, 16) :=
  letterLines_page rfl rfl (by decide) rfl (by decide +kernel)

theorem letterLines_pages : letterLines.writePages 5 letterSites [(0, 0), (1, 0)] 2 =
    .returns ([firstLetterPage, secondLetterPage], 16) :=
  writePages_cons letterLines_first (writePages_cons letterLines_second rfl)

theorem writePages_fullQuota_iff_letters :
    FullQuota letterLines letterSites firstLetterPage := by
  rw [writePages_fullQuota_iff letterLines_named letterLines_pages _ List.mem_cons_self]
  have words : letterLines.lineWords firstLetterPage.k firstLetterPage.m =
      List.replicate 1004 ['a'] :=
    letterLines_lineWords (by decide : 1 ≤ 4) (by decide : 4 + 1004 ≤ 10001)
  rw [words, List.length_replicate]
  decide

/-- Two sites with one page each, from a text of empty lines. -/
def emptyLines (random : Nat → Fin 32768) : CreatorEnv where
  w := 2
  p := 1
  text := List.replicate 10000 '\n'
  enoughLines := by rw [List.count_replicate_self]
  random := random
  keyOrder := id
  keyOrder_perm := .refl
  expand := fun line => [line]

theorem fileLines_newlines (count : Nat) :
    ∀ line ∈ fileLines (List.replicate count '\n'), line = [] := by
  induction count with
  | zero =>
      rw [List.replicate_zero, fileLines_last (by simp)]
      simp
  | succ count ih =>
      have next := @fileLines_next [] (by simp) (List.replicate count '\n')
      rw [List.nil_append] at next
      rw [List.replicate_succ, next]
      exact List.forall_mem_cons.mpr ⟨rfl, ih⟩

theorem emptyLines_lineWords (random : Nat → Fin 32768) (k m : Nat) :
    (emptyLines random).lineWords k m = [] := by
  rw [lineWords, List.flatMap_eq_nil_iff]
  intro line member
  rw [List.mem_filter, List.mem_map] at member
  obtain ⟨⟨whole, selected, rfl⟩, nonempty⟩ := member
  have isLine := List.mem_of_mem_take (List.mem_of_mem_drop selected)
  rw [fileLines_newlines _ whole isLine] at nonempty
  simp at nonempty

def emptySites (random : Nat → Fin 32768) : Sites :=
  [((0, 0), ⟨0, random 0⟩), ((1, 0), ⟨1, random 1⟩)]

def emptyPage (random : Nat → Fin 32768) (i place : Nat) (number : Fin 32768) :
    WrittenPage :=
  ⟨(i, 0), ⟨i, number⟩, (emptyLines random).startLine place,
    (emptyLines random).lineCount (place + 1), []⟩

theorem emptyLines_named (random : Nat → Fin 32768) :
    (emptyLines random).nameSites 1 (allKeys 2 1) [] 0 = .returns (emptySites random, 2) := by
  have keys : allKeys 2 1 = [(0, 0), (1, 0)] := rfl
  have stream : (emptyLines random).random = random := rfl
  simp [keys, nameSites, stream, ValueStream.drawUntil, emptySites, Sites.pages,
    SitePage.path_injective.eq_iff]

theorem emptyLines_page (random : Nat → Fin 32768) {sites : Sites} {i : Nat}
    {number : Fin 32768} (found : sites.get (i, 0) = .returns ⟨i, number⟩) (place : Nat) :
    (emptyLines random).writePage 1 sites (i, 0) place =
      .returns (emptyPage random i place number, place + 2) := by
  simp only [writePage, found, emptyLines_lineWords, addLinks, Outcome.returns_bind,
    Outcome.pure_eq, emptyPage]

theorem emptyLines_pages (random : Nat → Fin 32768) :
    (emptyLines random).writePages 1 (emptySites random) [(0, 0), (1, 0)] 2 =
      .returns ([emptyPage random 0 2 (random 0), emptyPage random 1 4 (random 1)], 6) :=
  writePages_cons (emptyLines_page random rfl 2)
    (writePages_cons (emptyLines_page random rfl 4) rfl)

/-- The pages of such a text have no links, whatever is drawn. -/
theorem emptyLines_noLinks (random : Nat → Fin 32768) :
    ∃ created, (emptyLines random).webcreator 1 = .returns created ∧
      ∃ page ∈ created.pages, ¬ FullQuota (emptyLines random) created.sites page := by
  refine ⟨_, webcreator_of_runs (emptyLines_named random) (emptyLines_pages random),
    emptyPage random 0 2 (random 0), List.mem_cons_self, ?_⟩
  rintro ⟨internals, externals, links, internalLength, _⟩
  have length := congrArg List.length links
  simp only [List.length_append, List.length_map] at length
  rw [internalLength, emptyPage, List.length_nil] at length
  omega

theorem webcreator_noLinks :
    2 ≤ (emptyLines letterLines.random).w ∧ 1 ≤ (emptyLines letterLines.random).p ∧
      ∃ created, (emptyLines letterLines.random).webcreator 1 = .returns created ∧
        ∃ page ∈ created.pages,
          ¬ FullQuota (emptyLines letterLines.random) created.sites page :=
  ⟨le_refl 2, le_refl 1, emptyLines_noLinks letterLines.random⟩

end CreatorEnv

end WebCrawl
