import WebCrawl.FileLines
import WebCrawl.ValueStream
import Mathlib.Data.List.Nodup
import Mathlib.Data.List.ProdSigma

/-!
# Creating web sites

`webcreator.sh` names the pages of all sites, and then writes each page: lines of
a text, with a link after every so many of them.  Values of `RANDOM` are read
one after the other from a stream.  `w` and `p` are the numbers that the shell
takes its arguments for, the keys of `sites` come in an order of its own, and
so does what it expands a word of a line to.  The names of the root directory and
of the text are single words.  Directories can be written, and those of the sites
hold nothing but the pages that were named.
-/

namespace WebCrawl

open ValueStream (drawUntil)

/-- A page of a site, with the value of `RANDOM` in its name. -/
structure SitePage where
  site : Nat
  number : Fin 32768
  deriving DecidableEq

/-- `/site$i/page${i}_$RANDOM.html`. -/
def SitePage.path (page : SitePage) : List Char :=
  "/site".toList ++ Nat.toDigits 10 page.site ++ "/page".toList ++
    Nat.toDigits 10 page.site ++ "_".toList ++ Nat.toDigits 10 page.number.val ++
    ".html".toList

/-- The arguments that the script accepts, and what it finds around it. -/
structure CreatorEnv where
  w : Nat
  p : Nat
  text : List Char
  enoughLines : 10000 ≤ text.count '\n'
  random : Nat → Fin 32768
  keyOrder : List (Nat × Nat) → List (Nat × Nat)
  keyOrder_perm : ∀ keys, (keyOrder keys).Perm keys
  expand : List Char → List (List Char)

/-- The array `sites` in the order in which it was filled. -/
abbrev Sites :=
  List ((Nat × Nat) × SitePage)

def Sites.pages (sites : Sites) : List SitePage :=
  sites.map Prod.snd

/-- `${sites[$i,$j]}`; the option `nounset` ends the script when it is not set. -/
def Sites.get (sites : Sites) (key : Nat × Nat) : Outcome SitePage :=
  match sites.find? (·.1 = key) with
  | none => .exits
  | some (_, page) => .returns page

/-- The keys of the two loops that name the pages. -/
def allKeys (w p : Nat) : List (Nat × Nat) :=
  (List.range w).flatMap fun i => (List.range p).map fun j => (i, j)

theorem allKeys_nodup (w p : Nat) : (allKeys w p).Nodup :=
  List.nodup_range.product List.nodup_range

theorem length_allKeys (w p : Nat) : (allKeys w p).length = w * p := by
  have length := List.length_product (List.range w) (List.range p)
  rwa [List.length_range, List.length_range] at length

theorem mem_allKeys {w p : Nat} {key : Nat × Nat} :
    key ∈ allKeys w p ↔ key.1 < w ∧ key.2 < p := by
  rw [← List.mem_range, ← List.mem_range]
  exact List.mem_product

inductive PageLink where
  | internal (target : SitePage)
  | external (target : SitePage)
  deriving DecidableEq

def PageLink.target : PageLink → SitePage
  | .internal target | .external target => target

/-- A page as it was written, with its key, the numbers that were drawn for it
and its links. -/
structure WrittenPage where
  key : Nat × Nat
  page : SitePage
  k : Nat
  m : Nat
  links : List PageLink
  deriving DecidableEq

/-- What is said about incoming links in the end: nothing when there is no link,
as the size of an empty array counts as unset. -/
inductive LinkReport where
  | allLinked
  | notAllLinked
  | unset
  deriving DecidableEq

structure Created where
  sites : Sites
  pages : List WrittenPage
  report : LinkReport
  deriving DecidableEq

section Sites

variable {sites : Sites} {key : Nat × Nat} {page : SitePage}

theorem digits_append_inj {first second : Nat} {char : Char} {rest other : List Char}
    (nonDigit : char.isDigit = false)
    (same : Nat.toDigits 10 first ++ char :: rest = Nat.toDigits 10 second ++ char :: other) :
    first = second ∧ rest = other := by
  have sameNumber : first = second := by
    rw [← digitsValue_append nonDigit first rest, same, digitsValue_append nonDigit]
  subst sameNumber
  exact ⟨rfl, (List.cons.inj (List.append_cancel_left same)).2⟩

theorem SitePage.path_injective : Function.Injective SitePage.path := by
  rintro ⟨site, number⟩ ⟨otherSite, otherNumber⟩ same
  unfold SitePage.path at same
  have slash : "/page".toList = '/' :: "page".toList := rfl
  have underscore : "_".toList = ['_'] := rfl
  have dot : ".html".toList = '.' :: "html".toList := rfl
  simp only [slash, underscore, dot, List.append_assoc, List.cons_append, List.nil_append,
    List.append_cancel_left_eq] at same
  obtain ⟨rfl, names⟩ := digits_append_inj (by decide) same
  rw [List.append_cancel_left_eq, List.append_cancel_left_eq] at names
  obtain ⟨sameNumber, _⟩ := digits_append_inj (by decide) (List.cons.inj names).2
  rw [Fin.ext sameNumber]

theorem Sites.mem_of_get (found : sites.get key = .returns page) : (key, page) ∈ sites := by
  rw [Sites.get] at found
  split at found
  next => cases found
  next entry other first =>
    cases found
    have sameKey : entry = key := by simpa using List.find?_some first
    exact sameKey ▸ List.mem_of_find?_eq_some first

theorem Sites.get_of_mem (member : key ∈ sites.map Prod.fst) :
    ∃ page, sites.get key = .returns page := by
  obtain ⟨entry, isEntry, rfl⟩ := List.mem_map.mp member
  have isFound : (sites.find? (·.1 = entry.1)).isSome := by
    rw [List.find?_isSome]
    exact ⟨entry, isEntry, by simp⟩
  obtain ⟨first, found⟩ := Option.isSome_iff_exists.mp isFound
  exact ⟨first.2, by rw [Sites.get, found]⟩

/-- What the loops over the names keep: every page has the site of its key, and
no two have the same path. -/
structure SitesNamed (keys : List (Nat × Nat)) (sites : Sites) : Prop where
  sameKeys : sites.map Prod.fst = keys
  sameSite : ∀ entry ∈ sites, entry.2.site = entry.1.1
  pathsNodup : (sites.pages.map SitePage.path).Nodup

theorem SitesNamed.nil : SitesNamed [] [] :=
  ⟨rfl, by simp, List.nodup_nil⟩

theorem SitesNamed.add {keys : List (Nat × Nat)} (named : SitesNamed keys sites)
    {number : Fin 32768}
    (unused : (SitePage.mk key.1 number).path ∉ sites.pages.map SitePage.path) :
    SitesNamed (keys ++ [key]) (sites ++ [(key, ⟨key.1, number⟩)]) := by
  obtain ⟨sameKeys, sameSite, pathsNodup⟩ := named
  refine ⟨by simp [sameKeys], ?_, ?_⟩
  · intro entry isEntry
    rcases List.mem_append.mp isEntry with earlier | last
    · exact sameSite entry earlier
    · rw [List.mem_singleton.mp last]
  · have together : (sites ++ [(key, SitePage.mk key.1 number)] : Sites).pages.map
        SitePage.path = sites.pages.map SitePage.path ++ [(SitePage.mk key.1 number).path] := by
      simp [Sites.pages]
    rw [together, List.nodup_append_comm, List.singleton_append, List.nodup_cons]
    exact ⟨unused, pathsNodup⟩

end Sites

namespace CreatorEnv

variable (env : CreatorEnv)

/-- Names are tried until there is no file with the name. -/
def nameSites (fuel : Nat) : List (Nat × Nat) → Sites → Nat → Outcome (Sites × Nat)
  | [], sites, place => return (sites, place)
  | (i, j) :: keys, sites, place => do
      let (number, place) ← drawUntil env.random
        (fun number => (SitePage.mk i number).path ∉ sites.pages.map SitePage.path) fuel place
      nameSites fuel keys (sites ++ [((i, j), ⟨i, number⟩)]) place

/-- The first lines of the text, and of these the last ones. -/
def selectedLines (k m : Nat) : List (List Char) :=
  let head := (fileLines env.text).take (k + m - 1)
  head.drop (head.length - m)

/-- The words of `for line in $lines`, which has no NUL and is split at newlines. -/
def lineWords (k m : Nat) : List (List Char) :=
  (((env.selectedLines k m).map fun line => line.filter (· ≠ '\x00')).filter
    (· ≠ [])).flatMap env.expand

/-- The numbers of internal and of external links that a page is meant to have. -/
def internalLinks : Nat :=
  env.p / 2 + 1

def externalLinks : Nat :=
  env.w / 2 + 1

def linkAfterLines (m : Nat) : Nat :=
  m / (env.internalLinks + env.externalLinks)

/-- One link of a page of site `i`, with the internal links that are left then. -/
def addLink (fuel : Nat) (sites : Sites) (i f place : Nat) :
    Outcome (PageLink × Nat × Nat) :=
  if f ≠ 0 then do
    let site ← sites.get (i, (env.random place).val % env.p)
    return (.internal site, f - 1, place + 1)
  else do
    let (draw, place) ← drawUntil env.random (fun draw => draw.val % env.w ≠ i) fuel place
    let site ← sites.get (draw.val % env.w, (env.random place).val % env.p)
    return (.external site, f, place + 1)

/-- The loop over the lines of a page, with its links alone. -/
def addLinks (fuel : Nat) (sites : Sites) (i linkAfterLines : Nat) :
    List (List Char) → Nat → Nat → Nat → Outcome (List PageLink × Nat)
  | [], _, _, place => return ([], place)
  | _ :: lines, count, f, place =>
      if count = linkAfterLines then do
        let (link, f, place) ← env.addLink fuel sites i f place
        let (links, place) ← addLinks fuel sites i linkAfterLines lines 1 f place
        return (link :: links, place)
      else addLinks fuel sites i linkAfterLines lines (count + 1) f place

/-- The line at which a page starts. -/
def startLine (place : Nat) : Nat :=
  (env.random place).val % (env.text.count '\n' - 2000 - 2) + 2

/-- The number of lines that a page takes from the text. -/
def lineCount (place : Nat) : Nat :=
  (env.random place).val % (1000 - 1) + 1001

def writePage (fuel : Nat) (sites : Sites) (key : Nat × Nat) (place : Nat) :
    Outcome (WrittenPage × Nat) := do
  let k := env.startLine place
  let m := env.lineCount (place + 1)
  let page ← sites.get key
  let (links, place) ← env.addLinks fuel sites key.1 (env.linkAfterLines m)
    (env.lineWords k m) 1 env.internalLinks (place + 2)
  return (⟨key, page, k, m, links⟩, place)

def writePages (fuel : Nat) (sites : Sites) :
    List (Nat × Nat) → Nat → Outcome (List WrittenPage × Nat)
  | [], place => return ([], place)
  | key :: keys, place => do
      let (page, place) ← env.writePage fuel sites key place
      let (pages, place) ← writePages fuel sites keys place
      return (page :: pages, place)

/-- The keys of the array `haslink`. -/
def haslink (pages : List WrittenPage) : List (List Char) :=
  (pages.flatMap fun page => page.links.map fun link => link.target.path).foldl
    (fun keys site => keys.insert site) []

def linkReport (pages : List WrittenPage) : LinkReport :=
  if haslink pages = [] then .unset
  else if (haslink pages).length = env.w * env.p then .allLinked
  else .notAllLinked

def webcreator (fuel : Nat) : Outcome Created := do
  let (sites, place) ← env.nameSites fuel (allKeys env.w env.p) [] 0
  let (pages, _) ← env.writePages fuel sites (env.keyOrder (allKeys env.w env.p)) place
  return ⟨sites, pages, env.linkReport pages⟩

variable {env} {fuel : Nat} {sites : Sites}

section Naming

theorem nameSites_cases (fuel : Nat) (keys : List (Nat × Nat)) (sites : Sites) (place : Nat) :
    env.nameSites fuel keys sites place = .unfinished ∨
      ∃ result, env.nameSites fuel keys sites place = .returns result := by
  induction keys generalizing sites place with
  | nil => exact Or.inr ⟨(sites, place), rfl⟩
  | cons key keys ih =>
      rw [nameSites]
      rcases ValueStream.drawUntil_cases fuel place with endless | ⟨number, next, drawn⟩
      · exact Or.inl (by rw [endless, Outcome.unfinished_bind])
      · rw [drawn, Outcome.returns_bind]
        exact ih (sites ++ [(key, ⟨key.1, number⟩)]) next

/-- A name that was drawn, and the run that names the pages behind it. -/
theorem nameSites_cons {key : Nat × Nat} {keys : List (Nat × Nat)} {place : Nat}
    {result : Sites × Nat}
    (named : env.nameSites fuel (key :: keys) sites place = .returns result) :
    ∃ number next,
      drawUntil env.random (fun number => (SitePage.mk key.1 number).path ∉
        sites.pages.map SitePage.path) fuel place = .returns (number, next) ∧
      env.nameSites fuel keys (sites ++ [(key, ⟨key.1, number⟩)]) next = .returns result := by
  rw [nameSites] at named
  obtain ⟨⟨number, next⟩, drawn, later⟩ := Outcome.bind_eq_returns named
  exact ⟨number, next, drawn, later⟩

theorem nameSites_named {done keys : List (Nat × Nat)} {place : Nat} {result : Sites × Nat}
    (before : SitesNamed done sites)
    (named : env.nameSites fuel keys sites place = .returns result) :
    SitesNamed (done ++ keys) result.1 := by
  induction keys generalizing done sites place with
  | nil =>
      cases named
      rwa [List.append_nil]
  | cons key keys ih =>
      obtain ⟨number, next, drawn, later⟩ := nameSites_cons named
      have unused := (ValueStream.drawUntil_returns drawn).accepted
      have whole := ih (before.add (of_decide_eq_true unused)) later
      rwa [List.append_assoc, List.singleton_append] at whole

end Naming

section Links

variable {i f place next : Nat}

/-- What one link leads to, and how many internal links are left then. -/
theorem addLink_returns {link : PageLink} {left : Nat}
    (added : env.addLink fuel sites i f place = .returns (link, left, next)) :
    left = f - 1 ∧ (f ≠ 0 ∧ (∃ target j, link = .internal target ∧ ((i, j), target) ∈ sites) ∨
      f = 0 ∧ ∃ target site j, link = .external target ∧ site ≠ i ∧
        ((site, j), target) ∈ sites) := by
  rw [addLink] at added
  split at added
  next remain =>
    obtain ⟨target, found, done⟩ := Outcome.bind_eq_returns added
    cases done
    exact ⟨rfl, Or.inl ⟨remain, target, _, rfl, Sites.mem_of_get found⟩⟩
  next empty =>
    obtain ⟨⟨draw, later⟩, drawn, rest⟩ := Outcome.bind_eq_returns added
    obtain ⟨target, found, done⟩ := Outcome.bind_eq_returns rest
    cases done
    have otherSite := of_decide_eq_true (ValueStream.drawUntil_returns drawn).accepted
    exact ⟨by omega, Or.inr ⟨by omega, target, _, _, rfl, otherSite, Sites.mem_of_get found⟩⟩

theorem addLinks_target {linkAfterLines count : Nat} {lines : List (List Char)}
    {links : List PageLink}
    (added : env.addLinks fuel sites i linkAfterLines lines count f place =
      .returns (links, next)) : ∀ link ∈ links, link.target ∈ sites.pages := by
  induction lines generalizing count f place links with
  | nil =>
      cases added
      simp
  | cons line lines ih =>
      rw [addLinks] at added
      split at added
      next =>
        obtain ⟨⟨link, left, later⟩, first, rest⟩ := Outcome.bind_eq_returns added
        obtain ⟨⟨others, last⟩, more, done⟩ := Outcome.bind_eq_returns rest
        cases done
        refine List.forall_mem_cons.mpr ⟨?_, ih more⟩
        rcases (addLink_returns first).2 with ⟨_, target, j, rfl, isPage⟩ |
          ⟨_, target, site, j, rfl, _, isPage⟩
        · exact List.mem_map_of_mem isPage
        · exact List.mem_map_of_mem isPage
      next => exact ih added

end Links

section Counting

variable {linkAfterLines count : Nat}

/-- What the counter of a page is between two of its links. -/
structure Counting (linkAfterLines count : Nat) : Prop where
  positive : 1 ≤ count
  within : linkAfterLines = 0 ∨ count ≤ linkAfterLines

theorem Counting.start : Counting linkAfterLines 1 :=
  ⟨Nat.le_refl 1, by omega⟩

theorem Counting.next (counting : Counting linkAfterLines count)
    (noLink : count ≠ linkAfterLines) : Counting linkAfterLines (count + 1) := by
  obtain ⟨positive, within⟩ := counting
  exact ⟨by omega, by omega⟩

/-- The links that so many lines still bring. -/
def linksDue (linkAfterLines lines count : Nat) : Nat :=
  (lines + count - 1) / linkAfterLines

theorem Counting.linksDue_zero (counting : Counting linkAfterLines count) :
    linksDue linkAfterLines 0 count = 0 := by
  obtain ⟨positive, within⟩ := counting
  rw [linksDue, Nat.zero_add]
  rcases within with rfl | within
  · exact Nat.div_zero _
  · exact Nat.div_eq_of_lt (by omega)

theorem Counting.linksDue_link (counting : Counting linkAfterLines linkAfterLines)
    (lines : Nat) :
    linksDue linkAfterLines (lines + 1) linkAfterLines =
      linksDue linkAfterLines lines 1 + 1 := by
  have positive := counting.positive
  have before : lines + 1 + linkAfterLines - 1 = lines + linkAfterLines := by omega
  rw [linksDue, linksDue, before, Nat.add_div_right lines positive, Nat.add_sub_cancel]

theorem linksDue_line (linkAfterLines lines count : Nat) :
    linksDue linkAfterLines (lines + 1) count =
      linksDue linkAfterLines lines (count + 1) := by
  have sameLines : lines + 1 + count - 1 = lines + (count + 1) - 1 := by omega
  rw [linksDue, linksDue, sameLines]

end Counting

section Pages

variable {place next : Nat}

theorem writePage_returns {key : Nat × Nat} {written : WrittenPage}
    (returned : env.writePage fuel sites key place = .returns (written, next)) :
    written.key = key ∧ (key, written.page) ∈ sites ∧
      env.addLinks fuel sites key.1 (env.linkAfterLines written.m)
        (env.lineWords written.k written.m) 1 env.internalLinks (place + 2) =
          .returns (written.links, next) := by
  obtain ⟨page, found, rest⟩ := Outcome.bind_eq_returns returned
  obtain ⟨⟨links, later⟩, added, done⟩ := Outcome.bind_eq_returns rest
  cases done
  exact ⟨rfl, Sites.mem_of_get found, added⟩

theorem writePages_cons {key : Nat × Nat} {keys : List (Nat × Nat)} {written : WrittenPage}
    {pages : List WrittenPage} {last : Nat}
    (first : env.writePage fuel sites key place = .returns (written, next))
    (more : env.writePages fuel sites keys next = .returns (pages, last)) :
    env.writePages fuel sites (key :: keys) place = .returns (written :: pages, last) := by
  rw [writePages, first, Outcome.returns_bind]
  dsimp only
  rw [more]
  rfl

/-- Each page of a run was written at some place of the stream. -/
theorem writePages_returns {keys : List (Nat × Nat)} {pages : List WrittenPage}
    (returned : env.writePages fuel sites keys place = .returns (pages, next)) :
    List.Forall₂ (fun key written => ∃ place next,
      env.writePage fuel sites key place = .returns (written, next)) keys pages := by
  induction keys generalizing place pages with
  | nil =>
      cases returned
      exact .nil
  | cons key keys ih =>
      obtain ⟨⟨page, later⟩, first, rest⟩ := Outcome.bind_eq_returns returned
      obtain ⟨⟨others, last⟩, more, done⟩ := Outcome.bind_eq_returns rest
      cases done
      exact .cons ⟨place, later, first⟩ (ih more)

theorem writePages_mem {keys : List (Nat × Nat)} {pages : List WrittenPage}
    (returned : env.writePages fuel sites keys place = .returns (pages, next))
    {written : WrittenPage} (isPage : written ∈ pages) :
    ∃ key place next, env.writePage fuel sites key place = .returns (written, next) := by
  obtain ⟨index, within, rfl⟩ := List.getElem_of_mem isPage
  have runs := writePages_returns returned
  exact ⟨_, runs.get (by rw [runs.length_eq]; exact within) within⟩

theorem writePages_keys {keys : List (Nat × Nat)} {pages : List WrittenPage}
    (returned : env.writePages fuel sites keys place = .returns (pages, next)) :
    pages.map WrittenPage.key = keys := by
  have sameKeys : List.Forall₂ (fun key written => key = WrittenPage.key written) keys pages := by
    apply (writePages_returns returned).imp
    rintro key written ⟨_, _, single⟩
    exact (writePage_returns single).1.symm
  rw [← List.forall₂_map_right_iff, List.forall₂_eq_eq_eq] at sameKeys
  exact sameKeys.symm

theorem webcreator_of_runs {start : Nat} {pages : List WrittenPage}
    (named : env.nameSites fuel (allKeys env.w env.p) [] 0 = .returns (sites, start))
    (written : env.writePages fuel sites (env.keyOrder (allKeys env.w env.p)) start =
      .returns (pages, next)) :
    env.webcreator fuel = .returns ⟨sites, pages, env.linkReport pages⟩ := by
  rw [webcreator, named, Outcome.returns_bind]
  dsimp only
  rw [written]
  rfl

theorem webcreator_returns {created : Created} (returned : env.webcreator fuel = .returns created) :
    ∃ place next, env.nameSites fuel (allKeys env.w env.p) [] 0 =
        .returns (created.sites, place) ∧
      env.writePages fuel created.sites (env.keyOrder (allKeys env.w env.p)) place =
        .returns (created.pages, next) ∧
      created.report = env.linkReport created.pages := by
  obtain ⟨⟨sites, place⟩, named, rest⟩ := Outcome.bind_eq_returns returned
  obtain ⟨⟨pages, next⟩, written, done⟩ := Outcome.bind_eq_returns rest
  cases done
  exact ⟨place, next, named, written, rfl⟩

end Pages

end CreatorEnv

end WebCrawl
