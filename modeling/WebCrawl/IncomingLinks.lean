import WebCrawl.LinkQuota
import Mathlib.Data.List.Perm.Subperm

/-!
# Whether every page has an incoming link

The paths of the pages that have an incoming link are the keys of an array, and
in the end their number is compared with that of all pages.  The comparison is
right, since the links lead to pages of the run, and no two pages of it have the
same path: a set of some of the paths is as large as that of all of them only if
it has them all.
-/

namespace WebCrawl

namespace CreatorEnv

variable {env : CreatorEnv} {fuel : Nat} {created : Created}

section Haslink

theorem mem_foldl_insert {targets keys : List (List Char)} {path : List Char} :
    path ∈ targets.foldl (fun keys site => keys.insert site) keys ↔
      path ∈ keys ∨ path ∈ targets := by
  induction targets generalizing keys with
  | nil => simp
  | cons target targets ih =>
      rw [List.foldl_cons, ih, List.mem_insert_iff, List.mem_cons, or_comm (a := path = target),
        or_assoc]

theorem mem_haslink {pages : List WrittenPage} {path : List Char} :
    path ∈ haslink pages ↔
      ∃ written ∈ pages, ∃ link ∈ written.links, link.target.path = path := by
  rw [haslink, mem_foldl_insert]
  simp

end Haslink

/-- The pages that were written are those that were named. -/
theorem pages_perm (returned : env.webcreator fuel = .returns created) :
    (created.pages.map WrittenPage.page).Perm created.sites.pages := by
  obtain ⟨place, next, named, written, _⟩ := webcreator_returns returned
  have sitesNamed := nameSites_named .nil named
  have keys := writePages_keys written
  have keysNodup : (created.pages.map WrittenPage.key).Nodup := by
    rw [keys, (env.keyOrder_perm _).nodup_iff]
    exact allKeys_nodup env.w env.p
  have entriesNodup : (created.pages.map fun written => (written.key, written.page)).Nodup :=
    List.Nodup.of_map Prod.fst (by simpa [Function.comp_def] using keysNodup)
  have isEntry : (created.pages.map fun written => (written.key, written.page)) ⊆
      created.sites := by
    intro entry member
    obtain ⟨page, isPage, rfl⟩ := List.mem_map.mp member
    obtain ⟨key, _, _, single⟩ := writePages_mem written isPage
    obtain ⟨rfl, isEntry, _⟩ := writePage_returns single
    exact isEntry
  have lengths : created.sites.length ≤
      (created.pages.map fun written => (written.key, written.page)).length := by
    have sitesLength := congrArg List.length sitesNamed.sameKeys
    have pagesLength := congrArg List.length keys
    rw [(env.keyOrder_perm _).length_eq] at pagesLength
    simp only [List.length_map, List.nil_append] at sitesLength pagesLength ⊢
    omega
  have entries := (List.subperm_of_subset entriesNodup isEntry).perm_of_length_le lengths
  simpa [Sites.pages, Function.comp_def] using entries.map Prod.snd

theorem paths_nodup (returned : env.webcreator fuel = .returns created) :
    (created.pages.map fun written => written.page.path).Nodup := by
  obtain ⟨place, next, named, written, _⟩ := webcreator_returns returned
  have pathsNodup := (nameSites_named .nil named).pathsNodup
  have paths := (pages_perm returned).map SitePage.path
  rw [List.map_map] at paths
  exact paths.nodup_iff.mpr pathsNodup

theorem haslink_subset (returned : env.webcreator fuel = .returns created) :
    haslink created.pages ⊆ created.pages.map fun written => written.page.path := by
  intro path member
  obtain ⟨place, next, named, pages, _⟩ := webcreator_returns returned
  obtain ⟨written, isPage, link, isLink, rfl⟩ := mem_haslink.mp member
  obtain ⟨key, _, _, single⟩ := writePages_mem pages isPage
  obtain ⟨_, _, added⟩ := writePage_returns single
  have isTarget := addLinks_target added link isLink
  rw [← (pages_perm returned).mem_iff, List.mem_map] at isTarget
  obtain ⟨target, targetPage, sameTarget⟩ := isTarget
  exact List.mem_map.mpr ⟨target, targetPage, congrArg SitePage.path sameTarget⟩

end CreatorEnv

end WebCrawl
