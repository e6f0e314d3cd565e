import WebCrawl.CreatedPages
import WebCrawl.IncomingLinks
import WebCrawl.SiteMirror

/-!
# A created site is mirrored

The three programs together: `webcreator.sh` writes a site, the server serves
its directory and the crawler starts at one of its pages.  The links that the
crawler follows are those that were drawn, so the pages that it copies are those
that the drawn links lead to from the first one.
-/

namespace WebCrawl

/-- The name by which the crawler asks for a page. -/
def SitePage.name (page : SitePage) : CString :=
  ⟨page.path, page.not_mem_path (by decide)⟩

/-- A link that was drawn for a page. -/
def Drawn (pages : List WrittenPage) (page target : SitePage) : Prop :=
  ∃ written ∈ pages, written.page = page ∧ ∃ link ∈ written.links, link.target = target

/-- The pages that drawn links lead to. -/
abbrev Linked (pages : List WrittenPage) (start target : SitePage) : Prop :=
  Relation.ReflTransGen (Drawn pages) start target

/-- The links that the loop extracts are those that it meets. -/
theorem extractLinks_extracts {fuel : Nat} {scan : LinkScan} {links : List CString}
    (extracted : extractLinks fuel scan = .returns links) (link : CString) :
    scan.Extracts link ↔ link ∈ links := by
  induction fuel generalizing scan links with
  | zero => cases extracted
  | succ fuel ih =>
      rw [extractLinks] at extracted
      obtain ⟨action, round, rest⟩ := Outcome.bind_eq_returns extracted
      cases action with
      | finished =>
          cases rest
          simp [LinkScan.not_extracts_of_finished round]
      | skipped after =>
          rw [LinkScan.extracts_of_skipped round]
          exact ih rest
      | extracted first after =>
          obtain ⟨others, later, done⟩ := Outcome.bind_eq_returns rest
          cases done
          rw [LinkScan.extracts_of_extracted round, ih later, List.mem_cons]

/-- The links of a page without a broken one are the targets of its lines. -/
theorem extracts_iff {content : CString} (closed : LinksClosed content.chars)
    (link : CString) :
    (LinkScan.start content).Extracts link ↔ link.chars ∈ pageTargets content.chars := by
  obtain ⟨result, ⟨bound, settled⟩, loop⟩ :=
    extractLinks_settles (LinkScan.ahead_start content)
  rcases loop with ⟨_, links, rfl, targets⟩ | ⟨unclosed, _⟩
  · have returned := settled bound
    rw [if_neg (Nat.lt_irrefl bound)] at returned
    rw [extractLinks_extracts returned, pageTargets, ← targets]
    constructor
    · exact List.mem_map_of_mem
    · intro member
      obtain ⟨other, isLink, same⟩ := List.mem_map.mp member
      exact CString.ext same ▸ isLink
  · exact absurd closed unclosed

/-- A site that the script wrote and the server serves.  No line that it takes from the
text starts like a link, and the shell's numbers are of 64 bits. -/
structure HostedSite (creator : PageCreator) (fuel : Nat) (server : ServerEnv)
    (created : Created) (files : List PageCreator.PageFile) : Prop where
  returned : creator.createSite fuel = .returns (created, files)
  sites : creator.w < 2 ^ 63
  whole : ∀ written ∈ created.pages, ∀ word ∈ creator.lineWords written.k written.m,
    WholeLines (creator.echo word).chars
  plain : ∀ written ∈ created.pages, ∀ word ∈ creator.lineWords written.k written.m,
    ∀ line ∈ pageLines (creator.echo word).chars, ¬ linkStart <+: line
  hosted : ∀ file ∈ files,
    server.file (pagePath server.rootDir file.1.page.name) = .readable file.2
  small : ∀ file ∈ files, file.2.length < 2 ^ 31 - 1

namespace HostedSite

variable {creator : PageCreator} {fuel : Nat} {server : ServerEnv} {created : Created}
variable {files : List PageCreator.PageFile} {written first : WrittenPage} {text : List Char}

section Pages

theorem file_of_page (site : HostedSite creator fuel server created files)
    (isPage : written ∈ created.pages) : ∃ text, (written, text) ∈ files := by
  rw [← PageCreator.createSite_pages site.returned] at isPage
  obtain ⟨⟨_, text⟩, isFile, rfl⟩ := List.mem_map.mp isPage
  exact ⟨text, isFile⟩

theorem page_of_file (site : HostedSite creator fuel server created files)
    (isFile : (written, text) ∈ files) : written ∈ created.pages := by
  rw [← PageCreator.createSite_pages site.returned]
  exact List.mem_map_of_mem isFile

theorem readBack (site : HostedSite creator fuel server created files)
    (isFile : (written, text) ∈ files) :
    PageCreator.ReadBack creator (creator.lineWords written.k written.m) written.links text :=
  PageCreator.createSite_readBack (site.whole written (site.page_of_file isFile))
    site.returned isFile

theorem noTargets (site : HostedSite creator fuel server created files)
    (isPage : written ∈ created.pages) :
    ∀ word ∈ creator.lineWords written.k written.m,
      pageTargets (creator.echo word).chars = [] :=
  fun word isWord => pageTargets_eq_nil_iff.mpr (site.plain written isPage word isWord)

/-- Two pages that go by one name are the same. -/
theorem page_unique (site : HostedSite creator fuel server created files)
    {other : WrittenPage} (isPage : written ∈ created.pages) (isOther : other ∈ created.pages)
    (same : other.page = written.page) : other = written := by
  have paths := CreatorEnv.paths_nodup (PageCreator.createSite_webcreator site.returned)
  exact List.inj_on_of_nodup_map paths isOther isPage (congrArg SitePage.path same)

/-- A link that was drawn leads to a page that was written. -/
theorem drawn_page (site : HostedSite creator fuel server created files)
    {page target : SitePage} (drawn : Drawn created.pages page target) :
    ∃ other ∈ created.pages, other.page = target := by
  obtain ⟨written, isPage, _, link, isLink, rfl⟩ := drawn
  have linked : link.target.path ∈ CreatorEnv.haslink created.pages :=
    CreatorEnv.mem_haslink.mpr ⟨written, isPage, link, isLink, rfl⟩
  obtain ⟨other, isOther, same⟩ := List.mem_map.mp
    (CreatorEnv.haslink_subset (PageCreator.createSite_webcreator site.returned) linked)
  exact ⟨other, isOther, SitePage.path_injective same⟩

theorem linked_page (site : HostedSite creator fuel server created files)
    (isFirst : first ∈ created.pages) {target : SitePage}
    (linked : Linked created.pages first.page target) :
    ∃ other ∈ created.pages, other.page = target := by
  cases linked with
  | refl => exact ⟨first, isFirst, rfl⟩
  | tail _ drawn => exact site.drawn_page drawn

theorem site_lt (site : HostedSite creator fuel server created files)
    (isPage : written ∈ created.pages) : written.page.site < creator.w := by
  have returned := PageCreator.createSite_webcreator site.returned
  obtain ⟨place, next, named, _, _⟩ := CreatorEnv.webcreator_returns returned
  have sitesNamed := CreatorEnv.nameSites_named .nil named
  have isNamed : written.page ∈ created.sites.pages :=
    (CreatorEnv.pages_perm returned).mem_iff.mp (List.mem_map_of_mem isPage)
  obtain ⟨entry, isEntry, same⟩ := List.mem_map.mp isNamed
  have isKey : entry.1 ∈ allKeys creator.w creator.p := by
    rw [← List.nil_append (allKeys _ _), ← sitesNamed.sameKeys]
    exact List.mem_map_of_mem isEntry
  rw [← same, sitesNamed.sameSite entry isEntry]
  exact (mem_allKeys.mp isKey).1

theorem siteDigits_length (site : HostedSite creator fuel server created files)
    (isPage : written ∈ created.pages) : (Nat.toDigits 10 written.page.site).length ≤ 19 := by
  have inside := site.site_lt isPage
  have limit := site.sites
  rw [Nat.length_toDigits_le_iff (by decide) (by decide)]
  omega

theorem path_length (site : HostedSite creator fuel server created files)
    (isPage : written ∈ created.pages) : written.page.path.length ≤ 60 := by
  have digits := site.siteDigits_length isPage
  have number : (Nat.toDigits 10 written.page.number.val).length ≤ 5 := by
    rw [Nat.length_toDigits_le_iff (by decide) (by decide)]
    omega
  have whole : ∀ {start middle underscore html : List Char} (i j number : List Char),
      start.length = 5 → middle.length = 5 → underscore.length = 1 → html.length = 5 →
      (start ++ i ++ middle ++ j ++ underscore ++ number ++ html).length =
        i.length + j.length + number.length + 16 := by
    intro start middle underscore html i j number five five' one five''
    simp only [List.length_append]
    omega
  have length : written.page.path.length =
      (Nat.toDigits 10 written.page.site).length + (Nat.toDigits 10 written.page.site).length +
        (Nat.toDigits 10 written.page.number.val).length + 16 :=
    whole _ _ _ (by decide) (by decide) (by decide) (by decide)
  omega

end Pages

section Serving

/-- The answer to a page of the site is the text that was written. -/
theorem answer (site : HostedSite creator fuel server created files)
    (isFile : (written, text) ∈ files) :
    (server.web written.page.name).code = 200 ∧
      (server.web written.page.name).answer.content.chars = text ∧
      (server.web written.page.name).contentSize = text.length := by
  have readable := site.hosted _ isFile
  obtain ⟨accepted, same⟩ := web_readable readable
  have nulFree := (site.readBack isFile).nulFree
  refine ⟨accepted, same.trans (cstr_of_nulFree nulFree), ?_⟩
  rw [ServerEnv.web, readable]
  simp only [FileAccess.received, FileAccess.response, strlen]
  rw [cstr_append_nul nulFree]

theorem fetchable (site : HostedSite creator fuel server created files)
    (isPage : written ∈ created.pages) : Fetchable server written.page.name := by
  obtain ⟨text, isFile⟩ := site.file_of_page isPage
  have length := site.path_length isPage
  refine
    { requestable :=
        { noReturn := written.page.not_mem_path (by decide)
          noNewline := written.page.not_mem_path (by decide)
          fits := ?_ }
      small := ?_ }
  · rw [requestText_length]
    change written.page.path.length + 186 < 10000
    omega
  · rw [site.hosted _ isFile]
    simp only [FileAccess.response, strlen]
    rw [cstr_append_nul (site.readBack isFile).nulFree]
    exact site.small _ isFile

theorem closed (site : HostedSite creator fuel server created files)
    (isPage : written ∈ created.pages) :
    LinksClosed (server.web written.page.name).answer.content.chars := by
  obtain ⟨text, isFile⟩ := site.file_of_page isPage
  rw [(site.answer isFile).2.1]
  exact (site.readBack isFile).closed (site.noTargets isPage)

/-- The links that the crawler finds in a page are those that were drawn for it. -/
theorem links_iff (site : HostedSite creator fuel server created files)
    (isPage : written ∈ created.pages) (link : CString) :
    Links (fun page => (server.web page).answer) written.page.name link ↔
      ∃ target, Drawn created.pages written.page target ∧ target.name = link := by
  obtain ⟨text, isFile⟩ := site.file_of_page isPage
  obtain ⟨accepted, same, _⟩ := site.answer isFile
  have targets := (site.readBack isFile).targets (site.noTargets isPage)
  rw [Links, extracts_iff (site.closed isPage), same, targets]
  constructor
  · rintro ⟨_, isTarget⟩
    obtain ⟨drawn, isLink, path⟩ := List.mem_map.mp isTarget
    exact ⟨drawn.target, ⟨written, isPage, rfl, drawn, isLink, rfl⟩, CString.ext path⟩
  · rintro ⟨_, ⟨other, isOther, samePage, drawn, isLink, rfl⟩, rfl⟩
    cases site.page_unique isPage isOther samePage
    exact ⟨accepted, List.mem_map.mpr ⟨drawn, isLink, rfl⟩⟩

/-- The crawler reaches the pages that the drawn links lead to. -/
theorem reaches_iff (site : HostedSite creator fuel server created files)
    (isFirst : first ∈ created.pages) (page : CString) :
    Reaches server.web first.page.name page ↔
      ∃ target, Linked created.pages first.page target ∧ target.name = page := by
  constructor
  · intro reached
    induction reached with
    | refl => exact ⟨_, .refl, rfl⟩
    | tail _ link ih =>
        obtain ⟨middle, linked, rfl⟩ := ih
        obtain ⟨written, isPage, rfl⟩ := site.linked_page isFirst linked
        obtain ⟨target, drawn, named⟩ := (site.links_iff isPage _).mp link
        exact ⟨target, linked.tail drawn, named⟩
  · rintro ⟨target, linked, rfl⟩
    induction linked with
    | refl => exact .refl
    | tail linked drawn ih =>
        obtain ⟨written, isPage, rfl⟩ := site.linked_page isFirst linked
        exact ih.tail ((site.links_iff isPage _).mpr ⟨_, drawn, rfl⟩)

theorem reached_page (site : HostedSite creator fuel server created files)
    (isFirst : first ∈ created.pages) {page : CString}
    (reached : Reaches server.web first.page.name page) :
    ∃ written ∈ created.pages, written.page.name = page ∧
      Linked created.pages first.page written.page := by
  obtain ⟨target, linked, rfl⟩ := (site.reaches_iff isFirst page).mp reached
  obtain ⟨written, isPage, rfl⟩ := site.linked_page isFirst linked
  exact ⟨written, isPage, rfl, linked⟩

end Serving

section Copies

variable {threads : Nat} {Place : Type*} [DecidableEq Place]
variable {env : CrawlerEnv} {place : CString → Place} {before : Place → Option (List Char)}
variable {events : List (MirrorEvent threads)} {state : MirrorState threads Place}

theorem names_nodup (site : HostedSite creator fuel server created files) :
    (files.map fun file => file.1.page.name).Nodup := by
  have paths := CreatorEnv.paths_nodup (PageCreator.createSite_webcreator site.returned)
  rw [← PageCreator.createSite_pages site.returned, List.map_map] at paths
  apply List.Nodup.of_map CString.chars
  rwa [List.map_map]

/-- The pages that are found are those whose files are linked. -/
theorem found_perm (site : HostedSite creator fuel server created files)
    (isFirst : first ∈ created.pages) {pages : List CString} (nodup : pages.Nodup)
    (isFound : ∀ page, page ∈ pages ↔ Found server.web first.page.name page)
    {copied : List PageCreator.PageFile} (inside : copied.Sublist files)
    (isCopied : ∀ file ∈ files,
      file ∈ copied ↔ Linked created.pages first.page file.1.page) :
    pages.Perm (copied.map fun file => file.1.page.name) := by
  rw [List.perm_ext_iff_of_nodup nodup (site.names_nodup.sublist (inside.map _))]
  intro page
  rw [isFound, List.mem_map]
  constructor
  · rintro ⟨reached, _⟩
    obtain ⟨written, isPage, rfl, linked⟩ := site.reached_page isFirst reached
    obtain ⟨text, isFile⟩ := site.file_of_page isPage
    exact ⟨_, (isCopied _ isFile).mpr linked, rfl⟩
  · rintro ⟨file, isCopy, rfl⟩
    have isFile := inside.subset isCopy
    exact ⟨(site.reaches_iff isFirst _).mpr ⟨_, (isCopied file isFile).mp isCopy, rfl⟩,
      (site.answer isFile).1⟩

theorem sizes_of_perm (site : HostedSite creator fuel server created files)
    {pages : List CString} {copied : List PageCreator.PageFile} (inside : copied.Sublist files)
    (perm : pages.Perm (copied.map fun file => file.1.page.name)) :
    (pages.map fun page => (server.web page).contentSize).sum =
      (copied.map fun file => (file.2.length : Int)).sum := by
  rw [(perm.map _).sum_eq, List.map_map]
  refine congrArg List.sum (List.map_congr_left fun file isCopy => ?_)
  exact (site.answer (inside.subset isCopy)).2.2

theorem fetchable_of_reached (site : HostedSite creator fuel server created files)
    (isFirst : first ∈ created.pages) {page : CString}
    (reached : Reaches server.web first.page.name page) : Fetchable server page := by
  obtain ⟨written, isPage, rfl, _⟩ := site.reached_page isFirst reached
  exact site.fetchable isPage

/-- What a finished crawl has left: the text of each page that drawn links lead to, no
other change, and counters of the copies and their bytes. -/
structure Mirrored (created : Created) (files : List PageCreator.PageFile)
    (first : WrittenPage) (env : CrawlerEnv) (place : CString → Place)
    (before : Place → Option (List Char)) (state : MirrorState threads Place) : Prop where
  copies : ∀ written text, (written, text) ∈ files →
    Linked created.pages first.page written.page →
    state.files (place (savedName env written.page.name)) = some text
  unchanged : ∀ path,
    (∀ written ∈ created.pages, Linked created.pages first.page written.page →
      place (savedName env written.page.name) ≠ path) → state.files path = before path
  counted : ∃ copied : List PageCreator.PageFile, copied.Sublist files ∧
    (∀ file ∈ files, file ∈ copied ↔ Linked created.pages first.page file.1.page) ∧
    state.pagesDownloaded = toInt copied.length ∧
    state.bytesDownloaded = toInt (copied.map fun file => (file.2.length : Int)).sum

theorem mirrored (site : HostedSite creator fuel server created files)
    (isFirst : first ∈ created.pages)
    (apart : ∀ written ∈ created.pages, ∀ other ∈ created.pages,
      place (savedName env written.page.name) = place (savedName env other.page.name) →
        written = other)
    (run : MirrorState.Run env place (Serves server) first.page.name before events state)
    (seen : state.crawl.crawlingFinished = true) :
    Mirrored created files first env place before state := by
  classical
  have agrees := agrees_of_fetchable fun _ => site.fetchable_of_reached isFirst
  have foundApart : ∀ page other, Found server.web first.page.name page →
      Found server.web first.page.name other →
      place (savedName env page) = place (savedName env other) → page = other := by
    intro page other found otherFound same
    obtain ⟨written, isPage, rfl, _⟩ := site.reached_page isFirst found.1
    obtain ⟨others, isOther, rfl, _⟩ := site.reached_page isFirst otherFound.1
    rw [apart written isPage others isOther same]
  obtain ⟨copies, unchanged, pages, nodup, isFound, downloaded, bytes⟩ :=
    MirrorState.finished_mirrors (run.of_agrees agrees) seen foundApart
  refine ⟨fun written text isFile linked => ?_, fun path noCopy => ?_, ?_⟩
  · obtain ⟨accepted, content, _⟩ := site.answer isFile
    have reached := (site.reaches_iff isFirst _).mpr ⟨written.page, linked, rfl⟩
    exact (copies _ ⟨reached, accepted⟩).trans (congrArg some content)
  · apply unchanged
    intro page found
    obtain ⟨written, isPage, rfl, linked⟩ := site.reached_page isFirst found.1
    exact noCopy written isPage linked
  · have isCopied : ∀ file ∈ files,
        file ∈ files.filter (fun file => Linked created.pages first.page file.1.page) ↔
          Linked created.pages first.page file.1.page := by
      intro file isFile
      rw [List.mem_filter, decide_eq_true_eq]
      exact and_iff_right isFile
    have inside : (files.filter fun file =>
        Linked created.pages first.page file.1.page).Sublist files := List.filter_sublist
    have perm := site.found_perm isFirst nodup isFound inside isCopied
    have count := perm.length_eq
    rw [List.length_map] at count
    have sizes := site.sizes_of_perm inside perm
    exact ⟨_, inside, isCopied, by rw [downloaded, count], by rw [bytes, sizes]⟩

theorem exists_finished (site : HostedSite creator fuel server created files)
    (isFirst : first ∈ created.pages) (positive : 1 ≤ threads)
    (savable : ∀ written ∈ created.pages, Savable env written.page.name)
    (run : MirrorState.Run env place (Serves server) first.page.name before events state) :
    ∃ more after, LabelledRun.Run (MirrorState.Step env place (Serves server)) state more after ∧
      after.crawl.crawlingFinished = true := by
  have agrees := agrees_of_fetchable fun _ => site.fetchable_of_reached isFirst
  have webRun := run.of_agrees agrees
  have bounded : ∀ page, Reaches server.web first.page.name page →
      page ∈ (created.pages.map fun written => written.page.name).toFinset := by
    intro page reached
    obtain ⟨written, isPage, rfl, _⟩ := site.reached_page isFirst reached
    exact List.mem_toFinset.mpr (List.mem_map_of_mem isPage)
  have saves : ∀ page, Found server.web first.page.name page → Savable env page := by
    intro page found
    obtain ⟨written, isPage, rfl, _⟩ := site.reached_page isFirst found.1
    exact savable written isPage
  have crawlable : ∀ page, Reaches server.web first.page.name page →
      CrawlState.Crawlable (server.web page).answer := by
    intro page reached
    obtain ⟨written, isPage, rfl, _⟩ := site.reached_page isFirst reached
    exact crawlable_of_closed (fun _ => site.closed isPage) reached
  obtain ⟨more, after, onwards, seen⟩ :=
    MirrorState.exists_finished saves positive bounded crawlable webRun
  exact ⟨more, after, MirrorState.run_onwards agrees webRun onwards, seen⟩

/-- The script writes a site, the server serves it, and the crawler starts at one of its
pages, with any number of threads in any interleaving and the bytes in any pieces.  The
crawl can always be finished, and when it is finished the pages that drawn links lead to
have been copied. -/
theorem created_site_mirrored (site : HostedSite creator fuel server created files)
    (isFirst : first ∈ created.pages) (positive : 1 ≤ threads)
    (savable : ∀ written ∈ created.pages, Savable env written.page.name)
    (apart : ∀ written ∈ created.pages, ∀ other ∈ created.pages,
      place (savedName env written.page.name) = place (savedName env other.page.name) →
        written = other)
    (run : MirrorState.Run env place (Serves server) first.page.name before events state) :
    (∃ more after,
      LabelledRun.Run (MirrorState.Step env place (Serves server)) state more after ∧
      after.crawl.crawlingFinished = true) ∧
    (state.crawl.crawlingFinished = true →
      Mirrored created files first env place before state) :=
  ⟨site.exists_finished isFirst positive savable run, site.mirrored isFirst apart run⟩

end Copies

end HostedSite

section Letters

open PageCreator (letters lettersSite)

/-- A server with the files of a site, and nothing else. -/
def directoryServer (files : List PageCreator.PageFile) : ServerEnv :=
  { emptySite with
    file := fun path =>
      match files.find? fun file => pagePath emptySite.rootDir file.1.page.name = path with
      | some file => .readable file.2
      | none => .missing }

theorem directoryServer_file {files : List PageCreator.PageFile}
    (nodup : (files.map fun file => file.1.page.name).Nodup)
    {file : PageCreator.PageFile} (isFile : file ∈ files) :
    (directoryServer files).file
        (pagePath (directoryServer files).rootDir file.1.page.name) = .readable file.2 := by
  have isFound : (files.find? fun other =>
      pagePath emptySite.rootDir other.1.page.name =
        pagePath emptySite.rootDir file.1.page.name).isSome := by
    rw [List.find?_isSome]
    exact ⟨file, isFile, decide_eq_true rfl⟩
  obtain ⟨other, found⟩ := Option.isSome_iff_exists.mp isFound
  have selected := List.find?_some found
  have samePath := congrArg CString.chars (of_decide_eq_true selected)
  have sameName : other.1.page.name = file.1.page.name :=
    CString.ext (List.cons.inj (List.append_cancel_left samePath)).2
  have same := List.inj_on_of_nodup_map nodup (List.mem_of_find?_eq_some found) isFile sameName
  change (match files.find? fun other => pagePath emptySite.rootDir other.1.page.name =
    pagePath emptySite.rootDir file.1.page.name with
    | some file => FileAccess.readable file.2
    | none => .missing) = _
  rw [found, same]

theorem letters_hosted : ∃ files,
    HostedSite letters 5 (directoryServer files) lettersSite files := by
  obtain ⟨files, returned⟩ := PageCreator.letters_created
  have isPage : ∀ file ∈ files, file.1 ∈ lettersSite.pages := by
    rw [← PageCreator.createSite_pages returned]
    exact fun file isFile => List.mem_map_of_mem isFile
  have paths := CreatorEnv.paths_nodup (PageCreator.createSite_webcreator returned)
  rw [← PageCreator.createSite_pages returned, List.map_map] at paths
  have names : (files.map fun file => file.1.page.name).Nodup := by
    apply List.Nodup.of_map CString.chars
    rwa [List.map_map]
  refine ⟨files,
    { returned := returned
      sites := by decide
      whole := fun written isWritten word isWord =>
        (PageCreator.letters_plain isWritten isWord).1
      plain := fun written isWritten word isWord =>
        (PageCreator.letters_plain isWritten isWord).2
      hosted := fun file isFile => directoryServer_file names isFile
      small := ?_ }⟩
  rintro ⟨written, text⟩ isFile
  have length := PageCreator.createSite_length returned isFile
  have isWritten := isPage _ isFile
  obtain ⟨count, limit, words⟩ := PageCreator.letters_words isWritten
  have links : (written.links.map fun link => link.anchor.length).sum ≤ 1000 := by
    rcases List.mem_pair.mp isWritten with rfl | rfl <;> decide
  have letter : (letters.echo ['a']).chars.length = 2 := by decide
  rw [PageCreator.bodySize, words, List.map_replicate, letter, List.sum_replicate_nat] at length
  dsimp only
  omega

theorem created_site_mirrored_letters : ∃ files, ∃ state : MirrorState 1 CString,
    state.crawl.crawlingFinished = true ∧
    HostedSite.Mirrored lettersSite files CreatorEnv.firstLetterPage openDirectory id
      (fun _ => none) state := by
  obtain ⟨files, site⟩ := letters_hosted
  have isFirst : CreatorEnv.firstLetterPage ∈ lettersSite.pages := List.mem_cons_self
  have savable : ∀ written ∈ lettersSite.pages, Savable openDirectory written.page.name := by
    intro written isPage
    rcases List.mem_pair.mp isPage with rfl | rfl <;> exact ⟨by decide, rfl⟩
  have apart : ∀ written ∈ lettersSite.pages, ∀ other ∈ lettersSite.pages,
      id (savedName openDirectory written.page.name) =
        id (savedName openDirectory other.page.name) → written = other := by
    decide
  obtain ⟨more, state, run, seen⟩ :=
    (site.created_site_mirrored isFirst (Nat.le_refl 1) savable apart .start).1
  have whole := (site.created_site_mirrored isFirst (Nat.le_refl 1) savable apart run).2
  exact ⟨files, state, seen, whole seen⟩

end Letters

end WebCrawl
