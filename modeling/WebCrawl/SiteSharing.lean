import WebCrawl.CreatedSite
import WebCrawl.PathSharing

/-!
# The created sites get to the workers

From one end of the repository to the other: `webcreator.sh` writes a site, the server
serves it, the crawler copies what it reaches into an empty directory, `bashls` lists this
directory, and the job executor shares the listed paths among its workers.  What the
workers take are the directories of the sites that have a page which drawn links lead
to.  The name of the directory is one that the shell takes as it is and that stands for
no other one, `ls` can read it, and two names of files stand for two files.
-/

namespace WebCrawl

/-- The name of the directory of a site. -/
def siteName (site : Nat) : List Char :=
  "site".toList ++ Nat.toDigits 10 site

/-- A name that `ls` gives for a directory: a file goes by it there, or by a longer name
behind a slash. -/
structure IsEntry (files : CString → Option (List Char)) (dir name : CString) : Prop where
  nonempty : name.chars ≠ []
  noSlash : '/' ∉ name.chars
  visible : name.chars.head? ≠ some '.'
  exists_file : ∃ path rest, files path ≠ none ∧
    path.chars = dir.chars ++ '/' :: (name.chars ++ rest) ∧
      (rest = [] ∨ rest.head? = some '/')

/-- The listing has each entry of its directory once. -/
structure Lists (files : CString → Option (List Char)) (listing : Listing) : Prop where
  once : listing.files.Nodup
  entries : ∀ name, name ∈ listing.files ↔ IsEntry files listing.dir name

section Names

/-- The name of a site has letters and digits only. -/
theorem not_mem_siteName (site : Nat) {char : Char} (other : char.isAlphanum = false) :
    char ∉ siteName site := by
  intro member
  rcases List.mem_append.mp member with letter | digit
  · have alphanum : "site".toList.all Char.isAlphanum = true := by decide
    rw [List.all_eq_true.mp alphanum char letter] at other
    cases other
  · have isDigit := Nat.isDigit_of_mem_toDigits (by decide : 0 < 10) (by decide : 10 ≤ 10) digit
    rw [Char.isAlphanum, isDigit, Bool.or_true] at other
    cases other

theorem siteName_ne_nil (site : Nat) : siteName site ≠ [] := by
  simp [siteName]

/-- The shell takes the name of a site as it is. -/
theorem siteName_plain (site : Nat) :
    WordExpansion.Plain newlineOnly patternCharacters (siteName site) := by
  have others : ∀ chars : List Char, (chars.all fun char => !char.isAlphanum) = true →
      ∀ char ∈ siteName site, char ∉ chars := by
    intro chars noAlphanum char member other
    have notAlphanum := List.all_eq_true.mp noAlphanum char other
    rw [Bool.not_eq_true'] at notAlphanum
    exact not_mem_siteName site notAlphanum member
  exact ⟨siteName_ne_nil site, others newlineOnly (by decide), others patternCharacters (by decide)⟩

theorem SitePage.path_split (page : SitePage) :
    ∃ rest, page.path = '/' :: (siteName page.site ++ '/' :: rest) := by
  have start : "/site".toList = '/' :: "site".toList := rfl
  have middle : "/page".toList = '/' :: "page".toList := rfl
  refine ⟨"page".toList ++ (Nat.toDigits 10 page.site ++ ("_".toList ++
    (Nat.toDigits 10 page.number.val ++ ".html".toList))), ?_⟩
  unfold SitePage.path siteName
  simp only [start, middle, List.append_assoc, List.cons_append]

/-- A page is saved by the name that the directory and its own name make. -/
theorem savedName_chars (env : CrawlerEnv) (page : SitePage) :
    (savedName env page.name).chars = env.saveDir.chars ++ page.path := by
  have name : page.name.chars = page.path := rfl
  have last : page.path.getLast? = some 'l' := by
    have html : ".html".toList = ".htm".toList ++ ['l'] := rfl
    unfold SitePage.path
    rw [html, ← List.append_assoc, List.getLast?_concat]
  have uncut : ¬ (env.saveDir.strcat page.name).chars.getLast? = some '/' := by
    rw [CString.strcat_chars, List.getLast?_append, name, last]
    simp
  rw [savedName, cutSlash, if_neg uncut, CString.strcat_chars, name]

/-- Only one front of a text is without a slash and reaches to the first one. -/
theorem front_unique {front other rest more : List Char} (noSlash : '/' ∉ front)
    (otherNoSlash : '/' ∉ other) (same : front ++ '/' :: rest = other ++ '/' :: more) :
    front = other := by
  induction front generalizing other with
  | nil =>
      cases other with
      | nil => rfl
      | cons letter other =>
          cases same
          exact absurd List.mem_cons_self otherNoSlash
  | cons letter front ih =>
      cases other with
      | nil =>
          cases same
          exact absurd List.mem_cons_self noSlash
      | cons first other =>
          obtain ⟨rfl, later⟩ := List.cons.inj same
          rw [ih (fun member => noSlash (List.mem_cons_of_mem _ member))
            (fun member => otherNoSlash (List.mem_cons_of_mem _ member)) later]

end Names

namespace HostedSite

variable {creator : PageCreator} {fuel : Nat} {server : ServerEnv} {created : Created}
variable {files : List PageCreator.PageFile} {first : WrittenPage} {env : CrawlerEnv}
variable {threads : Nat} {state : MirrorState threads CString}

section Entries

/-- A page of the site that drawn links lead to, or the first one itself. -/
def Copied (created : Created) (first written : WrittenPage) : Prop :=
  written ∈ created.pages ∧ Linked created.pages first.page written.page

theorem savedName_apart (site : HostedSite creator fuel server created files) :
    ∀ written ∈ created.pages, ∀ other ∈ created.pages,
      id (savedName env written.page.name) = id (savedName env other.page.name) →
        written = other := by
  intro written isPage other isOther same
  have names := congrArg CString.chars same
  simp only [id, savedName_chars, List.append_cancel_left_eq] at names
  exact site.page_unique isOther isPage (SitePage.path_injective names)

/-- The files behind a finished crawl that started with none. -/
theorem file_iff (site : HostedSite creator fuel server created files)
    (mirrored : Mirrored created files first env id (fun _ => none) state) (path : CString) :
    state.files path ≠ none ↔
      ∃ written, Copied created first written ∧ savedName env written.page.name = path := by
  constructor
  · intro exists_file
    by_contra noCopy
    refine exists_file (mirrored.unchanged path fun written isPage linked same => ?_)
    exact noCopy ⟨written, ⟨isPage, linked⟩, same⟩
  · rintro ⟨written, ⟨isPage, linked⟩, rfl⟩ none
    obtain ⟨text, isFile⟩ := site.file_of_page isPage
    have copy := mirrored.copies written text isFile linked
    rw [id, none] at copy
    cases copy

/-- The entries of the directory are the names of the sites with a page that was copied. -/
theorem isEntry_iff (site : HostedSite creator fuel server created files)
    (mirrored : Mirrored created files first env id (fun _ => none) state) (name : CString) :
    IsEntry state.files env.saveDir name ↔
      ∃ written, Copied created first written ∧ name.chars = siteName written.page.site := by
  constructor
  · rintro ⟨_, noSlash, _, path, rest, exists_file, chars, ends⟩
    obtain ⟨written, copied, rfl⟩ := (site.file_iff mirrored path).mp exists_file
    obtain ⟨behind, split⟩ := written.page.path_split
    rw [savedName_chars, split, List.append_cancel_left_eq, List.cons.injEq] at chars
    refine ⟨written, copied, ?_⟩
    rcases ends with rfl | slash
    · rw [List.append_nil] at chars
      refine absurd ?_ noSlash
      rw [← chars.2]
      exact List.mem_append_right _ List.mem_cons_self
    · obtain ⟨more, rfl⟩ := List.head?_eq_some_iff.mp slash
      exact (front_unique (not_mem_siteName _ (by decide)) noSlash chars.2).symm
  · rintro ⟨written, copied, chars⟩
    obtain ⟨behind, split⟩ := written.page.path_split
    have visible : '.' ∉ name.chars := chars ▸ not_mem_siteName _ (by decide)
    refine ⟨chars ▸ siteName_ne_nil _, chars ▸ not_mem_siteName _ (by decide),
      fun hidden => visible (List.mem_of_mem_head? hidden), _, '/' :: behind,
      (site.file_iff mirrored _).mpr ⟨written, copied, rfl⟩, ?_, Or.inr rfl⟩
    rw [savedName_chars, split, chars]

end Entries

section Workers

open SharingState (MessageRun AllLeft)

variable {events : List (MirrorEvent threads)} {listing : Listing} {numWorkers : Nat}

theorem siteName_length (site : HostedSite creator fuel server created files)
    {written : WrittenPage} (isPage : written ∈ created.pages) :
    (siteName written.page.site).length ≤ 23 := by
  have digits := site.siteDigits_length isPage
  have word : "site".toList.length = 4 := rfl
  rw [siteName, List.length_append, word]
  omega

/-- There is a listing of the directory, with no more entries than the site has pages. -/
theorem exists_lists (site : HostedSite creator fuel server created files)
    (mirrored : Mirrored created files first env id (fun _ => none) state)
    (dirPlain : WordExpansion.Plain blanks patternCharacters env.saveDir.chars) :
    ∃ listing : Listing, listing.dir = env.saveDir ∧ Lists state.files listing ∧
      listing.files.length ≤ created.pages.length := by
  classical
  have inside : (created.pages.filter fun written => Copied created first written).length ≤
      created.pages.length := List.length_filter_le _ _
  obtain ⟨names, isNames⟩ : ∃ names : List CString, names =
      (created.pages.filter fun written => Copied created first written).map fun written =>
        ⟨siteName written.page.site, not_mem_siteName _ (by decide)⟩ := ⟨_, rfl⟩
  have mem_names : ∀ name, name ∈ names.dedup ↔
      ∃ written, Copied created first written ∧ name.chars = siteName written.page.site := by
    intro name
    rw [List.mem_dedup, isNames, List.mem_map]
    constructor
    · rintro ⟨written, member, rfl⟩
      exact ⟨written, of_decide_eq_true (List.mem_filter.mp member).2, rfl⟩
    · rintro ⟨written, copied, same⟩
      exact ⟨written, List.mem_filter.mpr ⟨copied.1, decide_eq_true copied⟩,
        CString.ext same.symm⟩
  refine ⟨⟨env.saveDir, names.dedup, dirPlain, fun name member => ?_⟩, rfl,
    ⟨List.nodup_dedup names, fun name => ?_⟩, ?_⟩
  · obtain ⟨written, _, same⟩ := (mem_names name).mp member
    rw [same]
    exact siteName_plain _
  · rw [mem_names, site.isEntry_iff mirrored]
  · refine (List.dedup_sublist names).length_le.trans ?_
    rw [isNames, List.length_map]
    exact inside

/-- The listed paths are those of the sites with a copied page. -/
theorem mem_paths_iff (site : HostedSite creator fuel server created files)
    (mirrored : Mirrored created files first env id (fun _ => none) state)
    (isDir : listing.dir = env.saveDir) (lists : Lists state.files listing) (path : CString) :
    path ∈ listing.paths ↔ ∃ written, Copied created first written ∧
      path.chars = env.saveDir.chars ++ '/' :: siteName written.page.site := by
  have chars : ∀ name, (listing.path name).chars = env.saveDir.chars ++ '/' :: name.chars :=
    fun name => isDir ▸ Listing.path_chars name
  have entries : ∀ name, name ∈ listing.files ↔
      ∃ written, Copied created first written ∧ name.chars = siteName written.page.site := by
    intro name
    rw [lists.entries, isDir, site.isEntry_iff mirrored]
  constructor
  · intro member
    obtain ⟨name, isFile, rfl⟩ := List.mem_map.mp member
    obtain ⟨written, copied, same⟩ := (entries name).mp isFile
    exact ⟨written, copied, by rw [chars, same]⟩
  · rintro ⟨written, copied, same⟩
    have isName := (entries ⟨_, not_mem_siteName _ (by decide)⟩).mpr ⟨written, copied, rfl⟩
    refine List.mem_map.mpr ⟨_, isName, CString.ext ?_⟩
    rw [chars, same]

theorem paths_nodup (lists : Lists state.files listing) : listing.paths.Nodup := by
  refine lists.once.map fun name other same => CString.ext ?_
  have chars := congrArg CString.chars same
  simpa [Listing.path] using chars

theorem paths_short (site : HostedSite creator fuel server created files)
    (mirrored : Mirrored created files first env id (fun _ => none) state)
    (isDir : listing.dir = env.saveDir) (lists : Lists state.files listing) :
    ∀ path ∈ listing.paths, path.chars.length ≤ env.saveDir.chars.length + 24 := by
  intro path member
  obtain ⟨written, copied, same⟩ := (site.mem_paths_iff mirrored isDir lists path).mp member
  have length := site.siteName_length copied.1
  rw [same, List.length_append, List.length_cons]
  omega

/-- Whatever the interleavings of the crawl and of the sharing are: when the crawl of a
created site is finished, `ls` could read the directory and the workers have left their
loops, they have taken exactly the directories of the sites with a page that drawn links
lead to, each once. -/
theorem sites_reach_workers (site : HostedSite creator fuel server created files)
    (isFirst : first ∈ created.pages)
    (run : MirrorState.Run env id (Serves server) first.page.name (fun _ => none) events state)
    (seen : state.crawl.crawlingFinished = true) (isDir : listing.dir = env.saveDir)
    (lists : Lists state.files listing) {shell : Shell} (gives : shell.Gives listing)
    (someWorker : 0 < numWorkers) (few : numWorkers < 5000)
    (fits : (listing.files.length + numWorkers - 1) / numWorkers * numWorkers < 2 ^ 31)
    (short : env.saveDir.chars.length < 2 ^ 30) :
    ∃ found writes,
      Outcome.Settles (getFileOfPaths · (bashls shell env.saveDir) 16) (.returns found) ∧
      HoldsPaths found.nodes found.P (listing.paths.map CString.chars) ∧
      Outcome.Settles (fun fuel => jobExecutor fuel numWorkers listing.paths) (.returns writes) ∧
      (∀ more sharing, MessageRun numWorkers writes more sharing → AllLeft numWorkers sharing →
        ((List.range numWorkers).flatMap sharing.processed).Nodup ∧
        ∀ path, path ∈ (List.range numWorkers).flatMap sharing.processed ↔
          ∃ written, Copied created first written ∧
            path.chars = env.saveDir.chars ++ '/' :: siteName written.page.site) ∧
      (env.saveDir.chars.length + 24 < strSize →
        ∃ more sharing, MessageRun numWorkers writes more sharing ∧
          AllLeft numWorkers sharing) := by
  have mirrored := site.mirrored isFirst site.savedName_apart run seen
  have paths := site.paths_short mirrored isDir lists
  have number : listing.paths.length = listing.files.length := by
    rw [Listing.paths, List.length_map]
  have absent := listing.stop_not_mem
  refine ⟨_, _, isDir ▸ getFileOfPaths_bashls gives, chain_holds [] listing.paths,
    jobExecutor_writes someWorker few ?_ fun path member => ?_, fun more sharing shares left => ?_,
    fun fit => SharingState.exists_allLeft someWorker absent fun path member => ?_⟩
  · unfold fullRounds
    simp only [number, fits]
  · have length := paths path member
    omega
  · have perm := ((shares.shared absent).sharedOut someWorker).once left
    refine ⟨perm.nodup_iff.mpr (paths_nodup lists), fun path => ?_⟩
    rw [perm.mem_iff, site.mem_paths_iff mirrored isDir lists]
  · have length := paths path member
    omega

theorem sites_reach_workers_letters :
    ∃ (state : MirrorState 1 CString) (listing : Listing) (sharing : SharingState),
      state.crawl.crawlingFinished = true ∧ Lists state.files listing ∧ AllLeft 5 sharing ∧
      ∃ path ∈ (List.range 5).flatMap sharing.processed,
        path.chars = openDirectory.saveDir.chars ++ '/' :: siteName 0 := by
  obtain ⟨files, site⟩ := letters_hosted
  have isFirst : CreatorEnv.firstLetterPage ∈ PageCreator.lettersSite.pages :=
    List.mem_cons_self
  have savable : ∀ written ∈ PageCreator.lettersSite.pages,
      Savable openDirectory written.page.name := by
    intro written isPage
    rcases List.mem_pair.mp isPage with rfl | rfl <;> exact ⟨by decide, rfl⟩
  have begun : MirrorState.Run openDirectory id (Serves (directoryServer files))
      CreatorEnv.firstLetterPage.page.name (fun _ => none) []
      (MirrorState.initial 1 CreatorEnv.firstLetterPage.page.name fun _ => none) := .start
  obtain ⟨more, state, run, seen⟩ :=
    site.exists_finished isFirst (Nat.le_refl 1) savable begun
  have mirrored := site.mirrored isFirst site.savedName_apart run seen
  obtain ⟨listing, isDir, lists, few⟩ := site.exists_lists mirrored (by decide)
  have two : PageCreator.lettersSite.pages.length = 2 := rfl
  have gives : (Shell.listing (listing.files.flatMap fun file => file.chars ++ ['\n'])).Gives
      listing := rfl
  obtain ⟨_, _, _, _, _, shared, onwards⟩ := site.sites_reach_workers isFirst run seen isDir lists
    gives (by decide : 0 < 5) (by decide) (by omega) (by decide)
  obtain ⟨_, sharing, shares, left⟩ := onwards (by decide)
  have isPath : ((openDirectory.saveDir.strcat slash).strcat
      ⟨siteName 0, not_mem_siteName 0 (by decide)⟩).chars =
        openDirectory.saveDir.chars ++ '/' :: siteName 0 := by
    rw [CString.strcat_chars, CString.strcat_chars, slash_chars]
    simp
  have taken := ((shared _ sharing shares left).2 _).mpr
    ⟨CreatorEnv.firstLetterPage, ⟨isFirst, .refl⟩, isPath⟩
  exact ⟨state, listing, sharing, seen, lists, left, _, taken, isPath⟩

end Workers

end HostedSite

end WebCrawl
