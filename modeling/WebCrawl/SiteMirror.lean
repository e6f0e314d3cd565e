import WebCrawl.CrawlTermination
import WebCrawl.MirroredFiles
import WebCrawl.PageFetch

/-!
# A site is mirrored over the wire

The crawler's threads against a server: every page is asked for on a connection
of its own, its bytes travel in any pieces and the threads are interleaved in
any way.  For the pages that the crawler can reach this is a crawl of the graph
that the server's files are.  So a finished crawl has copied them, and a crawl
that is not finished can be.
-/

namespace WebCrawl

/-- What a server answers to a page, at whatever time it is asked. -/
def Serves (server : ServerEnv) (page : CString) (received : Received) : Prop :=
  ∃ (date : CString) (dateFits : date.chars.length < 80), OneLine date.chars ∧
    Fetches { server with date := date, dateFits := dateFits } page received

/-- The pages of a server, as the crawler receives them. -/
def ServerEnv.web (server : ServerEnv) (page : CString) : Received :=
  (server.file (pagePath server.rootDir page)).received

/-- The page can be asked for, and its content leaves room for a NUL in a buffer. -/
structure Fetchable (server : ServerEnv) (page : CString) : Prop where
  requestable : Requestable page
  small : strlen (server.file (pagePath server.rootDir page)).response.msg < 2 ^ 31 - 1

theorem Fetchable.serves_iff {server : ServerEnv} {page : CString} {received : Received}
    (fetchable : Fetchable server page) :
    Serves server page received ↔ received = server.web page := by
  have atDate : ∀ (date : CString) (dateFits : date.chars.length < 80), OneLine date.chars →
      (Fetches { server with date := date, dateFits := dateFits } page received ↔
        received = server.web page) := by
    intro date dateFits dateLine
    exact fetches_iff dateLine fetchable.requestable fetchable.small
  constructor
  · rintro ⟨date, dateFits, dateLine, fetched⟩
    exact (atDate date dateFits dateLine).mp fetched
  · intro same
    exact ⟨emptySite.date, emptySite.dateFits, by decide, (atDate _ _ (by decide)).mpr same⟩

namespace MirrorState

variable {threads : Nat} {Place : Type*} [DecidableEq Place]
variable {env : CrawlerEnv} {place : CString → Place}
variable {serves other : CString → Received → Prop}
variable {state after : MirrorState threads Place} {event : MirrorEvent threads}

/-- Only the answers to pages that a thread waits for matter for a step. -/
theorem Step.mono
    (implies : ∀ thread page, state.crawl.point thread = .getting page →
      ∀ received, serves page received → other page received)
    (stepTo : Step env place serves state event after) :
    Step env place other state event after := by
  cases stepTo with
  | download here free isServed accepted =>
      exact .download here free (implies _ _ here _ isServed) accepted
  | fopen here holds closed wasSaved => exact .fopen here holds closed wasSaved
  | write here isOpen some within => exact .write here isOpen some within
  | fclose here holds isOpen => exact .fclose here holds isOpen
  | other stepTo busy =>
      refine .other (stepTo.mono ?_) busy
      rintro thread page here answer ⟨⟨received, isServed, same⟩, refused⟩
      exact ⟨⟨received, implies thread page here received isServed, same⟩, refused⟩

/-- A thread has saved the page in its hand and looks for links. -/
structure SavedBy (state : MirrorState threads Place) (thread : Fin threads) (page : CString)
    (received : Received) (after : MirrorState threads Place) : Prop where
  crawl : after.crawl =
    state.crawl.setPoint thread (.processing page (.start received.answer.content))
  inHand : after.inHand = Function.update state.inHand thread none

variable {thread : Fin threads} {page : CString} {received : Received}

/-- A file that is open can be written to its end and closed. -/
theorem exists_closed {saved : SavedPage} {offset : Nat}
    (here : state.crawl.point thread = .getting page)
    (holds : state.inHand thread = some received)
    (isOpen : state.file thread = some ⟨saved, offset⟩)
    (within : offset ≤ saved.saved.chars.length) :
    ∃ more after, LabelledRun.Run (Step env place serves) state more after ∧
      SavedBy state thread page received after := by
  obtain ⟨left, length⟩ := Nat.exists_eq_add_of_le within
  by_cases whole : left = 0
  · rw [whole, Nat.add_zero] at length
    rw [← length] at isOpen
    exact ⟨_, _, LabelledRun.Run.start.next (.fclose here holds isOpen), rfl, rfl⟩
  · have written := LabelledRun.Run.start.next
      (@Step.write _ _ _ env place serves _ _ _ _ _ left here isOpen (by omega) (by omega))
    have full : Function.update state.file thread (some ⟨saved, offset + left⟩) thread =
        some ⟨saved, saved.saved.chars.length⟩ := by
      rw [length]
      exact Function.update_self ..
    exact ⟨_, _, written.next (.fclose here holds full), rfl, rfl⟩

/-- The page in a thread's hand can be saved. -/
theorem exists_saved
    (within : ∀ file, state.file thread = some file →
      file.offset ≤ file.page.saved.chars.length)
    (savable : Savable env page) (here : state.crawl.point thread = .getting page)
    (holds : state.inHand thread = some received) :
    ∃ more after, LabelledRun.Run (Step env place serves) state more after ∧
      SavedBy state thread page received after := by
  cases isOpen : state.file thread with
  | some file => exact exists_closed here holds isOpen (within file isOpen)
  | none =>
      obtain ⟨saved, wasSaved⟩ := savePage_of_savable received.content savable
      have opened := LabelledRun.Run.start.next
        (@Step.fopen _ _ _ env place serves _ _ _ _ _ here holds isOpen wasSaved)
      obtain ⟨more, after, later, crawl, inHand⟩ := @exists_closed _ _ _ env place serves
        { state with
          file := Function.update state.file thread (some ⟨saved, 0⟩)
          files := Function.update state.files (place saved.name) (some []) }
        thread page received saved 0 here holds (Function.update_self ..) (Nat.zero_le _)
      exact ⟨_, after, opened.append later, crawl, inHand⟩

end MirrorState

section Crawling

variable {threads : Nat} {Place : Type*} [DecidableEq Place]
variable {env : CrawlerEnv} {place : CString → Place} {web : CString → Received}
variable {serves : CString → Received → Prop} {startingURL : CString}
variable {files : Place → Option (List Char)} {state : MirrorState threads Place}
variable {events : List (MirrorEvent threads)}

/-- The server answers the pages that can be reached as the web says. -/
def Agrees (web : CString → Received) (startingURL : CString)
    (serves : CString → Received → Prop) : Prop :=
  ∀ page, Reaches web startingURL page →
    ∀ received, serves page received ↔ received = web page

/-- The page that a thread waits for can be reached. -/
theorem MirrorState.getting_reaches {thread : Fin threads} {page : CString}
    (run : MirrorState.Run env place (fun page received => received = web page) startingURL
      files events state)
    (here : state.crawl.point thread = .getting page) : Reaches web startingURL page := by
  obtain ⟨⟨crawlEvents, crawled⟩, holders, _⟩ := MirrorState.run_mirrors run
  rw [MirrorState.answers_of_web] at crawled
  have explores := crawled.invariant
    (fun state => CrawlState.Explores (fun page => (web page).answer) startingURL
      state.pagesToAdd state.pagesAdded state.point)
    CrawlState.explores_initial (fun _ _ _ => CrawlState.explores_step)
  exact explores.reachable page (Or.inr (holders.taken thread page (by rw [here]; rfl)))

/-- A run against such a server is a run against the web. -/
theorem MirrorState.Run.of_agrees (agrees : Agrees web startingURL serves)
    (run : MirrorState.Run env place serves startingURL files events state) :
    MirrorState.Run env place (fun page received => received = web page) startingURL files
      events state := by
  induction run with
  | start => exact .start
  | next _ stepTo ih =>
      refine ih.next (stepTo.mono fun thread page here received => ?_)
      exact (agrees page (getting_reaches ih here) received).mp

/-- What follows a run against the web can happen against the server. -/
theorem MirrorState.run_onwards (agrees : Agrees web startingURL serves)
    (run : MirrorState.Run env place (fun page received => received = web page) startingURL
      files events state)
    {more : List (MirrorEvent threads)} {after : MirrorState threads Place}
    (later : LabelledRun.Run
      (MirrorState.Step env place fun page received => received = web page) state more after) :
    LabelledRun.Run (MirrorState.Step env place serves) state more after := by
  induction later with
  | start => exact .start
  | next before stepTo ih =>
      refine ih.next (stepTo.mono fun thread page here received => ?_)
      exact (agrees page (getting_reaches (run.append before) here) received).mpr

/-- No more of a page is written than there is. -/
theorem MirrorState.offset_within
    (run : MirrorState.Run env place serves startingURL files events state)
    (thread : Fin threads) (file : OpenFile) (isOpen : state.file thread = some file) :
    file.offset ≤ file.page.saved.chars.length := by
  obtain ⟨_, opened⟩ := (MirrorState.run_saves run).opened thread file isOpen
  rw [opened.content]
  exact opened.within

section Completing

variable (savable : ∀ page, Found web startingURL page → Savable env page)
include savable

/-- The threads save what they have in hand. -/
theorem MirrorState.exists_flushed
    (run : MirrorState.Run env place (fun page received => received = web page) startingURL
      files events state) :
    ∃ more after, LabelledRun.Run
        (MirrorState.Step env place fun page received => received = web page) state more after ∧
      ∀ thread, after.inHand thread = none := by
  obtain ⟨full, isFull⟩ : ∃ full, Monitor.occupancy Option.isSome state.inHand = full := ⟨_, rfl⟩
  induction full generalizing state events with
  | zero =>
      refine ⟨[], state, .start, fun thread => ?_⟩
      simpa using Monitor.occupancy_eq_zero_iff.mp isFull thread
  | succ full ih =>
      obtain ⟨thread, holds⟩ : ∃ thread, (state.inHand thread).isSome = true := by
        by_contra none
        simp only [not_exists, Bool.not_eq_true] at none
        rw [Monitor.occupancy_eq_zero_iff.mpr none] at isFull
        cases isFull
      obtain ⟨received, inHand⟩ := Option.isSome_iff_exists.mp holds
      obtain ⟨_, _, accounts⟩ := MirrorState.run_mirrors run
      obtain ⟨page, here, isDownload⟩ := accounts.inHand thread received inHand
      obtain ⟨_, same, accepted⟩ := accounts.served _ isDownload
      have found : Found web startingURL page :=
        ⟨MirrorState.getting_reaches run here, same ▸ accepted⟩
      obtain ⟨saving, middle, saved, savedBy⟩ :=
        MirrorState.exists_saved (MirrorState.offset_within run thread) (savable page found)
          here inHand
      have fewer : Monitor.occupancy Option.isSome middle.inHand + 1 =
          Monitor.occupancy Option.isSome state.inHand := by
        rw [savedBy.inHand]
        exact Monitor.occupancy_update_leave holds rfl
      obtain ⟨more, after, later, free⟩ := ih (run.append saved) (by omega)
      exact ⟨saving ++ more, after, saved.append later, free⟩

/-- A step of the crawl can be made with all that belongs to it. -/
theorem MirrorState.exists_lifted_step {crawlEvent : CrawlEvent threads}
    {next : CrawlState threads}
    (run : MirrorState.Run env place (fun page received => received = web page) startingURL
      files events state)
    (free : ∀ thread, state.inHand thread = none)
    (stepTo : CrawlState.WebStep (fun page => (web page).answer) state.crawl crawlEvent next) :
    ∃ more after, LabelledRun.Run
        (MirrorState.Step env place fun page received => received = web page) state more after ∧
      after.crawl = next ∧ ∀ thread, after.inHand thread = none := by
  rcases stepTo.receives_or with ⟨thread, page, answer, here, rfl, accepted, rfl⟩ | stepTo
  · have found : Found web startingURL page :=
      ⟨MirrorState.getting_reaches run here, accepted⟩
    have downloaded : MirrorState.Step env place (fun page received => received = web page)
        state (.download thread page (web page)) _ := .download here (free thread) rfl accepted
    obtain ⟨more, after, saved, crawl, inHand⟩ :=
      MirrorState.exists_saved (MirrorState.offset_within (run.next downloaded) thread)
        (savable page found) here (Function.update_self ..)
    refine ⟨_, after, (LabelledRun.Run.start.next downloaded).append saved, crawl,
      fun other => ?_⟩
    rw [inHand, Function.update_idem]
    by_cases same : other = thread
    · rw [same, Function.update_self]
    · rw [Function.update_of_ne same, free other]
  · have other : MirrorState.Step env place (fun page received => received = web page)
        state (.crawl crawlEvent) { state with crawl := next } := by
      refine .other (stepTo.mono ?_) fun thread busy => absurd (free thread) busy
      rintro _ page _ answer ⟨rfl, refused⟩
      exact ⟨⟨_, rfl, rfl⟩, refused⟩
    exact ⟨_, _, LabelledRun.Run.start.next other, rfl, free⟩

theorem MirrorState.exists_lifted {crawlEvents : List (CrawlEvent threads)}
    {next : CrawlState threads}
    (run : MirrorState.Run env place (fun page received => received = web page) startingURL
      files events state)
    (free : ∀ thread, state.inHand thread = none)
    (crawled : LabelledRun.Run (CrawlState.WebStep fun page => (web page).answer) state.crawl
      crawlEvents next) :
    ∃ more after, LabelledRun.Run
        (MirrorState.Step env place fun page received => received = web page) state more after ∧
      after.crawl = next ∧ ∀ thread, after.inHand thread = none := by
  induction crawled with
  | start => exact ⟨[], state, .start, rfl, free⟩
  | next _ stepTo ih =>
      obtain ⟨more, middle, first, rfl, middleFree⟩ := ih
      obtain ⟨later, after, second, same, afterFree⟩ :=
        exists_lifted_step savable (run.append first) middleFree stepTo
      exact ⟨more ++ later, after, first.append second, same, afterFree⟩

/-- The files that are in hand are saved first, and then the crawl is finished. -/
theorem MirrorState.exists_finished (positive : 1 ≤ threads) {pages : Finset CString}
    (bounded : ∀ page, Reaches web startingURL page → page ∈ pages)
    (crawlable : ∀ page, Reaches web startingURL page →
      CrawlState.Crawlable (web page).answer)
    (run : MirrorState.Run env place (fun page received => received = web page) startingURL
      files events state) :
    ∃ more after, LabelledRun.Run
        (MirrorState.Step env place fun page received => received = web page) state more after ∧
      after.crawl.crawlingFinished = true := by
  obtain ⟨more, middle, flushed, free⟩ := exists_flushed savable run
  obtain ⟨⟨crawlEvents, crawled⟩, _⟩ := run_mirrors (run.append flushed)
  rw [answers_of_web] at crawled
  obtain ⟨rest, last, finishing, seen⟩ :=
    CrawlState.exists_finished positive bounded crawlable crawled
  obtain ⟨later, after, lifted, rfl, _⟩ :=
    exists_lifted savable (run.append flushed) free finishing
  exact ⟨more ++ later, after, flushed.append lifted, seen⟩

end Completing

end Crawling

section Wire

variable {threads : Nat} {Place : Type*} [DecidableEq Place]
variable {env : CrawlerEnv} {place : CString → Place} {server : ServerEnv}
variable {startingURL : CString} {files : Place → Option (List Char)}
variable {state : MirrorState threads Place} {events : List (MirrorEvent threads)}

theorem agrees_of_fetchable
    (fetchable : ∀ page, Reaches server.web startingURL page → Fetchable server page) :
    Agrees server.web startingURL (Serves server) :=
  fun page reached _ => (fetchable page reached).serves_iff

/-- A file that the server can read is received up to its first NUL. -/
theorem web_readable {page : CString} {content : List Char}
    (readable : server.file (pagePath server.rootDir page) = .readable content) :
    (server.web page).code = 200 ∧
      MirrorState.savedText (server.web page) = cstr content := by
  rw [ServerEnv.web, readable]
  refine ⟨rfl, ?_⟩
  simp only [MirrorState.savedText, FileAccess.received, FileAccess.response,
    CString.ofBlock_chars]
  rw [cstr_append_nul (nul_not_mem_cstr _), cstr_append_nul_eq]

theorem web_code (server : ServerEnv) (page : CString) :
    (server.web page).code = 200 ∨ (server.web page).code = 403 ∨
      (server.web page).code = 404 := by
  rw [ServerEnv.web]
  cases server.file (pagePath server.rootDir page) with
  | readable => exact Or.inl rfl
  | forbidden => exact Or.inr (Or.inl rfl)
  | missing | unopenable => exact Or.inr (Or.inr rfl)

theorem crawlable_of_closed {page : CString}
    (closed : Found server.web startingURL page →
      LinksClosed (server.web page).answer.content.chars)
    (reached : Reaches server.web startingURL page) :
    CrawlState.Crawlable (server.web page).answer := by
  rcases web_code server page with found | denied | missing
  · exact Or.inr (Or.inr ⟨found, closed ⟨reached, found⟩⟩)
  · exact Or.inr (Or.inl denied)
  · exact Or.inl missing

/-- The crawler's threads against the server, in any interleaving and with the bytes in
any pieces.  When the crawl is finished the files that can be reached are copied, no
other file of the crawler has changed, and the counters count the copies. -/
theorem site_mirrored
    (fetchable : ∀ page, Reaches server.web startingURL page → Fetchable server page)
    (apart : ∀ page other, Found server.web startingURL page →
      Found server.web startingURL other →
      place (savedName env page) = place (savedName env other) → page = other)
    (run : MirrorState.Run env place (Serves server) startingURL files events state)
    (seen : state.crawl.crawlingFinished = true) :
    (∀ page content, Reaches server.web startingURL page →
      server.file (pagePath server.rootDir page) = .readable content →
      state.files (place (savedName env page)) = some (cstr content)) ∧
    (∀ path, (∀ page, Found server.web startingURL page →
        place (savedName env page) ≠ path) →
      state.files path = files path) ∧
    ∃ pages : List CString, pages.Nodup ∧
      (∀ page, page ∈ pages ↔ Found server.web startingURL page) ∧
      state.pagesDownloaded = toInt pages.length ∧
      state.bytesDownloaded =
        toInt (pages.map fun page => (server.web page).contentSize).sum := by
  obtain ⟨copied, unchanged, counted⟩ := MirrorState.finished_mirrors
    (run.of_agrees (agrees_of_fetchable fetchable)) seen apart
  refine ⟨fun page content reached readable => ?_, unchanged, counted⟩
  obtain ⟨accepted, same⟩ := web_readable readable
  rw [copied page ⟨reached, accepted⟩, same]

/-- From every state of such a crawl it can be finished, if the pages are finitely many
and can be saved and their links are closed. -/
theorem site_mirror_completes (positive : 1 ≤ threads) {pages : Finset CString}
    (bounded : ∀ page, Reaches server.web startingURL page → page ∈ pages)
    (fetchable : ∀ page, Reaches server.web startingURL page → Fetchable server page)
    (savable : ∀ page, Found server.web startingURL page → Savable env page)
    (closed : ∀ page, Found server.web startingURL page →
      LinksClosed (server.web page).answer.content.chars)
    (run : MirrorState.Run env place (Serves server) startingURL files events state) :
    ∃ more after, LabelledRun.Run (MirrorState.Step env place (Serves server)) state more after ∧
      after.crawl.crawlingFinished = true := by
  have agrees := agrees_of_fetchable fetchable
  have webRun := run.of_agrees agrees
  have crawlable : ∀ page, Reaches server.web startingURL page →
      CrawlState.Crawlable (server.web page).answer :=
    fun page => crawlable_of_closed (closed page)
  obtain ⟨more, after, onwards, seen⟩ :=
    MirrorState.exists_finished savable positive bounded crawlable webRun
  exact ⟨more, after, MirrorState.run_onwards agrees webRun onwards, seen⟩

end Wire

/-- A site on which every name leads to the page with a link to `/a`. -/
def linkSite : ServerEnv :=
  siteOf (.readable "<a href=\"/a\">\n".toList)

theorem linkSite_reaches {page : CString}
    (reached : Reaches linkSite.web CrawlState.selfLink page) : page = CrawlState.selfLink :=
  CrawlState.reachable_selfLink reached

theorem linkSite_fetchable (page : CString)
    (reached : Reaches linkSite.web CrawlState.selfLink page) : Fetchable linkSite page := by
  rw [linkSite_reaches reached]
  exact
    { requestable :=
        { noReturn := by decide
          noNewline := by decide
          fits := by rw [requestText_length]; decide }
      small := by decide }

/-- One thread crawls the site, and nobody searches. -/
theorem linkSite_crawl : ∃ events state,
    MirrorState.Run openDirectory id (Serves linkSite) CrawlState.selfLink (fun _ => none)
      events (state : MirrorState 1 CString) ∧ state.crawl.crawlingFinished = true ∧
    state.crawl.ready = false ∧ state.pagesDownloaded = toInt 1 ∧
    state.bytesDownloaded = toInt 14 ∧
    ∀ event ∈ events, ∀ ready, event ≠ .crawl (.search ready) := by
  have serves : Serves linkSite CrawlState.selfLink (linkSite.web CrawlState.selfLink) :=
    (linkSite_fetchable _ .refl).serves_iff.mpr rfl
  have started : MirrorState.Run openDirectory id (Serves linkSite) CrawlState.selfLink
      (fun _ => none) [] (MirrorState.initial 1 CrawlState.selfLink fun _ => none) := .start
  have taken := started.nextBy (.crawl (.get 0 CrawlState.selfLink))
    (.other (.take rfl rfl rfl) fun _ busy => absurd rfl busy)
  have downloaded := taken.nextBy (.download 0 CrawlState.selfLink _)
    (.download rfl rfl serves rfl)
  have isOpen := downloaded.nextBy (.fopen 0 CrawlState.selfLink) (.fopen rfl rfl rfl rfl)
  have written := isOpen.nextBy (.write 0 CrawlState.selfLink)
    (@MirrorState.Step.write _ _ _ _ _ _ _ 0 _ _ 0 14 rfl rfl (by decide) (by decide))
  have saved := written.nextBy (.fclose 0 CrawlState.selfLink) (.fclose rfl rfl rfl)
  have free : ∀ thread : Fin 1, Function.update (Function.update
      (fun _ => none : Fin 1 → Option Received) 0 (some (linkSite.web CrawlState.selfLink)))
      0 none thread = none := by
    intro thread
    rw [Subsingleton.elim thread 0]
    rfl
  have looked := saved.nextBy (.crawl .internal)
    (.other (@CrawlState.Step.known _ _ _ 0 _ _ _ _ rfl rfl rfl)
      fun thread busy => absurd (free thread) busy)
  have left := looked.nextBy (.crawl .internal)
    (.other (@CrawlState.Step.leave _ _ _ 0 _ _ rfl rfl)
      fun thread busy => absurd (free thread) busy)
  exact ⟨_, _, left.nextBy (.crawl (.signOff 0 CrawlState.selfLink))
    (.other (.signOff rfl) fun thread busy => absurd (free thread) busy),
    rfl, rfl, rfl, rfl, by simp⟩

theorem linkSite_run : ∃ events state,
    MirrorState.Run openDirectory id (Serves linkSite) CrawlState.selfLink (fun _ => none)
      events (state : MirrorState 1 CString) ∧ state.crawl.crawlingFinished = true := by
  obtain ⟨events, state, run, seen, _⟩ := linkSite_crawl
  exact ⟨events, state, run, seen⟩

theorem site_mirrored_link_site : ∃ state : MirrorState 1 CString,
    state.files (savedName openDirectory CrawlState.selfLink) =
      some "<a href=\"/a\">\n".toList := by
  obtain ⟨events, state, run, seen⟩ := linkSite_run
  have mirrored := site_mirrored linkSite_fetchable (fun page other found otherFound _ => by
    rw [linkSite_reaches found.1, linkSite_reaches otherFound.1]) run seen
  exact ⟨state, mirrored.1 _ _ .refl rfl⟩

theorem site_mirror_completes_link_site : ∃ more after,
    LabelledRun.Run (MirrorState.Step openDirectory id (Serves linkSite))
      (MirrorState.initial 1 CrawlState.selfLink fun _ => none) more after ∧
    after.crawl.crawlingFinished = true :=
  site_mirror_completes (by decide)
    (fun _ reached => Finset.mem_singleton.mpr (linkSite_reaches reached))
    linkSite_fetchable
    (fun page found => by rw [linkSite_reaches found.1]; exact ⟨by decide, rfl⟩)
    (fun page found => by rw [linkSite_reaches found.1]; decide) .start

end WebCrawl
