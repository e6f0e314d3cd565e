import WebCrawl.CrawlMirror

/-!
# What the crawler leaves in the files

Two pages whose names stand for one file may be written by two threads at a
time: the second one empties the file while the first goes on behind its own
offset.  So a file that has changed holds, at each place, a hole or what a page
that goes by its name has there, and nothing more can be said.  A page that has
its file for itself is written from its start, and when the crawl is finished
such files are whole.
-/

namespace WebCrawl

namespace MirrorState

open FileWrites

variable {threads : Nat} {Place : Type*}

/-- What is written into the file of a page. -/
def savedText (received : Received) : List Char :=
  (CString.ofBlock received.content).chars

section Definitions

variable (env : CrawlerEnv) (place : CString → Place)

/-- The file that a download goes into. -/
def fileOf (download : CString × Received) : Place :=
  place (savedName env download.1)

variable (arrived : List (CString × Received))

/-- The texts of the pages that go into a file. -/
def GoesInto (path : Place) (text : List Char) : Prop :=
  ∃ download ∈ arrived, fileOf env place download = path ∧ savedText download.2 = text

/-- A file in which there is nothing but what the pages that go into it have at the
same places, and NULs where nothing was written. -/
def Mixed (files : Place → Option (List Char)) (path : Place) : Prop :=
  ∃ text, files path = some text ∧
    (∃ download ∈ arrived, fileOf env place download = path) ∧
    Mixes '\x00' (GoesInto env place arrived path) text

/-- No other page goes into the same file. -/
def Alone (download : CString × Received) : Prop :=
  ∀ other ∈ arrived, fileOf env place other = fileOf env place download → other = download

/-- How far a page has come that has its file for itself: a thread has counted it
only, has written a first part of it, or is done with it. -/
inductive Progress (files : Place → Option (List Char)) (state : MirrorState threads Place)
    (download : CString × Received) : Prop
  | counted {thread : Fin threads} :
      state.crawl.point thread = .getting download.1 →
      state.inHand thread = some download.2 → state.file thread = none →
      state.files (fileOf env place download) = files (fileOf env place download) →
      Progress files state download
  | writing {thread : Fin threads} {saved : SavedPage} {offset : Nat} :
      state.crawl.point thread = .getting download.1 →
      state.inHand thread = some download.2 → state.file thread = some ⟨saved, offset⟩ →
      state.files (fileOf env place download) = some ((savedText download.2).take offset) →
      Progress files state download
  | saved :
      (∀ thread, state.crawl.point thread ≠ .getting download.1) →
      state.files (fileOf env place download) = some (savedText download.2) →
      Progress files state download

/-- A thread has opened a file for the page in its hand. -/
structure Opened (state : MirrorState threads Place) (thread : Fin threads)
    (file : OpenFile) (download : CString × Received) : Prop where
  isDownload : download ∈ arrived
  here : state.crawl.point thread = .getting download.1
  holds : state.inHand thread = some download.2
  name : place file.page.name = fileOf env place download
  content : file.page.saved.chars = savedText download.2
  within : file.offset ≤ (savedText download.2).length
  mixed : Mixed env place arrived state.files (place file.page.name)

/-- What the files hold, and what the threads have opened. -/
structure Saves (files : Place → Option (List Char)) (state : MirrorState threads Place) :
    Prop where
  opened : ∀ thread file, state.file thread = some file →
    ∃ download, Opened env place arrived state thread file download
  changed : ∀ path, state.files path = files path ∨ Mixed env place arrived state.files path
  alone : ∀ download ∈ arrived, Alone env place arrived download →
    Progress env place files state download

end Definitions

variable {env : CrawlerEnv} {place : CString → Place} {serves : CString → Received → Prop}
variable {startingURL : CString} {files : Place → Option (List Char)}
variable {state after : MirrorState threads Place} {event : MirrorEvent threads}
variable {events : List (MirrorEvent threads)} {arrived more : List (CString × Received)}
variable {thread : Fin threads} {page : CString} {received : Received} {path : Place}
variable {file : OpenFile}

theorem saves_initial : Saves env place [] files (initial threads startingURL files) where
  opened _ _ isOpen := by cases isOpen
  changed _ := Or.inl rfl
  alone _ isDownload := absurd isDownload List.not_mem_nil

theorem Mixed.mono (mixed : Mixed env place arrived state.files path)
    (subset : arrived ⊆ more) (kept : after.files path = state.files path) :
    Mixed env place more after.files path := by
  obtain ⟨text, stored, ⟨download, isDownload, goes⟩, mixes⟩ := mixed
  refine ⟨text, kept.trans stored, ⟨download, subset isDownload, goes⟩, mixes.mono ?_⟩
  rintro _ ⟨other, isOther, same, rfl⟩
  exact ⟨other, subset isOther, same, rfl⟩

/-- What another thread does leaves the progress of a page as it is, if it does not
touch the file. -/
theorem Progress.frame {download : CString × Received}
    (progress : Progress env place files state download)
    (notHere : state.crawl.point thread ≠ .getting download.1)
    (notThere : after.crawl.point thread ≠ .getting download.1)
    (elsewhere : ∀ other, other ≠ thread →
      after.crawl.point other = state.crawl.point other ∧
        after.inHand other = state.inHand other ∧ after.file other = state.file other)
    (kept : after.files (fileOf env place download) =
      state.files (fileOf env place download)) :
    Progress env place files after download := by
  have isOther : ∀ {other}, state.crawl.point other = .getting download.1 →
      other ≠ thread := by
    rintro other here rfl
    exact notHere here
  cases progress with
  | counted here holds closed unchanged =>
      obtain ⟨point, inHand, file⟩ := elsewhere _ (isOther here)
      exact .counted (point.trans here) (inHand.trans holds) (file.trans closed)
        (kept.trans unchanged)
  | writing here holds isOpen part =>
      obtain ⟨point, inHand, file⟩ := elsewhere _ (isOther here)
      exact .writing (point.trans here) (inHand.trans holds) (file.trans isOpen)
        (kept.trans part)
  | saved idle whole =>
      refine .saved (fun other here => ?_) (kept.trans whole)
      by_cases same : other = thread
      · subst other
        exact notThere here
      · rw [(elsewhere other same).1] at here
        exact idle other here

theorem Accounts.isDownload (accounts : Accounts serves events state)
    (here : state.crawl.point thread = .getting page)
    (holds : state.inHand thread = some received) : (page, received) ∈ downloads events := by
  obtain ⟨other, otherHere, isDownload⟩ := accounts.inHand thread received holds
  rw [here] at otherHere
  cases otherHere
  exact isDownload

/-- A thread waits for no page but its own. -/
theorem Accounts.other_page {download : CString × Received}
    (accounts : Accounts serves events state)
    (here : state.crawl.point thread = .getting page)
    (isDownload : (page, received) ∈ downloads events) (isOther : download ∈ downloads events)
    (different : download ≠ (page, received)) :
    state.crawl.point thread ≠ .getting download.1 := by
  intro otherHere
  rw [here] at otherHere
  exact different (List.inj_on_of_nodup_map accounts.once isOther isDownload
    (CrawlPoint.getting.inj otherHere).symm)

/-- A page is received; nobody has written it yet. -/
theorem Saves.download (saves : Saves env place (downloads events) files state)
    (accounts : Accounts serves events state)
    (here : state.crawl.point thread = .getting page) (free : state.inHand thread = none) :
    Saves env place (downloads events ++ [(page, received)]) files
      { state with
        inHand := Function.update state.inHand thread (some received)
        pagesDownloaded := toInt (state.pagesDownloaded + 1)
        bytesDownloaded := toInt (state.bytesDownloaded + received.contentSize) } := by
  have subset : downloads events ⊆ downloads events ++ [(page, received)] :=
    List.subset_append_left _ _
  have fresh := accounts.waiting thread page here free
  have closed : state.file thread = none := by
    rw [Option.eq_none_iff_forall_ne_some]
    intro file isOpen
    obtain ⟨download, opened⟩ := saves.opened thread file isOpen
    have holds := opened.holds
    rw [free] at holds
    cases holds
  constructor
  case opened =>
    intro other file isOpen
    have notHere : other ≠ thread := by
      rintro rfl
      rw [closed] at isOpen
      cases isOpen
    obtain ⟨download, opened⟩ := saves.opened other file isOpen
    exact ⟨download,
      { opened with
        isDownload := subset opened.isDownload
        holds := (Function.update_of_ne notHere ..).trans opened.holds
        mixed := opened.mixed.mono subset rfl }⟩
  case changed =>
    intro path
    exact (saves.changed path).imp id fun mixed => mixed.mono subset rfl
  case alone =>
    intro download isDownload alone
    rw [List.mem_append, List.mem_singleton] at isDownload
    rcases isDownload with old | rfl
    · have wasAlone : Alone env place (downloads events) download :=
        fun other isOther => alone other (subset isOther)
      have notHere : state.crawl.point thread ≠ .getting download.1 := by
        intro otherHere
        rw [here] at otherHere
        cases otherHere
        exact fresh (List.mem_map_of_mem old)
      exact (saves.alone download old wasAlone).frame notHere notHere
        (fun other notThere => ⟨rfl, Function.update_of_ne notThere .., rfl⟩) rfl
    · refine .counted here (Function.update_self ..) closed ?_
      refine (saves.changed _).resolve_right ?_
      rintro ⟨_, _, ⟨other, isOther, same⟩, _⟩
      obtain rfl := alone other (subset isOther) same
      exact fresh (List.mem_map_of_mem isOther)

section Files

variable [DecidableEq Place]

/-- A thread opens the file of its page or writes into it. -/
theorem Saves.store {text : List Char} (saves : Saves env place (downloads events) files state)
    (accounts : Accounts serves events state)
    (here : state.crawl.point thread = .getting page)
    (holds : state.inHand thread = some received)
    (name : place file.page.name = fileOf env place (page, received))
    (content : file.page.saved.chars = savedText received)
    (within : file.offset ≤ (savedText received).length)
    (mixes : Mixes '\x00' (GoesInto env place (downloads events) (place file.page.name)) text)
    (part : Alone env place (downloads events) (page, received) →
      text = (savedText received).take file.offset) :
    Saves env place (downloads events) files
      { state with
        file := Function.update state.file thread (some file)
        files := Function.update state.files (place file.page.name) (some text) } := by
  have isDownload := accounts.isDownload here holds
  have mixed : Mixed env place (downloads events)
      (Function.update state.files (place file.page.name) (some text))
      (place file.page.name) :=
    ⟨text, Function.update_self .., ⟨_, isDownload, name.symm⟩, mixes⟩
  have keeps : ∀ path, Mixed env place (downloads events) state.files path →
      Mixed env place (downloads events)
        (Function.update state.files (place file.page.name) (some text)) path := by
    intro path old
    by_cases same : path = place file.page.name
    · subst path
      exact mixed
    · obtain ⟨text, stored, rest⟩ := old
      exact ⟨text, (Function.update_of_ne same ..).trans stored, rest⟩
  constructor
  case opened =>
    intro other otherFile isOpen
    dsimp only at isOpen
    by_cases same : other = thread
    · subst other
      rw [Function.update_self] at isOpen
      cases isOpen
      exact ⟨(page, received),
        { isDownload := isDownload, here := here, holds := holds, name := name
          content := content, within := within, mixed := mixed }⟩
    · rw [Function.update_of_ne same] at isOpen
      obtain ⟨download, opened⟩ := saves.opened other otherFile isOpen
      exact ⟨download, { opened with mixed := keeps _ opened.mixed }⟩
  case changed =>
    intro path
    by_cases same : path = place file.page.name
    · subst path
      exact Or.inr mixed
    · exact (saves.changed path).imp (Function.update_of_ne same ..).trans (keeps path)
  case alone =>
    intro download isOther alone
    by_cases own : download = (page, received)
    · subst download
      refine .writing here holds (Function.update_self ..) ?_
      rw [← name, ← part alone]
      exact Function.update_self ..
    · have notHere := accounts.other_page here isDownload isOther own
      have apart : fileOf env place download ≠ place file.page.name := by
        rw [name]
        exact fun same => own (alone _ isDownload same.symm).symm
      exact (saves.alone download isOther alone).frame notHere notHere
        (fun other notThere => ⟨rfl, rfl, Function.update_of_ne notThere ..⟩)
        (Function.update_of_ne apart ..)

theorem Saves.fopen {saved : SavedPage} (saves : Saves env place (downloads events) files state)
    (accounts : Accounts serves events state)
    (here : state.crawl.point thread = .getting page)
    (holds : state.inHand thread = some received)
    (wasSaved : savePage env received.content page = .returns saved) :
    Saves env place (downloads events) files
      { state with
        file := Function.update state.file thread (some ⟨saved, 0⟩)
        files := Function.update state.files (place saved.name) (some []) } := by
  obtain ⟨name, content⟩ := savePage_name wasSaved
  exact @store _ _ _ _ _ _ _ _ _ _ _ ⟨saved, 0⟩ _ [] saves accounts here holds
    (by rw [name]; rfl) (by rw [content]; rfl) (Nat.zero_le _) mixes_nil fun _ => rfl

/-- The piece goes behind what the thread has written so far. -/
theorem Saves.write {saved : SavedPage} {offset count : Nat}
    (saves : Saves env place (downloads events) files state)
    (accounts : Accounts serves events state) (holders : Holders state.crawl)
    (here : state.crawl.point thread = .getting page)
    (isOpen : state.file thread = some ⟨saved, offset⟩)
    (within : offset + count ≤ saved.saved.chars.length) :
    Saves env place (downloads events) files
      { state with
        file := Function.update state.file thread (some ⟨saved, offset + count⟩)
        files := Function.update state.files (place saved.name)
          ((state.files (place saved.name)).map fun text =>
            writeAt '\x00' text offset ((saved.saved.chars.drop offset).take count)) } := by
  obtain ⟨⟨own, received⟩, opened⟩ := saves.opened thread ⟨saved, offset⟩ isOpen
  obtain rfl : page = own := CrawlPoint.getting.inj (here.symm.trans opened.here)
  obtain ⟨text, stored, _, mixes⟩ := opened.mixed
  have content : saved.saved.chars = savedText received := opened.content
  rw [content] at within
  rw [stored, Option.map_some]
  refine @store _ _ _ _ _ _ _ _ _ _ _ ⟨saved, offset + count⟩ _ _ saves accounts here
    opened.holds opened.name content within (mixes.writeAt ?_) fun alone => ?_
  · exact ⟨_, opened.isDownload, opened.name.symm, content.symm⟩
  · rw [content]
    cases saves.alone _ opened.isDownload alone with
    | @counted other otherHere _ closed _ =>
        have same := holders.unique other thread page (by rw [otherHere]; rfl) (by rw [here]; rfl)
        rw [same, isOpen] at closed
        cases closed
    | @writing other _ _ otherHere _ otherOpen part =>
        have same := holders.unique other thread page (by rw [otherHere]; rfl) (by rw [here]; rfl)
        rw [same, isOpen] at otherOpen
        cases otherOpen
        rw [← opened.name, stored] at part
        have before : offset ≤ (savedText received).length := by omega
        rw [Option.some.inj part, writeAt_part before]
    | saved idle => exact absurd here (idle thread)

end Files

/-- The file is written and closed, and the thread looks for links. -/
theorem Saves.fclose {saved : SavedPage}
    (saves : Saves env place (downloads events) files state)
    (accounts : Accounts serves events state) (holders : Holders state.crawl)
    (here : state.crawl.point thread = .getting page)
    (isOpen : state.file thread = some ⟨saved, saved.saved.chars.length⟩) {scan : LinkScan} :
    Saves env place (downloads events) files
      { state with
        crawl := state.crawl.setPoint thread (.processing page scan)
        inHand := Function.update state.inHand thread none
        file := Function.update state.file thread none } := by
  have stays : ∀ other, other ≠ thread →
      (state.crawl.setPoint thread (.processing page scan)).point other =
          state.crawl.point other ∧
        Function.update state.inHand thread none other = state.inHand other ∧
        Function.update state.file thread none other = state.file other :=
    fun other notHere => ⟨Function.update_of_ne notHere .., Function.update_of_ne notHere ..,
      Function.update_of_ne notHere ..⟩
  obtain ⟨⟨own, received⟩, mine⟩ := saves.opened thread _ isOpen
  obtain rfl : page = own := CrawlPoint.getting.inj (here.symm.trans mine.here)
  have content : saved.saved.chars = savedText received := mine.content
  have onlyHere : ∀ {other}, state.crawl.point other = .getting page → other = thread :=
    fun otherHere => holders.unique _ thread page (by rw [otherHere]; rfl) (by rw [here]; rfl)
  constructor
  case opened =>
    intro other file otherOpen
    have notHere : other ≠ thread := by
      rintro rfl
      simp at otherOpen
    obtain ⟨point, inHand, same⟩ := stays other notHere
    obtain ⟨download, opened⟩ := saves.opened other file (same.symm.trans otherOpen)
    exact ⟨download, { opened with
      here := point.trans opened.here
      holds := inHand.trans opened.holds }⟩
  case changed => exact saves.changed
  case alone =>
    intro download isOther alone
    by_cases own : download = (page, received)
    · subst download
      refine .saved (fun other otherHere => ?_) ?_
      · obtain ⟨notHere, waited⟩ := getting_of_setPoint otherHere
        exact notHere (onlyHere waited)
      · cases saves.alone _ mine.isDownload alone with
        | counted otherHere _ closed =>
            have same := onlyHere otherHere
            rw [same, isOpen] at closed
            cases closed
        | writing otherHere _ otherOpen part =>
            have same := onlyHere otherHere
            rw [same, isOpen] at otherOpen
            cases otherOpen
            rw [content, List.take_length] at part
            exact part
        | saved idle => exact absurd here (idle thread)
    · have notHere := accounts.other_page here mine.isDownload isOther own
      exact (saves.alone download isOther alone).frame notHere (by simp) stays rfl

/-- The threads do something else. -/
theorem Saves.other {crawlEvent : CrawlEvent threads} {next : CrawlState threads}
    (saves : Saves env place (downloads events) files state)
    (accounts : Accounts serves events state)
    (nodup : (state.crawl.pagesToAdd ++ state.crawl.pagesAdded).Nodup)
    (stepTo : CrawlState.Step (fun page answer => Answers serves page answer ∧ answer.code ≠ 200)
      state.crawl crawlEvent next)
    (busy : ∀ thread, state.inHand thread ≠ none →
      next.point thread = state.crawl.point thread) :
    Saves env place (downloads events) files { state with crawl := next } := by
  have stays : ∀ {thread received}, state.inHand thread = some received →
      next.point thread = state.crawl.point thread :=
    fun inHand => busy _ (by rw [inHand]; exact Option.some_ne_none _)
  constructor
  case opened =>
    intro other file isOpen
    obtain ⟨download, opened⟩ := saves.opened other file isOpen
    exact ⟨download, { opened with here := (stays opened.holds).trans opened.here }⟩
  case changed => exact saves.changed
  case alone =>
    intro download isDownload alone
    cases saves.alone download isDownload alone with
    | counted here holds closed unchanged =>
        exact .counted ((stays holds).trans here) holds closed unchanged
    | writing here holds isOpen part =>
        exact .writing ((stays holds).trans here) holds isOpen part
    | saved idle whole =>
        refine .saved (fun thread here => ?_) whole
        rcases getting_or_new nodup stepTo here with old | fresh
        · exact idle thread old
        · exact fresh (accounts.served download isDownload).1

section Runs

variable [DecidableEq Place]

theorem Saves.step (saves : Saves env place (downloads events) files state)
    (accounts : Accounts serves events state) (holders : Holders state.crawl)
    (nodup : (state.crawl.pagesToAdd ++ state.crawl.pagesAdded).Nodup)
    (stepTo : Step env place serves state event after) :
    Saves env place (downloads (events ++ [event])) files after := by
  rw [downloads_append]
  cases stepTo with
  | download here free => exact saves.download accounts here free
  | fopen here holds _ wasSaved =>
      simpa [downloads] using saves.fopen accounts here holds wasSaved
  | write here isOpen _ within =>
      simpa [downloads] using saves.write accounts holders here isOpen within
  | fclose here _ isOpen =>
      simpa [downloads] using saves.fclose accounts holders here isOpen
  | other stepTo busy => simpa [downloads] using saves.other accounts nodup stepTo busy

theorem run_saves (run : Run env place serves startingURL files events state) :
    Saves env place (downloads events) files state := by
  induction run with
  | start => exact saves_initial
  | next before stepTo saves =>
      obtain ⟨⟨_, crawled⟩, holders, accounts⟩ := run_mirrors before
      exact saves.step accounts holders (CrawlState.lists_nodup crawled) stepTo

/-- Whatever a server answers and however the threads are interleaved: every page is
received at most once, the counters are those of the pages that were received, a file
that has changed is mixed from the pages that go by its name, and a page that has its
file for itself has been written as far as its thread has come. -/
theorem mirror_accounts (run : Run env place serves startingURL files events state) :
    ((downloads events).map Prod.fst).Nodup ∧
    state.pagesDownloaded = toInt (downloads events).length ∧
    state.bytesDownloaded =
      toInt ((downloads events).map fun download => download.2.contentSize).sum ∧
    (∀ path, state.files path ≠ files path →
      Mixed env place (downloads events) state.files path) ∧
    ∀ download ∈ downloads events, Alone env place (downloads events) download →
      Progress env place files state download := by
  obtain ⟨_, _, accounts⟩ := run_mirrors run
  have saves := run_saves run
  exact ⟨accounts.once, accounts.pages, accounts.bytes,
    fun path changed => (saves.changed path).resolve_left changed, saves.alone⟩

/-- The page with a link to itself, as it is received. -/
def selfLinkReceived : Received where
  code := 200
  contentSize := 14
  content := CrawlState.selfLinkAnswer.content.chars ++ ['\x00']

/-- A part of the page is written. -/
theorem mirror_accounts_self_link : ∃ state : MirrorState 1 CString,
    state.pagesDownloaded = toInt 1 ∧ state.bytesDownloaded = toInt 14 ∧
    Mixed openDirectory id [(CrawlState.selfLink, selfLinkReceived)] state.files
      (savedName openDirectory CrawlState.selfLink) ∧
    Progress openDirectory id (fun _ => none) state (CrawlState.selfLink, selfLinkReceived) := by
  have started : Run openDirectory id (fun _ received => received = selfLinkReceived)
      CrawlState.selfLink (fun _ => none) [] (initial 1 CrawlState.selfLink fun _ => none) :=
    .start
  have taken := started.nextBy (.crawl (.get 0 CrawlState.selfLink))
    (.other (.take rfl rfl rfl) fun _ busy => absurd rfl busy)
  have downloaded := taken.nextBy (.download 0 CrawlState.selfLink selfLinkReceived)
    (.download rfl rfl rfl rfl)
  have isOpen := downloaded.nextBy (.fopen 0 CrawlState.selfLink) (.fopen rfl rfl rfl rfl)
  have written := isOpen.nextBy (.write 0 CrawlState.selfLink)
    (@Step.write _ _ _ _ _ _ _ 0 _ _ 0 5 rfl rfl (by decide) (by decide))
  obtain ⟨_, pages, bytes, mixed, progress⟩ := mirror_accounts written
  have own : (CrawlState.selfLink, selfLinkReceived) ∈
      [(CrawlState.selfLink, selfLinkReceived)] := List.mem_singleton_self _
  exact ⟨_, pages, bytes, mixed _ (by simp [savedName, initial]),
    progress _ own fun other isOther _ => List.mem_singleton.mp isOther⟩

end Runs

section FixedWeb

variable {web : CString → Received}

theorem answers_of_web : Answers (fun page received => received = web page) =
    fun page answer => answer = (web page).answer := by
  funext page answer
  apply propext
  constructor
  · rintro ⟨received, rfl, rfl⟩
    rfl
  · rintro rfl
    exact ⟨_, rfl, rfl⟩

/-- When no thread waits for a page, the downloads are the pages that are there. -/
theorem Accounts.downloaded_iff
    (accounts : Accounts (fun page received => received = web page) events state)
    (idle : ∀ thread, (state.crawl.point thread).page = none)
    (taken : ∀ page, page ∈ state.crawl.pagesAdded ↔ Reaches web startingURL page)
    (page : CString) :
    page ∈ (downloads events).map Prod.fst ↔ Found web startingURL page := by
  constructor
  · intro listed
    obtain ⟨download, isDownload, rfl⟩ := List.mem_map.mp listed
    obtain ⟨isTaken, same, accepted⟩ := accounts.served download isDownload
    exact ⟨(taken download.1).mp isTaken, same ▸ accepted⟩
  · rintro ⟨reached, accepted⟩
    rcases accounts.answered page ((taken page).mpr reached) with
      ⟨thread, here, _⟩ | listed | ⟨_, rfl, refused⟩
    · have held := idle thread
      rw [here] at held
      cases held
    · exact listed
    · exact absurd accepted refused

theorem Accounts.sizes
    (accounts : Accounts (fun page received => received = web page) events state) :
    (downloads events).map (fun download => download.2.contentSize) =
      ((downloads events).map Prod.fst).map fun page => (web page).contentSize := by
  rw [List.map_map]
  apply List.map_congr_left
  intro download isDownload
  rw [(accounts.served download isDownload).2.1]
  rfl

/-- When the crawl is finished the site is mirrored. -/
theorem finished_mirrors [DecidableEq Place]
    (run : Run env place (fun page received => received = web page) startingURL files
      events state)
    (seen : state.crawl.crawlingFinished = true)
    (apart : ∀ page other, Found web startingURL page → Found web startingURL other →
      place (savedName env page) = place (savedName env other) → page = other) :
    (∀ page, Found web startingURL page →
      state.files (place (savedName env page)) = some (savedText (web page))) ∧
    (∀ path, (∀ page, Found web startingURL page → place (savedName env page) ≠ path) →
      state.files path = files path) ∧
    ∃ pages : List CString, pages.Nodup ∧
      (∀ page, page ∈ pages ↔ Found web startingURL page) ∧
      state.pagesDownloaded = toInt pages.length ∧
      state.bytesDownloaded = toInt (pages.map fun page => (web page).contentSize).sum := by
  obtain ⟨⟨crawlEvents, crawled⟩, _, accounts⟩ := run_mirrors run
  have saves := run_saves run
  rw [answers_of_web] at crawled
  obtain ⟨idle, taken⟩ := CrawlState.finished_exact crawled seen
  have downloaded := accounts.downloaded_iff idle taken
  have ofDownload : ∀ download ∈ downloads events,
      Found web startingURL download.1 ∧ download.2 = web download.1 := by
    intro download isDownload
    exact ⟨(downloaded _).mp (List.mem_map_of_mem isDownload),
      (accounts.served _ isDownload).2.1⟩
  have notGetting : ∀ thread page, state.crawl.point thread ≠ .getting page := by
    intro thread page here
    have held := idle thread
    rw [here] at held
    cases held
  refine ⟨fun page found => ?_, fun path other => ?_, (downloads events).map Prod.fst,
    accounts.once, downloaded, ?_, ?_⟩
  · obtain ⟨download, isDownload, rfl⟩ := List.mem_map.mp ((downloaded page).mpr found)
    have alone : Alone env place (downloads events) download := by
      intro other isOther sameFile
      exact List.inj_on_of_nodup_map accounts.once isOther isDownload
        (apart _ _ (ofDownload other isOther).1 found sameFile)
    cases saves.alone download isDownload alone with
    | counted here | writing here => exact absurd here (notGetting _ _)
    | saved _ whole =>
        rw [← (ofDownload download isDownload).2]
        exact whole
  · rcases saves.changed path with unchanged | ⟨_, _, ⟨download, isDownload, sameFile⟩, _⟩
    · exact unchanged
    · exact absurd sameFile (other _ (ofDownload download isDownload).1)
  · rw [accounts.pages, List.length_map]
  · rw [accounts.bytes, accounts.sizes]

end FixedWeb

end MirrorState

end WebCrawl
