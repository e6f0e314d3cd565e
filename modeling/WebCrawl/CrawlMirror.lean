import WebCrawl.AnswerDecoding
import WebCrawl.CrawlTermination
import WebCrawl.FileWrites

/-!
# The crawler with its counters and files

A thread that has received a page counts it and its size under `statsLock` and
then, without a lock, opens the file of its name, writes the page into it piece
by piece and closes it, before it looks for links.  All this happens at
different times, and other threads act in between.  The counters are those of
the pages that were received, each once.
-/

namespace WebCrawl

/-- The page as the loop over the links sees it. -/
def Received.answer (received : Received) : Answer where
  code := received.code
  content := .ofBlock received.content

/-- The pages that the crawler can reach by following links. -/
def Reaches (web : CString → Received) (startingURL page : CString) : Prop :=
  Relation.ReflTransGen (Links fun page => (web page).answer) startingURL page

/-- The pages that the crawler can reach and that are there. -/
def Found (web : CString → Received) (startingURL page : CString) : Prop :=
  Reaches web startingURL page ∧ (web page).code = 200

/-- The name that `contentProcessing` opens for a page. -/
def savedName (env : CrawlerEnv) (page : CString) : CString :=
  cutSlash (env.saveDir.strcat page)

theorem savePage_name {env : CrawlerEnv} {fileName : CString} {content : List Char}
    {page : SavedPage} (saved : savePage env content fileName = .returns page) :
    page.name = savedName env fileName ∧ page.saved = .ofBlock content := by
  refine ⟨?_, (savePage_returns saved).2⟩
  rw [savePage] at saved
  obtain ⟨⟨name, directories⟩, made, opened⟩ := Outcome.bind_eq_returns saved
  have nonempty : (env.saveDir.strcat fileName).chars ≠ [] := by
    intro empty
    rw [mkdirs, if_pos empty] at made
    cases made
  obtain ⟨other, expected⟩ := mkdirs_nonempty nonempty
  rw [expected] at made
  cases made
  dsimp only at opened
  split at opened
  · cases opened
    rfl
  · cases opened

/-- A file that is open for writing, with the page that goes into it and the offset of
the next piece. -/
structure OpenFile where
  page : SavedPage
  offset : Nat

/-- The crawler with its counters and the files around it; a file is what a name stands
for, since two names may stand for one file.  An answer that a thread has counted and
not yet saved is in its hand. -/
structure MirrorState (threads : Nat) (Place : Type*) where
  crawl : CrawlState threads
  inHand : Fin threads → Option Received
  file : Fin threads → Option OpenFile
  pagesDownloaded : Int
  bytesDownloaded : Int
  files : Place → Option (List Char)

inductive MirrorEvent (threads : Nat) where
  | download (thread : Fin threads) (page : CString) (received : Received)
  | fopen (thread : Fin threads) (page : CString)
  | write (thread : Fin threads) (page : CString)
  | fclose (thread : Fin threads) (page : CString)
  | crawl (event : CrawlEvent threads)

namespace MirrorState

open FileWrites

variable {threads : Nat} {Place : Type*} [DecidableEq Place]

def initial (threads : Nat) (startingURL : CString) (files : Place → Option (List Char)) :
    MirrorState threads Place where
  crawl := CrawlState.initial threads startingURL
  inHand := fun _ => none
  file := fun _ => none
  pagesDownloaded := 0
  bytesDownloaded := 0
  files := files

/-- The answers to a page, as the loop over the links sees them. -/
def Answers (serves : CString → Received → Prop) (page : CString) (answer : Answer) : Prop :=
  ∃ received, serves page received ∧ received.answer = answer

/-- One critical section, one call on a file, or another action of the crawler's threads;
a thread with an answer in its hand does nothing else.  The stream that `fprintf` fills
writes the page in pieces of any size. -/
inductive Step (env : CrawlerEnv) (place : CString → Place)
    (serves : CString → Received → Prop) :
    MirrorState threads Place → MirrorEvent threads → MirrorState threads Place → Prop
  | download {state : MirrorState threads Place} {thread : Fin threads} {page : CString}
      {received : Received} :
      state.crawl.point thread = .getting page → state.inHand thread = none →
      serves page received → received.code = 200 →
      Step env place serves state (.download thread page received)
        { state with
          inHand := Function.update state.inHand thread (some received)
          pagesDownloaded := toInt (state.pagesDownloaded + 1)
          bytesDownloaded := toInt (state.bytesDownloaded + received.contentSize) }
  | fopen {state : MirrorState threads Place} {thread : Fin threads} {page : CString}
      {received : Received} {saved : SavedPage} :
      state.crawl.point thread = .getting page → state.inHand thread = some received →
      state.file thread = none →
      savePage env received.content page = .returns saved →
      Step env place serves state (.fopen thread page)
        { state with
          file := Function.update state.file thread (some ⟨saved, 0⟩)
          files := Function.update state.files (place saved.name) (some []) }
  | write {state : MirrorState threads Place} {thread : Fin threads} {page : CString}
      {saved : SavedPage} {offset count : Nat} :
      state.crawl.point thread = .getting page →
      state.file thread = some ⟨saved, offset⟩ →
      0 < count → offset + count ≤ saved.saved.chars.length →
      Step env place serves state (.write thread page)
        { state with
          file := Function.update state.file thread (some ⟨saved, offset + count⟩)
          files := Function.update state.files (place saved.name)
            ((state.files (place saved.name)).map fun text =>
              writeAt '\x00' text offset ((saved.saved.chars.drop offset).take count)) }
  | fclose {state : MirrorState threads Place} {thread : Fin threads} {page : CString}
      {received : Received} {saved : SavedPage} :
      state.crawl.point thread = .getting page → state.inHand thread = some received →
      state.file thread = some ⟨saved, saved.saved.chars.length⟩ →
      Step env place serves state (.fclose thread page)
        { state with
          crawl := state.crawl.setPoint thread (.processing page (.start received.answer.content))
          inHand := Function.update state.inHand thread none
          file := Function.update state.file thread none }
  | other {state : MirrorState threads Place} {event : CrawlEvent threads}
      {after : CrawlState threads} :
      CrawlState.Step (fun page answer => Answers serves page answer ∧ answer.code ≠ 200)
        state.crawl event after →
      (∀ thread, state.inHand thread ≠ none → after.point thread = state.crawl.point thread) →
      Step env place serves state (.crawl event) { state with crawl := after }

abbrev Run (env : CrawlerEnv) (place : CString → Place)
    (serves : CString → Received → Prop) (startingURL : CString)
    (files : Place → Option (List Char)) :=
  LabelledRun.Run (Step env place serves) (initial threads startingURL files)

/-- The pages that were received with code 200, with what was received. -/
def downloads (events : List (MirrorEvent threads)) : List (CString × Received) :=
  events.filterMap fun event =>
    match event with
    | .download _ page received => some (page, received)
    | .fopen _ _ | .write _ _ | .fclose _ _ | .crawl _ => none

@[simp]
theorem downloads_append (events more : List (MirrorEvent threads)) :
    downloads (events ++ more) = downloads events ++ downloads more :=
  List.filterMap_append

end MirrorState

namespace CrawlState

variable {threads : Nat} {serves : CString → Answer → Prop}
variable {state after : CrawlState threads} {event : CrawlEvent threads}

/-- Only the answers to pages that a thread waits for matter for a step. -/
theorem Step.mono {weaker : CString → Answer → Prop}
    (implies : ∀ thread page, state.point thread = .getting page →
      ∀ answer, serves page answer → weaker page answer)
    (stepTo : Step serves state event after) : Step weaker state event after := by
  cases stepTo with
  | sleep here isEmpty => exact .sleep here isEmpty
  | wake here => exact .wake here
  | take here nonempty removed => exact .take here nonempty removed
  | receive here served accepted => exact .receive here (implies _ _ here _ served) accepted
  | refuse here served refused => exact .refuse here (implies _ _ here _ served) refused
  | skip here round => exact .skip here round
  | known here round listed => exact .known here round listed
  | add here round unknown signal => exact .add here round unknown signal
  | leave here round => exact .leave here round
  | signOff here => exact .signOff here
  | search => exact .search

/-- A thread goes on without taking a page: it may let go of the page that it holds,
and it stops waiting for one only when it is answered. -/
structure GoesOn (serves : CString → Answer → Prop) (before after : CrawlPoint) : Prop where
  page : ∀ page, after.page = some page → before.page = some page
  getting : ∀ page, after = .getting page → before = .getting page
  answered : ∀ page, before = .getting page → after = .getting page ∨
    ∃ answer, serves page answer

theorem GoesOn.refl (point : CrawlPoint) : GoesOn serves point point where
  page _ := id
  getting _ := id
  answered _ := Or.inl

theorem goesOn_update {point : Fin threads → CrawlPoint} {thread : Fin threads}
    {target : CrawlPoint} (moved : GoesOn serves (point thread) target)
    (other : Fin threads) :
    GoesOn serves (point other) (Function.update point thread target other) := by
  by_cases same : other = thread
  · subst other
    rwa [Function.update_self]
  · rw [Function.update_of_ne same]
    exact .refl _

/-- A step either receives a page with code 200 or does not need such an answer. -/
theorem Step.receives_or (stepTo : Step serves state event after) :
    (∃ thread page answer, state.point thread = .getting page ∧ serves page answer ∧
      answer.code = 200 ∧
      after = state.setPoint thread (.processing page (.start answer.content))) ∨
    Step (fun page answer => serves page answer ∧ answer.code ≠ 200) state event after := by
  cases stepTo with
  | receive here served accepted => exact Or.inl ⟨_, _, _, here, served, accepted, rfl⟩
  | refuse here served refused =>
      exact Or.inr (.refuse here ⟨served, by omega⟩ refused)
  | sleep here isEmpty => exact Or.inr (.sleep here isEmpty)
  | wake here => exact Or.inr (.wake here)
  | take here nonempty removed => exact Or.inr (.take here nonempty removed)
  | skip here round => exact Or.inr (.skip here round)
  | known here round listed => exact Or.inr (.known here round listed)
  | add here round unknown signal => exact Or.inr (.add here round unknown signal)
  | leave here round => exact Or.inr (.leave here round)
  | signOff here => exact Or.inr (.signOff here)
  | search => exact Or.inr .search

/-- What a step does to the pages that are taken and to the threads that wait for one. -/
theorem step_pages (stepTo : Step serves state event after) :
    (∃ thread page rest, state.point thread = .atTop ∧ state.pagesToAdd = page :: rest ∧
      after.pagesAdded = page :: state.pagesAdded ∧
      after.point = Function.update state.point thread (.getting page)) ∨
    (after.pagesAdded = state.pagesAdded ∧
      ∀ thread, GoesOn serves (state.point thread) (after.point thread)) := by
  cases stepTo with
  | @take thread page rest here _ removed =>
      exact Or.inl ⟨thread, page, rest, here, listRem_eq_some.mp removed, rfl, rfl⟩
  | sleep here | wake here | leave here | signOff here =>
      refine Or.inr ⟨rfl, goesOn_update ?_⟩
      rw [here]
      exact ⟨by simp [CrawlPoint.page], by simp, by simp⟩
  | receive here served | refuse here served =>
      refine Or.inr ⟨rfl, goesOn_update ?_⟩
      rw [here]
      exact ⟨by simp [CrawlPoint.page], by simp, by rintro _ ⟨⟩; exact Or.inr ⟨_, served⟩⟩
  | skip here | known here =>
      refine Or.inr ⟨rfl, goesOn_update ?_⟩
      rw [here]
      exact ⟨by simp [CrawlPoint.page], by simp, by simp⟩
  | @add thread page link scan next point here _ _ signal =>
      refine Or.inr ⟨rfl, fun other => ?_⟩
      have moved : GoesOn serves (state.point thread) (.processing page next) := by
        rw [here]
        exact ⟨by simp [CrawlPoint.page], by simp, by simp⟩
      dsimp only
      rcases signal.point_eq other with same | ⟨sleeping, woken⟩
      · rw [same]
        exact goesOn_update moved other
      · have asleep : state.point other = .asleep := by
          by_cases here : other = thread
          · subst other
            simp at sleeping
          · rwa [setPoint_point, Function.update_of_ne here] at sleeping
        rw [woken, asleep]
        exact ⟨by simp [CrawlPoint.page], by simp, by simp⟩
  | search => exact Or.inr ⟨rfl, fun _ => .refl _⟩

end CrawlState

namespace MirrorState

variable {threads : Nat} {Place : Type*} [DecidableEq Place]
variable {env : CrawlerEnv} {place : CString → Place} {serves : CString → Received → Prop}
variable {startingURL : CString} {files : Place → Option (List Char)}
variable {state after : MirrorState threads Place} {event : MirrorEvent threads}
variable {events : List (MirrorEvent threads)}

/-- A page is in the hands of one thread. -/
structure Holders (crawl : CrawlState threads) : Prop where
  taken : ∀ thread page, (crawl.point thread).page = some page → page ∈ crawl.pagesAdded
  unique : ∀ thread other page, (crawl.point thread).page = some page →
    (crawl.point other).page = some page → thread = other

theorem holders_initial : Holders (CrawlState.initial threads startingURL) where
  taken _ _ holds := by cases holds
  unique _ _ _ holds := by cases holds

theorem Holders.step {answers : CString → Answer → Prop} {crawl next : CrawlState threads}
    {event : CrawlEvent threads} (holders : Holders crawl)
    (nodup : (crawl.pagesToAdd ++ crawl.pagesAdded).Nodup)
    (stepTo : CrawlState.Step answers crawl event next) : Holders next := by
  rcases CrawlState.step_pages stepTo with
    ⟨mover, first, rest, _, toAdd, added, moved⟩ | ⟨added, goesOn⟩
  · have fresh : first ∉ crawl.pagesAdded := by
      rw [toAdd, List.cons_append, List.nodup_cons, List.mem_append] at nodup
      exact fun old => nodup.1 (Or.inr old)
    have before : ∀ thread page, (next.point thread).page = some page →
        thread = mover ∧ page = first ∨
          thread ≠ mover ∧ (crawl.point thread).page = some page := by
      intro thread page held
      rw [moved] at held
      by_cases same : thread = mover
      · subst thread
        rw [Function.update_self] at held
        exact Or.inl ⟨rfl, (Option.some.inj held).symm⟩
      · rw [Function.update_of_ne same] at held
        exact Or.inr ⟨same, held⟩
    constructor
    · intro thread page held
      rw [added]
      rcases before thread page held with ⟨_, rfl⟩ | ⟨_, old⟩
      · exact List.mem_cons_self
      · exact List.mem_cons_of_mem _ (holders.taken thread page old)
    · intro thread other page held otherHeld
      rcases before thread page held with ⟨rfl, rfl⟩ | ⟨_, old⟩ <;>
        rcases before other _ otherHeld with ⟨rfl, same⟩ | ⟨_, otherOld⟩
      · rfl
      · exact absurd (holders.taken other _ otherOld) fresh
      · exact absurd (holders.taken thread _ old) (same ▸ fresh)
      · exact holders.unique thread other page old otherOld
  · constructor
    · intro thread page held
      rw [added]
      exact holders.taken thread page ((goesOn thread).page page held)
    · intro thread other page held otherHeld
      exact holders.unique thread other page ((goesOn thread).page page held)
        ((goesOn other).page page otherHeld)

/-- The counters and the answers in hand are those of the downloads. -/
structure Accounts (serves : CString → Received → Prop) (events : List (MirrorEvent threads))
    (state : MirrorState threads Place) : Prop where
  pages : state.pagesDownloaded = toInt (downloads events).length
  bytes : state.bytesDownloaded =
    toInt ((downloads events).map fun download => download.2.contentSize).sum
  once : ((downloads events).map Prod.fst).Nodup
  served : ∀ download ∈ downloads events, download.1 ∈ state.crawl.pagesAdded ∧
    serves download.1 download.2 ∧ download.2.code = 200
  inHand : ∀ thread received, state.inHand thread = some received →
    ∃ page, state.crawl.point thread = .getting page ∧ (page, received) ∈ downloads events
  waiting : ∀ thread page, state.crawl.point thread = .getting page →
    state.inHand thread = none → page ∉ (downloads events).map Prod.fst
  answered : ∀ page ∈ state.crawl.pagesAdded,
    (∃ thread, state.crawl.point thread = .getting page ∧ state.inHand thread = none) ∨
      page ∈ (downloads events).map Prod.fst ∨
        ∃ received, serves page received ∧ received.code ≠ 200

omit [DecidableEq Place] in
theorem accounts_initial :
    Accounts serves [] (initial threads startingURL files) where
  pages := by simp [initial, downloads, toInt]
  bytes := by simp [initial, downloads, toInt]
  once := List.nodup_nil
  served _ isDownload := absurd isDownload List.not_mem_nil
  inHand _ _ holds := by cases holds
  waiting _ _ here := by cases here
  answered _ taken := absurd taken List.not_mem_nil

omit [DecidableEq Place] in
/-- The files do not matter for the accounts. -/
theorem Accounts.congr {more : List (MirrorEvent threads)}
    (accounts : Accounts serves events state) (same : downloads more = downloads events)
    (crawl : after.crawl = state.crawl) (inHand : after.inHand = state.inHand)
    (pages : after.pagesDownloaded = state.pagesDownloaded)
    (bytes : after.bytesDownloaded = state.bytesDownloaded) : Accounts serves more after where
  pages := by rw [pages, same, accounts.pages]
  bytes := by rw [bytes, same, accounts.bytes]
  once := by rw [same]; exact accounts.once
  served := by rw [same, crawl]; exact accounts.served
  inHand := by rw [same, crawl, inHand]; exact accounts.inHand
  waiting := by rw [same, crawl, inHand]; exact accounts.waiting
  answered := by rw [same, crawl, inHand]; exact accounts.answered

omit [DecidableEq Place] in
/-- A page is received and counted. -/
theorem Accounts.download {thread : Fin threads} {page : CString} {received : Received}
    (accounts : Accounts serves events state) (holders : Holders state.crawl)
    (here : state.crawl.point thread = .getting page) (free : state.inHand thread = none)
    (isServed : serves page received) (accepted : received.code = 200) :
    Accounts serves (events ++ [.download thread page received])
      { state with
        inHand := Function.update state.inHand thread (some received)
        pagesDownloaded := toInt (state.pagesDownloaded + 1)
        bytesDownloaded := toInt (state.bytesDownloaded + received.contentSize) } := by
  have downloaded : downloads (events ++ [MirrorEvent.download thread page received]) =
      downloads events ++ [(page, received)] := by
    rw [downloads_append]
    rfl
  have fresh := accounts.waiting thread page here free
  have isOther : ∀ other, other ≠ thread →
      Function.update state.inHand thread (some received) other = state.inHand other :=
    fun other notHere => Function.update_of_ne notHere ..
  constructor
  case pages =>
    rw [downloaded, List.length_append, List.length_singleton, Nat.cast_add, Nat.cast_one,
      accounts.pages, toInt_toInt_add]
  case bytes =>
    rw [downloaded, List.map_append, List.sum_append, accounts.bytes, toInt_toInt_add]
    simp
  case once =>
    rw [downloaded, List.map_append, List.nodup_append]
    refine ⟨accounts.once, List.nodup_singleton _, ?_⟩
    intro old isOld new isNew same
    rw [List.map_singleton, List.mem_singleton] at isNew
    rw [same, isNew] at isOld
    exact fresh isOld
  case served =>
    rw [downloaded]
    intro download isDownload
    rcases List.mem_append.mp isDownload with old | new
    · exact accounts.served download old
    · rw [List.mem_singleton.mp new]
      exact ⟨holders.taken thread page (by rw [here]; rfl), isServed, accepted⟩
  case inHand =>
    rw [downloaded]
    intro other otherReceived holds
    dsimp only at holds
    by_cases same : other = thread
    · subst other
      rw [Function.update_self] at holds
      cases holds
      exact ⟨page, here, by simp⟩
    · rw [isOther other same] at holds
      obtain ⟨otherPage, otherHere, isDownload⟩ := accounts.inHand other otherReceived holds
      exact ⟨otherPage, otherHere, List.mem_append_left _ isDownload⟩
  case waiting =>
    intro other otherPage otherHere nothing
    by_cases same : other = thread
    · subst other
      simp at nothing
    · dsimp only at nothing
      rw [isOther other same] at nothing
      have old := accounts.waiting other otherPage otherHere nothing
      rw [downloaded, List.map_append, List.mem_append, List.map_singleton,
        List.mem_singleton]
      rintro (isOld | isNew)
      · exact old isOld
      · dsimp only at isNew otherHere
        exact same (holders.unique other thread otherPage (by rw [otherHere]; rfl)
          (by rw [here, isNew]; rfl))
  case answered =>
    rw [downloaded]
    intro other taken
    rcases accounts.answered other taken with ⟨holder, holds, nothing⟩ | downloaded | refused
    · by_cases same : holder = thread
      · subst holder
        rw [here] at holds
        cases holds
        exact Or.inr (Or.inl (by simp))
      · exact Or.inl ⟨holder, holds, (isOther holder same).trans nothing⟩
    · refine Or.inr (Or.inl ?_)
      rw [List.map_append]
      exact List.mem_append_left _ downloaded
    · exact Or.inr (Or.inr refused)

/-- What a thread waits for when another one, or itself, goes on with its page. -/
theorem getting_of_setPoint {crawl : CrawlState threads} {thread other : Fin threads}
    {page otherPage : CString} {scan : LinkScan}
    (otherHere : (crawl.setPoint thread (.processing page scan)).point other =
      .getting otherPage) :
    other ≠ thread ∧ crawl.point other = .getting otherPage := by
  have notHere : other ≠ thread := by
    rintro rfl
    simp at otherHere
  rw [CrawlState.setPoint_point, Function.update_of_ne notHere] at otherHere
  exact ⟨notHere, otherHere⟩

omit [DecidableEq Place] in
/-- The page in a thread's hand is saved, and the thread looks for links. -/
theorem Accounts.fclose {thread : Fin threads} {page : CString} {received : Received}
    (accounts : Accounts serves events state) (holds : state.inHand thread = some received) :
    Accounts serves (events ++ [.fclose thread page])
      { state with
        crawl := state.crawl.setPoint thread (.processing page (.start received.answer.content))
        inHand := Function.update state.inHand thread none
        file := Function.update state.file thread none } := by
  have same : downloads (events ++ [MirrorEvent.fclose thread page]) = downloads events := by
    rw [downloads_append]
    exact List.append_nil _
  have stays : ∀ {other}, other ≠ thread →
      (state.crawl.setPoint thread (.processing page (.start received.answer.content))).point
        other = state.crawl.point other ∧
      Function.update state.inHand thread none other = state.inHand other :=
    fun notHere => ⟨Function.update_of_ne notHere .., Function.update_of_ne notHere ..⟩
  constructor
  case pages => rw [same, accounts.pages]
  case bytes => rw [same, accounts.bytes]
  case once =>
    rw [same]
    exact accounts.once
  case served =>
    rw [same]
    exact accounts.served
  case inHand =>
    rw [same]
    intro other otherReceived otherHolds
    have notHere : other ≠ thread := by
      rintro rfl
      simp at otherHolds
    obtain ⟨point, inHand⟩ := stays notHere
    dsimp only at otherHolds ⊢
    rw [point]
    rw [inHand] at otherHolds
    exact accounts.inHand other otherReceived otherHolds
  case waiting =>
    rw [same]
    intro other otherPage otherHere nothing
    obtain ⟨notHere, waited⟩ := getting_of_setPoint otherHere
    dsimp only at nothing
    rw [(stays notHere).2] at nothing
    exact accounts.waiting other otherPage waited nothing
  case answered =>
    rw [same]
    intro other taken
    rcases accounts.answered other taken with ⟨holder, waited, nothing⟩ | rest
    · have notHere : holder ≠ thread := by
        rintro rfl
        rw [holds] at nothing
        cases nothing
      obtain ⟨point, inHand⟩ := stays notHere
      exact Or.inl ⟨holder, point.trans waited, inHand.trans nothing⟩
    · exact Or.inr rest

section Others

variable {crawlEvent : CrawlEvent threads} {next : CrawlState threads}
variable (nodup : (state.crawl.pagesToAdd ++ state.crawl.pagesAdded).Nodup)
  (stepTo : CrawlState.Step (fun page answer => Answers serves page answer ∧ answer.code ≠ 200)
    state.crawl crawlEvent next)

omit [DecidableEq Place] in
include nodup stepTo in
/-- What a thread waits for is new or was waited for. -/
theorem getting_or_new {thread : Fin threads} {page : CString}
    (here : next.point thread = .getting page) :
    state.crawl.point thread = .getting page ∨ page ∉ state.crawl.pagesAdded := by
  rcases CrawlState.step_pages stepTo with
    ⟨mover, first, rest, _, toAdd, _, moved⟩ | ⟨_, goesOn⟩
  · rw [moved] at here
    by_cases isHere : thread = mover
    · subst thread
      rw [Function.update_self] at here
      cases here
      rw [toAdd, List.cons_append, List.nodup_cons, List.mem_append] at nodup
      exact Or.inr fun old => nodup.1 (Or.inr old)
    · rw [Function.update_of_ne isHere] at here
      exact Or.inl here
  · exact Or.inl ((goesOn thread).getting page here)

omit [DecidableEq Place] in
include stepTo in
/-- A page that was taken is being waited for, was received, or is dropped when refused. -/
theorem Accounts.answered_step (accounts : Accounts serves events state) :
    ∀ page ∈ next.pagesAdded,
      (∃ thread, next.point thread = .getting page ∧ state.inHand thread = none) ∨
        page ∈ (downloads events).map Prod.fst ∨
          ∃ received, serves page received ∧ received.code ≠ 200 := by
  intro page taken
  rcases CrawlState.step_pages stepTo with
    ⟨mover, first, rest, top, _, added, moved⟩ | ⟨added, goesOn⟩
  · have empty : state.inHand mover = none := by
      rw [Option.eq_none_iff_forall_ne_some]
      intro received inHand
      obtain ⟨other, here, _⟩ := accounts.inHand mover received inHand
      rw [top] at here
      cases here
    rw [added, List.mem_cons] at taken
    rcases taken with rfl | old
    · exact Or.inl ⟨mover, by rw [moved, Function.update_self], empty⟩
    · rcases accounts.answered page old with ⟨holder, here, nothing⟩ | rest
      · have notMover : holder ≠ mover := by
          rintro rfl
          rw [top] at here
          cases here
        exact Or.inl ⟨holder, by rw [moved, Function.update_of_ne notMover, here], nothing⟩
      · exact Or.inr rest
  · rw [added] at taken
    rcases accounts.answered page taken with ⟨holder, here, nothing⟩ | rest
    · rcases (goesOn holder).answered page here with
        still | ⟨_, ⟨received, isServed, rfl⟩, refused⟩
      · exact Or.inl ⟨holder, still, nothing⟩
      · exact Or.inr (Or.inr ⟨received, isServed, refused⟩)
    · exact Or.inr rest

omit [DecidableEq Place] in
include nodup stepTo in
/-- The threads do something else. -/
theorem Accounts.other (accounts : Accounts serves events state)
    (busy : ∀ thread, state.inHand thread ≠ none →
      next.point thread = state.crawl.point thread) :
    Accounts serves (events ++ [.crawl crawlEvent]) { state with crawl := next } := by
  have same : downloads (events ++ [MirrorEvent.crawl crawlEvent]) = downloads events := by
    rw [downloads_append]
    exact List.append_nil _
  have grows : ∀ page ∈ state.crawl.pagesAdded, page ∈ next.pagesAdded := by
    intro page taken
    rcases CrawlState.step_pages stepTo with ⟨_, _, _, _, _, added, _⟩ | ⟨added, _⟩
    · rw [added]
      exact List.mem_cons_of_mem _ taken
    · rwa [added]
  have answered := accounts.answered_step stepTo
  constructor
  case pages => rw [same, accounts.pages]
  case bytes => rw [same, accounts.bytes]
  case once =>
    rw [same]
    exact accounts.once
  case served =>
    rw [same]
    intro download isDownload
    obtain ⟨taken, isServed, accepted⟩ := accounts.served download isDownload
    exact ⟨grows _ taken, isServed, accepted⟩
  case inHand =>
    rw [same]
    intro thread received inHand
    obtain ⟨page, here, isDownload⟩ := accounts.inHand thread received inHand
    have stays := busy thread (by rw [inHand]; exact Option.some_ne_none _)
    exact ⟨page, stays.trans here, isDownload⟩
  case waiting =>
    rw [same]
    intro thread page here nothing
    rcases getting_or_new nodup stepTo here with old | fresh
    · exact accounts.waiting thread page old nothing
    · intro listed
      obtain ⟨download, isDownload, rfl⟩ := List.mem_map.mp listed
      exact fresh (accounts.served download isDownload).1
  case answered =>
    rw [same]
    exact answered

end Others

/-- What a step is in the crawl; a page that is received with code 200 is still waited for
until it is saved. -/
def crawlEvent : MirrorEvent threads → Option (CrawlEvent threads)
  | .download .. | .fopen .. | .write .. => none
  | .fclose .. => some .internal
  | .crawl event => some event

theorem Accounts.crawls (accounts : Accounts serves events state)
    (stepTo : Step env place serves state event after) :
    LabelledRun.Matches (CrawlState.Step (Answers serves)) state.crawl (crawlEvent event)
      after.crawl := by
  cases stepTo with
  | download | fopen | write => rfl
  | @fclose thread page received saved here holds =>
      obtain ⟨other, otherHere, isDownload⟩ := accounts.inHand thread received holds
      rw [here] at otherHere
      cases otherHere
      obtain ⟨_, isServed, accepted⟩ := accounts.served _ isDownload
      exact .receive here ⟨received, isServed, rfl⟩ accepted
  | other stepTo busy => exact stepTo.mono fun _ _ _ _ both => both.1

theorem Accounts.step (accounts : Accounts serves events state) (holders : Holders state.crawl)
    (nodup : (state.crawl.pagesToAdd ++ state.crawl.pagesAdded).Nodup)
    (stepTo : Step env place serves state event after) :
    Accounts serves (events ++ [event]) after := by
  cases stepTo with
  | download here free isServed accepted =>
      exact accounts.download holders here free isServed accepted
  | fopen | write =>
      exact accounts.congr (by rw [downloads_append]; simp [downloads]) rfl rfl rfl rfl
  | fclose _ holds => exact accounts.fclose holds
  | other stepTo busy => exact accounts.other nodup stepTo busy

/-- The crawl that a run goes through, and what it counts. -/
theorem run_mirrors (run : Run env place serves startingURL files events state) :
    (∃ crawlEvents, CrawlState.Run (Answers serves) startingURL crawlEvents state.crawl) ∧
      Holders state.crawl ∧ Accounts serves events state := by
  refine run.history_invariant
    (fun events state =>
      (∃ crawlEvents, CrawlState.Run (Answers serves) startingURL crawlEvents state.crawl) ∧
        Holders state.crawl ∧ Accounts serves events state)
    ⟨⟨[], .start⟩, holders_initial, accounts_initial⟩ ?_
  rintro events state event after ⟨⟨crawlEvents, crawled⟩, holders, accounts⟩ stepTo
  have nodup := CrawlState.lists_nodup crawled
  have crawls := accounts.crawls stepTo
  refine ⟨?_, ?_, accounts.step holders nodup stepTo⟩
  · cases stepTo with
    | download | fopen | write => exact ⟨crawlEvents, crawled⟩
    | fclose | other => exact ⟨_, crawled.next crawls⟩
  · cases stepTo with
    | download | fopen | write => exact holders
    | fclose | other => exact holders.step nodup crawls

end MirrorState

end WebCrawl
