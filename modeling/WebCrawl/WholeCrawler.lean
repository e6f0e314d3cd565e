import WebCrawl.PolledCounters
import WebCrawl.SearchService
import WebCrawl.SiteMirror

/-!
# The whole crawler

The crawler's threads with their counters and their files, the main thread with its
commands and the job executor behind its pipes run together.  A thread that has
received a page adds to the two counters one after the other under `statsLock`, and
the main thread reads them for STATS without this lock.  The system is one of the
threads alone and one of the main thread alone, so what holds of these holds of it,
and in addition its counters can be compared with what STATS shows of them.
-/

namespace WebCrawl

/-- The program points of the main thread.  While it replies to STATS it has read none,
one or both of the counters, or has the text of its reply ready. -/
inductive CrawlerPoint where
  | plain (point : MainPoint)
  | reading (command : CString) (pages bytes : Option Int)
  | showing (command : CString) (text : List Char) (pages bytes : Int)

/-- The point without the counters; a STATS command is accepted when its text is ready. -/
def CrawlerPoint.main : CrawlerPoint → MainPoint
  | .plain point => point
  | .reading .. => .accepting
  | .showing command text _ _ => .replying command text

def CrawlerPoint.poll : CrawlerPoint → PollPoint
  | .plain _ => .idle
  | .reading _ pages bytes => .reading pages bytes
  | .showing _ _ pages bytes => .replying pages bytes

/-- The crawler and the job executor.  A thread that is between the two additions, with
the page that it has received, is `counting`. -/
structure CrawlerState (threads : Nat) (Place : Type*) where
  mirror : MirrorState threads Place
  counting : Option (Fin threads × CString × Received)
  main : CrawlerPoint
  executor : ExecutorPoint
  toExecutor : List Char
  toCrawler : List Char

inductive CrawlerEvent (threads : Nat) where
  | thread (event : MirrorEvent threads)
  | countPage
  | main (event : SearchEvent)
  | acceptStats (command : CString)
  | readStats
  | printStats (command : CString)
  | replyStats (command : CString) (text : List Char) (pages bytes : Int)

namespace CrawlerState

variable {threads : Nat} {Place : Type*}

def initial (threads : Nat) (startingURL : CString) (files : Place → Option (List Char)) :
    CrawlerState threads Place where
  mirror := .initial threads startingURL files
  counting := none
  main := .plain .accepting
  executor := .absent
  toExecutor := []
  toCrawler := []

/-- What the main thread reads of `pagesDownloaded`. -/
def pagesDownloaded (state : CrawlerState threads Place) : Int :=
  if state.counting.isSome then toInt (state.mirror.pagesDownloaded + 1)
  else state.mirror.pagesDownloaded

/-- The crawler and the job executor without the counters and the files. -/
def search (state : CrawlerState threads Place) : SearchState threads where
  crawl := state.mirror.crawl
  main := state.main.main
  executor := state.executor
  toExecutor := state.toExecutor
  toCrawler := state.toCrawler

/-- The state after something that has nothing to do with counters and files. -/
def follow (state : CrawlerState threads Place) (next : SearchState threads)
    (main : CrawlerPoint) : CrawlerState threads Place where
  mirror := { state.mirror with crawl := next.crawl }
  counting := state.counting
  main := main
  executor := next.executor
  toExecutor := next.toExecutor
  toCrawler := next.toCrawler

variable [DecidableEq Place]

/-- One action of a thread, of the main thread or of the job executor.  The last two
ask no server, and the main thread changes nothing of the crawl but `ready`. -/
inductive Step (env : CrawlerEnv) (place : CString → Place)
    (serves : CString → Received → Prop) (searcher : Searcher) (backlog : List Char) :
    CrawlerState threads Place → CrawlerEvent threads → CrawlerState threads Place → Prop
  -- the threads
  | countPage {state : CrawlerState threads Place} {thread : Fin threads} {page : CString}
      {received : Received} :
      state.counting = none → state.mirror.crawl.point thread = .getting page →
      state.mirror.inHand thread = none → serves page received → received.code = 200 →
      Step env place serves searcher backlog state .countPage
        { state with counting := some (thread, page, received) }
  | countBytes {state : CrawlerState threads Place} {thread : Fin threads} {page : CString}
      {received : Received} {after : MirrorState threads Place} :
      state.counting = some (thread, page, received) →
      MirrorState.Step env place serves state.mirror (.download thread page received) after →
      Step env place serves searcher backlog state (.thread (.download thread page received))
        { state with mirror := after, counting := none }
  | threads {state : CrawlerState threads Place} {event : MirrorEvent threads}
      {after : MirrorState threads Place} {printed : List Char} :
      MirrorState.Step env place serves state.mirror event after →
      (∀ thread page received, event ≠ .download thread page received) →
      (∀ ready, event ≠ .crawl (.search ready)) →
      (∀ thread page received, state.counting = some (thread, page, received) →
        after.crawl.point thread = state.mirror.crawl.point thread) →
      printed = [] ∨ CrawlState.Works state.mirror.crawl after.crawl →
      Step env place serves searcher backlog state (.thread event)
        { state with
          mirror := after
          toExecutor :=
            if state.executor = .absent then state.toExecutor else state.toExecutor ++ printed }
  -- the main thread, and the job executor
  | attends {state : CrawlerState threads Place} {point : MainPoint} {event : SearchEvent}
      {next : SearchState threads} :
      state.main = .plain point →
      SearchState.Step (fun _ _ => False) searcher backlog state.search event next →
      (event ≠ .start → next.crawl = state.mirror.crawl) →
      (∀ command, event = .accept command → crawlerCommand command ≠ .stats) →
      Step env place serves searcher backlog state (.main event)
        (state.follow next (.plain next.main))
  | executes {state : CrawlerState threads Place} {next : SearchState threads} :
      SearchState.Step (fun _ _ => False) searcher backlog state.search .internal next →
      next.crawl = state.mirror.crawl → next.main = state.main.main →
      Step env place serves searcher backlog state (.main .internal) (state.follow next state.main)
  -- the main thread replies to STATS
  | acceptStats {state : CrawlerState threads Place} {command : CString} :
      state.main = .plain .accepting → OneLine command.chars →
      crawlerCommand command = .stats →
      Step env place serves searcher backlog state (.acceptStats command)
        { state with main := .reading command none none }
  | readPages {state : CrawlerState threads Place} {command : CString} {bytes : Option Int} :
      state.main = .reading command none bytes →
      Step env place serves searcher backlog state .readStats
        { state with main := .reading command (some state.pagesDownloaded) bytes }
  | readBytes {state : CrawlerState threads Place} {command : CString} {pages : Option Int} :
      state.main = .reading command pages none →
      Step env place serves searcher backlog state .readStats
        { state with main := .reading command pages (some state.mirror.bytesDownloaded) }
  | print {state : CrawlerState threads Place} {command : CString} {pages bytes : Int}
      {text : List Char} (elapsed : Nat) :
      state.main = .reading command (some pages) (some bytes) →
      crawlerStats elapsed pages bytes = .returns (text ++ ['\x00']) →
      Step env place serves searcher backlog state (.printStats command)
        { state with main := .showing command text pages bytes }
  | reply {state : CrawlerState threads Place} {command : CString} {text : List Char}
      {pages bytes : Int} :
      state.main = .showing command text pages bytes →
      Step env place serves searcher backlog state (.replyStats command text pages bytes)
        { state with main := .plain .accepting }

abbrev Run (env : CrawlerEnv) (place : CString → Place) (serves : CString → Received → Prop)
    (searcher : Searcher) (backlog : List Char) (startingURL : CString)
    (files : Place → Option (List Char)) :=
  LabelledRun.Run (Step env place serves searcher backlog) (initial threads startingURL files)

end CrawlerState

namespace SearchState

variable {threads : Nat} {serves other : CString → Answer → Prop} {searcher : Searcher}
variable {backlog : List Char}
variable {state after : SearchState threads} {event : SearchEvent}

theorem Step.mono (implies : ∀ page answer, serves page answer → other page answer)
    (stepTo : Step serves searcher backlog state event after) :
    Step other searcher backlog state event after := by
  cases stepTo with
  | crawls stepTo notSearch prints =>
      exact .crawls (stepTo.mono fun _ page _ => implies page) notSearch prints
  | accept here oneLine direct => exact .accept here oneLine direct
  | acceptSearch here oneLine isSearch => exact .acceptSearch here oneLine isSearch
  | start here seen => exact .start here seen
  | defer here notSeen => exact .defer here notSeen
  | ask here isSearch => exact .ask here isSearch
  | receive here arrived noNewline => exact .receive here arrived noNewline
  | reply here => exact .reply here
  | leave here => exact .leave here
  | executorStarts here => exact .executorStarts here
  | executorReads here first noNewline => exact .executorReads here first noNewline

theorem Step.start_crawl (stepTo : Step serves searcher backlog state .start after) :
    state.crawl.crawlingFinished = true ∧ after.crawl = { state.crawl with ready := true } := by
  cases stepTo with
  | start _ seen => exact ⟨seen, rfl⟩

end SearchState

/-- What is being replied to is a STATS command, and the text is the one for the numbers. -/
def CrawlerPoint.Prepared : CrawlerPoint → Prop
  | .plain _ => True
  | .reading command .. => OneLine command.chars ∧ crawlerCommand command = .stats
  | .showing command text pages bytes => crawlerCommand command = .stats ∧
      ∃ elapsed, crawlerStats elapsed pages bytes = .returns (text ++ ['\x00'])

namespace CrawlerState

variable {threads : Nat} {Place : Type*} [DecidableEq Place]
variable {env : CrawlerEnv} {place : CString → Place} {serves : CString → Received → Prop}
variable {searcher : Searcher} {backlog : List Char} {startingURL : CString}
variable {files : Place → Option (List Char)}
variable {state after : CrawlerState threads Place} {event : CrawlerEvent threads}
variable {events more : List (CrawlerEvent threads)}

/-- What an event is for the threads. -/
def mirrorEvent : CrawlerEvent threads → Option (MirrorEvent threads)
  | .thread event => some event
  | .main .start => some (.crawl (.search true))
  | _ => none

/-- What an event is for the main thread and the job executor. -/
def searchEvent : CrawlerEvent threads → Option SearchEvent
  | .thread (.download ..) | .thread (.fopen ..) | .thread (.write ..) => none
  | .thread _ => some .internal
  | .main event => some event
  | .printStats command => some (.accept command)
  | .replyStats command text _ _ => some (.reply command text)
  | _ => none

section Layers

omit [DecidableEq Place] in
theorem search_move {main : CrawlerPoint} (same : main.main = state.main.main) :
    ({ state with main := main } : CrawlerState threads Place).search = state.search := by
  rw [search, search, same]

omit [DecidableEq Place] in
theorem follow_mirror {next : SearchState threads} {main : CrawlerPoint}
    {crawl : CrawlState threads} (same : next.crawl = crawl) :
    (state.follow next main).mirror = { state.mirror with crawl := crawl } := by
  rw [follow, same]

theorem prepared_step (prepared : state.main.Prepared)
    (stepTo : Step env place serves searcher backlog state event after) : after.main.Prepared := by
  cases stepTo with
  | countPage | countBytes | threads | executes => exact prepared
  | attends | reply => trivial
  | acceptStats _ oneLine isStats => exact ⟨oneLine, isStats⟩
  | readPages here | readBytes here =>
      rw [here] at prepared
      exact prepared
  | print elapsed here printed =>
      rw [here] at prepared
      exact ⟨prepared.2, elapsed, printed⟩

theorem prepared_of_run
    (run : Run env place serves searcher backlog startingURL files events state) :
    state.main.Prepared :=
  run.invariant (fun reached => reached.main.Prepared) trivial fun _ _ _ => prepared_step

/-- The threads, with their counters and files, are the crawler's threads. -/
theorem mirrored (run : Run env place serves searcher backlog startingURL files events state) :
    MirrorState.Run env place serves startingURL files (events.filterMap mirrorEvent)
      state.mirror := by
  refine run.simulates CrawlerState.mirror mirrorEvent fun _ state _ _ _ stepTo => ?_
  cases stepTo with
  | countBytes _ stepTo | threads stepTo => exact stepTo
  | @attends point event next here stepTo unchanged _ =>
      cases event with
      | start =>
          obtain ⟨seen, same⟩ := stepTo.start_crawl
          have finished : state.mirror.crawl.crawlingFinished = true := seen
          have tested := @CrawlState.Step.search threads
            (fun page answer => MirrorState.Answers serves page answer ∧ answer.code ≠ 200)
            state.mirror.crawl
          rw [finished, Bool.or_true] at tested
          have searches : MirrorState.Step env place serves state.mirror (.crawl (.search true))
              { state.mirror with crawl := { state.mirror.crawl with ready := true } } :=
            .other tested fun _ _ => rfl
          rw [follow_mirror same]
          exact searches
      | accept | reply | internal =>
          exact follow_mirror (unchanged (by simp))
  | executes _ same _ => exact follow_mirror same
  | countPage | acceptStats | readPages | readBytes | print | reply => rfl

/-- The main thread and the job executor are those that know nothing of counters. -/
theorem searched (run : Run env place serves searcher backlog startingURL files events state) :
    SearchState.Run (MirrorState.Answers serves) searcher backlog startingURL
      (events.filterMap searchEvent) state.search := by
  refine run.simulates search searchEvent fun _ state _ after before stepTo => ?_
  have prepared := prepared_of_run before
  cases stepTo with
  | countPage => rfl
  | countBytes _ stepTo =>
      cases stepTo
      rfl
  | @threads event next printed stepTo notDownload notSearch _ prints =>
      have crawls := (MirrorState.run_mirrors (mirrored before)).2.2.crawls stepTo
      cases event with
      | download => exact absurd rfl (notDownload _ _ _)
      | fopen | write =>
          have sameCrawl : next.crawl = state.mirror.crawl := crawls
          rw [sameCrawl] at prints
          have silent := prints.resolve_right (CrawlState.not_works_self _)
          have same : ({ state with
              mirror := next
              toExecutor := if state.executor = .absent then state.toExecutor
                else state.toExecutor ++ printed } : CrawlerState threads Place).search =
              state.search := by
            simp [search, sameCrawl, silent]
          exact same
      | fclose => exact .crawls crawls (by simp) prints
      | crawl event =>
          exact .crawls crawls
            (fun ready same => notSearch ready (congrArg MirrorEvent.crawl same)) prints
  | attends here stepTo => exact stepTo.mono fun _ _ served => served.elim
  | @executes next stepTo _ sameMain =>
      have same : (state.follow next state.main).search = next := by
        rw [search, follow, ← sameMain]
      rw [same]
      exact stepTo.mono fun _ _ served => served.elim
  | acceptStats here | readPages here | readBytes here =>
      exact search_move (by rw [here]; rfl)
  | print elapsed here printed =>
      rw [here] at prepared
      exact .accept (congrArg CrawlerPoint.main here) prepared.1
        (.stats elapsed _ _ prepared.2 printed)
  | @reply command text pages bytes here =>
      rw [here] at prepared
      have replies := @SearchState.Step.reply threads (MirrorState.Answers serves) searcher backlog
        state.search command text (congrArg CrawlerPoint.main here)
      rw [if_neg (by rw [prepared.1]; simp)] at replies
      exact replies

end Layers

section History

/-- How often `pagesDownloaded` was incremented. -/
def countedPages (events : List (CrawlerEvent threads)) : Nat :=
  events.countP fun
    | .countPage => true
    | _ => false

/-- The pages that were counted with their sizes. -/
def downloaded (events : List (CrawlerEvent threads)) : List (CString × Received) :=
  MirrorState.downloads (events.filterMap mirrorEvent)

def sizes (events : List (CrawlerEvent threads)) : List Int :=
  (downloaded events).map fun download => download.2.contentSize

def commandsOf (events : List (CrawlerEvent threads)) : List CString :=
  events.filterMap fun
    | .main (.accept command) | .acceptStats command => some command
    | _ => none

/-- The commands that were replied to. -/
def repliedOf (events : List (CrawlerEvent threads)) : List CString :=
  events.filterMap fun
    | .main (.reply command _) | .replyStats command _ _ _ => some command
    | _ => none

/-- The numbers in the replies to STATS. -/
def statsOf (events : List (CrawlerEvent threads)) : List (Int × Int) :=
  events.filterMap fun
    | .replyStats _ _ pages bytes => some (pages, bytes)
    | _ => none

variable (events more : List (CrawlerEvent threads))

@[simp]
theorem countedPages_append :
    countedPages (events ++ more) = countedPages events + countedPages more :=
  List.countP_append

@[simp]
theorem downloaded_append :
    downloaded (events ++ more) = downloaded events ++ downloaded more := by
  rw [downloaded, List.filterMap_append, MirrorState.downloads_append, downloaded, downloaded]

theorem sizes_append : sizes (events ++ more) = sizes events ++ sizes more := by
  rw [sizes, downloaded_append, List.map_append, sizes, sizes]

theorem commandsOf_append :
    commandsOf (events ++ more) = commandsOf events ++ commandsOf more :=
  List.filterMap_append

theorem statsOf_append : statsOf (events ++ more) = statsOf events ++ statsOf more :=
  List.filterMap_append

end History

/-- The counters against the history. -/
structure Counted (events : List (CrawlerEvent threads)) (state : CrawlerState threads Place) :
    Prop where
  pages : countedPages events = (downloaded events).length + state.counting.toList.length
  counting : ∀ thread page received, state.counting = some (thread, page, received) →
    state.mirror.crawl.point thread = .getting page

section Counters

omit [DecidableEq Place] in
theorem Counted.same (counted : Counted events state) (noPage : countedPages [event] = 0)
    (noDownload : downloaded [event] = []) (counting : after.counting = state.counting)
    (points : ∀ thread page received, state.counting = some (thread, page, received) →
      after.mirror.crawl.point thread = state.mirror.crawl.point thread) :
    Counted (events ++ [event]) after where
  pages := by
    rw [countedPages_append, noPage, downloaded_append, noDownload, List.append_nil, counting]
    exact counted.pages
  counting thread page received isCounting := by
    rw [counting] at isCounting
    rw [points thread page received isCounting]
    exact counted.counting thread page received isCounting

theorem Counted.step (counted : Counted events state)
    (stepTo : Step env place serves searcher backlog state event after) :
    Counted (events ++ [event]) after := by
  cases stepTo with
  | countPage free here =>
      have pages := counted.pages
      rw [free] at pages
      refine ⟨?_, fun other otherPage _ isCounting => ?_⟩
      · rw [countedPages_append, pages, downloaded_append, List.length_append]
        rfl
      · cases isCounting
        exact here
  | countBytes isCounting =>
      have pages := counted.pages
      rw [isCounting] at pages
      refine ⟨?_, fun _ _ _ none => by cases none⟩
      rw [countedPages_append, pages, downloaded_append, List.length_append]
      rfl
  | @threads event _ _ _ notDownload _ points =>
      refine counted.same rfl ?_ rfl points
      cases event with
      | download => exact absurd rfl (notDownload _ _ _)
      | fopen | write | fclose | crawl => rfl
  | @attends _ event _ _ stepTo unchanged =>
      cases event with
      | start =>
          refine counted.same rfl rfl rfl fun thread _ _ _ => ?_
          rw [follow_mirror stepTo.start_crawl.2]
          rfl
      | accept | reply | internal =>
          refine counted.same rfl rfl rfl fun thread _ _ _ => ?_
          rw [follow_mirror (unchanged (by simp))]
  | executes _ same =>
      refine counted.same rfl rfl rfl fun thread _ _ _ => ?_
      rw [follow_mirror same]
  | acceptStats | readPages | readBytes | print | reply =>
      exact counted.same rfl rfl rfl fun _ _ _ _ => rfl

theorem counted_of_run
    (run : Run env place serves searcher backlog startingURL files events state) :
    Counted events state :=
  run.history_invariant Counted ⟨rfl, fun _ _ _ none => by cases none⟩
    fun _ _ _ _ counted stepTo => counted.step stepTo

theorem pagesDownloaded_of_run
    (run : Run env place serves searcher backlog startingURL files events state) :
    state.pagesDownloaded = toInt (countedPages events) := by
  have pages : state.mirror.pagesDownloaded = toInt (downloaded events).length :=
    (MirrorState.run_mirrors (mirrored run)).2.2.pages
  rw [CrawlerState.pagesDownloaded, (counted_of_run run).pages, pages]
  cases state.counting with
  | none => simp
  | some =>
      rw [if_pos Option.isSome_some, toInt_toInt_add, Option.toList_some, List.length_singleton,
        Nat.cast_add, Nat.cast_one]

/-- The main thread polls the counters, whatever the threads do. -/
theorem poll_step (run : Run env place serves searcher backlog startingURL files events state)
    (stepTo : Step env place serves searcher backlog state event after) :
    ∃ reply, statsOf [event] = reply.toList ∧
      PollStep (toInt (countedPages events)) (toInt (sizes events).sum) state.main.poll reply
        after.main.poll := by
  have pages := pagesDownloaded_of_run run
  have bytes : state.mirror.bytesDownloaded = toInt (sizes events).sum :=
    (MirrorState.run_mirrors (mirrored run)).2.2.bytes
  cases stepTo with
  | countPage | countBytes | threads | executes => exact ⟨none, rfl, .stay⟩
  | attends here =>
      rw [here]
      exact ⟨none, rfl, .stay⟩
  | acceptStats here =>
      rw [here]
      exact ⟨none, rfl, .start⟩
  | readPages here =>
      rw [here, pages]
      exact ⟨none, rfl, .readPages⟩
  | readBytes here =>
      rw [here, bytes]
      exact ⟨none, rfl, .readBytes⟩
  | print _ here =>
      rw [here]
      exact ⟨none, rfl, .print⟩
  | reply here =>
      rw [here]
      exact ⟨some _, rfl, .reply⟩

/-- The main thread is a poller. -/
theorem polled :
    Polled (Step env place serves searcher backlog) (initial threads startingURL files)
      countedPages sizes statsOf fun state => state.main.poll where
  served_append := countedPages_append
  sizes_append := sizes_append
  shown_append := statsOf_append
  start := rfl
  polls run stepTo := poll_step run stepTo

end Counters

end CrawlerState

/-- The command that was accepted before its text is ready. -/
def CrawlerPoint.unread : CrawlerPoint → List CString
  | .reading command .. => [command]
  | .plain _ | .showing .. => []

/-- The command that is not yet replied to. -/
def CrawlerPoint.pending (point : CrawlerPoint) : List CString :=
  (SearchState.served point.main).toList ++ point.unread

namespace CrawlerState

variable {threads : Nat} {Place : Type*} [DecidableEq Place]
variable {env : CrawlerEnv} {place : CString → Place} {serves : CString → Received → Prop}
variable {searcher : Searcher} {backlog : List Char} {startingURL : CString}
variable {files : Place → Option (List Char)}
variable {state after : CrawlerState threads Place} {event : CrawlerEvent threads}
variable {events before during : List (CrawlerEvent threads)}
variable {command replied : CString} {text : List Char} {pages bytes : Int}

section Runs

/-- Every crawl can go on while the main thread waits for a command. -/
theorem run_of_mirror {mirrorEvents : List (MirrorEvent threads)}
    {mirror : MirrorState threads Place} (searcher : Searcher) (backlog : List Char)
    (run : MirrorState.Run env place serves startingURL files mirrorEvents mirror)
    (noSearch : ∀ event ∈ mirrorEvents, ∀ ready, event ≠ .crawl (.search ready)) :
    ∃ events, events.filterMap mirrorEvent = mirrorEvents ∧
      Run env place serves searcher backlog startingURL files events
        ⟨mirror, none, .plain .accepting, .absent, [], []⟩ := by
  induction run with
  | start => exact ⟨[], rfl, .start⟩
  | @next earlier state event after _ stepTo ih =>
      obtain ⟨events, same, run⟩ := ih fun event listed =>
        noSearch event (List.mem_append_left _ listed)
      have notSearch := noSearch event (by simp)
      have others : (∀ thread page received, event ≠ .download thread page received) →
          ∃ events, events.filterMap mirrorEvent = earlier ++ [event] ∧
            Run env place serves searcher backlog startingURL files events
              ⟨after, none, .plain .accepting, .absent, [], []⟩ := by
        intro notDownload
        refine ⟨events ++ [.thread event], ?_, run.next (.threads stepTo notDownload notSearch
          (fun _ _ _ none => by cases none) (Or.inl rfl))⟩
        rw [List.filterMap_append, same]
        rfl
      cases event with
      | download thread page received =>
          have received : Run env place serves searcher backlog startingURL files
              (events ++ [.countPage] ++ [.thread (.download thread page received)])
              ⟨after, none, .plain .accepting, .absent, [], []⟩ := by
            cases stepTo with
            | download here free isServed accepted =>
                exact (run.next (.countPage rfl here free isServed accepted)).next
                  (.countBytes rfl (.download here free isServed accepted))
          refine ⟨_, ?_, received⟩
          rw [List.filterMap_append, List.filterMap_append, same]
          exact congrArg (· ++ _) (List.append_nil _)
      | fopen | write | fclose | crawl => exact others (by simp)

def statsCommand : CString :=
  .ofBlock "STATS".toList

theorem crawlerCommand_statsCommand : crawlerCommand statsCommand = .stats := by
  decide

omit [DecidableEq Place] in
theorem exists_text {elapsed : Nat} (fits : statsDigits elapsed pages bytes ≤ 21) :
    ∃ text, crawlerStats elapsed pages bytes = .returns (text ++ ['\x00']) := by
  have room := (printInto_fits 73 _).mp ((crawlerStats_fits elapsed pages bytes).mpr fits)
  exact ⟨_, if_neg (Nat.not_lt.mpr room)⟩

/-- The main thread replies to STATS while nothing else happens. -/
theorem run_stats {mirror : MirrorState threads Place} {executor : ExecutorPoint}
    {toExecutor toCrawler : List Char} {elapsed : Nat}
    (run : Run env place serves searcher backlog startingURL files before
      ⟨mirror, none, .plain .accepting, executor, toExecutor, toCrawler⟩)
    (fits : statsDigits elapsed mirror.pagesDownloaded mirror.bytesDownloaded ≤ 21) :
    ∃ text, Run env place serves searcher backlog startingURL files
      (before ++ .acceptStats statsCommand ::
          [.readStats, .readStats, .printStats statsCommand] ++
        [.replyStats statsCommand text mirror.pagesDownloaded mirror.bytesDownloaded])
      ⟨mirror, none, .plain .accepting, executor, toExecutor, toCrawler⟩ := by
  obtain ⟨text, printed⟩ := exists_text fits
  have accepted := run.next
    (.acceptStats rfl (by decide : OneLine statsCommand.chars) crawlerCommand_statsCommand)
  have pagesRead := accepted.next (.readPages rfl)
  have bytesRead := pagesRead.next (.readBytes rfl)
  have shown := bytesRead.next (.print elapsed rfl printed)
  have replied := shown.next (.reply rfl)
  exact ⟨text, by simpa [pagesDownloaded] using replied⟩

/-- The crawl of the site with one page is over, and the first search is answered. -/
theorem linkSite_searched : ∃ events mirror,
    Run openDirectory id (Serves linkSite) notImplemented (SearchState.pipeText [])
      CrawlState.selfLink (fun _ => none) events
      (⟨mirror, none, .plain .accepting, .reading, [], []⟩ : CrawlerState 1 CString) ∧
    .main .start ∈ events ∧ mirror.pagesDownloaded = toInt 1 ∧
    mirror.bytesDownloaded = toInt 14 := by
  obtain ⟨mirrorEvents, mirror, crawled, seen, notReady, pages, bytes, noSearch⟩ :=
    linkSite_crawl
  obtain ⟨events, _, run⟩ := run_of_mirror notImplemented (SearchState.pipeText []) crawled noSearch
  have isSearch : crawlerCommand SearchState.searchA = .search ['a'] := rfl
  have accepted := run.next (.attends rfl (.acceptSearch rfl (by decide) isSearch)
    (fun _ => rfl) (by simp [isSearch]))
  have testing : (CrawlerState.search
      ⟨mirror, none, .plain .accepting, .absent, [], []⟩).crawl.ready = false := notReady
  rw [testing, if_neg Bool.false_ne_true] at accepted
  have started := accepted.next (.attends rfl (.start rfl seen) (by simp) (by simp))
  have asked := started.next (.attends rfl (.ask rfl isSearch) (fun _ => rfl) (by simp))
  have present := asked.next (.executes (.executorStarts rfl) rfl rfl)
  have answered := present.next (.executes
    (.executorReads rfl (rfl : _ = "/search a".toList ++ '\n' :: []) (by decide)) rfl rfl)
  have received := answered.next (.attends rfl
    (.receive rfl (rfl : _ = "Search not implemented".toList ++ '\n' :: []) (by decide))
    (fun _ => rfl) (by simp))
  have replied := received.next (.attends rfl (.reply rfl) (fun _ => rfl) (by simp))
  exact ⟨_, _, replied, by simp, pages, bytes⟩

/-- And then a STATS command is replied to. -/
theorem linkSite_stats : ∃ before text, ∃ after : CrawlerState 1 CString,
    Run openDirectory id (Serves linkSite) notImplemented (SearchState.pipeText [])
      CrawlState.selfLink (fun _ => none)
      (before ++ .acceptStats statsCommand :: [.readStats, .readStats, .printStats statsCommand] ++
        [.replyStats statsCommand text (toInt 1) (toInt 14)]) after ∧
    .main .start ∈ before := by
  obtain ⟨before, mirror, run, started, pages, bytes⟩ := linkSite_searched
  have replied := @run_stats _ _ _ _ _ _ _ _ _ _ _ mirror .reading [] [] 0 run (by
    rw [pages, bytes]
    decide)
  obtain ⟨text, stats⟩ := replied
  rw [pages, bytes] at stats
  exact ⟨before, text, _, stats, started⟩

end Runs

section Commands

theorem unread_step (stepTo : Step env place serves searcher backlog state event after) :
    state.main.unread ++ commandsOf [event] =
      SearchState.accepted ([event].filterMap searchEvent) ++ after.main.unread := by
  cases stepTo with
  | countPage | countBytes | executes => exact List.append_nil _
  | @threads event =>
      cases event <;> exact List.append_nil _
  | @attends _ event _ here =>
      rw [here]
      cases event <;> rfl
  | acceptStats here | readPages here | readBytes here | print _ here | reply here =>
      rw [here]
      rfl

theorem repliedOf_eq (events : List (CrawlerEvent threads)) :
    repliedOf events = SearchState.replied (events.filterMap searchEvent) := by
  rw [SearchState.replied, List.filterMap_filterMap, repliedOf]
  congr 1
  funext event
  cases event with
  | thread event => cases event <;> rfl
  | main event => cases event <;> rfl
  | countPage | acceptStats | readStats | printStats | replyStats => rfl

/-- Each command is replied to before the next one is accepted. -/
theorem commands_of_run
    (run : Run env place serves searcher backlog startingURL files events state) :
    commandsOf events = repliedOf events ++ state.main.pending := by
  have unread := @LabelledRun.Run.pending _ _ _ _ _ commandsOf
    (fun events => SearchState.accepted (events.filterMap searchEvent))
    (fun reached : CrawlerState threads Place => reached.main.unread) commandsOf_append
    (fun events more => by rw [List.filterMap_append, SearchState.accepted_append])
    (fun _ _ _ => unread_step) _ _ run
  have accepted : commandsOf events =
      SearchState.accepted (events.filterMap searchEvent) ++ state.main.unread := unread
  rw [accepted, SearchState.served_of_run (searched run), repliedOf_eq, CrawlerPoint.pending,
    List.append_assoc]
  rfl

/-- The system is one of the threads with their counters and files and one of the main
thread and the job executor; each command gets one reply, in the order of the commands,
and the text of a STATS reply fits and shows the numbers that were read. -/
theorem whole_crawler (run : Run env place serves searcher backlog startingURL files events state) :
    MirrorState.Run env place serves startingURL files (events.filterMap mirrorEvent)
        state.mirror ∧
      SearchState.Run (MirrorState.Answers serves) searcher backlog startingURL
        (events.filterMap searchEvent) state.search ∧
      commandsOf events = repliedOf events ++ state.main.pending ∧
      ∀ command text pages bytes after,
        Step env place serves searcher backlog state (.replyStats command text pages bytes) after →
        crawlerCommand command = .stats ∧
          ∃ elapsed, crawlerStats elapsed pages bytes = .returns (text ++ ['\x00']) := by
  refine ⟨mirrored run, searched run, commands_of_run run, ?_⟩
  intro command text pages bytes after stepTo
  have prepared := prepared_of_run run
  cases stepTo with
  | reply here =>
      rw [here] at prepared
      exact prepared

theorem whole_crawler_link_site : ∃ (events : List (CrawlerEvent 1))
    (state : CrawlerState 1 CString), .main .start ∈ events ∧
    MirrorState.Run openDirectory id (Serves linkSite) CrawlState.selfLink (fun _ => none)
      (events.filterMap mirrorEvent) state.mirror ∧
    commandsOf events = repliedOf events ++ state.main.pending := by
  obtain ⟨before, _, state, run, started⟩ := linkSite_stats
  obtain ⟨mirrored, _, commands, _⟩ := whole_crawler run
  exact ⟨_, state, by simp [started], mirrored, commands⟩

omit [DecidableEq Place] in
theorem Counted.bounds (counted : Counted events state) :
    (downloaded events).length ≤ countedPages events ∧
      countedPages events ≤ (downloaded events).length + 1 := by
  have atMost : state.counting.toList.length ≤ 1 := by
    cases state.counting <;> simp
  have pages := counted.pages
  omega

end Commands

section Settled

variable {web : CString → Received} {lines : List (List Char)}

/-- A run against a server that answers as the web says is a run against the web. -/
theorem Run.of_agrees (agrees : Agrees web startingURL serves)
    (run : Run env place serves searcher backlog startingURL files events state) :
    Run env place (fun page received => received = web page) searcher backlog startingURL files
      events state := by
  induction run with
  | start => exact .start
  | @next _ state _ _ _ stepTo ih =>
      have same : ∀ thread page, state.mirror.crawl.point thread = .getting page →
          ∀ received, serves page received → received = web page :=
        fun _ page here received =>
          (agrees page (MirrorState.getting_reaches (mirrored ih) here) received).mp
      refine ih.next ?_
      cases stepTo with
      | countPage free here nothing served accepted =>
          exact .countPage free here nothing (same _ _ here _ served) accepted
      | countBytes isCounting stepTo => exact .countBytes isCounting (stepTo.mono same)
      | threads stepTo notDownload notSearch points prints =>
          exact .threads (stepTo.mono same) notDownload notSearch points prints
      | attends here stepTo unchanged notStats => exact .attends here stepTo unchanged notStats
      | executes stepTo same sameMain => exact .executes stepTo same sameMain
      | acceptStats here oneLine isStats => exact .acceptStats here oneLine isStats
      | readPages here => exact .readPages here
      | readBytes here => exact .readBytes here
      | print elapsed here printed => exact .print elapsed here printed
      | reply here => exact .reply here

end Settled

end CrawlerState

end WebCrawl
