import WebCrawl.BufferLimits
import WebCrawl.CommandLoop
import WebCrawl.CrawlTermination
import WebCrawl.Dialogue

/-!
# The crawler and its job executor

For the first SEARCH after the end of the crawl `main` of the crawler starts the
job executor, with its own output and input tied to the input and output of the
new process.  From then on a search is a line to the job executor, and the next
line from it is the reply.  Two pipes, a process that takes its time to start,
the crawler's other threads, which print to the same output, and the text that
the buffer of this output still held: what could go wrong is that a line is
taken for the answer to another search.
-/

namespace WebCrawl

/-- The commands that `main` of the crawler tells apart. -/
inductive CrawlerCommand where
  | stats
  | search (keyword : List Char)
  | shutdown
  | invalid
  deriving DecidableEq

def crawlerCommand (command : CString) : CrawlerCommand :=
  if command.chars = "STATS".toList then .stats
  else if "SEARCH ".toList.isPrefixOf command.chars then .search (command.chars.drop 7)
  else if command.chars = "SHUTDOWN".toList then .shutdown
  else .invalid

/-- The line that asks the job executor to search, without its end. -/
def searchLine (keyword : List Char) : List Char :=
  "/search ".toList ++ keyword

/-- The program points of the crawler's main thread, from one `accept` to the next,
with the command that it serves. -/
inductive MainPoint where
  | accepting
  | testing (command : CString)
  | asking (command : CString)
  | waiting (command : CString)
  | replying (command : CString) (text : List Char)
  | leaving
  | ended
  deriving DecidableEq

/-- The job executor, from before the `fork` to behind its loop over the commands. -/
inductive ExecutorPoint where
  | absent
  | starting
  | reading
  | ended
  deriving DecidableEq

/-- The crawler, the job executor and what is in the two pipes. -/
structure SearchState (threads : Nat) where
  crawl : CrawlState threads
  main : MainPoint
  executor : ExecutorPoint
  toExecutor : List Char
  toCrawler : List Char

/-- What the job executor prints for a line that asks for a search, one line each. -/
structure Searcher where
  answer : List Char → List Char
  oneLine : ∀ line, '\n' ∉ answer line

/-- The job executor of the repository has one answer to all searches. -/
def notImplemented : Searcher where
  answer _ := "Search not implemented".toList
  oneLine _ := by decide

/-- What a line makes the job executor print. -/
def Searcher.prints (searcher : Searcher) (line : List Char) : List Char :=
  if searchCommand.isPrefixOf line then searcher.answer line ++ ['\n'] else []

inductive SearchEvent where
  | accept (command : CString)
  | start
  | reply (command : CString) (text : List Char)
  | internal
  deriving DecidableEq

namespace SearchState

variable {threads : Nat}

def initial (threads : Nat) (startingURL : CString) : SearchState threads where
  crawl := .initial threads startingURL
  main := .accepting
  executor := .absent
  toExecutor := []
  toCrawler := []

/-- The text that `main` replies at once to a command that is not a search. -/
inductive DirectReply (command : CString) : List Char → Prop
  | stats {text : List Char} (elapsed : Nat) (pagesDownloaded bytesDownloaded : Int) :
      crawlerCommand command = .stats →
      crawlerStats elapsed pagesDownloaded bytesDownloaded = .returns (text ++ ['\x00']) →
      DirectReply command text
  | shutdown : crawlerCommand command = .shutdown →
      DirectReply command "Server shutting down...\n".toList
  | invalid : crawlerCommand command = .invalid →
      DirectReply command "Invalid command. Try again.\n".toList

/-- One action of the crawler or of the job executor.  What the threads print goes
into the pipe once it is there; a thread that falls asleep or wakes up prints nothing.
The pipe starts with what the buffer of the output held. -/
inductive Step (serves : CString → Answer → Prop) (searcher : Searcher)
    (backlog : List Char) :
    SearchState threads → SearchEvent → SearchState threads → Prop
  | crawls {state : SearchState threads} {event : CrawlEvent threads}
      {after : CrawlState threads} {printed : List Char} :
      CrawlState.Step serves state.crawl event after → (∀ ready, event ≠ .search ready) →
      printed = [] ∨ CrawlState.Works state.crawl after →
      Step serves searcher backlog state .internal
        { state with
          crawl := after
          toExecutor :=
            if state.executor = .absent then state.toExecutor else state.toExecutor ++ printed }
  | accept {state : SearchState threads} {command : CString} {text : List Char} :
      state.main = .accepting → OneLine command.chars → DirectReply command text →
      Step serves searcher backlog state (.accept command)
        { state with main := .replying command text }
  | acceptSearch {state : SearchState threads} {command : CString} {keyword : List Char} :
      state.main = .accepting → OneLine command.chars →
      crawlerCommand command = .search keyword →
      Step serves searcher backlog state (.accept command)
        { state with
          main := if state.crawl.ready = true then .asking command else .testing command }
  | start {state : SearchState threads} {command : CString} :
      state.main = .testing command → state.crawl.crawlingFinished = true →
      Step serves searcher backlog state .start
        { state with
          crawl := { state.crawl with ready := true }
          main := .asking command
          executor := .starting
          toExecutor := backlog }
  | defer {state : SearchState threads} {command : CString} :
      state.main = .testing command → state.crawl.crawlingFinished = false →
      Step serves searcher backlog state .internal
        { state with main := .replying command "Crawling in progress\n".toList }
  | ask {state : SearchState threads} {command : CString} {keyword : List Char} :
      state.main = .asking command → crawlerCommand command = .search keyword →
      Step serves searcher backlog state .internal
        { state with
          main := .waiting command
          toExecutor := state.toExecutor ++ (searchLine keyword ++ ['\n']) }
  | receive {state : SearchState threads} {command : CString} {line rest : List Char} :
      state.main = .waiting command → state.toCrawler = line ++ '\n' :: rest → '\n' ∉ line →
      Step serves searcher backlog state .internal
        { state with main := .replying command (cstr line), toCrawler := rest }
  | reply {state : SearchState threads} {command : CString} {text : List Char} :
      state.main = .replying command text →
      Step serves searcher backlog state (.reply command text)
        { state with
          main := if crawlerCommand command = .shutdown then .leaving else .accepting }
  | leave {state : SearchState threads} :
      state.main = .leaving →
      Step serves searcher backlog state .internal
        { state with
          main := .ended
          toExecutor :=
            if state.crawl.ready = true then state.toExecutor ++ (exitCommand ++ ['\n'])
            else state.toExecutor }
  | executorStarts {state : SearchState threads} :
      state.executor = .starting →
      Step serves searcher backlog state .internal { state with executor := .reading }
  | executorReads {state : SearchState threads} {line rest : List Char} :
      state.executor = .reading → state.toExecutor = line ++ '\n' :: rest → '\n' ∉ line →
      Step serves searcher backlog state .internal
        { state with
          executor := if exitCommand.isPrefixOf line then .ended else .reading
          toExecutor := rest
          toCrawler := state.toCrawler ++ searcher.prints line }

abbrev Run (serves : CString → Answer → Prop) (searcher : Searcher) (backlog : List Char)
    (startingURL : CString) :=
  LabelledRun.Run (@Step threads serves searcher backlog) (initial threads startingURL)

/-- What the job executor does with a line is a round of its loop over the commands. -/
theorem executorReads_round (line rest printed : List Char) (noNewline : '\n' ∉ line)
    (fuel : Nat) :
    commandLoop (fuel + 1) (line ++ '\n' :: rest) printed =
      if exitCommand.isPrefixOf line then .returns printed
      else commandLoop fuel rest (printed ++ notImplemented.prints line) := by
  refine commandLoop_line (fun ch member => ?_) (some rest) printed fuel
  simp only [isNewline, decide_eq_false_iff_not]
  rintro rfl
  exact noNewline member

/-- Lines in a pipe. -/
def pipeText (lines : List (List Char)) : List Char :=
  lines.flatMap (· ++ ['\n'])

theorem pipeText_append (lines more : List (List Char)) :
    pipeText (lines ++ more) = pipeText lines ++ pipeText more :=
  List.flatMap_append

theorem pipeText_singleton (line : List Char) : pipeText [line] = line ++ ['\n'] := by
  simp [pipeText]

/-- The line that is read from a pipe is the first one in it. -/
theorem pipeText_first {lines : List (List Char)} {line rest : List Char}
    (newlineFree : ∀ other ∈ lines, '\n' ∉ other)
    (text : pipeText lines = line ++ '\n' :: rest) (noNewline : '\n' ∉ line) :
    ∃ tail, lines = line :: tail ∧ rest = pipeText tail := by
  have letters : ∀ {other : List Char}, '\n' ∉ other → ∀ ch ∈ other, isNewline ch = false := by
    intro other free ch member
    simp only [isNewline, decide_eq_false_iff_not]
    rintro rfl
    exact free member
  cases lines with
  | nil => simp [pipeText] at text
  | cons first tail =>
      have whole : first ++ '\n' :: pipeText tail = line ++ '\n' :: rest := by
        rw [← text]
        simp [pipeText]
      have firstFree := newlineFree first List.mem_cons_self
      have lines := congrArg fileLines whole
      rw [fileLines_next (letters firstFree), fileLines_next (letters noNewline),
        List.cons.injEq] at lines
      obtain ⟨rfl, _⟩ := lines
      rw [List.append_cancel_left_eq, List.cons.injEq] at whole
      exact ⟨tail, rfl, whole.2.symm⟩

/-- The answer of the job executor to a line, without its end. -/
def executorAnswer (searcher : Searcher) (line : List Char) : Option (List Char) :=
  if searchCommand.isPrefixOf line then some (searcher.answer line) else none

/-- The question that the main thread waits on. -/
def question : MainPoint → Option (List Char)
  | .waiting command => some (searchLine (command.chars.drop 7))
  | .accepting | .testing _ | .asking _ | .replying .. | .leaving | .ended => none

/-- The command that the main thread serves. -/
def served : MainPoint → Option CString
  | .testing command | .asking command | .waiting command | .replying command _ => some command
  | .accepting | .leaving | .ended => none

/-- The text that is the right reply, before the job executor is started or after: to a
search, what the job executor prints for the line of this very search. -/
inductive Fitting (searcher : Searcher) (started : Bool) (command : CString) :
    List Char → Prop
  | direct {text : List Char} : DirectReply command text →
      Fitting searcher started command text
  | found {keyword : List Char} : crawlerCommand command = .search keyword → started = true →
      Fitting searcher started command (cstr (searcher.answer (searchLine keyword)))
  | early {keyword : List Char} : crawlerCommand command = .search keyword → started = false →
      Fitting searcher started command "Crawling in progress\n".toList

def accepted (events : List SearchEvent) : List CString :=
  events.filterMap fun event =>
    match event with
    | .accept command => some command
    | .start | .reply .. | .internal => none

def replied (events : List SearchEvent) : List CString :=
  events.filterMap fun event =>
    match event with
    | .reply command _ => some command
    | .start | .accept _ | .internal => none

@[simp]
theorem accepted_append (events more : List SearchEvent) :
    accepted (events ++ more) = accepted events ++ accepted more :=
  List.filterMap_append

@[simp]
theorem replied_append (events more : List SearchEvent) :
    replied (events ++ more) = replied events ++ replied more :=
  List.filterMap_append

section Serving

variable {serves : CString → Answer → Prop} {searcher : Searcher} {backlog : List Char}
variable {startingURL : CString} {state after : SearchState threads} {event : SearchEvent}
variable {events : List SearchEvent}

/-- A step accepts or replies to the command that is served, or does neither. -/
theorem served_step (stepTo : Step serves searcher backlog state event after) :
    (served state.main).toList ++ accepted [event] =
      replied [event] ++ (served after.main).toList := by
  cases stepTo with
  | crawls | executorStarts | executorReads => exact List.append_nil _
  | accept here =>
      rw [here]
      rfl
  | acceptSearch here =>
      rw [here]
      dsimp only
      split <;> rfl
  | start here | defer here | ask here | receive here | leave here =>
      rw [here]
      rfl
  | reply here =>
      rw [here]
      dsimp only
      split <;> rfl

theorem served_of_run (run : Run serves searcher backlog startingURL events state) :
    accepted events = replied events ++ (served state.main).toList := by
  have pending := @LabelledRun.Run.pending _ _ _ _ _ accepted replied
    (fun reached : SearchState threads => (served reached.main).toList) accepted_append
    replied_append (fun _ _ _ => served_step) _ _ run
  exact pending

end Serving

/-- What the buffer of the output may still hold: lines that are no commands. -/
def Harmless (backlog : List (List Char)) : Prop :=
  ∀ line ∈ backlog, '\n' ∉ line ∧ ¬ searchCommand <+: line ∧ ¬ exitCommand <+: line

/-- The lines in the pipes, as a dialogue. -/
structure Pipes (searcher : Searcher) (state : SearchState threads)
    (queue replies : List (List Char)) : Prop where
  toExecutor : state.toExecutor = pipeText queue
  toCrawler : state.toCrawler = pipeText replies
  queueLines : ∀ line ∈ queue, '\n' ∉ line
  replyLines : ∀ line ∈ replies, '\n' ∉ line
  balanced : Dialogue.Balanced (executorAnswer searcher) ⟨queue, replies, question state.main⟩
  exits : ∀ line ∈ queue, exitCommand <+: line → state.main = .ended
  exitSent : state.main = .ended → state.crawl.ready = true →
    state.executor = .ended ∨ exitCommand ∈ queue

/-- What holds in every state of the crawler and its job executor. -/
structure Sound (web : CString → Answer) (searcher : Searcher) (startingURL : CString)
    (events : List SearchEvent) (state : SearchState threads) : Prop where
  crawled : ∃ crawlEvents, CrawlState.Run (fun page answer => answer = web page) startingURL
    crawlEvents state.crawl
  started : state.crawl.ready = true ↔ state.executor ≠ .absent
  starts : events.count .start = state.crawl.ready.toNat
  quiet : state.crawl.ready = true →
    ∃ pagesAdded, CrawlState.Quiescent pagesAdded state.crawl
  searching : ∀ command, state.main = .testing command ∨ state.main = .asking command →
    OneLine command.chars ∧ ∃ keyword, crawlerCommand command = .search keyword
  testing : ∀ command, state.main = .testing command → state.crawl.ready = false
  asking : ∀ command, state.main = .asking command ∨ state.main = .waiting command →
    state.crawl.ready = true
  waiting : ∀ command, state.main = .waiting command →
    ∃ keyword, crawlerCommand command = .search keyword
  fitting : ∀ command text, state.main = .replying command text →
    Fitting searcher state.crawl.ready command text
  executorEnds : state.executor = .ended → state.main = .ended
  pipes : ∃ queue replies, Pipes searcher state queue replies

section Steps

variable {web : CString → Answer} {searcher : Searcher} {startingURL : CString}
variable {backlog : List (List Char)}
variable {state after : SearchState threads} {event : SearchEvent} {events : List SearchEvent}
variable {queue replies : List (List Char)}

/-- The main thread goes on and no line is written or read. -/
theorem Pipes.move {main : MainPoint} (pipes : Pipes searcher state queue replies)
    (sameQuestion : question main = question state.main)
    (notEnded : state.main ≠ .ended) (goesOn : main ≠ .ended) :
    Pipes searcher { state with main := main } queue replies where
  toExecutor := pipes.toExecutor
  toCrawler := pipes.toCrawler
  queueLines := pipes.queueLines
  replyLines := pipes.replyLines
  balanced := by
    dsimp only
    rw [sameQuestion]
    exact pipes.balanced
  exits line listed exits := absurd (pipes.exits line listed exits) notEnded
  exitSent here := absurd here goesOn

theorem ready_step {crawl next : CrawlState threads} {crawlEvent : CrawlEvent threads}
    {serves : CString → Answer → Prop} (stepTo : CrawlState.Step serves crawl crawlEvent next)
    (notSearch : ∀ ready, crawlEvent ≠ .search ready) : next.ready = crawl.ready := by
  cases stepTo with
  | search => exact absurd rfl (notSearch _)
  | _ => rfl

/-- When there is nothing left to crawl no thread prints. -/
theorem not_works_of_quiescent {pagesAdded : PageList} {crawl next : CrawlState threads}
    (before : CrawlState.Quiescent pagesAdded crawl)
    (later : CrawlState.Quiescent pagesAdded next) : ¬ CrawlState.Works crawl next := by
  rintro (listed | ⟨thread, holds, _⟩)
  · exact listed (later.added.trans before.added.symm)
  · exact holds (before.idle thread)

/-- What the threads print is printed before the pipe is there. -/
theorem Sound.silent {crawlEvent : CrawlEvent threads} {next : CrawlState threads}
    {printed : List Char} (sound : Sound web searcher startingURL events state)
    (stepTo : CrawlState.WebStep web state.crawl crawlEvent next)
    (prints : printed = [] ∨ CrawlState.Works state.crawl next) :
    (if state.executor = .absent then state.toExecutor else state.toExecutor ++ printed) =
      state.toExecutor := by
  split
  · rfl
  next present =>
    obtain ⟨pagesAdded, quiescent⟩ := sound.quiet (sound.started.mpr present)
    have silent := not_works_of_quiescent quiescent
      (CrawlState.quiescent_step quiescent stepTo)
    rw [prints.resolve_right silent, List.append_nil]

theorem Sound.crawls {crawlEvent : CrawlEvent threads} {next : CrawlState threads}
    {printed : List Char} (sound : Sound web searcher startingURL events state)
    (stepTo : CrawlState.WebStep web state.crawl crawlEvent next)
    (notSearch : ∀ ready, crawlEvent ≠ .search ready)
    (prints : printed = [] ∨ CrawlState.Works state.crawl next) :
    Sound web searcher startingURL (events ++ [.internal])
      { state with
        crawl := next
        toExecutor :=
          if state.executor = .absent then state.toExecutor else state.toExecutor ++ printed } := by
  have sameReady := ready_step stepTo notSearch
  rw [sound.silent stepTo prints]
  obtain ⟨crawlEvents, crawled⟩ := sound.crawled
  obtain ⟨queue, replies, pipes⟩ := sound.pipes
  exact
    { crawled := ⟨_, crawled.next stepTo⟩
      started := by
        dsimp only
        rw [sameReady]
        exact sound.started
      starts := by
        dsimp only
        rw [sameReady, List.count_append, sound.starts]
        rfl
      quiet := fun ready => by
        dsimp only at ready
        rw [sameReady] at ready
        obtain ⟨pagesAdded, quiescent⟩ := sound.quiet ready
        exact ⟨pagesAdded, CrawlState.quiescent_step quiescent stepTo⟩
      searching := sound.searching
      testing := fun command here => sameReady.trans (sound.testing command here)
      asking := fun command here => sameReady.trans (sound.asking command here)
      waiting := sound.waiting
      fitting := fun command text here => by
        dsimp only
        rw [sameReady]
        exact sound.fitting command text here
      executorEnds := sound.executorEnds
      pipes := ⟨queue, replies, ⟨pipes.toExecutor, pipes.toCrawler, pipes.queueLines,
        pipes.replyLines, pipes.balanced, pipes.exits,
        fun here ready => pipes.exitSent here (sameReady.symm.trans ready)⟩⟩ }

/-- The main thread goes on by itself, with a command that it may have accepted or
replied to. -/
theorem Sound.move {main : MainPoint} (sound : Sound web searcher startingURL events state)
    (notEnded : state.main ≠ .ended) (notWaiting : ∀ command, state.main ≠ .waiting command)
    (notStart : event ≠ .start)
    (searching : ∀ command, main = .testing command ∨ main = .asking command →
      OneLine command.chars ∧ ∃ keyword, crawlerCommand command = .search keyword)
    (testing : ∀ command, main = .testing command → state.crawl.ready = false)
    (asking : ∀ command, main = .asking command → state.crawl.ready = true)
    (goesOn : ∀ command, main ≠ .waiting command) (noEnd : main ≠ .ended)
    (fitting : ∀ command text, main = .replying command text →
      Fitting searcher state.crawl.ready command text) :
    Sound web searcher startingURL (events ++ [event]) { state with main := main } := by
  have noQuestion : ∀ point : MainPoint, (∀ command, point ≠ .waiting command) →
      question point = none := by
    intro point notWaiting
    cases point with
    | waiting command => exact absurd rfl (notWaiting command)
    | _ => rfl
  obtain ⟨queue, replies, pipes⟩ := sound.pipes
  exact
    { crawled := sound.crawled
      started := sound.started
      starts := by rw [List.count_append, sound.starts, List.count_singleton,
        beq_false_of_ne notStart]; rfl
      quiet := sound.quiet
      searching := searching
      testing := testing
      asking := fun command here => here.elim (asking command)
        fun waits => absurd waits (goesOn command)
      waiting := fun command here => absurd here (goesOn command)
      fitting := fitting
      executorEnds := fun ended => absurd (sound.executorEnds ended) notEnded
      pipes := ⟨queue, replies, pipes.move
        ((noQuestion main goesOn).trans (noQuestion state.main notWaiting).symm) notEnded
        noEnd⟩ }

theorem Sound.accept {command : CString} {text : List Char}
    (sound : Sound web searcher startingURL events state) (here : state.main = .accepting)
    (direct : DirectReply command text) :
    Sound web searcher startingURL (events ++ [.accept command])
      { state with main := .replying command text } := by
  apply sound.move <;> simp [here]
  exact .direct direct

theorem Sound.acceptSearch {command : CString} {keyword : List Char}
    (sound : Sound web searcher startingURL events state) (here : state.main = .accepting)
    (oneLine : OneLine command.chars) (isSearch : crawlerCommand command = .search keyword) :
    Sound web searcher startingURL (events ++ [.accept command])
      { state with
        main := if state.crawl.ready = true then .asking command else .testing command } := by
  cases ready : state.crawl.ready with
  | true =>
      rw [if_pos rfl]
      apply sound.move <;> simp [here, ready]
      exact ⟨oneLine, keyword, isSearch⟩
  | false =>
      rw [if_neg Bool.false_ne_true]
      apply sound.move <;> simp [here, ready]
      exact ⟨oneLine, keyword, isSearch⟩

theorem Sound.defer {command : CString} (sound : Sound web searcher startingURL events state)
    (here : state.main = .testing command) :
    Sound web searcher startingURL (events ++ [.internal])
      { state with main := .replying command "Crawling in progress\n".toList } := by
  obtain ⟨_, keyword, isSearch⟩ := sound.searching command (Or.inl here)
  apply sound.move <;> simp [here]
  exact .early isSearch (sound.testing command here)

theorem Sound.reply {command : CString} {text : List Char}
    (sound : Sound web searcher startingURL events state)
    (here : state.main = .replying command text) :
    Sound web searcher startingURL (events ++ [.reply command text])
      { state with
        main := if crawlerCommand command = .shutdown then .leaving else .accepting } := by
  split <;> apply sound.move <;> simp [here]

theorem crawlerCommand_search {command : CString} {keyword : List Char}
    (isSearch : crawlerCommand command = .search keyword) :
    keyword = command.chars.drop 7 := by
  unfold crawlerCommand at isSearch
  split at isSearch
  · cases isSearch
  split at isSearch
  · cases isSearch
    rfl
  split at isSearch <;> cases isSearch

theorem executorAnswer_searchLine (searcher : Searcher) (keyword : List Char) :
    executorAnswer searcher (searchLine keyword) =
      some (searcher.answer (searchLine keyword)) := by
  have isPrefix : searchCommand <+: searchLine keyword :=
    ⟨[' '] ++ keyword, by rw [← List.append_assoc]; rfl⟩
  rw [executorAnswer, if_pos (List.isPrefixOf_iff_prefix.mpr isPrefix)]

theorem not_exit_searchLine (keyword : List Char) : ¬ exitCommand <+: searchLine keyword := by
  intro exits
  have other := not_search_of_exit (List.isPrefixOf_iff_prefix.mpr exits)
  have answers := executorAnswer_searchLine notImplemented keyword
  rw [executorAnswer, other] at answers
  cases answers

theorem newline_not_mem_searchLine {command : CString} (oneLine : OneLine command.chars) :
    '\n' ∉ searchLine (command.chars.drop 7) := by
  intro member
  rcases List.mem_append.mp member with start | keyword
  · simp at start
  · exact oneLine.2 (List.mem_of_mem_drop keyword)

/-- The job executor is started. -/
theorem Sound.start {command : CString} (harmless : Harmless backlog)
    (sound : Sound web searcher startingURL events state) (here : state.main = .testing command)
    (seen : state.crawl.crawlingFinished = true) :
    Sound web searcher startingURL (events ++ [.start])
      { state with
        crawl := { state.crawl with ready := true }
        main := .asking command
        executor := .starting
        toExecutor := pipeText backlog } := by
  obtain ⟨crawlEvents, crawled⟩ := sound.crawled
  obtain ⟨queue, replies, pipes⟩ := sound.pipes
  obtain ⟨noWorkers, noneToAdd⟩ : state.crawl.workers = 0 ∧ state.crawl.pagesToAdd = [] := by
    simpa [CrawlState.crawlingFinished] using seen
  have tested : CrawlState.WebStep web state.crawl _ _ := .search
  rw [seen, Bool.or_true] at tested
  have noReplies : replies = [] := by
    have idle := pipes.balanced.idle
    rw [here] at idle
    exact (idle rfl).1
  have noQuestions : backlog.filterMap (executorAnswer searcher) = [] := by
    rw [List.filterMap_eq_nil_iff]
    intro line listed
    rw [executorAnswer, if_neg]
    rw [List.isPrefixOf_iff_prefix]
    exact (harmless line listed).2.1
  subst noReplies
  exact
    { crawled := ⟨_, crawled.next tested⟩
      started := by simp
      starts := by rw [List.count_append, sound.starts, sound.testing command here]; rfl
      quiet := fun _ => ⟨_, noneToAdd, rfl, noWorkers, (CrawlState.finished_exact crawled seen).1⟩
      searching := fun other here' => by
        rcases here' with here' | here' <;> cases here'
        exact sound.searching command (Or.inl here)
      testing := fun _ here' => by cases here'
      asking := fun _ _ => rfl
      waiting := fun _ here' => by cases here'
      fitting := fun _ _ here' => by cases here'
      executorEnds := fun ended => by cases ended
      pipes := ⟨backlog, [],
        { toExecutor := rfl
          toCrawler := pipes.toCrawler
          queueLines := fun line listed => (harmless line listed).1
          replyLines := by simp
          balanced := ⟨noQuestions, fun _ asked => by cases asked⟩
          exits := fun line listed exits => absurd exits (harmless line listed).2.2
          exitSent := fun here' => by cases here' }⟩ }

/-- The main thread sends a search and waits. -/
theorem Sound.ask {command : CString} {keyword : List Char}
    (sound : Sound web searcher startingURL events state) (here : state.main = .asking command)
    (isSearch : crawlerCommand command = .search keyword) :
    Sound web searcher startingURL (events ++ [.internal])
      { state with
        main := .waiting command
        toExecutor := state.toExecutor ++ (searchLine keyword ++ ['\n']) } := by
  obtain ⟨queue, replies, pipes⟩ := sound.pipes
  obtain ⟨oneLine, _⟩ := sound.searching command (Or.inr here)
  have balanced := pipes.balanced
  rw [here] at balanced
  rw [crawlerCommand_search isSearch]
  exact
    { crawled := sound.crawled
      started := sound.started
      starts := by rw [List.count_append, sound.starts]; rfl
      quiet := sound.quiet
      searching := fun _ here' => by rcases here' with here' | here' <;> cases here'
      testing := fun _ here' => by cases here'
      asking := fun _ _ => sound.asking command (Or.inl here)
      waiting := fun _ here' => by cases here'; exact ⟨keyword, isSearch⟩
      fitting := fun _ _ here' => by cases here'
      executorEnds := fun ended => by
        have atEnd := sound.executorEnds ended
        rw [here] at atEnd
        cases atEnd
      pipes := ⟨queue ++ [searchLine (command.chars.drop 7)], replies,
        { toExecutor := by rw [pipeText_append, pipeText_singleton, ← pipes.toExecutor]
          toCrawler := pipes.toCrawler
          queueLines := fun line listed => by
            rcases List.mem_append.mp listed with old | new
            · exact pipes.queueLines line old
            · rw [List.mem_singleton.mp new]
              exact newline_not_mem_searchLine oneLine
          replyLines := pipes.replyLines
          balanced := Dialogue.balanced_step balanced
            (.ask rfl (executorAnswer_searchLine searcher (command.chars.drop 7)))
          exits := fun line listed exits => by
            rcases List.mem_append.mp listed with old | new
            · have atEnd := pipes.exits line old exits
              rw [here] at atEnd
              cases atEnd
            · rw [List.mem_singleton.mp new] at exits
              exact absurd exits (not_exit_searchLine _)
          exitSent := fun here' => by cases here' }⟩ }

/-- The line that arrives is the answer to the search. -/
theorem Sound.receive {command : CString} {line rest : List Char}
    (sound : Sound web searcher startingURL events state) (here : state.main = .waiting command)
    (arrived : state.toCrawler = line ++ '\n' :: rest) (noNewline : '\n' ∉ line) :
    Sound web searcher startingURL (events ++ [.internal])
      { state with main := .replying command (cstr line), toCrawler := rest } := by
  obtain ⟨queue, replies, pipes⟩ := sound.pipes
  obtain ⟨tail, rfl, rfl⟩ :=
    pipeText_first pipes.replyLines (pipes.toCrawler.symm.trans arrived) noNewline
  have balanced := pipes.balanced
  rw [here] at balanced
  obtain ⟨isAnswer, rfl, _⟩ := balanced.take rfl rfl
  have answer := executorAnswer_searchLine searcher (command.chars.drop 7)
  rw [isAnswer, Option.some.injEq] at answer
  obtain ⟨keyword, isSearch⟩ := sound.waiting command here
  rw [← crawlerCommand_search isSearch] at answer
  exact
    { crawled := sound.crawled
      started := sound.started
      starts := by rw [List.count_append, sound.starts]; rfl
      quiet := sound.quiet
      searching := fun _ here' => by rcases here' with here' | here' <;> cases here'
      testing := fun _ here' => by cases here'
      asking := fun _ here' => by rcases here' with here' | here' <;> cases here'
      waiting := fun _ here' => by cases here'
      fitting := fun _ _ here' => by
        cases here'
        rw [answer]
        exact .found isSearch (sound.asking command (Or.inr here))
      executorEnds := fun ended => by
        have atEnd := sound.executorEnds ended
        rw [here] at atEnd
        cases atEnd
      pipes := ⟨queue, [],
        { toExecutor := pipes.toExecutor
          toCrawler := rfl
          queueLines := pipes.queueLines
          replyLines := by simp
          balanced := Dialogue.balanced_step balanced (.take rfl rfl)
          exits := fun line listed exits => by
            have atEnd := pipes.exits line listed exits
            rw [here] at atEnd
            cases atEnd
          exitSent := fun here' => by cases here' }⟩ }

/-- The main thread leaves its loop and tells the job executor. -/
theorem Sound.leave (sound : Sound web searcher startingURL events state)
    (here : state.main = .leaving) :
    Sound web searcher startingURL (events ++ [.internal])
      { state with
        main := .ended
        toExecutor :=
          if state.crawl.ready = true then state.toExecutor ++ (exitCommand ++ ['\n'])
          else state.toExecutor } := by
  obtain ⟨queue, replies, pipes⟩ := sound.pipes
  have balanced := pipes.balanced
  rw [here] at balanced
  exact
    { crawled := sound.crawled
      started := sound.started
      starts := by rw [List.count_append, sound.starts]; rfl
      quiet := sound.quiet
      searching := fun _ here' => by rcases here' with here' | here' <;> cases here'
      testing := fun _ here' => by cases here'
      asking := fun _ here' => by rcases here' with here' | here' <;> cases here'
      waiting := fun _ here' => by cases here'
      fitting := fun _ _ here' => by cases here'
      executorEnds := fun _ => rfl
      pipes := by
        split
        · refine ⟨queue ++ [exitCommand], replies,
            { toExecutor := by rw [pipeText_append, pipeText_singleton, ← pipes.toExecutor]
              toCrawler := pipes.toCrawler
              queueLines := fun line listed => ?_
              replyLines := pipes.replyLines
              balanced := Dialogue.balanced_step balanced (.tell rfl)
              exits := fun _ _ _ => rfl
              exitSent := fun _ _ => Or.inr (by simp) }⟩
          rcases List.mem_append.mp listed with old | new
          · exact pipes.queueLines line old
          · rw [List.mem_singleton.mp new]
            decide
        next notReady =>
          exact ⟨queue, replies, pipes.toExecutor, pipes.toCrawler, pipes.queueLines,
            pipes.replyLines, balanced, fun _ _ _ => rfl, fun _ ready => absurd ready notReady⟩ }

theorem Sound.executorStarts (sound : Sound web searcher startingURL events state)
    (here : state.executor = .starting) :
    Sound web searcher startingURL (events ++ [.internal]) { state with executor := .reading } := by
  obtain ⟨queue, replies, pipes⟩ := sound.pipes
  have ready : state.crawl.ready = true := sound.started.mpr (by simp [here])
  exact
    { crawled := sound.crawled
      started := by simp [ready]
      starts := by rw [List.count_append, sound.starts]; rfl
      quiet := sound.quiet
      searching := sound.searching
      testing := sound.testing
      asking := sound.asking
      waiting := sound.waiting
      fitting := sound.fitting
      executorEnds := fun ended => by cases ended
      pipes := ⟨queue, replies, ⟨pipes.toExecutor, pipes.toCrawler, pipes.queueLines,
        pipes.replyLines, pipes.balanced, pipes.exits, fun ended ready =>
          (pipes.exitSent ended ready).imp_left fun gone => by rw [here] at gone; cases gone⟩⟩ }

/-- The job executor reads a line and answers it if it asks for a search. -/
theorem Sound.executorReads {line rest : List Char}
    (sound : Sound web searcher startingURL events state) (here : state.executor = .reading)
    (first : state.toExecutor = line ++ '\n' :: rest) (noNewline : '\n' ∉ line) :
    Sound web searcher startingURL (events ++ [.internal])
      { state with
        executor := if exitCommand.isPrefixOf line then .ended else .reading
        toExecutor := rest
        toCrawler := state.toCrawler ++ searcher.prints line } := by
  obtain ⟨queue, replies, pipes⟩ := sound.pipes
  obtain ⟨tail, rfl, rfl⟩ :=
    pipeText_first pipes.queueLines (pipes.toExecutor.symm.trans first) noNewline
  have ready : state.crawl.ready = true := sound.started.mpr (by simp [here])
  have answered : pipeText (replies ++ (executorAnswer searcher line).toList) =
      state.toCrawler ++ searcher.prints line := by
    rw [pipeText_append, ← pipes.toCrawler, executorAnswer, Searcher.prints]
    split
    · exact congrArg _ (pipeText_singleton _)
    · rfl
  exact
    { crawled := sound.crawled
      started := by
        dsimp only
        split <;> simp [ready]
      starts := by rw [List.count_append, sound.starts]; rfl
      quiet := sound.quiet
      searching := sound.searching
      testing := sound.testing
      asking := sound.asking
      waiting := sound.waiting
      fitting := sound.fitting
      executorEnds := fun ended => by
        dsimp only at ended
        split at ended
        next exits =>
          exact pipes.exits line List.mem_cons_self (List.isPrefixOf_iff_prefix.mp exits)
        next => cases ended
      pipes := ⟨tail, replies ++ (executorAnswer searcher line).toList,
        { toExecutor := rfl
          toCrawler := answered.symm
          queueLines := fun other listed => pipes.queueLines other (List.mem_cons_of_mem _ listed)
          replyLines := fun other listed => by
            rcases List.mem_append.mp listed with old | new
            · exact pipes.replyLines other old
            · rw [executorAnswer] at new
              split at new
              · rw [Option.toList_some, List.mem_singleton] at new
                rw [new]
                exact searcher.oneLine line
              · cases new
          balanced := Dialogue.balanced_step pipes.balanced (.serve rfl)
          exits := fun other listed =>
            pipes.exits other (List.mem_cons_of_mem _ listed)
          exitSent := fun ended ready => by
            rcases pipes.exitSent ended ready with gone | sent
            · rw [here] at gone
              cases gone
            · rcases List.mem_cons.mp sent with rfl | later
              · exact Or.inl rfl
              · exact Or.inr later }⟩ }

theorem sound_step (harmless : Harmless backlog)
    (sound : Sound web searcher startingURL events state)
    (stepTo : Step (fun page answer => answer = web page) searcher (pipeText backlog) state event
      after) :
    Sound web searcher startingURL (events ++ [event]) after := by
  cases stepTo with
  | crawls stepTo notSearch prints => exact sound.crawls stepTo notSearch prints
  | accept here _ direct => exact sound.accept here direct
  | acceptSearch here oneLine isSearch => exact sound.acceptSearch here oneLine isSearch
  | start here seen => exact sound.start harmless here seen
  | defer here _ => exact sound.defer here
  | ask here isSearch => exact sound.ask here isSearch
  | receive here arrived noNewline => exact sound.receive here arrived noNewline
  | reply here => exact sound.reply here
  | leave here => exact sound.leave here
  | executorStarts here => exact sound.executorStarts here
  | executorReads here first noNewline => exact sound.executorReads here first noNewline

end Steps

def searchA : CString :=
  ⟨"SEARCH a".toList, by decide⟩

section Results

variable {web : CString → Answer} {searcher : Searcher} {startingURL : CString}
variable {backlog : List (List Char)}
variable {state : SearchState threads} {events : List SearchEvent}

end Results

end SearchState

end WebCrawl
