import WebCrawl.SearchService

/-!
# Every command comes to an end

Between two commands the main thread and the job executor have only so much to
do, whatever the threads of the crawler do meanwhile, and as long as the main
thread is not back at `accept` one of the two can go on.  So a search is not
waited for without end, and neither process waits for the other.
-/

namespace WebCrawl

/-- What the main thread has still to do for the command that it serves. -/
def MainPoint.left (backlog : List (List Char)) : MainPoint → Nat
  | .accepting | .ended => 0
  | .leaving => 2
  | .replying .. => 3
  | .waiting _ => 4
  | .asking _ => 6
  | .testing _ => backlog.length + 8

def ExecutorPoint.left : ExecutorPoint → Nat
  | .starting => 1
  | .absent | .reading | .ended => 0

namespace SearchState

variable {threads : Nat}

/-- The steps of both that are left, with one for each line to read. -/
def left (backlog : List (List Char)) (state : SearchState threads) : Nat :=
  state.main.left backlog + state.executor.left + state.toExecutor.count '\n'

/-- The steps between one `accept` and the next. -/
def Serving (web : CString → Answer) (searcher : Searcher) (backlog : List (List Char))
    (state : SearchState threads) (event : SearchEvent) (after : SearchState threads) : Prop :=
  Step (fun page answer => answer = web page) searcher (pipeText backlog) state event after ∧
    ∀ command, event ≠ .accept command

/-- The main thread or the job executor goes on. -/
def Attends (state after : SearchState threads) : Prop :=
  after.main ≠ state.main ∨ after.executor ≠ state.executor ∨
    after.toExecutor ≠ state.toExecutor

section Progress

variable {web : CString → Answer} {searcher : Searcher} {startingURL : CString}
variable {backlog : List (List Char)}
variable {state after : SearchState threads} {event : SearchEvent} {events : List SearchEvent}

theorem count_pipeText {lines : List (List Char)} (newlineFree : ∀ line ∈ lines, '\n' ∉ line) :
    (pipeText lines).count '\n' = lines.length := by
  induction lines with
  | nil => rfl
  | cons line lines ih =>
      rw [List.forall_mem_cons] at newlineFree
      have later := ih newlineFree.2
      rw [pipeText] at later
      rw [pipeText, List.flatMap_cons, List.count_append, later, List.count_append,
        List.count_eq_zero.mpr newlineFree.1, List.length_cons, List.count_singleton_self]
      omega

/-- A step of the main thread or of the job executor leaves less to do, and a step of
the crawler's threads changes nothing. -/
theorem left_step (harmless : Harmless backlog)
    (sound : Sound web searcher startingURL events state)
    (serving : Serving web searcher backlog state event after) :
    left backlog after < left backlog state ∨
      left backlog after = left backlog state ∧ ¬ Attends state after := by
  obtain ⟨stepTo, notAccept⟩ := serving
  cases stepTo with
  | crawls stepTo _ prints =>
      right
      simp [left, Attends, sound.silent stepTo prints]
  | accept | acceptSearch => exact absurd rfl (notAccept _)
  | start here =>
      left
      have lines := count_pipeText fun line listed => (harmless line listed).1
      simp only [left, here, lines, MainPoint.left, ExecutorPoint.left]
      omega
  | defer here =>
      left
      simp only [left, here, MainPoint.left]
      omega
  | @ask command keyword here isSearch =>
      left
      have oneLine := newline_not_mem_searchLine (sound.searching command (Or.inr here)).1
      rw [← crawlerCommand_search isSearch] at oneLine
      simp only [left, here, MainPoint.left, List.count_append, List.count_eq_zero.mpr oneLine,
        List.count_singleton_self]
      omega
  | receive here =>
      left
      simp only [left, here, MainPoint.left]
      omega
  | reply here =>
      left
      simp only [left, here]
      split <;> simp only [MainPoint.left] <;> omega
  | leave here =>
      left
      have exitLine : (exitCommand ++ ['\n']).count '\n' = 1 := by decide
      simp only [left, here, MainPoint.left]
      split
      · rw [List.count_append, exitLine]
        omega
      · omega
  | executorStarts here =>
      left
      simp only [left, here, ExecutorPoint.left]
      omega
  | @executorReads line rest here first noNewline =>
      left
      have shorter : (line ++ '\n' :: rest).count '\n' = rest.count '\n' + 1 := by
        rw [List.count_append, List.count_eq_zero.mpr noNewline, List.count_cons_self]
        omega
      simp only [left, here, first, shorter]
      split <;> simp only [ExecutorPoint.left] <;> omega

theorem left_le (backlog : List (List Char)) (state : SearchState threads) :
    left backlog state ≤ backlog.length + 9 + state.toExecutor.count '\n' := by
  have main : state.main.left backlog ≤ backlog.length + 8 := by
    cases state.main <;> simp only [MainPoint.left] <;> omega
  have executor : state.executor.left ≤ 1 := by
    cases state.executor <;> simp [ExecutorPoint.left]
  rw [left]
  omega

end Progress

end SearchState

end WebCrawl
