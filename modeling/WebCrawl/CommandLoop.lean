import WebCrawl.FileLines

/-!
# The commands of the job executor

`main` of `jobExecutor.c` reads commands until one starts with `/exit`, and
answers those that start with `/search`.  At the end of the input `inputString`
gives the empty line again and again, so only a command ends the loop.
-/

namespace WebCrawl

/-- `inputString`, which gives the block that holds a line, and what is left of
the stream.  `NULL` is given to `strncmp` by the only caller. -/
def inputString (size : Nat) (fp : List Char) : Outcome (List Char × List Char) := do
  match ← readLine growSize size fp with
  | none => .faults
  | some line => return (line.str ++ ['\x00'], line.file)

def searchCommand : List Char :=
  "/search".toList

def exitCommand : List Char :=
  "/exit".toList

def searchAnswer : List Char :=
  "Search not implemented\n".toList

/-- The loop over the commands, with what was printed so far. -/
def commandLoop : Nat → List Char → List Char → Outcome (List Char)
  | 0, _, _ => .unfinished
  | fuel + 1, stdin, printed => do
      let (command, stdin) ← inputString 10 stdin
      let search ← strncmpEq searchCommand command
      let printed := if search then printed ++ searchAnswer else printed
      let exit ← strncmpEq exitCommand command
      if exit then return printed else commandLoop fuel stdin printed

/-- One answer for each line before the first `/exit` that asks for a search. -/
def expectedAnswers (lines : List (List Char)) : List Char :=
  ((lines.takeWhile fun line => !exitCommand.isPrefixOf line).filter
    searchCommand.isPrefixOf).flatMap fun _ => searchAnswer

/-- The loop ends and has given the answers. -/
def EndsAnswered (stdin : List Char) : Prop :=
  ∃ printed, Outcome.Settles (commandLoop · stdin []) (.returns printed) ∧
    printed = expectedAnswers (fileLines stdin)

section Loop

variable {line : List Char} {ending : Option (List Char)}

theorem inputString_line (noNewline : ∀ ch ∈ line, isNewline ch = false)
    (ending : Option (List Char)) :
    inputString 10 (line ++ lineEnd ending) =
      .returns (line ++ ['\x00'], ending.getD []) := by
  obtain ⟨size, _, read⟩ := readLine_growSize (by decide : 0 < 10) noNewline ending
  rw [inputString, read]
  rfl

theorem not_search_of_exit (exits : exitCommand.isPrefixOf line = true) :
    searchCommand.isPrefixOf line = false := by
  by_contra searches
  rw [Bool.not_eq_false, List.isPrefixOf_iff_prefix] at searches
  rw [List.isPrefixOf_iff_prefix] at exits
  have one := List.prefix_of_prefix_length_le exits searches (by decide)
  exact absurd one (by decide)

/-- One round of the loop. -/
theorem commandLoop_line (noNewline : ∀ ch ∈ line, isNewline ch = false)
    (ending : Option (List Char)) (printed : List Char) (fuel : Nat) :
    commandLoop (fuel + 1) (line ++ lineEnd ending) printed =
      if exitCommand.isPrefixOf line then .returns printed
      else commandLoop fuel (ending.getD [])
        (printed ++ if searchCommand.isPrefixOf line then searchAnswer else []) := by
  have search := @strncmpEq_append_nul searchCommand line [] (by decide)
  have exit := @strncmpEq_append_nul exitCommand line [] (by decide)
  rw [commandLoop, inputString_line noNewline, Outcome.returns_bind]
  dsimp only
  rw [search, Outcome.returns_bind, exit, Outcome.returns_bind]
  cases exits : exitCommand.isPrefixOf line with
  | true =>
      rw [not_search_of_exit exits]
      rfl
  | false => cases searchCommand.isPrefixOf line <;> simp

/-- Behind the end of the input every command is empty. -/
theorem commandLoop_atEnd (printed : List Char) (fuel : Nat) :
    commandLoop fuel [] printed = .unfinished := by
  induction fuel with
  | zero => rfl
  | succ fuel ih =>
      have round := @commandLoop_line [] (by simp) none printed fuel
      have noExit : exitCommand.isPrefixOf [] = false := rfl
      have noSearch : searchCommand.isPrefixOf [] = false := rfl
      rw [lineEnd, List.append_nil, noExit, noSearch, if_neg Bool.false_ne_true,
        if_neg Bool.false_ne_true, List.append_nil] at round
      rw [round]
      exact ih

theorem expectedAnswers_cons (line : List Char) (lines : List (List Char)) :
    expectedAnswers (line :: lines) =
      if exitCommand.isPrefixOf line then []
      else (if searchCommand.isPrefixOf line then searchAnswer else []) ++
        expectedAnswers lines := by
  cases exits : exitCommand.isPrefixOf line with
  | true => simp [expectedAnswers, exits]
  | false =>
      cases searches : searchCommand.isPrefixOf line <;>
        simp [expectedAnswers, exits, searches]

variable {stdin : List Char}

theorem commandLoop_exits (printed : List Char)
    (exits : ∃ line ∈ fileLines stdin, exitCommand.isPrefixOf line) :
    Outcome.Settles (commandLoop · stdin printed)
      (.returns (printed ++ expectedAnswers (fileLines stdin))) := by
  induction stdin using line_induction generalizing printed with
  | last line noNewline =>
      rw [fileLines_last noNewline] at exits ⊢
      have exitLine : exitCommand.isPrefixOf line = true := by simpa using exits
      have round := commandLoop_line noNewline none printed
      simp only [lineEnd, List.append_nil, if_pos exitLine] at round
      refine Outcome.Settles.of_round rfl fun fuel => ?_
      rw [round, expectedAnswers_cons, if_pos exitLine, List.append_nil]
  | next line rest noNewline ih =>
      rw [fileLines_next noNewline] at exits ⊢
      have round := commandLoop_line noNewline (some rest) printed
      rw [lineEnd, Option.getD_some] at round
      refine Outcome.Settles.of_succ rfl ?_
      rw [expectedAnswers_cons]
      by_cases exitLine : exitCommand.isPrefixOf line = true
      · refine (Outcome.Settles.const _).congr fun fuel => ?_
        rw [round, if_pos exitLine, if_pos exitLine, List.append_nil]
      · have later : ∃ line ∈ fileLines rest, exitCommand.isPrefixOf line := by
          obtain ⟨exit, member, exits⟩ := exits
          rcases List.mem_cons.mp member with rfl | member
          · exact absurd exits exitLine
          · exact ⟨exit, member, exits⟩
        rw [if_neg exitLine, ← List.append_assoc]
        refine (ih (printed ++ if searchCommand.isPrefixOf line then searchAnswer else [])
          later).congr fun fuel => ?_
        rw [round, if_neg exitLine]

theorem commandLoop_endless (printed : List Char) (fuel : Nat)
    (noExit : ∀ line ∈ fileLines stdin, ¬ exitCommand.isPrefixOf line) :
    commandLoop fuel stdin printed = .unfinished := by
  induction stdin using line_induction generalizing printed fuel with
  | last line noNewline =>
      rw [fileLines_last noNewline, List.forall_mem_singleton] at noExit
      cases fuel with
      | zero => rfl
      | succ fuel =>
          have round := commandLoop_line noNewline none printed fuel
          rw [lineEnd, List.append_nil] at round
          rw [round, if_neg noExit]
          exact commandLoop_atEnd _ fuel
  | next line rest noNewline ih =>
      rw [fileLines_next noNewline, List.forall_mem_cons] at noExit
      cases fuel with
      | zero => rfl
      | succ fuel =>
          have round := commandLoop_line noNewline (some rest) printed fuel
          rw [lineEnd] at round
          rw [round, if_neg noExit.1]
          exact ih _ fuel noExit.2

/-- The loop ends, with all answers given, exactly when a line starts with
`/exit`; the last line counts even if no newline ends it. -/
theorem commandLoop_iff (stdin : List Char) :
    EndsAnswered stdin ↔ ∃ line ∈ fileLines stdin, exitCommand <+: line := by
  simp only [← List.isPrefixOf_iff_prefix]
  constructor
  · rintro ⟨printed, settles, _⟩
    by_contra noExit
    have endless : Outcome.Settles (commandLoop · stdin []) .unfinished := by
      apply Outcome.Settles.of_unfinished
      intro fuel
      exact commandLoop_endless [] fuel fun line member exits =>
        noExit ⟨line, member, exits⟩
    cases settles.unique endless
  · intro exits
    exact ⟨_, commandLoop_exits [] exits, rfl⟩

/-- A search and nothing else: the loop goes on behind the end of the input. -/
theorem commandLoop_endless_search : ¬ ∀ stdin, EndsAnswered stdin := by
  intro ends
  obtain ⟨printed, settles, _⟩ := ends "/search a\n".toList
  have endless : Outcome.Settles (commandLoop · "/search a\n".toList []) .unfinished :=
    Outcome.Settles.of_unfinished fun fuel => commandLoop_endless [] fuel (by decide)
  cases settles.unique endless

end Loop

end WebCrawl
