import WebCrawl.SocketLines

/-!
# Splitting a stream into lines

A stream of lines, each ended by a newline or by a carriage return and a newline.
One call of `inputStringFd` after the other gives these lines, whatever the start
sizes of the buffers are, and leaves what follows them.
-/

namespace WebCrawl

inductive LineEnding where
  | lf
  | crlf
  deriving DecidableEq

def LineEnding.bytes : LineEnding → List Char
  | .lf => ['\n']
  | .crlf => ['\r', '\n']

/-- A line of a stream, which can be read back. -/
structure StreamLine where
  text : CString
  ending : LineEnding
  oneLine : OneLine text.chars

def StreamLine.bytes (line : StreamLine) : List Char :=
  line.text.chars ++ line.ending.bytes

/-- Calls of `inputStringFd` one after the other, each with its start size, and
the strings that they return. -/
def inputStrings (fuel : Nat) : List Nat → Socket → Outcome (List CString × Socket)
  | [], fd => .returns ([], fd)
  | size :: sizes, fd => do
      let (str, fd) ← inputStringFd fuel size fd
      let (strings, fd) ← inputStrings fuel sizes fd
      return (.ofBlock str :: strings, fd)

variable {fd : Socket} {closed : Bool}

theorem StreamLine.nextLine (line : StreamLine) (closed : Bool) (rest : List Char) :
    nextLine closed (line.bytes ++ rest) = some (line.text.chars, rest) := by
  rw [StreamLine.bytes, List.append_assoc, nextLine_append closed _ line.oneLine]
  cases line.ending with
  | lf => simp [LineEnding.bytes, WebCrawl.nextLine]
  | crlf => simp [LineEnding.bytes, WebCrawl.nextLine]

/-- One call gives one line. -/
theorem inputStringFd_streamLine (line : StreamLine) {rest : List Char} {size : Nat}
    (delivers : fd.Delivers (line.bytes ++ rest) closed) (positive : 1 ≤ size) :
    ∃ after, Outcome.Settles (inputStringFd · size fd)
        (.returns (line.text.chars ++ ['\x00'], after)) ∧ after.Delivers rest closed :=
  inputStringFd_line delivers (line.nextLine closed rest) positive

theorem inputStrings_lines {lines : List StreamLine} {rest : List Char} {sizes : List Nat}
    (delivers : fd.Delivers (lines.flatMap StreamLine.bytes ++ rest) closed)
    (oneEach : sizes.length = lines.length) (positive : ∀ size ∈ sizes, 1 ≤ size) :
    ∃ after, Outcome.Settles (inputStrings · sizes fd)
        (.returns (lines.map StreamLine.text, after)) ∧ after.Delivers rest closed := by
  induction lines generalizing fd sizes with
  | nil =>
      rw [List.eq_nil_of_length_eq_zero oneEach]
      exact ⟨fd, .const _, delivers⟩
  | cons line lines ih =>
      obtain ⟨size, sizes, rfl⟩ : ∃ size others, sizes = size :: others :=
        List.exists_cons_of_length_eq_add_one oneEach
      rw [List.forall_mem_cons] at positive
      rw [List.flatMap_cons, List.append_assoc] at delivers
      obtain ⟨middle, first, middleDelivers⟩ :=
        inputStringFd_streamLine line delivers positive.1
      obtain ⟨after, others, afterDelivers⟩ :=
        ih middleDelivers (Nat.succ.inj oneEach) positive.2
      have string : CString.ofBlock (line.text.chars ++ ['\x00']) = line.text :=
        CString.ext (cstr_append_nul line.text.nulFree)
      refine ⟨after, first.bind_returns (others.bind_returns ?_), afterDelivers⟩
      dsimp only
      rw [string]
      exact .const _

/-- Three lines, the second of them empty. -/
def threeLines : List StreamLine :=
  [⟨⟨['o', 'n', 'e'], by decide⟩, .crlf, by decide⟩, ⟨⟨[], by decide⟩, .lf, by decide⟩,
    ⟨⟨['t', 'h', 'r', 'e', 'e'], by decide⟩, .lf, by decide⟩]

/-- The lines with a piece cut between a carriage return and its newline. -/
def cutLines : Socket :=
  ⟨[.piece 'o' ['n', 'e', '\r'], .piece '\n' ['\n', 't', 'h'],
    .piece 'r' ['e', 'e', '\n', '\r', 'x']], false⟩

theorem inputStrings_lines_three :
    ∃ after, Outcome.Settles (inputStrings · [10, 1, 3] cutLines)
        (.returns (threeLines.map StreamLine.text, after)) ∧
      after.Delivers ['\r', 'x'] false :=
  inputStrings_lines ⟨.cons (.cons (.cons .nil)), rfl⟩ rfl (by decide)

end WebCrawl
