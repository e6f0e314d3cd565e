import WebCrawl.CString
import WebCrawl.SegmentedStream

/-!
# Reading from and writing to sockets

The functions of `auxFun.c` that both programs use.  `inputStringFd` reads byte
by byte up to a carriage return or a newline and swallows one byte after a
carriage return.  `nextLine` is its effect on the data of a stream, which does
not depend on how the data is cut into pieces.  Memory allocation succeeds.
-/

namespace WebCrawl

abbrev Socket := SegmentedStream.Stream Char

/-- The loop `while (read(fd, &ch, 1) != 1);`. -/
def readByte : Nat → Socket → Outcome (Char × Socket)
  | 0, _ => .unfinished
  | fuel + 1, fd =>
      match fd.read 1 with
      | .data [ch] rest => .returns (ch, rest)
      | .data _ rest | .failed rest => readByte fuel rest
      | .blocked => .unfinished

/-- The main loop of `inputStringFd`, with the characters stored so far in a
block of the given size. -/
def inputLoop : Nat → Nat → List Char → Socket → Outcome (List Char × Socket)
  | 0, _, _, _ => .unfinished
  | fuel + 1, size, str, fd => do
      let (ch, fd) ← readByte fuel fd
      if size ≤ str.length then .faults
      else
        let str := str ++ [ch]
        let size := if str.length = size then size + 16 else size
        if ch ≠ '\r' ∧ ch ≠ '\n' then inputLoop fuel size str fd
        else return (str, fd)

/-- `inputStringFd`, which gives the block that holds the line. -/
def inputStringFd (fuel size : Nat) (fd : Socket) :
    Outcome (List Char × Socket) := do
  let (str, fd) ← inputLoop fuel size [] fd
  let block := str.set (str.length - 1) '\x00'
  if str.getLast? = some '\r' then
    match fd.read 1 with
    | .data _ rest | .failed rest => return (block, rest)
    | .blocked => .unfinished
  else return (block, fd)

def consumeLines (fuel : Nat) : Nat → Socket → Outcome Socket
  | 0, sock => .returns sock
  | lines + 1, sock => do
      let (_, sock) ← inputStringFd fuel 10 sock
      consumeLines fuel lines sock

/-- The line at the start of the data and the data left after it. -/
def nextLine (closed : Bool) : List Char → Option (List Char × List Char)
  | [] => none
  | ch :: rest =>
      if ch = '\n' then some ([], rest)
      else if ch = '\r' then
        match rest with
        | [] => if closed then some ([], []) else none
        | _ :: rest => some ([], rest)
      else (nextLine closed rest).map fun (line, rest) => (ch :: line, rest)

/-- The data left after a number of lines. -/
def afterLines (closed : Bool) : Nat → List Char → Option (List Char)
  | 0, data => some data
  | lines + 1, data =>
      (nextLine closed data).bind fun (_, rest) => afterLines closed lines rest

theorem afterLines_add (closed : Bool) (lines more : Nat) (data : List Char) :
    afterLines closed (lines + more) data =
      (afterLines closed lines data).bind (afterLines closed more) := by
  induction lines generalizing data with
  | zero => simp [afterLines]
  | succ lines ih =>
      rw [Nat.add_right_comm, afterLines, afterLines, Option.bind_assoc]
      congr 1
      funext line
      exact ih line.2

def OneLine (text : List Char) : Prop :=
  '\r' ∉ text ∧ '\n' ∉ text

instance (text : List Char) : Decidable (OneLine text) :=
  inferInstanceAs (Decidable (_ ∧ _))

theorem oneLine_cons {ch : Char} {text : List Char} :
    OneLine (ch :: text) ↔ (ch ≠ '\r' ∧ ch ≠ '\n') ∧ OneLine text := by
  simp only [OneLine, List.mem_cons, not_or]
  tauto

theorem nextLine_oneLine {data : List Char} (closed : Bool)
    (oneLine : OneLine data) : nextLine closed data = none := by
  induction data with
  | nil => rfl
  | cons ch data ih =>
      obtain ⟨⟨notReturn, notNewline⟩, oneLine⟩ := oneLine_cons.mp oneLine
      simp [nextLine, notReturn, notNewline, ih oneLine]

theorem nextLine_append {line : List Char} (closed : Bool) (data : List Char)
    (oneLine : OneLine line) :
    nextLine closed (line ++ data) =
      (nextLine closed data).map fun (more, rest) => (line ++ more, rest) := by
  induction line with
  | nil => simp
  | cons ch line ih =>
      obtain ⟨⟨notReturn, notNewline⟩, oneLine⟩ := oneLine_cons.mp oneLine
      simp [nextLine, notReturn, notNewline, ih oneLine]
      rfl

/-- Lines as both programs send them, each ended by a carriage return and a
newline. -/
def crlfLines (lines : List (List Char)) : List Char :=
  lines.flatMap (· ++ ['\r', '\n'])

theorem crlfLines_cons (line : List Char) (lines : List (List Char))
    (rest : List Char) :
    crlfLines (line :: lines) ++ rest =
      line ++ '\r' :: '\n' :: (crlfLines lines ++ rest) := by
  simp [crlfLines]

theorem nextLine_crlf {line : List Char} (closed : Bool)
    (lines : List (List Char)) (rest : List Char) (oneLine : OneLine line) :
    nextLine closed (crlfLines (line :: lines) ++ rest) =
      some (line, crlfLines lines ++ rest) := by
  rw [crlfLines_cons, nextLine_append closed _ oneLine]
  simp [nextLine]

theorem afterLines_crlf {lines : List (List Char)} (closed : Bool)
    (rest : List Char) (oneLine : ∀ line ∈ lines, OneLine line) :
    afterLines closed lines.length (crlfLines lines ++ rest) = some rest := by
  induction lines with
  | nil => rfl
  | cons line lines ih =>
      simp only [List.length_cons, afterLines,
        nextLine_crlf closed lines rest (oneLine line List.mem_cons_self),
        Option.bind_some]
      exact ih fun other member => oneLine other (List.mem_cons_of_mem _ member)

/-- A line that a cut leaves complete is still read.  At the end of the stream its
newline is not missed. -/
theorem nextLine_crlf_take {line : List Char} (closed : Bool) (cut : Nat)
    (lines : List (List Char)) (rest : List Char) (oneLine : OneLine line) :
    nextLine closed ((crlfLines (line :: lines) ++ rest).take cut) =
      if line.length + 2 ≤ cut + closed.toNat then
        some (line, (crlfLines lines ++ rest).take (cut - (line.length + 2)))
      else none := by
  rw [crlfLines_cons]
  by_cases inside : cut ≤ line.length
  · have unended : OneLine ((line ++ '\r' :: '\n' :: (crlfLines lines ++ rest)).take cut) := by
      rw [List.take_append_of_le_length inside]
      exact ⟨fun member => oneLine.1 (List.mem_of_mem_take member),
        fun member => oneLine.2 (List.mem_of_mem_take member)⟩
    have bit := Bool.toNat_le closed
    rw [nextLine_oneLine closed unended, if_neg (by omega)]
  · obtain ⟨more, rfl⟩ : ∃ more, cut = line.length + (more + 1) :=
      ⟨cut - line.length - 1, by omega⟩
    rw [List.take_length_add_append, nextLine_append closed _ oneLine,
      List.take_succ_cons]
    cases more with
    | zero =>
        cases closed <;> simp [nextLine]
    | succ more =>
        have enough : line.length + 2 ≤ line.length + (more + 1 + 1) + closed.toNat := by
          omega
        have left : line.length + (more + 1 + 1) - (line.length + 2) = more := by
          omega
        rw [if_pos enough, left, List.take_succ_cons]
        simp [nextLine]

theorem length_crlfLines_cons (line : List Char) (lines : List (List Char)) :
    (crlfLines (line :: lines)).length = line.length + 2 + (crlfLines lines).length := by
  simp only [crlfLines, List.flatMap_cons, List.length_append, List.length_cons,
    List.length_nil]

theorem afterLines_crlf_take {lines : List (List Char)} (closed : Bool) (cut : Nat)
    (more : List (List Char)) (rest : List Char)
    (oneLine : ∀ line ∈ lines, OneLine line) (nonempty : lines ≠ []) :
    afterLines closed lines.length ((crlfLines (lines ++ more) ++ rest).take cut) =
      if (crlfLines lines).length ≤ cut + closed.toNat then
        some ((crlfLines more ++ rest).take (cut - (crlfLines lines).length))
      else none := by
  have bit := Bool.toNat_le closed
  induction lines generalizing cut with
  | nil => exact absurd rfl nonempty
  | cons line lines ih =>
      have first := nextLine_crlf_take closed cut (lines ++ more) rest
        (oneLine line List.mem_cons_self)
      rw [List.length_cons, List.cons_append, afterLines, first, length_crlfLines_cons]
      by_cases complete : line.length + 2 ≤ cut + closed.toNat
      · rw [if_pos complete, Option.bind_some]
        dsimp only
        cases lines with
        | nil =>
            rw [if_pos (by simpa [crlfLines] using complete)]
            simp [afterLines, crlfLines]
        | cons next lines =>
            rw [ih _ (fun other member => oneLine other (List.mem_cons_of_mem _ member))
              (List.cons_ne_nil _ _)]
            have nextLength := length_crlfLines_cons next lines
            have sameTest : (crlfLines (next :: lines)).length ≤
                  cut - (line.length + 2) + closed.toNat ↔
                line.length + 2 + (crlfLines (next :: lines)).length ≤
                  cut + closed.toNat := by
              omega
            simp only [sameTest, Nat.sub_sub]
      · rw [if_neg complete, if_neg (by omega), Option.bind_none]

/-- Either the data is one unfinished line or it has a first line end. -/
theorem oneLine_or_split (data : List Char) :
    OneLine data ∨ ∃ line ch rest, data = line ++ ch :: rest ∧ OneLine line ∧
      (ch = '\r' ∨ ch = '\n') := by
  induction data with
  | nil => exact Or.inl ⟨List.not_mem_nil, List.not_mem_nil⟩
  | cons ch data ih =>
      by_cases ends : ch = '\r' ∨ ch = '\n'
      · exact Or.inr ⟨[], ch, data, rfl, ⟨List.not_mem_nil, List.not_mem_nil⟩, ends⟩
      · rw [not_or] at ends
        rcases ih with oneLine | ⟨line, last, rest, split, oneLine, lineEnd⟩
        · exact Or.inl (oneLine_cons.mpr ⟨ends, oneLine⟩)
        · exact Or.inr ⟨ch :: line, last, rest, by rw [split]; rfl,
            oneLine_cons.mpr ⟨ends, oneLine⟩, lineEnd⟩

theorem nextLine_shorter {closed : Bool} {data line rest : List Char}
    (next : nextLine closed data = some (line, rest)) : rest.length < data.length := by
  rcases oneLine_or_split data with oneLine | ⟨text, ch, more, rfl, oneLine, lineEnd⟩
  · rw [nextLine_oneLine closed oneLine] at next
    cases next
  rw [nextLine_append closed _ oneLine] at next
  have within : rest.length ≤ more.length := by
    rcases lineEnd with rfl | rfl
    · cases more with
      | nil =>
          cases closed with
          | false => simp [nextLine] at next
          | true =>
              obtain ⟨rfl, rfl⟩ : text = line ∧ [] = rest := by
                simpa [nextLine] using next
              exact Nat.le_refl _
      | cons swallowed more =>
          obtain ⟨rfl, rfl⟩ : text = line ∧ more = rest := by
            simpa [nextLine] using next
          exact Nat.le_succ _
    · obtain ⟨rfl, rfl⟩ : text = line ∧ more = rest := by
        simpa [nextLine] using next
      exact Nat.le_refl _
  rw [List.length_append, List.length_cons]
  omega

/-- Every line takes at least one character. -/
theorem afterLines_shorter {closed : Bool} {lines : Nat} {data rest : List Char}
    (after : afterLines closed lines data = some rest) :
    rest.length + lines ≤ data.length := by
  induction lines generalizing data with
  | zero =>
      cases after
      simp
  | succ lines ih =>
      obtain ⟨⟨line, middle⟩, next, later⟩ := Option.bind_eq_some_iff.mp after
      have first := nextLine_shorter next
      have others := ih later
      omega

section Reading

variable {fd : Socket} {data : List Char} {closed : Bool} {size : Nat}

theorem readByte_data {ch : Char} (delivers : fd.Delivers (ch :: data) closed) :
    ∃ rest, Outcome.Settles (readByte · fd) (.returns (ch, rest)) ∧
      rest.Delivers data closed := by
  obtain ⟨rest, read, delivered⟩ := delivers.read_one
  refine ⟨rest, .of_succ rfl ?_, delivered⟩
  simpa [readByte, read] using Outcome.Settles.const (.returns (ch, rest))

/-- At the end of the stream the loop for one byte never ends. -/
theorem readByte_end (delivers : fd.Delivers [] closed) :
    Outcome.Settles (readByte · fd) .unfinished := by
  apply Outcome.Settles.of_unfinished
  intro fuel
  induction fuel with
  | zero => rfl
  | succ fuel ih =>
      rw [readByte, delivers.read_end Nat.one_pos]
      cases closed with
      | false => rfl
      | true => exact ih

private theorem room_grows {str : List Char} (ch : Char)
    (room : str.length < size) :
    (str ++ [ch]).length <
      if (str ++ [ch]).length = size then size + 16 else size := by
  rw [List.length_append, List.length_singleton]
  split <;> omega

theorem inputLoop_line {line : List Char} {ch : Char} (str : List Char)
    (delivers : fd.Delivers (line ++ ch :: data) closed)
    (oneLine : OneLine line) (lineEnd : ch = '\r' ∨ ch = '\n')
    (room : str.length < size) :
    ∃ rest, Outcome.Settles (inputLoop · size str fd)
        (.returns (str ++ line ++ [ch], rest)) ∧ rest.Delivers data closed := by
  induction line generalizing fd str size with
  | nil =>
      obtain ⟨rest, read, delivered⟩ := readByte_data delivers
      refine ⟨rest, .of_succ rfl (read.bind_returns ?_), delivered⟩
      have ended : ¬ (ch ≠ '\r' ∧ ch ≠ '\n') := by tauto
      simp only [if_neg (Nat.not_le_of_gt room), if_neg ended]
      simpa using Outcome.Settles.const (.returns (str ++ [ch], rest))
  | cons first line ih =>
      obtain ⟨goesOn, oneLine⟩ := oneLine_cons.mp oneLine
      obtain ⟨next, read, nextDelivers⟩ := readByte_data delivers
      obtain ⟨rest, settles, delivered⟩ :=
        ih (str ++ [first]) nextDelivers oneLine (room_grows first room)
      refine ⟨rest, .of_succ rfl (read.bind_returns ?_), delivered⟩
      simp only [if_neg (Nat.not_le_of_gt room), if_pos goesOn]
      simpa using settles

theorem inputLoop_endless (str : List Char)
    (delivers : fd.Delivers data closed) (oneLine : OneLine data)
    (room : str.length < size) :
    Outcome.Settles (inputLoop · size str fd) .unfinished := by
  induction data generalizing fd str size with
  | nil => exact .of_succ rfl (readByte_end delivers).bind_unfinished
  | cons first data ih =>
      obtain ⟨goesOn, oneLine⟩ := oneLine_cons.mp oneLine
      obtain ⟨next, read, nextDelivers⟩ := readByte_data delivers
      refine .of_succ rfl (read.bind_returns ?_)
      simp only [if_neg (Nat.not_le_of_gt room), if_pos goesOn]
      exact ih (str ++ [first]) nextDelivers oneLine (room_grows first room)

/-- `inputStringFd` gives the next line, closed by a NUL. -/
theorem inputStringFd_line {line rest : List Char}
    (delivers : fd.Delivers data closed)
    (next : nextLine closed data = some (line, rest)) (positive : 0 < size) :
    ∃ after, Outcome.Settles (inputStringFd · size fd)
        (.returns (line ++ ['\x00'], after)) ∧ after.Delivers rest closed := by
  rcases oneLine_or_split data with oneLine | ⟨text, ch, more, rfl, oneLine, lineEnd⟩
  · rw [nextLine_oneLine closed oneLine] at next
    cases next
  · obtain ⟨middle, loop, delivered⟩ :=
      inputLoop_line [] delivers oneLine lineEnd positive
    rw [nextLine_append closed _ oneLine] at next
    rcases lineEnd with rfl | rfl
    · cases more with
      | nil =>
          cases closed with
          | false => simp [nextLine] at next
          | true =>
              obtain ⟨rfl, rfl⟩ : text = line ∧ [] = rest := by
                simpa [nextLine] using next
              refine ⟨middle, loop.bind_returns ?_, delivered⟩
              simpa [delivered.read_end Nat.one_pos] using Outcome.Settles.const _
      | cons swallowed more =>
          obtain ⟨rfl, rfl⟩ : text = line ∧ more = rest := by
            simpa [nextLine] using next
          obtain ⟨after, read, afterDelivers⟩ := delivered.read_one
          refine ⟨after, loop.bind_returns ?_, afterDelivers⟩
          simpa [read] using Outcome.Settles.const _
    · obtain ⟨rfl, rfl⟩ : text = line ∧ more = rest := by
        simpa [nextLine] using next
      refine ⟨middle, loop.bind_returns ?_, delivered⟩
      simpa using Outcome.Settles.const _

theorem inputStringFd_endless (delivers : fd.Delivers data closed)
    (noLine : nextLine closed data = none) (positive : 0 < size) :
    Outcome.Settles (inputStringFd · size fd) .unfinished := by
  rcases oneLine_or_split data with oneLine | ⟨text, ch, more, rfl, oneLine, lineEnd⟩
  · exact (inputLoop_endless [] delivers oneLine positive).bind_unfinished
  · obtain ⟨middle, loop, delivered⟩ :=
      inputLoop_line [] delivers oneLine lineEnd positive
    rw [nextLine_append closed _ oneLine] at noLine
    rcases lineEnd with rfl | rfl
    · cases more with
      | nil =>
          cases closed with
          | false =>
              refine loop.bind_returns ?_
              simpa [delivered.read_end Nat.one_pos] using Outcome.Settles.const _
          | true => simp [nextLine] at noLine
      | cons swallowed more => simp [nextLine] at noLine
    · simp [nextLine] at noLine

theorem consumeLines_lines {lines : Nat} {rest : List Char}
    (delivers : fd.Delivers data closed)
    (after : afterLines closed lines data = some rest) :
    ∃ sock, Outcome.Settles (consumeLines · lines fd) (.returns sock) ∧
      sock.Delivers rest closed := by
  induction lines generalizing fd data with
  | zero =>
      cases after
      exact ⟨fd, .const _, delivers⟩
  | succ lines ih =>
      obtain ⟨⟨line, middle⟩, next, later⟩ := Option.bind_eq_some_iff.mp after
      obtain ⟨sock, first, delivered⟩ :=
        inputStringFd_line delivers next (by decide : 0 < 10)
      obtain ⟨last, others, lastDelivers⟩ := ih delivered later
      exact ⟨last, first.bind_returns others, lastDelivers⟩

theorem consumeLines_endless {lines : Nat}
    (delivers : fd.Delivers data closed)
    (missing : afterLines closed lines data = none) :
    Outcome.Settles (consumeLines · lines fd) .unfinished := by
  induction lines generalizing fd data with
  | zero => cases missing
  | succ lines ih =>
      cases next : nextLine closed data with
      | none =>
          exact (inputStringFd_endless delivers next (by decide)).bind_unfinished
      | some found =>
          obtain ⟨line, middle⟩ := found
          obtain ⟨sock, first, delivered⟩ :=
            inputStringFd_line delivers next (by decide : 0 < 10)
          have later : afterLines closed lines middle = none := by
            simpa [afterLines, next] using missing
          exact first.bind_returns (ih delivered later)

/-- Lines that were skipped were there. -/
theorem consumeLines_isSome {lines : Nat} {sock : Socket}
    (delivers : fd.Delivers data closed)
    (skipped : Outcome.Settles (consumeLines · lines fd) (.returns sock)) :
    (afterLines closed lines data).isSome := by
  by_contra missing
  rw [Option.not_isSome_iff_eq_none] at missing
  cases skipped.unique (consumeLines_endless delivers missing)

theorem inputStringFd_crlf_take {line : List Char} {cut : Nat}
    {lines : List (List Char)} {rest : List Char}
    (delivers : fd.Delivers ((crlfLines (line :: lines) ++ rest).take cut) closed)
    (oneLine : OneLine line) (positive : 0 < size) :
    (cut + closed.toNat < line.length + 2 ∧
      Outcome.Settles (inputStringFd · size fd) .unfinished) ∨
    (line.length + 2 ≤ cut + closed.toNat ∧ ∃ after,
      Outcome.Settles (inputStringFd · size fd)
        (.returns (line ++ ['\x00'], after)) ∧
      after.Delivers ((crlfLines lines ++ rest).take (cut - (line.length + 2))) closed) := by
  have next := nextLine_crlf_take closed cut lines rest oneLine
  by_cases complete : line.length + 2 ≤ cut + closed.toNat
  · rw [if_pos complete] at next
    exact Or.inr ⟨complete, inputStringFd_line delivers next positive⟩
  · rw [if_neg complete] at next
    exact Or.inl ⟨by omega, inputStringFd_endless delivers next positive⟩

theorem consumeLines_crlf_take {cut : Nat} (lines : List (List Char))
    {more : List (List Char)} {rest : List Char}
    (delivers : fd.Delivers ((crlfLines (lines ++ more) ++ rest).take cut) closed)
    (oneLine : ∀ line ∈ lines, OneLine line) (nonempty : lines ≠ []) :
    (cut + closed.toNat < (crlfLines lines).length ∧
      Outcome.Settles (consumeLines · lines.length fd) .unfinished) ∨
    ((crlfLines lines).length ≤ cut + closed.toNat ∧ ∃ after,
      Outcome.Settles (consumeLines · lines.length fd) (.returns after) ∧
      after.Delivers ((crlfLines more ++ rest).take (cut - (crlfLines lines).length))
        closed) := by
  have next := afterLines_crlf_take closed cut more rest oneLine nonempty
  by_cases complete : (crlfLines lines).length ≤ cut + closed.toNat
  · rw [if_pos complete] at next
    exact Or.inr ⟨complete, consumeLines_lines delivers next⟩
  · rw [if_neg complete] at next
    exact Or.inl ⟨by omega, consumeLines_endless delivers next⟩

end Reading

end WebCrawl
