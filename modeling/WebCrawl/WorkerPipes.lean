import WebCrawl.CString
import WebCrawl.LabelledRun

/-!
# The named pipes between jobExecutor and its workers

The names of the pipes are built from numbers at three places: where
`jobExecutor` makes them, where it opens them in pairs, and where a worker opens
the two that it uses.  A number is printed into a block of five bytes, so it may
have four digits.  Signed overflow is undefined.
-/

namespace WebCrawl

def fifoStart : List Char :=
  "/tmp/pipe".toList

theorem nulFree_toDigits (number : Nat) : '\x00' ∉ Nat.toDigits 10 number := fun member =>
  absurd (Nat.isDigit_of_mem_toDigits (by decide : 0 < 10) (by decide : 10 ≤ 10) member)
    (by decide)

/-- The name of a pipe. -/
def pipe (number : Nat) : CString where
  chars := fifoStart ++ Nat.toDigits 10 number
  nulFree := by
    have start : '\x00' ∉ fifoStart := by decide
    simp [start, nulFree_toDigits]

/-- The name as the programs build it, in `fifoName` and `buffer`. -/
def fifoName (number : Nat) : Outcome CString :=
  if 5 < (Nat.toDigits 10 number).length + 1 then .faults
  else .returns (pipe number)

/-- The result of an operation on `int`s. -/
def intValue (number : Int) : Outcome Int :=
  if -2 ^ 31 ≤ number ∧ number < 2 ^ 31 then .returns number else .faults

/-- The pipes that `worker` opens, to read and to write. -/
def workerPipes (i : Nat) : Outcome (CString × CString) := do
  let fdRead ← fifoName (i + 2)
  let fdWrite ← fifoName (i + 1)
  return (fdRead, fdWrite)

/-- The loop of `jobExecutor` that makes the pipes. -/
def makePipes (numPipes : Nat) : Outcome (List CString) :=
  (List.range numPipes).mapM fun i => fifoName (i + 1)

/-- A descriptor in `FIFOS`: the pipe that it denotes, once it is stored. -/
abbrev Descriptor := Option CString

def storeFifo (fifos : List Descriptor) (i : Nat) (name : CString) :
    Outcome (List Descriptor) :=
  if i < fifos.length then .returns (fifos.set i (some name)) else .faults

/-- The loop of `jobExecutor` that opens the pipes, two at a time. -/
def openPipes : Nat → Nat → Nat → List Descriptor → Outcome (List Descriptor)
  | 0, _, _, _ => .unfinished
  | fuel + 1, numPipes, i, fifos =>
      if i < numPipes then do
        let fdRead ← fifoName (i + 1)
        let fifos ← storeFifo fifos i fdRead
        let fdWrite ← fifoName (i + 2)
        let fifos ← storeFifo fifos (i + 1) fdWrite
        openPipes fuel numPipes (i + 2) fifos
      else return fifos

/-- What `jobExecutor` does before it sends anything.  A worker that is forked
in between opens its own pipes. -/
def preparePipes (fuel : Nat) (numWorkers : Nat) : Outcome (List Descriptor) := do
  let numPipes ← intValue (numWorkers * 2)
  let _ ← makePipes numPipes.toNat
  openPipes fuel numPipes.toNat 0 (List.replicate numPipes.toNat none)

theorem fifoName_short {number : Nat} (short : number < 10000) :
    fifoName number = .returns (pipe number) := by
  have digits : (Nat.toDigits 10 number).length ≤ 4 := by
    rw [Nat.length_toDigits_le_iff (by decide) (by decide)]
    exact short
  rw [fifoName, if_neg (by omega)]

theorem fifoName_long {number : Nat} (long : 10000 ≤ number) :
    fifoName number = .faults := by
  have digits : ¬ (Nat.toDigits 10 number).length ≤ 4 := by
    rw [Nat.length_toDigits_le_iff (by decide) (by decide)]
    omega
  rw [fifoName, if_pos (by omega)]

theorem pipe_injective : Function.Injective pipe := by
  intro first second same
  have digits : Nat.toDigits 10 first = Nat.toDigits 10 second :=
    List.append_cancel_left (congrArg CString.chars same)
  have value := congrArg (fun digits => Nat.ofDigitChars 10 digits 0) digits
  simpa using value

theorem workerPipes_short {i : Nat} (short : i + 2 < 10000) :
    workerPipes i = .returns (pipe (i + 2), pipe (i + 1)) := by
  rw [workerPipes, fifoName_short short, fifoName_short (by omega)]
  rfl

theorem intValue_of_lt {number : Int} (nonneg : 0 ≤ number) (below : number < 2 ^ 31) :
    intValue number = .returns number := by
  rw [intValue, if_pos ⟨by omega, below⟩]

theorem intValue_eq_returns {number value : Int}
    (returned : intValue number = .returns value) :
    value = number ∧ number < 2 ^ 31 := by
  unfold intValue at returned
  split at returned
  case isTrue fits => exact ⟨(Outcome.returns.inj returned).symm, fits.2⟩
  case isFalse => cases returned

/-- The descriptors when the first of the pipes are open. -/
def descriptors (opened total : Nat) : List Descriptor :=
  (List.range total).map fun k => if k < opened then some (pipe (k + 1)) else none

theorem descriptors_zero (total : Nat) :
    descriptors 0 total = List.replicate total none := by
  simp [descriptors]

@[simp]
theorem length_descriptors (opened total : Nat) :
    (descriptors opened total).length = total := by
  simp [descriptors]

theorem getElem?_descriptors {total k : Nat} (below : k < total) :
    (descriptors total total)[k]? = some (some (pipe (k + 1))) := by
  simp [descriptors, below]

theorem storeFifo_descriptors {opened total : Nat} (more : opened < total) :
    storeFifo (descriptors opened total) opened (pipe (opened + 1)) =
      .returns (descriptors (opened + 1) total) := by
  have stored : (descriptors opened total).set opened (some (pipe (opened + 1))) =
      descriptors (opened + 1) total := by
    apply List.ext_getElem
    · simp
    · intro k below _
      rw [List.getElem_set]
      simp only [descriptors, List.getElem_map, List.getElem_range]
      split
      case isTrue same => rw [← same, if_pos (Nat.lt_succ_self _)]
      case isFalse other =>
        have sameTest : k < opened ↔ k < opened + 1 := by omega
        simp only [sameTest]
  rw [storeFifo, length_descriptors, if_pos more, stored]

/-- Every descriptor denotes the pipe whose number follows its index. -/
theorem openPipes_descriptors {pairs opened : Nat}
    (short : opened + 2 * pairs < 10000) :
    Outcome.Settles
      (fun fuel => openPipes fuel (opened + 2 * pairs) opened
        (descriptors opened (opened + 2 * pairs)))
      (.returns (descriptors (opened + 2 * pairs) (opened + 2 * pairs))) := by
  induction pairs generalizing opened with
  | zero =>
      apply Outcome.Settles.of_succ rfl
      refine (Outcome.Settles.const _).congr fun fuel => ?_
      rw [openPipes, if_neg (by omega)]
      rfl
  | succ pairs ih =>
      have later := @ih (opened + 2) (by omega)
      have sameTotal : opened + 2 + 2 * pairs = opened + 2 * (pairs + 1) := by omega
      rw [sameTotal] at later
      apply Outcome.Settles.of_succ rfl
      refine later.congr fun fuel => ?_
      rw [openPipes, if_pos (by omega), fifoName_short (by omega), Outcome.returns_bind,
        storeFifo_descriptors (by omega), Outcome.returns_bind,
        fifoName_short (by omega), Outcome.returns_bind,
        storeFifo_descriptors (by omega), Outcome.returns_bind]

theorem preparePipes_short {numWorkers : Nat} (short : numWorkers * 2 < 10000) :
    Outcome.Settles (fun fuel => preparePipes fuel numWorkers)
      (.returns (descriptors (numWorkers * 2) (numWorkers * 2))) := by
  have opened := @openPipes_descriptors numWorkers 0 (by omega)
  rw [Nat.zero_add, Nat.mul_comm 2, descriptors_zero] at opened
  refine opened.congr fun fuel => ?_
  have numPipes : intValue (numWorkers * 2) = .returns ((numWorkers * 2 : Nat) : Int) :=
    intValue_of_lt (by omega) (by omega)
  have made : makePipes (numWorkers * 2) =
      .returns ((List.range (numWorkers * 2)).map fun i => pipe (i + 1)) := by
    apply Outcome.mapM_returns
    intro i member
    rw [List.mem_range] at member
    exact fifoName_short (by omega)
  rw [preparePipes, numPipes, Outcome.returns_bind, Int.toNat_natCast, made,
    Outcome.returns_bind]

theorem makePipes_returns {numPipes : Nat} {names : List CString}
    (made : makePipes numPipes = .returns names) : numPipes < 10000 := by
  by_contra long
  have each := Outcome.mapM_eq_returns_iff.mp made
  have last : 9999 < (List.range numPipes).length := by
    rw [List.length_range]
    omega
  have printed := (List.forall₂_iff_get.mp each).2 9999 last (each.length_eq ▸ last)
  simp only [List.get_eq_getElem, List.getElem_range] at printed
  rw [fifoName_long (by omega)] at printed
  cases printed

theorem preparePipes_returns {fuel numWorkers : Nat} {fifos : List Descriptor}
    (prepared : preparePipes fuel numWorkers = .returns fifos) :
    numWorkers * 2 < 10000 := by
  obtain ⟨numPipes, checked, prepared⟩ := Outcome.bind_eq_returns prepared
  obtain ⟨names, made, _⟩ := Outcome.bind_eq_returns prepared
  have value := (intValue_eq_returns checked).1
  have short := makePipes_returns made
  omega

end WebCrawl
