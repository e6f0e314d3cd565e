import WebCrawl.WorkerPipes
import Mathlib.Data.Set.Function

/-!
# Handing out the paths

`jobExecutor` walks along the list of paths with one cursor for two loops.  The
inner loop gives one path to each worker and stops early at the last path; the
outer loop counts in steps of the number of workers.  What both together write
is stated as one pass over the list, and the counter decides only whether that
pass is completed.
-/

namespace WebCrawl

/-- One call of `write` on a pipe. -/
structure PipeWrite where
  fifo : CString
  bytes : List Char
  deriving DecidableEq

/-- Write a string with its end to a worker.  The length is an `int`. -/
def writeFifo (fifos : List Descriptor) (i : Nat) (content : CString) : Outcome PipeWrite := do
  let length ← intValue (toInt content.chars.length + 1)
  if length < 0 then .faults
  else
    match fifos[i + 1]? with
    | some (some fifo) => return ⟨fifo, (content.chars ++ ['\x00']).take length.toNat⟩
    | _ => .faults

/-- The inner loop from worker `i` on, with the cursor in front of `paths`. -/
def sendRound (fifos : List Descriptor) :
    Nat → Nat → List CString → Outcome (List PipeWrite × List CString)
  | 0, _, paths => return ([], paths)
  | _ + 1, _, [] => .faults
  | _ + 1, i, [last] => do
      let sent ← writeFifo fifos i last
      return ([sent], [last])
  | left + 1, i, path :: next :: paths => do
      let sent ← writeFifo fifos i path
      let (later, rest) ← sendRound fifos left (i + 1) (next :: paths)
      return (sent :: later, rest)

/-- The outer loop. -/
def sendPaths (fifos : List Descriptor) (numWorkers : Nat) (numOfPaths : Int) :
    Nat → Int → List CString → Outcome (List PipeWrite)
  | 0, _, _ => .unfinished
  | fuel + 1, j, paths =>
      if j < numOfPaths then do
        let (sent, paths) ← sendRound fifos numWorkers 0 paths
        let sum ← intValue (j + numWorkers)
        let j ← intValue (sum - 1)
        let j ← intValue (j + 1)
        let later ← sendPaths fifos numWorkers numOfPaths fuel j paths
        return sent ++ later
      else return []

def stop : CString :=
  ⟨"stop".toList, by decide⟩

def sendStops (fifos : List Descriptor) (numWorkers : Nat) : Outcome (List PipeWrite) :=
  (List.range numWorkers).mapM fun i => writeFifo fifos i stop

/-- The writes of `jobExecutor`, up to the commands of its user. -/
def jobExecutor (fuel : Nat) (numWorkers : Nat) (paths : List CString) :
    Outcome (List PipeWrite) := do
  let numOfPaths ← intValue paths.length
  let fifos ← preparePipes fuel numWorkers
  let sent ← sendPaths fifos numWorkers numOfPaths fuel 0 paths
  let stops ← sendStops fifos numWorkers
  return sent ++ stops

/-- Each path is written once, in order, to the worker whose turn it is, and then
each worker is told to stop; a worker is reached through the pipe that it reads. -/
def PathsDistributed (numWorkers : Nat) (paths : List CString) : Prop :=
  ∃ fdRead fdWrite : Nat → CString,
    (∀ i < numWorkers, workerPipes i = .returns (fdRead i, fdWrite i)) ∧
    Set.InjOn fdRead {i | i < numWorkers} ∧
    Outcome.Settles (fun fuel => jobExecutor fuel numWorkers paths)
      (.returns
        (paths.mapIdx (fun m path => ⟨fdRead (m % numWorkers), path.chars ++ ['\x00']⟩) ++
          (List.range numWorkers).map fun i => ⟨fdRead i, stop.chars ++ ['\x00']⟩))

section Writes

variable {fifos : List Descriptor} {i : Nat} {fifo : CString}

theorem writeFifo_whole_iff (opened : fifos[i + 1]? = some (some fifo)) (content : CString) :
    writeFifo fifos i content = .returns ⟨fifo, content.chars ++ ['\x00']⟩ ↔
      content.chars.length < 2 ^ 31 - 1 := by
  constructor
  · intro written
    obtain ⟨length, checked, written⟩ := Outcome.bind_eq_returns written
    have fits := intValue_eq_returns checked
    rw [opened] at written
    split at written
    case isTrue => cases written
    case isFalse nonneg =>
      have whole := congrArg PipeWrite.bytes (Outcome.returns.inj written)
      have lengths := congrArg List.length whole
      simp only [List.length_take, List.length_append, List.length_cons,
        List.length_nil] at lengths
      omega
  · intro short
    have length : toInt content.chars.length = content.chars.length :=
      toInt_of_range (by omega) (by omega)
    have fits : intValue ((content.chars.length : Int) + 1) =
        .returns (content.chars.length + 1) := intValue_of_lt (by omega) (by omega)
    have whole : (content.chars ++ ['\x00']).take
        ((content.chars.length : Int) + 1).toNat = content.chars ++ ['\x00'] := by
      apply List.take_of_length_le
      rw [List.length_append, List.length_singleton]
      omega
    rw [writeFifo, length, fits, Outcome.returns_bind, if_neg (by omega), opened]
    simp only [whole, Outcome.pure_eq]

theorem sendStops_descriptors (numWorkers : Nat) :
    sendStops (descriptors (numWorkers * 2) (numWorkers * 2)) numWorkers =
      .returns ((List.range numWorkers).map fun i =>
        ⟨pipe (i + 2), stop.chars ++ ['\x00']⟩) := by
  apply Outcome.mapM_returns
  intro i member
  rw [List.mem_range] at member
  rw [writeFifo_whole_iff (getElem?_descriptors (by omega))]
  decide

end Writes

/-- One pass over the paths: worker `m % numWorkers` gets path `m`. -/
def roundRobin (fifos : List Descriptor) (numWorkers start : Nat) (paths : List CString) :
    Outcome (List PipeWrite) :=
  (paths.zipIdx start).mapM fun turn => writeFifo fifos (turn.2 % numWorkers) turn.1

section RoundRobin

variable {fifos : List Descriptor} {numWorkers start : Nat}

theorem roundRobin_cons (path : CString) (paths : List CString) :
    roundRobin fifos numWorkers start (path :: paths) = (do
      let sent ← writeFifo fifos (start % numWorkers) path
      let later ← roundRobin fifos numWorkers (start + 1) paths
      return sent :: later) := by
  rw [roundRobin, List.zipIdx_cons, List.mapM_cons]
  rfl

theorem roundRobin_append (paths more : List CString) :
    roundRobin fifos numWorkers start (paths ++ more) = (do
      let sent ← roundRobin fifos numWorkers start paths
      let later ← roundRobin fifos numWorkers (start + paths.length) more
      return sent ++ later) := by
  rw [roundRobin, List.zipIdx_append, List.mapM_append]
  rfl

/-- A round passes over as many paths as there are workers left. -/
theorem sendRound_eq {left i : Nat} {paths : List CString} (nonempty : paths ≠ [])
    (total : i + left = numWorkers) (turn : numWorkers ∣ start) :
    sendRound fifos left i paths = (do
      let sent ← roundRobin fifos numWorkers (start + i) (paths.take left)
      return (sent, if paths.length ≤ left then paths.drop (paths.length - 1)
        else paths.drop left)) := by
  induction left generalizing i paths with
  | zero =>
      cases paths with
      | nil => exact absurd rfl nonempty
      | cons path paths => rfl
  | succ left ih =>
      have here : (start + i) % numWorkers = i := by
        obtain ⟨rounds, rfl⟩ := turn
        rw [Nat.mul_add_mod, Nat.mod_eq_of_lt (by omega)]
      match paths with
      | [] => exact absurd rfl nonempty
      | [last] =>
          rw [List.take_of_length_le (by simp), roundRobin_cons, here, sendRound,
            bind_assoc]
          apply bind_congr
          intro sent
          simp [roundRobin]
      | path :: next :: paths =>
          have later := @ih (i + 1) (next :: paths) (List.cons_ne_nil _ _) (by omega)
          have sameTest : (path :: next :: paths).length ≤ left + 1 ↔
              (next :: paths).length ≤ left := Nat.succ_le_succ_iff
          rw [sendRound, later, List.take_succ_cons, roundRobin_cons, here, bind_assoc]
          apply bind_congr
          intro sent
          simp only [bind_assoc, sameTest]
          apply bind_congr
          intro more
          rfl

/-- A number of paths, rounded up to full rounds. -/
def fullRounds (numWorkers numOfPaths : Nat) : Nat :=
  (numOfPaths + numWorkers - 1) / numWorkers * numWorkers

theorem next_round_le {numOfPaths : Nat} (turn : numWorkers ∣ start)
    (more : start < numOfPaths) : start + numWorkers ≤ fullRounds numWorkers numOfPaths := by
  obtain ⟨rounds, rfl⟩ := turn
  rcases Nat.eq_zero_or_pos numWorkers with none | someWorker
  · subst none
    simp
  · have another : rounds + 1 ≤ (numOfPaths + numWorkers - 1) / numWorkers := by
      rw [Nat.le_div_iff_mul_le someWorker, Nat.add_mul, Nat.mul_comm rounds]
      omega
    calc
      numWorkers * rounds + numWorkers = (rounds + 1) * numWorkers := by
        rw [Nat.add_mul, Nat.mul_comm rounds, Nat.one_mul]
      _ ≤ fullRounds numWorkers numOfPaths := Nat.mul_le_mul_right _ another

theorem fullRounds_le {numOfPaths : Nat} (someWorker : 0 < numWorkers) (turn : numWorkers ∣ start)
    (covers : numOfPaths ≤ start) : fullRounds numWorkers numOfPaths ≤ start := by
  obtain ⟨rounds, rfl⟩ := turn
  have few : (numOfPaths + numWorkers - 1) / numWorkers < rounds + 1 := by
    rw [Nat.div_lt_iff_lt_mul someWorker, Nat.add_mul, Nat.mul_comm rounds]
    omega
  rw [fullRounds, Nat.mul_comm]
  exact Nat.mul_le_mul_left _ (Nat.le_of_lt_succ few)

/-- One step of the outer loop. -/
theorem sendPaths_succ {numOfPaths fuel : Nat} {paths : List CString} (nonempty : paths ≠ [])
    (turn : numWorkers ∣ start) (more : start < numOfPaths) :
    sendPaths fifos numWorkers numOfPaths (fuel + 1) start paths = (do
      let sent ← roundRobin fifos numWorkers start (paths.take numWorkers)
      let sum ← intValue (start + numWorkers)
      let j ← intValue (sum - 1)
      let j ← intValue (j + 1)
      let later ← sendPaths fifos numWorkers numOfPaths fuel j
        (if paths.length ≤ numWorkers then paths.drop (paths.length - 1)
          else paths.drop numWorkers)
      return sent ++ later) := by
  have round := @sendRound_eq fifos numWorkers start numWorkers 0 paths nonempty
    (Nat.zero_add _) turn
  rw [sendPaths, if_pos (by omega), round, bind_assoc]
  apply bind_congr
  intro sent
  rw [pure_bind]

/-- The counter goes on by the number of workers, with one step of its own loop. -/
theorem advance_counter {α : Type} (next : Int → Outcome α)
    (fits : start + numWorkers < 2 ^ 31) :
    (do
      let sum ← intValue (start + numWorkers)
      let j ← intValue (sum - 1)
      let j ← intValue (j + 1)
      next j) = next ((start + numWorkers : Nat) : Int) := by
  have sum : intValue ((start : Int) + numWorkers) = .returns (start + numWorkers) :=
    intValue_of_lt (by omega) (by omega)
  have before : intValue ((start : Int) + numWorkers - 1) =
      .returns (start + numWorkers - 1) := by
    rw [intValue, if_pos ⟨by omega, by omega⟩]
  rw [sum, Outcome.returns_bind, before, Outcome.returns_bind, Int.sub_add_cancel, sum,
    Outcome.returns_bind, Int.natCast_add]

theorem sendPaths_finished {numOfPaths j : Nat} (paths : List CString)
    (covers : numOfPaths ≤ j) :
    Outcome.Settles (fun fuel => sendPaths fifos numWorkers numOfPaths fuel j paths)
      (.returns []) := by
  apply Outcome.Settles.of_succ rfl
  refine (Outcome.Settles.const _).congr fun fuel => ?_
  rw [sendPaths, if_neg (by omega), Outcome.pure_eq]

/-- A round and the rounds after it. -/
theorem roundRobin_round (paths : List CString) :
    roundRobin fifos numWorkers start paths = (do
      let sent ← roundRobin fifos numWorkers start (paths.take numWorkers)
      let later ← roundRobin fifos numWorkers (start + (paths.take numWorkers).length)
        (paths.drop numWorkers)
      return sent ++ later) := by
  conv_lhs => rw [← List.take_append_drop numWorkers paths]
  rw [roundRobin_append]

theorem sendPaths_settles {numOfPaths : Nat} {paths : List CString}
    (total : numOfPaths = start + paths.length) (someWorker : 0 < numWorkers)
    (turn : numWorkers ∣ start) (fits : fullRounds numWorkers numOfPaths < 2 ^ 31) :
    Outcome.Settles
      (fun fuel => sendPaths fifos numWorkers numOfPaths fuel start paths)
      (roundRobin fifos numWorkers start paths) := by
  induction length : paths.length using Nat.strong_induction_on generalizing start paths with
  | _ length ih =>
      rcases Nat.eq_zero_or_pos paths.length with none | nonempty
      · rw [List.length_eq_zero_iff] at none
        subst none
        exact sendPaths_finished [] (by rw [total]; exact Nat.le_refl _)
      have present : paths ≠ [] := List.ne_nil_of_length_pos nonempty
      have nextRound : start + numWorkers < 2 ^ 31 :=
        Nat.lt_of_le_of_lt (next_round_le turn (by omega)) fits
      have rounds : Outcome.Settles
          (fun fuel => sendPaths fifos numWorkers numOfPaths fuel
            ((start + numWorkers : Nat) : Int)
            (if paths.length ≤ numWorkers then paths.drop (paths.length - 1)
              else paths.drop numWorkers))
          (roundRobin fifos numWorkers (start + (paths.take numWorkers).length)
            (paths.drop numWorkers)) := by
        split
        case isTrue last =>
          rw [List.drop_of_length_le last]
          exact sendPaths_finished _ (by omega)
        case isFalse more =>
          rw [List.length_take, Nat.min_eq_left (by omega)]
          apply ih (paths.length - numWorkers) (by omega)
          · rw [List.length_drop]
            omega
          · exact Nat.dvd_add turn (Nat.dvd_refl _)
          · rw [List.length_drop]
      rw [roundRobin_round]
      apply Outcome.Settles.of_succ rfl
      have both := (Outcome.Settles.const
        (roundRobin fifos numWorkers start (paths.take numWorkers))).bind fun sent _ =>
          rounds.bind fun later _ => Outcome.Settles.const (pure (sent ++ later))
      refine both.congr fun fuel => ?_
      rw [sendPaths_succ present turn (by omega)]
      simp only [advance_counter _ nextRound]

/-- When the outer loop ends, its counter has passed the last full round. -/
theorem sendPaths_returns {numOfPaths fuel : Nat} {paths : List CString}
    {sent : List PipeWrite}
    (returned : sendPaths fifos numWorkers numOfPaths fuel start paths = .returns sent)
    (total : start < numOfPaths → numOfPaths = start + paths.length)
    (someWorker : 0 < numWorkers) (turn : numWorkers ∣ start) (small : start < 2 ^ 31) :
    fullRounds numWorkers numOfPaths < 2 ^ 31 := by
  induction fuel generalizing start paths sent with
  | zero => cases returned
  | succ fuel ih =>
      by_cases more : start < numOfPaths
      · have length := total more
        have present : paths ≠ [] := List.ne_nil_of_length_pos (by omega)
        rw [sendPaths_succ present turn more] at returned
        obtain ⟨first, _, returned⟩ := Outcome.bind_eq_returns returned
        obtain ⟨sum, summed, _⟩ := Outcome.bind_eq_returns returned
        have fits := intValue_eq_returns summed
        have small : start + numWorkers < 2 ^ 31 := by omega
        rw [advance_counter _ small] at returned
        obtain ⟨rest, later, _⟩ := Outcome.bind_eq_returns returned
        apply ih later
        · intro unfinished
          rw [if_neg (by omega), List.length_drop]
          omega
        · exact Nat.dvd_add turn (Nat.dvd_refl _)
        · exact small
      · exact Nat.lt_of_le_of_lt (fullRounds_le someWorker turn (Nat.le_of_not_lt more)) small

end RoundRobin

section Distribution

variable {numWorkers : Nat} {paths : List CString}

theorem roundRobin_eq_returns_iff (someWorker : 0 < numWorkers) :
    roundRobin (descriptors (numWorkers * 2) (numWorkers * 2)) numWorkers 0 paths =
        .returns (paths.mapIdx fun m path =>
          ⟨pipe (m % numWorkers + 2), path.chars ++ ['\x00']⟩) ↔
      ∀ path ∈ paths, path.chars.length < 2 ^ 31 - 1 := by
  have opened : ∀ m, (descriptors (numWorkers * 2) (numWorkers * 2))[m % numWorkers + 1]? =
      some (some (pipe (m % numWorkers + 2))) := by
    intro m
    have inside := Nat.mod_lt m someWorker
    exact getElem?_descriptors (by omega)
  rw [roundRobin, Outcome.mapM_eq_returns_iff, List.mapIdx_eq_zipIdx_map,
    List.forall₂_map_right_iff, List.forall₂_same]
  simp only [writeFifo_whole_iff (opened _)]
  constructor
  · intro whole path member
    obtain ⟨m, below, rfl⟩ := List.mem_iff_getElem.mp member
    exact whole (paths[m], m) (List.mem_zipIdx_iff_getElem?.mpr (by simp [below]))
  · rintro short ⟨path, m⟩ member
    exact short path (List.fst_mem_of_mem_zipIdx member)

theorem jobExecutor_settles (few : numWorkers * 2 < 10000) (someWorker : 0 < numWorkers)
    (fits : fullRounds numWorkers paths.length < 2 ^ 31) :
    Outcome.Settles (fun fuel => jobExecutor fuel numWorkers paths) (do
      let sent ← roundRobin (descriptors (numWorkers * 2) (numWorkers * 2)) numWorkers 0 paths
      return sent ++ (List.range numWorkers).map fun i =>
        ⟨pipe (i + 2), stop.chars ++ ['\x00']⟩) := by
  have counted : paths.length ≤ fullRounds numWorkers paths.length := by
    by_contra fewer
    have next := next_round_le (Nat.dvd_mul_left numWorkers _)
      (Nat.lt_of_not_le fewer)
    rw [fullRounds] at next
    omega
  have numOfPaths : intValue paths.length = .returns paths.length :=
    intValue_of_lt (by omega) (by omega)
  have sending := @sendPaths_settles (descriptors (numWorkers * 2) (numWorkers * 2))
    numWorkers 0 paths.length paths (Nat.zero_add _).symm someWorker (Nat.dvd_zero _) fits
  have stops := sendStops_descriptors numWorkers
  have sent := sending.bind fun sent _ => Outcome.Settles.const (do
    let stops ← sendStops (descriptors (numWorkers * 2) (numWorkers * 2)) numWorkers
    return sent ++ stops)
  have prepared := @Outcome.Settles.bind_returns _ _ _ (fun fifos fuel =>
    sendPaths fifos numWorkers paths.length fuel 0 paths >>= fun sent => do
      let stops ← sendStops fifos numWorkers
      return sent ++ stops) _ _ (preparePipes_short few) sent
  simp only [stops, Outcome.returns_bind] at prepared
  refine prepared.congr fun fuel => ?_
  rw [jobExecutor, numOfPaths, Outcome.returns_bind]

/-- What an execution of `jobExecutor` that comes to its end has in common with
every other. -/
theorem jobExecutor_returns {fuel : Nat} {writes : List PipeWrite} (someWorker : 0 < numWorkers)
    (returned : jobExecutor fuel numWorkers paths = .returns writes) :
    numWorkers * 2 < 10000 ∧ fullRounds numWorkers paths.length < 2 ^ 31 := by
  obtain ⟨numOfPaths, counted, returned⟩ := Outcome.bind_eq_returns returned
  obtain ⟨fifos, prepared, returned⟩ := Outcome.bind_eq_returns returned
  obtain ⟨sent, sending, _⟩ := Outcome.bind_eq_returns returned
  rw [(intValue_eq_returns counted).1] at sending
  refine ⟨preparePipes_returns prepared, ?_⟩
  exact @sendPaths_returns fifos numWorkers 0 _ _ _ _ sending
    (fun _ => (Nat.zero_add _).symm) someWorker (Nat.dvd_zero _) (by decide)

/-- The paths are handed out as they should be when the numbers of the pipes have
at most four digits, the counter can pass the last round, and the length of each
path with its end is an `int`. -/
theorem paths_distributed_iff (someWorker : 0 < numWorkers) :
    PathsDistributed numWorkers paths ↔
      numWorkers < 5000 ∧
      (paths.length + numWorkers - 1) / numWorkers * numWorkers < 2 ^ 31 ∧
      ∀ path ∈ paths, path.chars.length < 2 ^ 31 - 1 := by
  constructor
  · rintro ⟨fdRead, fdWrite, opened, _, settles⟩
    obtain ⟨bound, settled⟩ := settles
    have returned := settled bound
    rw [if_neg (Nat.lt_irrefl _)] at returned
    obtain ⟨few, fits⟩ := jobExecutor_returns someWorker returned
    refine ⟨by omega, fits, ?_⟩
    rw [← roundRobin_eq_returns_iff someWorker]
    have same := (jobExecutor_settles few someWorker fits).unique ⟨bound, settled⟩
    have readers : ∀ i < numWorkers, fdRead i = pipe (i + 2) := by
      intro i inside
      have both := opened i inside
      rw [workerPipes_short (by omega)] at both
      exact (congrArg Prod.fst (Outcome.returns.inj both)).symm
    have turns : (fun (m : Nat) (path : CString) =>
        (⟨fdRead (m % numWorkers), path.chars ++ ['\x00']⟩ : PipeWrite)) =
          fun m path => ⟨pipe (m % numWorkers + 2), path.chars ++ ['\x00']⟩ := by
      funext m path
      rw [readers _ (Nat.mod_lt m someWorker)]
    rw [turns] at same
    obtain ⟨sent, robin, same⟩ := Outcome.bind_eq_returns same
    have writes := Outcome.returns.inj same
    have length := (Outcome.mapM_eq_returns_iff.mp robin).length_eq
    rw [List.length_zipIdx] at length
    have whole := List.append_inj_left writes (by rw [List.length_mapIdx, length])
    rw [robin, whole]
  · rintro ⟨few, fits, short⟩
    refine ⟨fun i => pipe (i + 2), fun i => pipe (i + 1), ?_, ?_, ?_⟩
    · intro i inside
      exact workerPipes_short (by omega)
    · intro i _ j _ same
      have numbers := pipe_injective same
      omega
    · have settles := jobExecutor_settles (by omega : numWorkers * 2 < 10000) someWorker fits
      rw [(roundRobin_eq_returns_iff someWorker).mpr short, Outcome.returns_bind] at settles
      exact settles

def firstPath : CString :=
  ⟨"/docs".toList, by decide⟩

def secondPath : CString :=
  ⟨"/notes".toList, by decide⟩

theorem paths_distributed_iff_three_paths :
    PathsDistributed 2 [firstPath, secondPath, firstPath] :=
  (paths_distributed_iff (by decide)).mpr ⟨by decide, by decide, by decide⟩

/-- The name of the last pipe of five thousand workers does not fit its block. -/
theorem paths_not_distributed : ¬ PathsDistributed 5000 [] := by
  rintro ⟨_, _, _, _, bound, settled⟩
  have returned := settled bound
  rw [if_neg (Nat.lt_irrefl _)] at returned
  have few := (jobExecutor_returns (by decide) returned).1
  omega

end Distribution

end WebCrawl
