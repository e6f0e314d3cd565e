import WebCrawl.ExtremeResults
import WebCrawl.IndexedFiles
import WebCrawl.PrivatePipes

/-!
# Queries to the index

A worker answers `wc` from what it counted of its files, and `max` and `min` from its
index.  Behind an index that is complete the answer to `max` is the file with the most
lines that have the keyword, and the answer to `min` the one with the fewest among
those that have it; of several such files `max` gives the last and `min` the first.
-/

namespace WebCrawl

open ScanSelection

/-- What a worker counted of a file. -/
structure WcResults where
  fileName : CString
  bytes : Int
  words : Int
  lines : Int

/-- What a worker writes to its pipe, one list for each call, and the log behind it. -/
structure WorkerReply where
  sent : List (List Char)
  log : Option (List Char)

/-- `fprintf` to a file, which is missing when `fopen` gave `NULL`. -/
def fprintf (f : Option (List Char)) (text : List Char) : Outcome (Option (List Char)) :=
  match f with
  | none => .faults
  | some log => .returns (some (log ++ text))

/-- The bytes of an `int`, the low one first. -/
def intBytes (number : Int) : List Char :=
  (List.range 4).map fun place => Char.ofNat (number / 256 ^ place % 256).toNat

/-- The loop over the list `wc`. -/
def addUp (wc : List WcResults) : Int × Int × Int :=
  wc.foldl (fun res curWC => (toInt (res.1 + curWC.bytes), toInt (res.2.1 + curWC.words),
    toInt (res.2.2 + curWC.lines))) (0, 0, 0)

def noFile : CString :=
  ⟨"nofile".toList, by decide⟩

/-- The result at the head of a list, and `nofile` when there is none. -/
def chosenResult : List CountResult → CountResult
  | [] => ⟨noFile, 0⟩
  | cRes :: _ => cRes

def maxLog : List Char :=
  " : maxcount : ".toList

def minLog : List Char :=
  " : mincount : ".toList

/-- The branches for `max` and `min`, with the name that the log has for them. -/
def countReply (find : List CountResult → List CountResult) (logName : List Char)
    (f : Option (List Char)) (trieRoot : TrieNode) (buf keyword : List Char) :
    Outcome WorkerReply := do
  let keyword ← blockString keyword
  let cRes := find (createCountResults (searchWordInTrie trieRoot keyword.chars))
  let fileName := (chosenResult cRes).fileName
  let log ← fprintf f (buf ++ logName ++ keyword.chars ++
    (if cRes = [] then [] else " : ".toList ++ fileName.chars) ++ ['\n'])
  return ⟨[message fileName, intBytes (chosenResult cRes).wordFrq], log⟩

def wcReply (f : Option (List Char)) (wc : List WcResults) (buf : List Char) :
    Outcome WorkerReply := do
  let res := addUp wc
  let log ← fprintf f (buf ++ " : wc : ".toList ++ decimal res.1 ++ " : ".toList ++
    decimal res.2.1 ++ " : ".toList ++ decimal res.2.2 ++ ['\n'])
  return ⟨[intBytes res.1, intBytes res.2.1, intBytes res.2.2], log⟩

/-- What `waitForSignal` does after a signal when it finds `str` in the pipe, and then
`keyword`; `f` is the log and `buf` has the time. -/
def waitForSignal (f : Option (List Char)) (wc : List WcResults) (trieRoot : TrieNode)
    (buf str keyword : List Char) : Outcome WorkerReply := do
  let command ← blockCommand (str.take strSize)
  if command = wcCommand then wcReply f wc buf
  else if command = maxCommand then
    countReply maxFinder maxLog f trieRoot buf (keyword.take strSize)
  else if command = minCommand then
    countReply minFinder minLog f trieRoot buf (keyword.take strSize)
  else return ⟨[], f⟩

/-- The lines of a file that have a word. -/
def TextFile.linesWith (file : TextFile) (word : List Char) : Nat :=
  file.contents.countP fun content => 0 < (textWords content).count word

section Counting

variable {files : List TextFile} {word : List Char}

theorem TextFile.occurrences_files (file : TextFile) (word : List Char) :
    (file.occurrences word).map PlistNode.file =
      List.replicate (file.linesWith word) file.fileName := by
  have from_start : ∀ start, (WebCrawl.occurrences file.fileName start file.contents word).map
      PlistNode.file = List.replicate (file.linesWith word) file.fileName := by
    rw [linesWith]
    induction file.contents with
    | nil => exact fun _ => rfl
    | cons content contents ih =>
        intro start
        by_cases none : (textWords content).count word = 0
        · have absent := List.count_eq_zero.mp none
          simpa [WebCrawl.occurrences, List.zipIdx_cons, none, absent] using ih (start + 1)
        · have member : word ∈ textWords content := by
            by_contra absent
            exact none (List.count_eq_zero.mpr absent)
          simpa [WebCrawl.occurrences, List.zipIdx_cons, none, member,
            List.replicate_succ] using ih (start + 1)
  exact from_start 0

/-- The results for a word: one for each file that has it. -/
def resultsOf (files : List TextFile) (word : List Char) : List CountResult :=
  (files.filter (0 < ·.linesWith word)).map fun file =>
    ⟨file.fileName, toInt (file.linesWith word)⟩

theorem occurrences_files_eraseDups (distinct : (files.map TextFile.fileName).Nodup) :
    ((files.flatMap (·.occurrences word)).map PlistNode.file).eraseDups =
      (files.filter (0 < ·.linesWith word)).map TextFile.fileName := by
  induction files with
  | nil => rfl
  | cons file files ih =>
      rw [List.map_cons, List.nodup_cons] at distinct
      rw [List.flatMap_cons, List.map_append, List.eraseDups_append, file.occurrences_files]
      have others : List.removeAll ((files.flatMap (·.occurrences word)).map PlistNode.file)
          (List.replicate (file.linesWith word) file.fileName) =
          (files.flatMap (·.occurrences word)).map PlistNode.file := by
        refine List.filter_eq_self.mpr fun name member => ?_
        obtain ⟨node, isNode, rfl⟩ := List.mem_map.mp member
        obtain ⟨other, isFile, occurs⟩ := List.mem_flatMap.mp isNode
        have name := (mem_occurrences.mp occurs).1
        have different : node.file ≠ file.fileName := fun same =>
          distinct.1 (List.mem_map.mpr ⟨other, isFile, name.symm.trans same⟩)
        simp [List.mem_replicate, different]
      rw [others, ih distinct.2]
      cases count : file.linesWith word with
      | zero => simp [count]
      | succ lines => simp [count, List.replicate_succ, List.eraseDups_cons]

theorem count_occurrences_files (distinct : (files.map TextFile.fileName).Nodup)
    {file : TextFile} (member : file ∈ files) :
    ((files.flatMap (·.occurrences word)).map PlistNode.file).count file.fileName =
      file.linesWith word := by
  induction files with
  | nil => exact absurd member List.not_mem_nil
  | cons first files ih =>
      rw [List.map_cons, List.nodup_cons] at distinct
      rw [List.flatMap_cons, List.map_append, List.count_append, first.occurrences_files,
        List.count_replicate]
      rcases List.mem_cons.mp member with rfl | later
      · have others : ((files.flatMap (·.occurrences word)).map PlistNode.file).count
            file.fileName = 0 := by
          refine List.count_eq_zero.mpr fun found => distinct.1 ?_
          obtain ⟨node, isNode, name⟩ := List.mem_map.mp found
          obtain ⟨other, isFile, occurs⟩ := List.mem_flatMap.mp isNode
          rw [(mem_occurrences.mp occurs).1] at name
          exact List.mem_map.mpr ⟨other, isFile, name⟩
        simp [others]
      · have different : first.fileName ≠ file.fileName := fun same =>
          distinct.1 (List.mem_map.mpr ⟨file, later, same.symm⟩)
        simp [different, ih distinct.2 later]

/-- Behind a complete index the results are one for each file that has the word, with
the number of lines that do. -/
theorem createCountResults_complete {trieRoot : TrieNode} (complete : Complete files trieRoot)
    (distinct : (files.map TextFile.fileName).Nodup) (word : List Char) :
    createCountResults (searchWordInTrie trieRoot word) = resultsOf files word := by
  rw [createCountResults_eq_tally, complete word, tally, occurrences_files_eraseDups distinct,
    List.map_map, resultsOf]
  refine List.map_congr_left fun file member => ?_
  rw [Function.comp_apply, count_occurrences_files distinct (List.mem_filter.mp member).1]

theorem resultsOf_eq_nil_iff :
    resultsOf files word = [] ↔ ∀ file ∈ files, file.linesWith word = 0 := by
  simp [resultsOf, List.filter_eq_nil_iff]

end Counting

section Choosing

variable {replaces : Int → Int → Bool} {files : List TextFile} {word : List Char}

/-- A finder puts the result that its scan selects at the head. -/
theorem finder_head (consistent : Consistent (Replaces replaces)) (cRes : CountResult)
    (next : List CountResult) :
    ∃ front best back, cRes :: next = front ++ best :: back ∧
      Selected (Replaces replaces) front best back ∧
      chosenResult (finder replaces (cRes :: next)) = best := by
  obtain ⟨front, best, back, split, selected, found⟩ := finder_selects consistent cRes next
  refine ⟨front, best, back, split, selected, ?_⟩
  rw [found]
  cases front with
  | nil =>
      rw [List.nil_append, List.cons.injEq] at split
      exact split.1
  | cons first front => rfl

theorem finder_eq_nil_iff (consistent : Consistent (Replaces replaces))
    (results : List CountResult) : finder replaces results = [] ↔ results = [] := by
  cases results with
  | nil => exact iff_of_true rfl rfl
  | cons cRes next =>
      obtain ⟨_, _, _, _, _, found⟩ := finder_selects consistent cRes next
      rw [found]
      simp

/-- No file has the word, or one that has it is chosen, and its lines are related to
those of the others before and after it that have the word. -/
def ChosenFile (earlier later : Nat → Nat → Prop) (files : List TextFile) (word : List Char)
    (answer : CountResult) : Prop :=
  (∀ file ∈ files, file.linesWith word = 0) ∧ answer = ⟨noFile, 0⟩ ∨
    ∃ before file after, files = before ++ file :: after ∧ 0 < file.linesWith word ∧
      answer = ⟨file.fileName, file.linesWith word⟩ ∧
      (∀ other ∈ before, 0 < other.linesWith word →
        earlier (other.linesWith word) (file.linesWith word)) ∧
      ∀ other ∈ after, 0 < other.linesWith word →
        later (other.linesWith word) (file.linesWith word)

theorem linesWith_toInt {file : TextFile} (countable : file.texts.length < 2 ^ 31) :
    toInt (file.linesWith word) = file.linesWith word := by
  rw [toInt_eq_iff]
  refine lt_of_le_of_lt List.countP_le_length ?_
  rwa [TextFile.contents, List.length_map]

theorem finder_chosenFile {earlier later : Nat → Nat → Prop}
    (consistent : Consistent (Replaces replaces))
    (isEarlier : ∀ other lines : Nat, replaces other lines = true → earlier other lines)
    (isLater : ∀ other lines : Nat, replaces lines other = false → later other lines)
    (countable : ∀ file ∈ files, file.texts.length < 2 ^ 31) (word : List Char) :
    ChosenFile earlier later files word
      (chosenResult (finder replaces (resultsOf files word))) := by
  cases results : resultsOf files word with
  | nil => exact Or.inl ⟨resultsOf_eq_nil_iff.mp results, rfl⟩
  | cons cRes next =>
      obtain ⟨front, best, back, split, selected, found⟩ := finder_head consistent cRes next
      rw [← results, resultsOf] at split
      obtain ⟨before, file, after, rfl, hasWord, image, inFront, behind⟩ :=
        selected.of_filter_map split
      have isFile : file ∈ before ++ file :: after :=
        List.mem_append_right before List.mem_cons_self
      rw [linesWith_toInt (countable file isFile)] at image
      refine Or.inr ⟨before, file, after, rfl, by simpa using hasWord, found.trans image.symm,
        fun other member otherHas => ?_, fun other member otherHas => ?_⟩
      · have replaced := inFront other member (by simpa using otherHas)
        have isOther := countable other (List.mem_append_left _ member)
        rw [← image, Replaces, linesWith_toInt isOther] at replaced
        exact isEarlier _ _ replaced
      · have kept := behind other member (by simpa using otherHas)
        have isOther := countable other
          (List.mem_append_right before (List.mem_cons_of_mem file member))
        rw [← image, Replaces, linesWith_toInt isOther] at kept
        exact isLater _ _ (Bool.eq_false_iff.mpr kept)

/-- The log names a file exactly when some file has the word. -/
theorem ChosenFile.wordFrq_eq_zero_iff {earlier later : Nat → Nat → Prop}
    {answer : CountResult} (chosen : ChosenFile earlier later files word answer) :
    answer.wordFrq = 0 ↔ ∀ file ∈ files, file.linesWith word = 0 := by
  rcases chosen with ⟨none, rfl⟩ | ⟨before, file, after, rfl, hasWord, rfl, _⟩
  · exact iff_of_true rfl none
  · refine iff_of_false (by simpa using Nat.ne_of_gt hasWord) fun none => ?_
    exact Nat.ne_of_gt hasWord
      (none file (List.mem_append_right before List.mem_cons_self))

end Choosing

section Replies

variable {files : List TextFile} {trieRoot : TrieNode} {f : Option (List Char)}
  {buf : List Char}

theorem countReply_unloaded {find : List CountResult → List CountResult}
    (nothing : find [] = []) {logName keyword : List Char} {reply : WorkerReply}
    (replies : countReply find logName f .null buf keyword = .returns reply) :
    readTurn .keyword keyword = .answering reply.sent := by
  obtain ⟨content, isString, replies⟩ := Outcome.bind_eq_returns replies
  obtain ⟨log, _, replies⟩ := Outcome.bind_eq_returns replies
  have noResult : createCountResults (searchWordInTrie .null content.chars) = [] := by
    cases content.chars <;> rfl
  have zero : intBytes 0 = zeroInt := by decide
  cases replies
  rw [readTurn, isString, noResult, nothing, chosenResult, zero]
  rfl

/-- A worker that has no index replies as it does to `jobExecutor`. -/
theorem waitForSignal_unloaded {str keyword : List Char} {reply : WorkerReply}
    (replies : waitForSignal f [] .null buf str keyword = .returns reply) :
    commandTurn (str.take strSize) = .pausing ∧ reply.sent = [] ∨
      commandTurn (str.take strSize) = .answering reply.sent ∨
      commandTurn (str.take strSize) = .keyword ∧
        readTurn .keyword (keyword.take strSize) = .answering reply.sent := by
  obtain ⟨command, isCommand, replies⟩ := Outcome.bind_eq_returns replies
  rw [commandTurn, isCommand]
  dsimp only
  by_cases isWc : command = wcCommand
  · rw [if_pos isWc] at replies ⊢
    obtain ⟨log, _, replies⟩ := Outcome.bind_eq_returns replies
    have zero : intBytes 0 = zeroInt := by decide
    cases replies
    refine Or.inr (Or.inl ?_)
    rw [addUp, List.foldl_nil]
    dsimp only
    rw [zero]
    rfl
  rw [if_neg isWc] at replies ⊢
  by_cases isMax : command = maxCommand
  · rw [if_pos isMax] at replies
    rw [if_pos (Or.inl isMax)]
    exact Or.inr (Or.inr ⟨rfl, countReply_unloaded rfl replies⟩)
  rw [if_neg isMax] at replies
  by_cases isMin : command = minCommand
  · rw [if_pos isMin] at replies
    rw [if_pos (Or.inr isMin)]
    exact Or.inr (Or.inr ⟨rfl, countReply_unloaded rfl replies⟩)
  · rw [if_neg isMin] at replies
    rw [if_neg (not_or.mpr ⟨isMax, isMin⟩)]
    cases replies
    exact Or.inl ⟨rfl, rfl⟩

/-- The reply with a result: its file and its number are sent, and the log has the file
if there is one. -/
def resultReply (logName log buf : List Char) (keyword : CString) (answer : CountResult) :
    WorkerReply where
  sent := [message answer.fileName, intBytes answer.wordFrq]
  log := some (log ++ (buf ++ logName ++ keyword.chars ++
    (if answer.wordFrq = 0 then [] else " : ".toList ++ answer.fileName.chars) ++ ['\n']))

theorem countReply_complete {replaces : Int → Int → Bool} {earlier later : Nat → Nat → Prop}
    {answer : CountResult} (consistent : Consistent (Replaces replaces))
    (complete : Complete files trieRoot) (distinct : (files.map TextFile.fileName).Nodup)
    (logName log : List Char) {keyword : CString}
    (chosen : ChosenFile earlier later files keyword.chars answer)
    (isAnswer : chosenResult (finder replaces (resultsOf files keyword.chars)) = answer) :
    countReply (finder replaces) logName (some log) trieRoot buf (message keyword) =
      .returns (resultReply logName log buf keyword answer) := by
  have nothing : finder replaces (resultsOf files keyword.chars) = [] ↔ answer.wordFrq = 0 := by
    rw [finder_eq_nil_iff consistent, resultsOf_eq_nil_iff, chosen.wordFrq_eq_zero_iff]
  rw [countReply, MessageState.blockString_message, Outcome.returns_bind,
    createCountResults_complete complete distinct]
  simp only [isAnswer, nothing]
  rfl

def maxString : CString :=
  ⟨maxCommand, by decide⟩

def minString : CString :=
  ⟨minCommand, by decide⟩

/-- The calls have counted the texts of each file with an `int`. -/
theorem Indexed.countable (indexed : Indexed files trieRoot) :
    ∀ file ∈ files, file.texts.length < 2 ^ 31 := by
  induction indexed with
  | null => simp
  | call _ called ih =>
      rw [List.forall_mem_append, List.forall_mem_singleton]
      exact ⟨ih, ((createTrieFromTextMap_returnsIff _ _ _ _ _).mp called).1.counters.numberOfTexts⟩

/-- Behind the calls for any files whose first words fit, `max` is answered with the last
of the files in which the most lines have the keyword, and `min` with the first of those
in which the fewest do but some does; without such a file the answer is `nofile`. -/
theorem queries_answered (indexed : Indexed files trieRoot)
    (distinct : (files.map TextFile.fileName).Nodup) (fit : FilesFit [] files)
    (whole : ∀ file ∈ files, file.ReadWhole) (wc : List WcResults) (log buf : List Char)
    {keyword : CString} (short : keyword.chars.length < strSize) :
    (∃ most, ChosenFile (· ≤ ·) (· < ·) files keyword.chars most ∧
      waitForSignal (some log) wc trieRoot buf (message maxString) (message keyword) =
        .returns (resultReply maxLog log buf keyword most)) ∧
    ∃ fewest, ChosenFile (· > ·) (· ≥ ·) files keyword.chars fewest ∧
      waitForSignal (some log) wc trieRoot buf (message minString) (message keyword) =
        .returns (resultReply minLog log buf keyword fewest) := by
  have complete := indexed.complete distinct whole fit
  have countable := indexed.countable
  have most := @finder_chosenFile (fun largest next => largest ≤ next) files (· ≤ ·) (· < ·)
    consistent_le (by simp) (by simp) countable keyword.chars
  have fewest := @finder_chosenFile (fun smallest next => smallest > next) files (· > ·) (· ≥ ·)
    consistent_gt (by simp) (by simp) countable keyword.chars
  have block : (message keyword).take strSize = message keyword := by
    refine List.take_of_length_le ?_
    rw [message, List.length_append]
    exact short
  have isMax : waitForSignal (some log) wc trieRoot buf (message maxString) (message keyword) =
      countReply maxFinder maxLog (some log) trieRoot buf (message keyword) :=
    congrArg (countReply maxFinder maxLog (some log) trieRoot buf) block
  have isMin : waitForSignal (some log) wc trieRoot buf (message minString) (message keyword) =
      countReply minFinder minLog (some log) trieRoot buf (message keyword) :=
    congrArg (countReply minFinder minLog (some log) trieRoot buf) block
  exact ⟨⟨_, most, isMax.trans
      (countReply_complete consistent_le complete distinct maxLog log most rfl)⟩,
    _, fewest, isMin.trans
      (countReply_complete consistent_gt complete distinct minLog log fewest rfl)⟩

/-- The word `xy`, which only the second of the files has. -/
theorem queries_answered_fitting :
    ∃ trieRoot, Indexed fittingFiles trieRoot ∧
      (∃ most, ChosenFile (· ≤ ·) (· < ·) fittingFiles secondText.content.chars most ∧
        waitForSignal (some []) [] trieRoot [] (message maxString)
            (message secondText.content) =
          .returns (resultReply maxLog [] [] secondText.content most)) ∧
      ∃ fewest, ChosenFile (· > ·) (· ≥ ·) fittingFiles secondText.content.chars fewest ∧
        waitForSignal (some []) [] trieRoot [] (message minString)
            (message secondText.content) =
          .returns (resultReply minLog [] [] secondText.content fewest) := by
  obtain ⟨trieRoot, indexed⟩ := @exists_indexed fittingFiles (by decide) (by decide)
  exact ⟨trieRoot, indexed, queries_answered indexed (by decide) (by decide) (by decide)
    [] [] [] (by decide)⟩

end Replies

end WebCrawl
