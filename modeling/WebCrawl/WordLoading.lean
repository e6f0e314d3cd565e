import WebCrawl.TextIndex

/-!
# Loading words into the index

Between two words the pointer is back at the root.  Loading a word from there
amounts to changing the index of the word, with one exception: the first word
of a call does not look at the letter of a root that exists already.
-/

namespace WebCrawl

open SiblingTrie (Link follow rewrite update alter follow_append follow_rewrite
  rewrite_append rewrite_rewrite rewrite_congr)

section Words

variable {change : List PlistNode → List PlistNode}

/-- What the rest of a word does at the node where the word is so far. -/
def resume (change : List PlistNode → List PlistNode) (newContFlag : Nat)
    (rest : List Char) : TrieNode → TrieNode
  | .null => .null
  | .node letter next cont index =>
      if rest = [] then .node letter next cont (change index)
      else .node letter next
        (update change rest (if newContFlag = 1 then .null else cont)) index

/-- The first word of a call. -/
def startWord (change : List PlistNode → List PlistNode) :
    List Char → TrieNode → TrieNode
  | [], trie => trie
  | ch :: rest, .null => update change (ch :: rest) .null
  | _ :: rest, trie => resume change 1 rest trie

theorem resume_contFlag (letter : Char) (next cont : TrieNode)
    (index : List PlistNode) (rest : List Char) :
    resume change (contFlag cont) rest (.node letter next cont index) =
      .node letter next (update change rest cont)
        ((if rest = [] then change else id) index) := by
  by_cases last : rest = []
  · simp [resume, last, update]
  · by_cases none : cont = .null <;> simp [resume, last, contFlag, none]

/-- A new node for the first letter, resumed, holds the word. -/
theorem resume_newTrieNode (ch : Char) (rest : List Char) :
    resume change 1 rest (newTrieNode ch) = update change (ch :: rest) .null := by
  have noCont : contFlag .null = 1 := rfl
  rw [newTrieNode, ← noCont, resume_contFlag]
  rfl

/-- The letter that the first word of a call gets for its first. -/
def rootLetter (ch : Char) : TrieNode → Char
  | .null => ch
  | .node letter _ _ _ => letter

/-- What is left of the trie when the first word of a call is longer than a
letter: nothing below the root. -/
def cutRoot (rest : List Char) : TrieNode → TrieNode
  | .null => .null
  | .node letter next cont index =>
      .node letter next (if rest = [] then cont else .null) index

/-- What the first word of a call is filed as. -/
def filedWord (trie : TrieNode) : List Char → List Char
  | [] => []
  | ch :: rest => rootLetter ch trie :: rest

theorem filedWord_ne_nil {word : List Char} (nonempty : word ≠ []) (trie : TrieNode) :
    filedWord trie word ≠ [] := by
  cases word with
  | nil => exact absurd rfl nonempty
  | cons => exact List.cons_ne_nil _ _

/-- The first word of a call is entered under the letter of the root. -/
theorem startWord_eq (word : List Char) (trie : TrieNode) :
    startWord change word trie =
      update change (filedWord trie word) (cutRoot word.tail trie) := by
  cases word with
  | nil => cases trie <;> rfl
  | cons ch rest =>
      cases trie with
      | null => rfl
      | node letter next cont index =>
          cases rest with
          | nil => simp [startWord, resume, filedWord, rootLetter, cutRoot, update, alter]
          | cons => simp [startWord, resume, filedWord, rootLetter, cutRoot, update, alter]

/-- Seeking a letter in a chain finds or appends its node, and resuming there
changes the word in the chain. -/
theorem seek_spec (ch : Char) {trie : TrieNode} (isNode : trie ≠ .null) :
    ∃ node links next cont index,
      seek ch trie = some (node, links, contFlag cont) ∧
      follow links node = .node ch next cont index ∧
      ∀ change rest, rewrite (resume change (contFlag cont) rest) links node =
        update change (ch :: rest) trie := by
  induction trie with
  | null => exact absurd rfl isNode
  | node letter next cont index ih _ =>
      by_cases same : letter = ch
      · subst letter
        refine ⟨_, [], next, cont, index, by simp [seek], rfl, fun change rest => ?_⟩
        rw [update, alter, if_pos rfl]
        exact resume_contFlag ch next cont index rest
      by_cases last : next = .null
      · subst last
        refine ⟨.node letter (newTrieNode ch) cont index, [.next], .null, .null, [],
          by simp [seek, same, contFlag], rfl, fun change rest => ?_⟩
        rw [update, alter, if_neg same]
        exact congrArg (SiblingTrie.node letter · cont index)
          (resume_newTrieNode ch rest)
      · obtain ⟨node, links, found, foundCont, foundIndex, seeks, points, resumes⟩ :=
          ih last
        refine ⟨.node letter node cont index, .next :: links, found, foundCont,
          foundIndex, by simp [seek, same, last, seeks], points, fun change rest => ?_⟩
        rw [update, alter, if_neg same]
        exact congrArg (SiblingTrie.node letter · cont index) (resumes change rest)

end Words

section Parsing

def parseWord : List Char → Loader → Option Loader
  | [], loader => some loader
  | ch :: rest, loader => (parseLetter ch loader).bind (parseWord rest)

def Loader.between (trieRoot : TrieNode) (counter numberOfWords words totalWords : Int) :
    Loader where
  trieRoot := trieRoot
  curTrieNode := []
  counter := counter
  resultFlag := false
  newContFlag := 0
  numberOfWords := numberOfWords
  words := words
  totalWords := totalWords

variable {textId : Int} {fileName : CString}

theorem parseLetter_create {loader : Loader} (ch : Char)
    (started : loader.counter ≠ 0) (create : loader.newContFlag = 1)
    (isNode : follow loader.curTrieNode loader.trieRoot ≠ .null) :
    ReturnsIff (parseLetter ch loader) (loader.counter + 1 < 2 ^ 31)
      { loader with
        trieRoot := rewrite (setCont (newTrieNode ch)) loader.curTrieNode loader.trieRoot
        curTrieNode := loader.curTrieNode ++ [.cont]
        counter := loader.counter + 1
        resultFlag := true } := by
  have parsed : parseLetter ch loader = (increment loader.counter).map fun counter =>
      { loader with
        trieRoot := rewrite (setCont (newTrieNode ch)) loader.curTrieNode loader.trieRoot
        curTrieNode := loader.curTrieNode ++ [Link.cont]
        counter := counter
        resultFlag := true } := by
    simp [parseLetter, started, create, isNode, Option.map_eq_bind]
  rw [parsed]
  exact (increment_returnsIff loader.counter).map _

theorem parseLetter_seek {loader : Loader} {ch : Char} {node : TrieNode}
    {links below : List Link} {flag : Nat} (started : loader.counter ≠ 0)
    (step : loader.newContFlag = 0 ∧ below = loader.curTrieNode ∨
      loader.newContFlag = 3 ∧ below = loader.curTrieNode ++ [.cont])
    (seeks : seek ch (follow below loader.trieRoot) = some (node, links, flag)) :
    ReturnsIff (parseLetter ch loader) (loader.counter + 1 < 2 ^ 31)
      { loader with
        trieRoot := rewrite (fun _ => node) below loader.trieRoot
        curTrieNode := below ++ links
        counter := loader.counter + 1
        resultFlag := true
        newContFlag := flag } := by
  have parsed : parseLetter ch loader = (increment loader.counter).map fun counter =>
      { loader with
        trieRoot := rewrite (fun _ => node) below loader.trieRoot
        curTrieNode := below ++ links
        counter := counter
        resultFlag := true
        newContFlag := flag } := by
    rcases step with ⟨atRoot, rfl⟩ | ⟨descend, rfl⟩
    · simp [parseLetter, started, atRoot, seeks, Option.map_eq_bind]
    · simp [parseLetter, started, descend, seeks, Option.map_eq_bind]
  rw [parsed]
  exact (increment_returnsIff loader.counter).map _

/-- The loader stands at a node where a word may go on: the flag says where. -/
structure AtNode (loader : Loader) : Prop where
  points : ∃ letter next cont index,
    follow loader.curTrieNode loader.trieRoot = .node letter next cont index ∧
    (loader.newContFlag = 1 ∨ loader.newContFlag = 3 ∧ cont ≠ .null)
  started : 0 < loader.counter

/-- The trie that the loader has after the rest of a word. -/
def Loader.finish (change : List PlistNode → List PlistNode) (rest : List Char)
    (loader : Loader) : TrieNode :=
  rewrite (resume change loader.newContFlag rest) loader.curTrieNode loader.trieRoot

/-- What a letter of a word does besides moving the pointer. -/
structure Advanced (before after : Loader) : Prop where
  atNode : AtNode after
  counter : after.counter = before.counter + 1
  resultFlag : after.resultFlag = true
  numberOfWords : after.numberOfWords = before.numberOfWords
  words : after.words = before.words
  totalWords : after.totalWords = before.totalWords

theorem seek_atNode {loader : Loader} {ch : Char} {below : List Link}
    (started : 0 < loader.counter)
    (step : loader.newContFlag = 0 ∧ below = loader.curTrieNode ∨
      loader.newContFlag = 3 ∧ below = loader.curTrieNode ++ [.cont])
    (isNode : follow below loader.trieRoot ≠ .null) :
    ∃ after, ReturnsIff (parseLetter ch loader) (loader.counter + 1 < 2 ^ 31) after ∧
      Advanced loader after ∧ ∀ change rest, after.finish change rest =
        rewrite (update change (ch :: rest)) below loader.trieRoot := by
  obtain ⟨node, links, next, cont, index, seeks, found, resumes⟩ := seek_spec ch isNode
  refine ⟨_, parseLetter_seek (Int.ne_of_gt started) step seeks,
    ⟨⟨⟨ch, next, cont, index, ?_, ?_⟩, ?_⟩, rfl, rfl, rfl, rfl, rfl⟩, ?_⟩
  · dsimp only
    rw [follow_append, follow_rewrite rfl isNode, found]
  · by_cases last : cont = .null
    · exact Or.inl (if_pos last)
    · exact Or.inr ⟨if_neg last, last⟩
  · dsimp only
    omega
  · intro change rest
    rw [Loader.finish, rewrite_append, rewrite_rewrite]
    exact rewrite_congr (resumes change rest)

/-- One more letter moves the loader to the node of the longer word. -/
theorem parseLetter_atNode {loader : Loader} (atNode : AtNode loader) (ch : Char) :
    ∃ after, ReturnsIff (parseLetter ch loader) (loader.counter + 1 < 2 ^ 31) after ∧
      Advanced loader after ∧
      ∀ change rest, after.finish change rest = loader.finish change (ch :: rest) := by
  obtain ⟨⟨letter, next, cont, index, points, flag⟩, started⟩ := atNode
  rcases flag with create | ⟨descend, continued⟩
  · have isNode : follow loader.curTrieNode loader.trieRoot ≠ .null := by
      simp [points]
    refine ⟨_, parseLetter_create ch (Int.ne_of_gt started) create isNode,
      ⟨⟨⟨ch, .null, .null, [], ?_, Or.inl create⟩, ?_⟩, rfl, rfl, rfl, rfl, rfl⟩, ?_⟩
    · dsimp only
      rw [follow_append, follow_rewrite rfl isNode, points]
      rfl
    · dsimp only
      omega
    · intro change rest
      rw [Loader.finish, rewrite_append, rewrite_rewrite]
      apply rewrite_congr
      rw [points, create]
      exact congrArg (SiblingTrie.node letter next · index)
        (resume_newTrieNode ch rest)
  · have below : follow (loader.curTrieNode ++ [.cont]) loader.trieRoot = cont := by
      rw [follow_append, points]
      rfl
    obtain ⟨after, parsed, advanced, finishes⟩ := @seek_atNode loader ch _ started
      (Or.inr ⟨descend, rfl⟩) (by rw [below]; exact continued)
    refine ⟨after, parsed, advanced, fun change rest => ?_⟩
    rw [finishes, rewrite_append, Loader.finish]
    apply rewrite_congr
    rw [points, descend]
    rfl

/-- Where every change of the index at the pointer is a change of the index of a word,
the pointer points to the index of this word. -/
theorem find_of_finish {loader : Loader} {letter : Char} {next cont trie : TrieNode}
    {index : List PlistNode} {word : List Char} (nonempty : word ≠ [])
    (points : follow loader.curTrieNode loader.trieRoot = .node letter next cont index)
    (finishes : ∀ change, loader.finish change [] = update change word trie) :
    trie.find word = index := by
  -- A change that leaves a mark at the index of the pointer, and nowhere else.
  let node : PlistNode := newPlistNode 0 ⟨[], List.not_mem_nil⟩
  let mark : List PlistNode → List PlistNode :=
    fun found => if found = index then [node] else []
  have same : loader.finish mark [] = loader.finish (fun _ => [node]) [] :=
    rewrite_congr (by simp [points, resume, mark])
  have marked := congrArg (SiblingTrie.find · word) same
  simp only [finishes, SiblingTrie.find_update_same nonempty] at marked
  by_contra other
  simp [mark, other] at marked

/-- The counters of the words and of one index can count one more. -/
structure WordCounts (textId : Int) (fileName : CString) (numberOfWords words : Int)
    (index : List PlistNode) : Prop where
  numberOfWords : numberOfWords + 1 < 2 ^ 31
  frequency : textFrq textId fileName index + 1 < 2 ^ 31
  words : words + 1 < 2 ^ 31

theorem endWord_returnsIff {loader : Loader} {letter : Char} {next cont : TrieNode}
    {index : List PlistNode}
    (points : follow loader.curTrieNode loader.trieRoot = .node letter next cont index) :
    ReturnsIff (endWord textId fileName loader)
      (WordCounts textId fileName loader.numberOfWords loader.words index)
      (.between (loader.finish (countOccurrence textId fileName) []) loader.counter
        (loader.numberOfWords + 1) (loader.words + 1) loader.totalWords) := by
  have changed : loader.finish (countOccurrence textId fileName) [] =
      rewrite (changeIndex fun _ => countOccurrence textId fileName index)
        loader.curTrieNode loader.trieRoot :=
    rewrite_congr (by rw [points]; rfl)
  have ended : endWord textId fileName loader =
      (increment loader.numberOfWords).bind fun numberOfWords =>
        (addOccurrence textId fileName index).bind fun index =>
          (increment loader.words).map fun words =>
            .between (rewrite (changeIndex fun _ => index) loader.curTrieNode loader.trieRoot)
              loader.counter numberOfWords words loader.totalWords := by
    simp only [Option.map_eq_bind]
    simp [endWord, points, Loader.between, Function.comp_def]
  rw [ended, changed]
  refine ((increment_returnsIff _).bind fun _ =>
    (addOccurrence_returnsIff textId fileName index).bind fun _ =>
      (increment_returnsIff _).map _).of_iff ?_
  exact ⟨fun ⟨numberOfWords, frequency, words⟩ => ⟨numberOfWords, frequency, words⟩,
    fun ⟨numberOfWords, frequency, words⟩ => ⟨numberOfWords, frequency, words⟩⟩

/-- What reading a word does from a place on where it is filed in a trie. -/
def ReadsWord (textId : Int) (fileName : CString) (letters filed : List Char)
    (trie : TrieNode) (loader : Loader) : Prop :=
  ReturnsIff ((parseWord letters loader).bind (endWord textId fileName))
    (CountsOn loader.counter letters.length ∧
      WordCounts textId fileName loader.numberOfWords loader.words (trie.find filed))
    (.between (update (countOccurrence textId fileName) filed trie)
      (loader.counter + letters.length) (loader.numberOfWords + 1) (loader.words + 1)
      loader.totalWords)

theorem ReadsWord.cons {loader after : Loader} {ch : Char} {rest filed : List Char}
    {trie : TrieNode}
    (parsed : ReturnsIff (parseLetter ch loader) (loader.counter + 1 < 2 ^ 31) after)
    (advanced : Advanced loader after) (reads : ReadsWord textId fileName rest filed trie after) :
    ReadsWord textId fileName (ch :: rest) filed trie loader := by
  have counter : loader.counter + 1 + rest.length = loader.counter + (ch :: rest).length := by
    rw [List.length_cons]
    omega
  rw [ReadsWord, advanced.counter, advanced.numberOfWords, advanced.words,
    advanced.totalWords, counter] at reads
  rw [ReadsWord, parseWord, Option.bind_assoc]
  refine (parsed.bind fun _ => reads).of_iff ?_
  rw [← countsOn_one, ← and_assoc, List.length_cons, Nat.add_comm rest.length, countsOn_add]
  rfl

theorem parseWord_atNode {loader : Loader} (atNode : AtNode loader) (rest : List Char)
    {trie : TrieNode} {word : List Char} (nonempty : word ≠ [])
    (finishes : ∀ change, loader.finish change rest = update change word trie) :
    ReadsWord textId fileName rest word trie loader := by
  induction rest generalizing loader with
  | nil =>
      obtain ⟨letter, next, cont, index, points, _⟩ := atNode.points
      rw [ReadsWord, ← finishes, find_of_finish nonempty points finishes]
      simpa [parseWord, CountsOn] using @endWord_returnsIff textId fileName _ _ _ _ _ points
  | cons ch rest ih =>
      obtain ⟨after, parsed, advanced, later⟩ := parseLetter_atNode atNode ch
      exact .cons parsed advanced
        (ih advanced.atNode fun change => (later change rest).trans (finishes change))

/-- The loader is between two words, and has a root unless it read no letter. -/
structure AtRoot (loader : Loader) : Prop where
  between : loader = .between loader.trieRoot loader.counter loader.numberOfWords
    loader.words loader.totalWords
  counted : 0 ≤ loader.counter
  isNode : loader.counter ≠ 0 → loader.trieRoot ≠ .null

/-- What a word between two others is filed as. -/
def Loader.filed (loader : Loader) (word : List Char) : List Char :=
  if loader.counter = 0 then filedWord loader.trieRoot word else word

/-- What is left of the trie before the word is filed. -/
def Loader.ground (loader : Loader) (word : List Char) : TrieNode :=
  if loader.counter = 0 then cutRoot word.tail loader.trieRoot else loader.trieRoot

/-- A whole word between two others. -/
def Loader.enter (textId : Int) (fileName : CString) (loader : Loader)
    (word : List Char) : Loader :=
  .between
    (update (countOccurrence textId fileName) (loader.filed word) (loader.ground word))
    (loader.counter + word.length) (loader.numberOfWords + 1) (loader.words + 1)
    loader.totalWords

/-- No counter overflows when a word is entered. -/
def Loader.Counts (textId : Int) (fileName : CString) (loader : Loader)
    (word : List Char) : Prop :=
  CountsOn loader.counter word.length ∧
    WordCounts textId fileName loader.numberOfWords loader.words
      ((loader.ground word).find (loader.filed word))

theorem filed_ne_nil {word : List Char} (nonempty : word ≠ []) (loader : Loader) :
    loader.filed word ≠ [] := by
  rw [Loader.filed]
  split
  · exact filedWord_ne_nil nonempty loader.trieRoot
  · exact nonempty

theorem enter_atRoot {loader : Loader} (atRoot : AtRoot loader) {word : List Char}
    (nonempty : word ≠ []) : AtRoot (loader.enter textId fileName word) where
  between := rfl
  counted := Int.add_nonneg atRoot.counted (Int.natCast_nonneg word.length)
  isNode _ := SiblingTrie.update_ne_null (filed_ne_nil nonempty loader) _

/-- The first letter of a call goes to the root, whatever its letter is. -/
theorem parseLetter_start {loader : Loader} (ch : Char) (start : loader.counter = 0) :
    ∃ after, ReturnsIff (parseLetter ch loader) (loader.counter + 1 < 2 ^ 31) after ∧
      Advanced loader after ∧ ∀ change rest, after.finish change rest =
        startWord change (ch :: rest) loader.trieRoot := by
  have parsed : parseLetter ch loader = (increment loader.counter).map fun counter =>
      { loader with
        trieRoot := if loader.trieRoot = .null then newTrieNode ch else loader.trieRoot
        curTrieNode := []
        counter := counter
        resultFlag := true
        newContFlag := 1 } := by
    simp [parseLetter, start, Option.map_eq_bind]
  rw [parsed]
  refine ⟨_, (increment_returnsIff loader.counter).map _,
    ⟨⟨?_, ?_⟩, rfl, rfl, rfl, rfl, rfl⟩, ?_⟩
  · cases root : loader.trieRoot with
    | null => exact ⟨ch, .null, .null, [], rfl, Or.inl rfl⟩
    | node letter next cont index =>
        exact ⟨letter, next, cont, index, by simp [follow], Or.inl rfl⟩
  · dsimp only
    omega
  · intro change rest
    cases root : loader.trieRoot with
    | null => exact resume_newTrieNode ch rest
    | node => simp [Loader.finish, rewrite, startWord]

/-- Reading a word between two others enters it. -/
theorem parseWord_atRoot {loader : Loader} (atRoot : AtRoot loader) {word : List Char}
    (nonempty : word ≠ []) :
    ReturnsIff ((parseWord word loader).bind (endWord textId fileName))
      (loader.Counts textId fileName word) (loader.enter textId fileName word) := by
  obtain ⟨ch, rest, rfl⟩ := List.exists_cons_of_ne_nil nonempty
  have filedNonempty := filed_ne_nil nonempty loader
  by_cases start : loader.counter = 0
  · obtain ⟨after, parsed, advanced, finishes⟩ := parseLetter_start ch start
    refine ReadsWord.cons parsed advanced
      (parseWord_atNode advanced.atNode rest filedNonempty fun change => ?_)
    rw [finishes, startWord_eq, Loader.filed, Loader.ground, if_pos start, if_pos start]
  · have root : loader.curTrieNode = [] := by rw [atRoot.between]; rfl
    have flag : loader.newContFlag = 0 := by rw [atRoot.between]; rfl
    have started : 0 < loader.counter := lt_of_le_of_ne atRoot.counted (Ne.symm start)
    obtain ⟨after, parsed, advanced, finishes⟩ := @seek_atNode loader ch [] started
      (Or.inl ⟨flag, root.symm⟩) (atRoot.isNode start)
    refine ReadsWord.cons parsed advanced
      (parseWord_atNode advanced.atNode rest filedNonempty fun change => ?_)
    rw [finishes, Loader.filed, Loader.ground, if_neg start, if_neg start]
    rfl

end Parsing

end WebCrawl
