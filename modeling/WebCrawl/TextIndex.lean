import WebCrawl.PostingList
import WebCrawl.SiblingTrie

/-!
# Indexing the texts of a file

`createTrieFromTextMap` reads the texts character by character.  It moves a
pointer through the trie and remembers in `newContFlag` whether the next letter
of the word goes below the current node: 1 asks for a new node there, 3 for a
step down, and 0 starts at the root.  Pointers are links from the root.  A step is
`none` when it dereferences `NULL` or when one of its counters, which are `int`s,
overflows.  The length of a text is an `int` too: of a text that is too long for
one, only a part is read, or nothing.
-/

namespace WebCrawl

open SiblingTrie (Link follow rewrite update)

abbrev TrieNode := SiblingTrie Char PlistNode

/-- A line of a file, without its number. -/
structure Text where
  content : CString
  numberOfWords : Int
  deriving DecidableEq

/-- A text of which no word is counted yet. -/
def newText (content : CString) : Text where
  content := content
  numberOfWords := 0

/-- `textLength`, which bounds the loop over a text. -/
def Text.textLength (text : Text) : Int :=
  toInt text.content.chars.length

/-- The characters that the loop over a text reads. -/
def Text.read (text : Text) : List Char :=
  text.content.chars.take text.textLength.toNat

def Text.unread (text : Text) : List Char :=
  text.content.chars.drop text.textLength.toNat

def newTrieNode (c : Char) : TrieNode :=
  .node c .null .null []

/-- The variables of `createTrieFromTextMap`. -/
structure Loader where
  trieRoot : TrieNode
  curTrieNode : List Link
  counter : Int
  resultFlag : Bool
  newContFlag : Nat
  numberOfWords : Int
  words : Int
  totalWords : Int

/-- The flag after a letter was found: whether its node has a continuation. -/
def contFlag (cont : TrieNode) : Nat :=
  if cont = .null then 1 else 3

/-- The search for a letter from a node on through its siblings, which gives
the changed node, the links to the letter and the flag. -/
def seek (ch : Char) : TrieNode → Option (TrieNode × List Link × Nat)
  | .null => none
  | .node letter next cont index =>
      if letter = ch then some (.node letter next cont index, [], contFlag cont)
      else if next = .null then
        some (.node letter (newTrieNode ch) cont index, [.next], 1)
      else do
        let (next, links, flag) ← seek ch next
        return (.node letter next cont index, .next :: links, flag)

def setCont (newCont : TrieNode) : TrieNode → TrieNode
  | .null => .null
  | .node letter next _ index => .node letter next newCont index

def changeIndex (change : List PlistNode → List PlistNode) : TrieNode → TrieNode
  | .null => .null
  | .node letter next cont index => .node letter next cont (change index)

/-- The branches for a character of a word, each of which counts the character. -/
def parseLetter (ch : Char) (loader : Loader) : Option Loader := do
  let counter ← increment loader.counter
  if loader.counter = 0 then
    return { loader with
      trieRoot := if loader.trieRoot = .null then newTrieNode ch else loader.trieRoot
      curTrieNode := []
      counter := counter
      resultFlag := true
      newContFlag := 1 }
  else
    let curTrieNode :=
      if loader.newContFlag = 3 then loader.curTrieNode ++ [.cont]
      else loader.curTrieNode
    if loader.newContFlag = 1 then
      if follow curTrieNode loader.trieRoot = .null then none
      else return { loader with
        trieRoot := rewrite (setCont (newTrieNode ch)) curTrieNode loader.trieRoot
        curTrieNode := curTrieNode ++ [.cont]
        counter := counter
        resultFlag := true }
    else
      let (node, links, flag) ← seek ch (follow curTrieNode loader.trieRoot)
      return { loader with
        trieRoot := rewrite (fun _ => node) curTrieNode loader.trieRoot
        curTrieNode := curTrieNode ++ links
        counter := counter
        resultFlag := true
        newContFlag := flag }

/-- What follows the parsing of a word. -/
def endWord (textId : Int) (fileName : CString) (loader : Loader) : Option Loader := do
  let numberOfWords ← increment loader.numberOfWords
  let .node _ _ _ index := follow loader.curTrieNode loader.trieRoot | none
  let index ← addOccurrence textId fileName index
  let words ← increment loader.words
  return { loader with
    trieRoot := rewrite (changeIndex fun _ => index) loader.curTrieNode loader.trieRoot
    curTrieNode := []
    resultFlag := false
    newContFlag := 0
    numberOfWords := numberOfWords
    words := words }

/-- The loop over the characters of a text. -/
def loadText (textId : Int) (fileName : CString) : List Char → Loader → Option Loader
  | [], loader => some loader
  | ch :: rest, loader => do
      let loader ←
        if isBlank ch then
          if loader.resultFlag then endWord textId fileName loader else some loader
        else parseLetter ch loader
      let loader ←
        if rest = [] ∧ loader.resultFlag then endWord textId fileName loader
        else some loader
      loadText textId fileName rest loader

/-- The loop over the texts. -/
def loadTexts (fileName : CString) : Nat → List Text → Loader →
    Option (Loader × List Text)
  | _, [], loader => some (loader, [])
  | textId, curText :: texts, loader => do
      let loader ← loadText textId fileName curText.read
        { loader with numberOfWords := curText.numberOfWords }
      let totalWords ← addInt loader.totalWords loader.numberOfWords
      let (last, texts) ← loadTexts fileName (textId + 1) texts
        { loader with totalWords := totalWords }
      return (last, { curText with numberOfWords := loader.numberOfWords } :: texts)

/-- What `createTrieFromTextMap` returns and leaves behind. -/
structure Loaded where
  trieRoot : TrieNode
  texts : List Text
  words : Int
  deriving DecidableEq

/-- The number of the texts is passed as an `int`, which also bounds their numbers. -/
def createTrieFromTextMap (texts : List Text) (fileName : CString)
    (trieRoot : TrieNode) (words : Int) : Option Loaded :=
  if texts.length < 2 ^ 31 then do
    let (loader, texts) ← loadTexts fileName 0 texts
      { trieRoot := trieRoot
        curTrieNode := []
        counter := 0
        resultFlag := false
        newContFlag := 0
        numberOfWords := 0
        words := words
        totalWords := 0 }
    return ⟨loader.trieRoot, texts, loader.words⟩
  else none

def searchWordInTrie : TrieNode → List Char → List PlistNode
  | .null, _ | _, [] => []
  | .node letter next cont index, first :: rest =>
      if letter = first then
        if rest = [] then index else searchWordInTrie cont rest
      else if next = .null then []
      else searchWordInTrie next (first :: rest)

theorem searchWordInTrie_eq_find (root : TrieNode) (word : List Char) :
    searchWordInTrie root word = root.find word := by
  induction root generalizing word with
  | null => cases word <;> rfl
  | node letter next cont index ih contIH =>
      cases word with
      | nil => rfl
      | cons first rest =>
          by_cases last : next = .null
          · simp [searchWordInTrie, SiblingTrie.find, contIH, last]
          · simp [searchWordInTrie, SiblingTrie.find, contIH, ih, last]

end WebCrawl
