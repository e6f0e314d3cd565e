import WebCrawl.LabelledRun
import WebCrawl.LinkExtraction
import WebCrawl.Monitor

/-!
# The threads of the crawler

The threads running `threadFun` move pages from `pagesToAdd` to `pagesAdded`,
fetch them and add the links that they contain.  Every access to the two lists
and to `workers` is inside a critical section of `listToAddLock`, so one step
is one such section or one action of a thread between two of them, and a run is
an arbitrary interleaving.  What the server answers is a parameter.  A call of
`exit` or an undefined access ends the run.
-/

namespace WebCrawl

/-- What `readAnswerFromServer` decodes from an answer: the status code and the
content, as the string that the content buffer holds. -/
structure Answer where
  code : Int
  content : CString
  deriving DecidableEq

/-- The program points of `threadFun`, of `get` and of the loop of
`contentProcessing`.  A thread that `pthread_cond_wait` wakes repeats the test
of its loop, so it stands at the top again. -/
inductive CrawlPoint where
  | atTop
  | asleep
  | getting (page : CString)
  | processing (page : CString) (scan : LinkScan)
  | finished (page : CString)
  deriving DecidableEq

/-- The page that a thread has taken and not yet signed off. -/
def CrawlPoint.page : CrawlPoint → Option CString
  | .getting page | .processing page _ | .finished page => some page
  | .atTop | .asleep => none

/-- The thread has incremented `workers` and not yet decremented it. -/
def CrawlPoint.working (point : CrawlPoint) : Bool :=
  point.page.isSome

@[ext]
structure CrawlState (threads : Nat) where
  pagesToAdd : PageList
  pagesAdded : PageList
  workers : Int
  ready : Bool
  point : Fin threads → CrawlPoint

/-- What a step shows to the outside: a page on which `get` is called, a link
that `list_add` accepts, a page signed off, and the outcome of the test that
the main thread makes for SEARCH. -/
inductive CrawlEvent (threads : Nat) where
  | get (thread : Fin threads) (page : CString)
  | add (thread : Fin threads) (link : CString)
  | signOff (thread : Fin threads) (page : CString)
  | search (ready : Bool)
  | internal
  deriving DecidableEq

namespace CrawlState

variable {threads : Nat}

/-- The crawler after `main` has created its threads. -/
def initial (threads : Nat) (startingURL : CString) : CrawlState threads where
  pagesToAdd := listAdd [] startingURL
  pagesAdded := []
  workers := 0
  ready := false
  point := fun _ => .atTop

def setPoint (state : CrawlState threads) (thread : Fin threads)
    (point : CrawlPoint) : CrawlState threads :=
  { state with point := Function.update state.point thread point }

section Projections

variable (state : CrawlState threads) (thread : Fin threads) (point : CrawlPoint)

@[simp]
theorem setPoint_pagesToAdd :
    (state.setPoint thread point).pagesToAdd = state.pagesToAdd :=
  rfl

@[simp]
theorem setPoint_pagesAdded :
    (state.setPoint thread point).pagesAdded = state.pagesAdded :=
  rfl

@[simp]
theorem setPoint_workers : (state.setPoint thread point).workers = state.workers :=
  rfl

@[simp]
theorem setPoint_point :
    (state.setPoint thread point).point =
      Function.update state.point thread point :=
  rfl

end Projections

/-- The test of `main` for a SEARCH command, made under `listToAddLock`. -/
def crawlingFinished (state : CrawlState threads) : Bool :=
  state.workers = 0 && listEmpty state.pagesToAdd

/-- One critical section, or one action between two of them. -/
inductive Step (serves : CString → Answer → Prop) :
    CrawlState threads → CrawlEvent threads → CrawlState threads → Prop
  | sleep {state : CrawlState threads} {thread : Fin threads} :
      state.point thread = .atTop → listEmpty state.pagesToAdd = true →
      Step serves state .internal (state.setPoint thread .asleep)
  | wake {state : CrawlState threads} {thread : Fin threads} :
      state.point thread = .asleep →
      Step serves state .internal (state.setPoint thread .atTop)
  | take {state : CrawlState threads} {thread : Fin threads} {page : CString}
      {rest : PageList} :
      state.point thread = .atTop → listEmpty state.pagesToAdd = false →
      listRem state.pagesToAdd = some (page, rest) →
      Step serves state (.get thread page)
        { state.setPoint thread (.getting page) with
          pagesToAdd := rest
          pagesAdded := listAdd state.pagesAdded page
          workers := state.workers + 1 }
  | receive {state : CrawlState threads} {thread : Fin threads}
      {page : CString} {answer : Answer} :
      state.point thread = .getting page → serves page answer →
      answer.code = 200 →
      Step serves state .internal
        (state.setPoint thread (.processing page (.start answer.content)))
  | refuse {state : CrawlState threads} {thread : Fin threads}
      {page : CString} {answer : Answer} :
      state.point thread = .getting page → serves page answer →
      answer.code = 404 ∨ answer.code = 403 →
      Step serves state .internal (state.setPoint thread (.finished page))
  | skip {state : CrawlState threads} {thread : Fin threads} {page : CString}
      {scan after : LinkScan} :
      state.point thread = .processing page scan →
      scan.line = .returns (.skipped after) →
      Step serves state .internal
        (state.setPoint thread (.processing page after))
  | known {state : CrawlState threads} {thread : Fin threads}
      {page link : CString} {scan after : LinkScan} :
      state.point thread = .processing page scan →
      scan.line = .returns (.extracted link after) →
      (listCheck state.pagesAdded link || listCheck state.pagesToAdd link) =
        true →
      Step serves state .internal
        (state.setPoint thread (.processing page after))
  | add {state : CrawlState threads} {thread : Fin threads}
      {page link : CString} {scan after : LinkScan}
      {point : Fin threads → CrawlPoint} :
      state.point thread = .processing page scan →
      scan.line = .returns (.extracted link after) →
      (listCheck state.pagesAdded link || listCheck state.pagesToAdd link) =
        false →
      Monitor.Signal (· = CrawlPoint.asleep) (fun _ => .atTop)
        (state.setPoint thread (.processing page after)).point point →
      Step serves state (.add thread link)
        { state with
          pagesToAdd := listAdd state.pagesToAdd link
          point := point }
  | leave {state : CrawlState threads} {thread : Fin threads}
      {page : CString} {scan : LinkScan} :
      state.point thread = .processing page scan →
      scan.line = .returns .finished →
      Step serves state .internal (state.setPoint thread (.finished page))
  | signOff {state : CrawlState threads} {thread : Fin threads}
      {page : CString} :
      state.point thread = .finished page →
      Step serves state (.signOff thread page)
        { state.setPoint thread .atTop with workers := state.workers - 1 }
  | search {state : CrawlState threads} :
      Step serves state (.search (state.ready || state.crawlingFinished))
        { state with ready := state.ready || state.crawlingFinished }

abbrev Run (serves : CString → Answer → Prop) (startingURL : CString) :=
  LabelledRun.Run (Step serves) (initial threads startingURL)

end CrawlState

end WebCrawl
