import WebCrawl.CString
import WebCrawl.RingBuffer

/-!
# The socket queue of the server

The queue of accepted sockets, `queue.c`.  Its indices and counters are C
`int`s; `%` is the truncated remainder and traps on a zero size, and a store
or a load outside the block that `malloc` returned is undefined.  Operations
that can do one of these return `none` there.  A cell that was never written
holds an indeterminate value, modelled by `none` inside the cell.
-/

namespace WebCrawl

/-- `typedef int QueueType`. -/
abbrev QueueType := Int

/-- An object of type `QueueType`, `none` while its value is indeterminate. -/
abbrev Cell := Option QueueType

structure Queue where
  embros : Int
  piso : Int
  size : Int
  pagesServed : Int
  bytesReturned : Int
  buffer : List Cell
  deriving DecidableEq, Repr

namespace Queue

/-- `Queue_create`.  For a negative size the request to `malloc` wraps to more
than any address space holds, so the block has no cell. -/
def create (size : Int) : Queue where
  embros := 0
  piso := 0
  size := size
  pagesServed := 0
  bytesReturned := 0
  buffer := List.replicate size.toNat none

def serve (oura : Queue) : Queue :=
  { oura with pagesServed := toInt (oura.pagesServed + 1) }

def getPages (oura : Queue) : Int :=
  oura.pagesServed

/-- `Queue_bytes`; the argument is narrowed to an `int` by the call. -/
def bytes (oura : Queue) (bytes : Int) : Queue :=
  { oura with bytesReturned := toInt (oura.bytesReturned + toInt bytes) }

def getBytes (oura : Queue) : Int :=
  oura.bytesReturned

/-- The index after `index`, undefined when the size is zero. -/
def next (oura : Queue) (index : Int) : Option Int :=
  if oura.size = 0 then none else some ((index + 1).tmod oura.size)

def empty (oura : Queue) : Bool :=
  oura.embros = oura.piso

def full (oura : Queue) : Option Bool := do
  let neoPiso ← oura.next oura.piso
  return neoPiso = oura.embros

def push (oura : Queue) (element : Cell) : Option (Bool × Queue) := do
  if ← oura.full then
    return (false, oura)
  else if 0 ≤ oura.piso ∧ oura.piso < oura.buffer.length then
    let piso ← oura.next oura.piso
    return (true, { oura with
      buffer := oura.buffer.set oura.piso.toNat element, piso := piso })
  else
    none

/-- `Queue_pop`; `element` is the value of the caller's variable before the
call, and the second component its value afterwards. -/
def pop (oura : Queue) (element : Cell) : Option (Bool × Cell × Queue) := do
  if oura.empty then
    return (false, element, oura)
  else if 0 ≤ oura.embros ∧ oura.embros < oura.buffer.length then
    let embros ← oura.next oura.embros
    return (true, (oura.buffer[oura.embros.toNat]?).join,
      { oura with embros := embros })
  else
    none

end Queue

end WebCrawl
