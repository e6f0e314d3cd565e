import Mathlib.Logic.Relation

/-!
# Exploring a graph in pieces

A search of a graph keeps the nodes that it has discovered but not taken yet,
the nodes that it has taken, and the links of taken nodes that it has not
followed yet.  `Covers` is the invariant of every such search, in whatever
order and by however many parties the links are followed: taking a node makes
its links pending, and a pending link may be dropped only when its target is
discovered.  A search with nothing left to do has taken exactly the reachable
nodes.
-/

namespace Exploration

variable {Node : Type*}

structure Covers (links : Node → Node → Prop) (start : Node)
    (waiting taken : Node → Prop) (pending : Node → Node → Prop) : Prop where
  root : waiting start ∨ taken start
  reachable : ∀ node, waiting node ∨ taken node →
    Relation.ReflTransGen links start node
  isLink : ∀ node target, pending node target → taken node ∧ links node target
  covered : ∀ node target, taken node → links node target →
    pending node target ∨ waiting target ∨ taken target

namespace Covers

variable {links : Node → Node → Prop} {start : Node}
variable {waiting taken : Node → Prop} {pending : Node → Node → Prop}
variable {waitingAfter takenAfter : Node → Prop} {pendingAfter : Node → Node → Prop}

theorem initial (noPending : ∀ node target, ¬ pending node target) :
    Covers links start (· = start) (fun _ => False) pending where
  root := Or.inl rfl
  reachable := by
    rintro node (rfl | taken)
    · exact Relation.ReflTransGen.refl
    · exact taken.elim
  isLink node target isPending := absurd isPending (noPending node target)
  covered _ _ taken := taken.elim

/-- A discovered node is taken, and all its links become pending. -/
theorem take (covers : Covers links start waiting taken pending) {node : Node}
    (wasWaiting : waiting node)
    (discovered : ∀ other, waitingAfter other ∨ takenAfter other ↔
      waiting other ∨ taken other)
    (takes : ∀ other, takenAfter other ↔ other = node ∨ taken other)
    (opens : ∀ other target, pendingAfter other target ↔
      other = node ∧ links node target ∨ pending other target) :
    Covers links start waitingAfter takenAfter pendingAfter where
  root := (discovered start).mpr covers.root
  reachable other isDiscovered :=
    covers.reachable other ((discovered other).mp isDiscovered)
  isLink other target isPending := by
    rcases (opens other target).mp isPending with ⟨rfl, link⟩ | old
    · exact ⟨(takes _).mpr (Or.inl rfl), link⟩
    · have oldLink := covers.isLink other target old
      exact ⟨(takes other).mpr (Or.inr oldLink.1), oldLink.2⟩
  covered other target isTaken link := by
    rcases (takes other).mp isTaken with rfl | old
    · exact Or.inl ((opens _ target).mpr (Or.inl ⟨rfl, link⟩))
    · rcases covers.covered other target old link with isPending | known
      · exact Or.inl ((opens other target).mpr (Or.inr isPending))
      · exact Or.inr ((discovered target).mpr known)

/-- Pending links are followed: their targets may become discovered, and a link
stops being pending only when its target is. -/
theorem follow (covers : Covers links start waiting taken pending)
    (keeps : ∀ node, waiting node → waitingAfter node)
    (discovers : ∀ target, waitingAfter target →
      waiting target ∨ ∃ node, pending node target)
    (narrows : ∀ node target, pendingAfter node target → pending node target)
    (closes : ∀ node target, pending node target →
      pendingAfter node target ∨ waitingAfter target ∨ taken target) :
    Covers links start waitingAfter taken pendingAfter where
  root := covers.root.imp_left (keeps start)
  reachable := by
    rintro target (isWaiting | isTaken)
    · rcases discovers target isWaiting with old | ⟨node, isPending⟩
      · exact covers.reachable target (Or.inl old)
      · have isLink := covers.isLink node target isPending
        exact (covers.reachable node (Or.inr isLink.1)).tail isLink.2
    · exact covers.reachable target (Or.inr isTaken)
  isLink node target isPending :=
    covers.isLink node target (narrows node target isPending)
  covered node target isTaken link := by
    rcases covers.covered node target isTaken link with isPending | known
    · exact closes node target isPending
    · exact Or.inr (known.imp_left (keeps target))

theorem taken_iff (covers : Covers links start waiting taken pending)
    (noneWaiting : ∀ node, ¬ waiting node)
    (nonePending : ∀ node target, ¬ pending node target) (node : Node) :
    taken node ↔ Relation.ReflTransGen links start node := by
  constructor
  · intro isTaken
    exact covers.reachable node (Or.inr isTaken)
  · intro path
    induction path with
    | refl => exact covers.root.resolve_left (noneWaiting start)
    | @tail node target _ link ih =>
        rcases covers.covered node target ih link with isPending | known
        · exact absurd isPending (nonePending node target)
        · exact known.resolve_left (noneWaiting target)

end Covers

end Exploration
