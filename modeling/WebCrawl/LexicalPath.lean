import Mathlib.Data.List.TakeWhile
import Mathlib.Tactic.Common

/-!
# Lexical resolution of paths

The components of a path lead up and down a tree of directories.  Where they
lead, without a look at any file system, is a place: so many levels up from the
start, and then down along some names.  A place that two paths share as their
start cancels out when one is asked to lie inside the other, which leaves a
condition on what the paths do after it.
-/

namespace LexicalPath

variable {Name : Type*}

inductive Component (Name : Type*) where
  | parent
  | name (name : Name)
  deriving DecidableEq, Repr

/-- A place relative to a start: levels up, then names down, the last one first. -/
@[ext]
structure Place (Name : Type*) where
  parents : Nat
  names : List Name
  deriving DecidableEq, Repr

namespace Place

def here : Place Name :=
  ⟨0, []⟩

/-- Above the root, where absolute paths start, there is only the root. -/
def step (absolute : Bool) (place : Place Name) : Component Name → Place Name
  | .name name => ⟨place.parents, name :: place.names⟩
  | .parent =>
      match place.names with
      | _ :: names => ⟨place.parents, names⟩
      | [] => ⟨if absolute then place.parents else place.parents + 1, []⟩

def walk (absolute : Bool) (place : Place Name) (path : List (Component Name)) :
    Place Name :=
  path.foldl (step absolute) place

/-- The place itself or one below it. -/
def Inside (place root : Place Name) : Prop :=
  place.parents = root.parents ∧ root.names <:+ place.names

/-- Where a relative place lies as seen from another one. -/
def join (absolute : Bool) (place relative : Place Name) : Place Name where
  parents :=
    if absolute then place.parents
    else place.parents + (relative.parents - place.names.length)
  names := relative.names ++ place.names.drop relative.parents

variable {absolute : Bool} {place : Place Name}

@[simp]
theorem walk_nil : walk absolute place [] = place :=
  rfl

@[simp]
theorem walk_cons (component : Component Name) (path : List (Component Name)) :
    walk absolute place (component :: path) =
      walk absolute (step absolute place component) path :=
  rfl

theorem walk_append (path more : List (Component Name)) :
    walk absolute place (path ++ more) = walk absolute (walk absolute place path) more :=
  List.foldl_append

@[simp]
theorem join_here : join absolute place here = place := by
  ext <;> simp [join, here]

theorem step_join (relative : Place Name) (component : Component Name) :
    step absolute (join absolute place relative) component =
      join absolute place (step false relative component) := by
  obtain ⟨parents, names⟩ := relative
  cases component with
  | name name => rfl
  | parent =>
      cases names with
      | cons name names => rfl
      | nil =>
          rcases Nat.lt_or_ge parents place.names.length with below | above
          · have left : place.names.drop parents =
                place.names[parents] :: place.names.drop (parents + 1) :=
              List.drop_eq_getElem_cons below
            have noneAbove : parents - place.names.length =
                parents + 1 - place.names.length := by
              omega
            simp only [step, join, List.nil_append, left, noneAbove, ↓reduceIte,
              Bool.false_eq_true]
          · have left : place.names.drop parents = [] := List.drop_eq_nil_of_le above
            have next : place.names.drop (parents + 1) = [] :=
              List.drop_eq_nil_of_le (by omega)
            have oneMore : parents + 1 - place.names.length =
                parents - place.names.length + 1 := by
              omega
            cases absolute <;>
              simp only [step, join, List.nil_append, left, next, oneMore, Nat.add_assoc,
                ↓reduceIte, Bool.false_eq_true]

/-- A path leads from a place where it leads on its own, seen from there. -/
theorem walk_eq_join (path : List (Component Name)) :
    walk absolute place path = join absolute place (walk false here path) := by
  have joined : ∀ relative : Place Name,
      walk absolute (join absolute place relative) path =
        join absolute place (walk false relative path) := by
    induction path with
    | nil => exact fun _ => rfl
    | cons component path ih =>
        intro relative
        rw [walk_cons, step_join, ih, walk_cons]
  simpa using joined here

/-- Of two relative places that start at the same place, one lies inside the
other: what they share of the start has been cancelled. -/
def Regains (absolute : Bool) (place start relative : Place Name) : Prop :=
  (absolute = true ∨ relative.parents - place.names.length =
    start.parents - place.names.length) ∧
  start.names ++ (place.names.drop start.parents).take (relative.parents - start.parents) <:+
    relative.names ++
      (place.names.drop relative.parents).take (start.parents - relative.parents)

instance [DecidableEq Name] (place start relative : Place Name) :
    Decidable (Regains absolute place start relative) :=
  inferInstanceAs (Decidable (_ ∧ _))

theorem drop_eq_take_append (names : List Name) {first second : Nat}
    (ordered : first ≤ second) :
    names.drop first = (names.drop first).take (second - first) ++ names.drop second := by
  have later : names.drop second = (names.drop first).drop (second - first) := by
    rw [List.drop_drop, Nat.add_sub_cancel' ordered]
  rw [later, List.take_append_drop]

theorem suffix_append_cancel {first second shared : List Name} :
    first ++ shared <:+ second ++ shared ↔ first <:+ second := by
  rw [← List.reverse_prefix, List.reverse_append, List.reverse_append,
    List.prefix_append_right_inj, List.reverse_prefix]

theorem inside_join_iff (start relative : Place Name) :
    Inside (join absolute place relative) (join absolute place start) ↔
      Regains absolute place start relative := by
  apply and_congr
  · cases absolute <;> simp [join]
  · simp only [join]
    rcases Nat.le_total start.parents relative.parents with ordered | ordered
    · have shared : (start.names ++
          (place.names.drop start.parents).take (relative.parents - start.parents)) ++
            place.names.drop relative.parents =
          start.names ++ place.names.drop start.parents := by
        rw [List.append_assoc, ← drop_eq_take_append _ ordered]
      have noneLeft : start.parents - relative.parents = 0 := by omega
      rw [noneLeft, List.take_zero, List.append_nil, ← shared, suffix_append_cancel]
    · have shared : (relative.names ++
          (place.names.drop relative.parents).take (start.parents - relative.parents)) ++
            place.names.drop start.parents =
          relative.names ++ place.names.drop relative.parents := by
        rw [List.append_assoc, ← drop_eq_take_append _ ordered]
      have noneLeft : relative.parents - start.parents = 0 := by omega
      rw [noneLeft, List.take_zero, List.append_nil, ← shared, suffix_append_cancel]

/-- A path climbs from a place only as far as it then goes down again, through
the names that it left. -/
def ComesBack (absolute : Bool) (place relative : Place Name) : Prop :=
  (absolute = true ∨ relative.parents ≤ place.names.length) ∧
    place.names.take relative.parents <:+ relative.names

instance [DecidableEq Name] (place relative : Place Name) :
    Decidable (ComesBack absolute place relative) :=
  inferInstanceAs (Decidable (_ ∧ _))

theorem inside_join_here_iff (relative : Place Name) :
    Inside (join absolute place relative) place ↔ ComesBack absolute place relative := by
  have cancelled := @inside_join_iff _ absolute place here relative
  rw [join_here] at cancelled
  rw [cancelled, Regains, ComesBack]
  apply and_congr
  · apply or_congr Iff.rfl
    simp only [here]
    omega
  · simp [here]

theorem parents_walk_absolute (path : List (Component Name)) :
    (walk true place path).parents = place.parents := by
  rw [walk_eq_join]
  rfl

end Place

section Text

def isAbsolute (path : List Char) : Bool :=
  path.head? = some '/'

/-- Empty components and single dots stay where they are. -/
def component? (text : List Char) : Option (Component (List Char)) :=
  if text = [] ∨ text = ['.'] then none
  else if text = ['.', '.'] then some .parent
  else some (.name text)

def components (path : List Char) : List (Component (List Char)) :=
  (path.splitOn '/').filterMap component?

/-- Where a path leads on its own. -/
def climb (path : List Char) : Place (List Char) :=
  Place.walk false .here (components path)

/-- Where a path leads from the root or from the current directory. -/
def resolve (path : List Char) : Place (List Char) :=
  Place.walk (isAbsolute path) .here (components path)

/-- After lexical resolution the path is the root itself or lies below it. -/
def PathInside (root path : List Char) : Prop :=
  isAbsolute path = isAbsolute root ∧ (resolve path).Inside (resolve root)

@[simp]
theorem components_slash (path more : List Char) :
    components (path ++ '/' :: more) = components path ++ components more := by
  rw [components, List.splitOn_append_cons_self, List.filterMap_append]
  rfl

@[simp]
theorem components_nil : components [] = [] := by
  decide

theorem components_cons_slash (path : List Char) :
    components ('/' :: path) = components path :=
  components_slash [] path

/-- The path up to its last slash. -/
def directory (path : List Char) : List Char :=
  (path.reverse.dropWhile (· ≠ '/')).reverse

/-- The path behind its last slash. -/
def lastPart (path : List Char) : List Char :=
  (path.reverse.takeWhile (· ≠ '/')).reverse

theorem slash_not_mem_lastPart (path : List Char) : '/' ∉ lastPart path := by
  intro member
  simpa using List.mem_takeWhile_imp (List.mem_reverse.mp member)

theorem directory_append_lastPart (path : List Char) :
    directory path ++ lastPart path = path := by
  rw [directory, lastPart, ← List.reverse_append, List.takeWhile_append_dropWhile,
    List.reverse_reverse]

/-- The directory part is empty or ends with the slash. -/
theorem directory_cases (path : List Char) :
    directory path = [] ∨ ∃ front, directory path = front ++ ['/'] := by
  cases behind : path.reverse.dropWhile (· ≠ '/') with
  | nil => exact Or.inl (by rw [directory, behind]; rfl)
  | cons slash front =>
      have isSlash : slash = '/' := by
        have head := List.head_dropWhile_not (· ≠ '/') (l := path.reverse)
          (by rw [behind]; exact List.cons_ne_nil _ _)
        simp only [behind, List.head_cons] at head
        simpa using head
      subst isSlash
      exact Or.inr ⟨front.reverse, by rw [directory, behind, List.reverse_cons]⟩

theorem components_directory_append (path more : List Char) :
    components (directory path ++ more) =
      components (directory path) ++ components more := by
  rcases directory_cases path with none | ⟨front, slash⟩
  · rw [none, List.nil_append, components_nil, List.nil_append]
  · rw [slash, List.append_assoc, List.singleton_append, components_slash,
      components_slash, components_nil, List.append_nil]

theorem isAbsolute_append {path : List Char} (more : List Char) (nonempty : path ≠ []) :
    isAbsolute (path ++ more) = isAbsolute path := by
  obtain ⟨first, rest, rfl⟩ := List.exists_cons_of_ne_nil nonempty
  rfl

theorem isAbsolute_directory (path : List Char) :
    isAbsolute (directory path) = isAbsolute path := by
  by_cases none : directory path = []
  · have split := directory_append_lastPart path
    rw [none, List.nil_append] at split
    have noSlash : '/' ∉ path := by
      rw [← split]
      exact slash_not_mem_lastPart path
    have relative : path.head? ≠ some '/' := fun head =>
      noSlash (List.mem_of_mem_head? head)
    rw [none, isAbsolute, isAbsolute, decide_eq_false relative]
    rfl
  · have same := isAbsolute_append (lastPart path) none
    rw [directory_append_lastPart] at same
    exact same.symm

/-- Something stands between a path and what is appended to it. -/
def Separated (root part : List Char) : Prop :=
  root.getLast? = some '/' ∨ part.head? = some '/'

instance (root part : List Char) : Decidable (Separated root part) :=
  inferInstanceAs (Decidable (_ ∨ _))

/-- What is appended to a path leads out of it only to come back.  Without a
slash in between the two share a component, and both lead on from the directory
before it. -/
def Confined (root part : List Char) : Prop :=
  (root = [] → part.head? ≠ some '/') ∧
    if Separated root part then
      Place.ComesBack (isAbsolute root) (resolve root) (climb part)
    else
      Place.Regains (isAbsolute root) (resolve (directory root)) (climb (lastPart root))
        (climb (lastPart root ++ part))

instance (root part : List Char) : Decidable (Confined root part) :=
  inferInstanceAs (Decidable (_ ∧ ite _ _ _))

theorem components_separated {root part : List Char} (separated : Separated root part) :
    components (root ++ part) = components root ++ components part := by
  rcases separated with ends | starts
  · obtain ⟨front, rfl⟩ := List.getLast?_eq_some_iff.mp ends
    rw [List.append_assoc, List.singleton_append, components_slash, components_slash,
      components_nil, List.append_nil]
  · obtain ⟨more, rfl⟩ := List.head?_eq_some_iff.mp starts
    rw [components_slash, components_cons_slash]

theorem inside_separated_iff {root part : List Char} {absolute : Bool}
    (same : isAbsolute root = absolute) (separated : Separated root part) :
    (Place.walk absolute .here (components (root ++ part))).Inside (resolve root) ↔
      Place.ComesBack absolute (resolve root) (climb part) := by
  rw [components_separated separated, Place.walk_append, ← same]
  change (Place.walk _ (resolve root) (components part)).Inside _ ↔ _
  rw [Place.walk_eq_join, Place.inside_join_here_iff]
  rfl

theorem inside_shared_iff (root part : List Char) {absolute : Bool}
    (same : isAbsolute root = absolute) :
    (Place.walk absolute .here (components (root ++ part))).Inside (resolve root) ↔
      Place.Regains absolute (resolve (directory root)) (climb (lastPart root))
        (climb (lastPart root ++ part)) := by
  have walked (more : List Char) :
      Place.walk absolute .here (components (directory root ++ more)) =
        (resolve (directory root)).join absolute (climb more) := by
    rw [components_directory_append, Place.walk_append, Place.walk_eq_join, resolve,
      isAbsolute_directory, same]
    rfl
  have start : resolve root =
      (resolve (directory root)).join absolute (climb (lastPart root)) := by
    rw [← walked, directory_append_lastPart, resolve, same]
  have path := walked (lastPart root ++ part)
  rw [← List.append_assoc, directory_append_lastPart] at path
  rw [path, start, Place.inside_join_iff]

/-- Exactly what is confined stays inside. -/
theorem pathInside_append_iff (root part : List Char) :
    PathInside root (root ++ part) ↔ Confined root part := by
  by_cases empty : root = []
  · subst empty
    by_cases absolute : part.head? = some '/'
    · refine iff_of_false (fun inside => ?_) fun confined => confined.1 rfl absolute
      have flags := inside.1
      rw [List.nil_append, isAbsolute, decide_eq_true absolute] at flags
      cases flags
    · have relative : isAbsolute part = false := decide_eq_false absolute
      have joined : ¬ Separated [] part := fun separated =>
        separated.elim (by simp) absolute
      rw [PathInside, Confined, if_neg joined, List.nil_append, resolve, relative]
      have shared := @inside_shared_iff [] part false rfl
      rw [List.nil_append] at shared
      rw [shared]
      exact ⟨fun all => ⟨fun _ => absolute, all.2⟩, fun all => ⟨rfl, all.2⟩⟩
  · have flags := isAbsolute_append part empty
    rw [PathInside, Confined, resolve, flags]
    by_cases separated : Separated root part
    · rw [if_pos separated, inside_separated_iff rfl separated]
      exact ⟨fun all => ⟨fun none => absurd none empty, all.2⟩, fun all => ⟨rfl, all.2⟩⟩
    · rw [if_neg separated, inside_shared_iff root part rfl]
      exact ⟨fun all => ⟨fun none => absurd none empty, all.2⟩, fun all => ⟨rfl, all.2⟩⟩

end Text

end LexicalPath
