import SpriteCompiler.Program.Project
import SpriteCompiler.Number.Text

namespace SpriteCompiler

-- The order of the locals is that of their slots on the stack.
structure Scope where
  parent : Option Nat := none
  -- in order of declaration
  locals : List Local := []
  -- the place of each name among the locals
  names : List (String × Nat) := []
  lookup_names : ∀ x, names.lookup x = locals.findIdx? (·.name == x) := by exact fun _ => rfl

-- A name was declared again in the scope that declares it already.
structure Duplicate where
  name : String
  first : Location
  second : Location
  deriving DecidableEq

namespace Location

-- A location with the names of its parts.
def detail (l : Location) : String :=
  "FileSpan \x7b file: FileId(" ++ Number.natText l.file.toNat ++ "), span: Span \x7b start: " ++
    Number.natText l.span.start.toNat ++ ", end: " ++ Number.natText l.span.stop.toNat ++
    " \x7d \x7d"

end Location

def Duplicate.message (d : Duplicate) : String :=
  "`" ++ d.name ++ "` declared at " ++ d.second.detail ++ " is already declared at " ++
    d.first.detail

namespace Local

-- The number of slots of all the locals together.
def slotCount : List Local → Nat
  | [] => 0
  | l :: rest => l.slots + slotCount rest

end Local

namespace Scope

def slotCount (s : Scope) : Nat :=
  Local.slotCount s.locals

-- The local of this name, a scope having at most one.
def find? (s : Scope) (name : String) : Option Local :=
  (s.names.lookup name).bind (s.locals[·]?)

-- The number of slots after those of the local with this name, if there is one.
def slotsAfter? (s : Scope) (name : String) : Option Nat :=
  (s.names.lookup name).map fun place => Local.slotCount (s.locals.drop (place + 1))

theorem find?_eq (s : Scope) (name : String) : s.find? name = s.locals.find? (·.name == name) := by
  rw [find?, s.lookup_names, List.find?_eq_bind_findIdx?_getElem?]

-- A name that is not found can be added to the index, with the next place.
theorem lookup_names_concat (s : Scope) {l : Local} (h : s.find? l.name = none) (x : String) :
    ((l.name, s.locals.length) :: s.names).lookup x =
      (s.locals ++ [l]).findIdx? (·.name == x) := by
  have hfree : s.locals.findIdx? (·.name == l.name) = none := by
    rw [find?_eq, List.find?_eq_none] at h
    simpa using h
  rw [List.lookup_cons, List.findIdx?_append, s.lookup_names]
  by_cases hx : x = l.name
  · subst hx
    simp [hfree]
  · have hne : (x == l.name) = false := by simpa using hx
    simp [hne, Ne.symm hx]

-- A scope in which one more local is declared, unless its name is taken.
def declare (s : Scope) (l : Local) : Except Duplicate Scope :=
  match h : s.find? l.name with
  | some earlier => .error ⟨l.name, earlier.location, l.location⟩
  | none =>
    .ok { s with
      locals := s.locals ++ [l]
      names := (l.name, s.locals.length) :: s.names
      lookup_names := s.lookup_names_concat h }

theorem parent_lt_empty {id p : Nat} {s : Scope} (h : (#[] : Array Scope)[id]? = some s)
    (_ : s.parent = some p) : p < id := by
  rw [Array.getElem?_empty] at h
  cases h

end Scope

-- All scopes of a method, or of no method in particular.
structure ScopeTree where
  scopes : Array Scope := #[]
  method : Option Method := none
  -- a parent is created before its children
  parent_lt : ∀ {id p : Nat} {s : Scope}, scopes[id]? = some s → s.parent = some p → p < id := by
    exact @Scope.parent_lt_empty

-- A tree was asked for a scope that it does not have.
structure MissingScope where
  id : Nat
  deriving DecidableEq

namespace ScopeTree

def size (t : ScopeTree) : Nat :=
  t.scopes.size

def get? (t : ScopeTree) (id : Nat) : Option Scope :=
  t.scopes[id]?

def scope (t : ScopeTree) (id : Nat) : Except MissingScope Scope :=
  match t.get? id with
  | some s => .ok s
  | none => .error ⟨id⟩

-- Adds a scope, whose parent has to be there.
def push (t : ScopeTree) (s : Scope) (h : ∀ {p}, s.parent = some p → p < t.size) : ScopeTree where
  scopes := t.scopes.push s
  method := t.method
  parent_lt {id p s'} hs hp := by
    rw [Array.getElem?_push] at hs
    split at hs
    · next hid =>
        obtain rfl := Option.some.inj hs
        exact hid ▸ h hp
    · exact t.parent_lt hs hp

def createRoot (t : ScopeTree) : Nat × ScopeTree :=
  (t.size, t.push {} nofun)

def createChild (t : ScopeTree) (parent : Nat) : Except MissingScope (Nat × ScopeTree) :=
  if h : parent < t.size then
    .ok (t.size, t.push { parent := some parent } fun hp => Option.some.inj hp ▸ h)
  else .error ⟨parent⟩

-- A scope and its ancestors with their numbers, `fuel` scopes at most.
def walk (t : ScopeTree) : Nat → Nat → Except MissingScope (List (Nat × Scope))
  | 0, _ => return []
  | fuel + 1, id => do
    let s ← t.scope id
    match s.parent with
    | none => return [(id, s)]
    | some parent => return (id, s) :: (← t.walk fuel parent)

-- A scope followed by each of its ancestors. A parent has a smaller number than its children, which
-- bounds the length of the way.
def outward (t : ScopeTree) (id : Nat) : Except MissingScope (List (Nat × Scope)) :=
  t.walk (id + 1) id

def chain (t : ScopeTree) (id : Nat) : Except MissingScope (List Nat) :=
  return (← t.outward id).map (·.1)

-- Puts a scope in the place of another, as a child of the same parent. A number that belongs to no
-- scope changes nothing.
def set (t : ScopeTree) (id : Nat) (s : Scope) : ScopeTree where
  scopes := t.scopes.modify id fun old => { s with parent := old.parent }
  method := t.method
  parent_lt {j p s'} hs hp := by
    rw [Array.getElem?_modify] at hs
    split at hs
    · obtain ⟨old, hold, rfl⟩ := Option.map_eq_some_iff.mp hs
      exact t.parent_lt hold hp
    · exact t.parent_lt hs hp

-- Declares a local in a scope, unless its name is taken there.
def declare (t : ScopeTree) (id : Nat) (l : Local) :
    Except MissingScope (Except Duplicate Unit × ScopeTree) := do
  let s ← t.scope id
  match s.declare l with
  | .ok s => return (.ok (), t.set id s)
  | .error d => return (.error d, t)

-- The innermost local of this name that is visible from a scope.
def search (t : ScopeTree) (id : Nat) (name : String) : Except MissingScope (Option Local) :=
  return (← t.outward id).findSome? (·.2.find? name)

-- The number of slots after the local of this name, going outward through the given scopes. Other
-- scopes have released theirs.
def depthAlong? (name : String) : List Scope → Option Nat
  | [] => none
  | s :: outer =>
    match s.slotsAfter? name with
    | some later => some later
    | none => (depthAlong? name outer).map (s.slotCount + ·)

-- The number of slots between the end of the stack and the last slot of a name.
def depth (t : ScopeTree) (id : Nat) (name : String) : Except MissingScope (Option Nat) :=
  return depthAlong? name ((← t.outward id).map (·.2))

-- The names visible from a scope, innermost first and latest first within a scope.
def visibleNames (t : ScopeTree) (id : Nat) : Except MissingScope (List String) :=
  return (← t.outward id).flatMap fun (_, s) => s.locals.reverse.map (·.name)

end ScopeTree

end SpriteCompiler
