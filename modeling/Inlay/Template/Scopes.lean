import Inlay.Template.Value

/-!
# `Inlay.Template.Scopes` — variables and where they live

A scope binds names to values. Scopes are nested, and the outermost one, the global scope, is always there: it
is a field of its own, so no sequence of operations can lose it. A name is looked up from the inside out; to set
a name changes its innermost binding and, where there is none, makes one in the global scope.
-/

namespace Inlay

/-- The bindings of a scope, each name at most once, in the order in which the names came. -/
abbrev Scope := List (String × Value)

namespace Scope

/-- The value of a name. -/
def get? (name : String) (s : Scope) : Option Value :=
  s.lookup name

/-- Binds a name, in place of its old value if it has one. -/
def put (name : String) (v : Value) : Scope → Scope
  | [] => [(name, v)]
  | (n, w) :: s => if n == name then (n, v) :: s else (n, w) :: put name v s

/-- The names of a scope. -/
def names (s : Scope) : List String :=
  s.map (·.1)

end Scope

/-- Nested scopes. -/
structure Scopes where
  /-- The scopes inside the global one, innermost first. -/
  inner : List Scope
  /-- The outermost scope. -/
  global : Scope
deriving Inhabited

namespace Scopes

/-- The global scope alone, without a name. -/
def empty : Scopes :=
  ⟨[], []⟩

/-- All scopes, innermost first. -/
def toList (s : Scopes) : List Scope :=
  s.inner ++ [s.global]

/-- How many scopes there are. -/
def depth (s : Scopes) : Nat :=
  s.inner.length + 1

/-- Opens a scope inside all others. -/
def enter (s : Scopes) : Scopes :=
  { s with inner := [] :: s.inner }

/-- Closes the innermost scope. The global scope stays open. -/
def exit (s : Scopes) : Scopes :=
  { s with inner := s.inner.tail }

/-- Binds a name in the innermost scope. -/
def define (name : String) (v : Value) (s : Scopes) : Scopes :=
  match s.inner with
  | [] => { s with global := s.global.put name v }
  | scope :: outer => { s with inner := scope.put name v :: outer }

/-- The value of the innermost binding of a name. -/
def get? (name : String) (s : Scopes) : Option Value :=
  s.toList.findSome? (Scope.get? name)

/-- The value of a name that must have one. -/
def get (name : String) (s : Scopes) : Except Error Value :=
  match s.get? name with
  | some v => .ok v
  | none => .error (.undefinedVariable name)

/-- Changes the innermost binding of a name in a list of scopes, if one of them has it. -/
def setIn? (name : String) (v : Value) : List Scope → Option (List Scope)
  | [] => none
  | scope :: outer =>
    if (scope.get? name).isSome then some (scope.put name v :: outer)
    else (setIn? name v outer).map (scope :: ·)

/-- Changes the innermost binding of a name, or binds it in the global scope. -/
def set (name : String) (v : Value) (s : Scopes) : Scopes :=
  match setIn? name v s.inner with
  | some inner => { s with inner }
  | none => { s with global := s.global.put name v }

end Scopes

end Inlay
