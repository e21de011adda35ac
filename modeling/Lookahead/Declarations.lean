import Lookahead.Position

/-! The flat table of declared identifiers: the first declaration of a name stays. -/

namespace Lookahead

/-- A declared identifier with its place in the order of declarations, counted from one. -/
structure Entry where
  serial : Nat
  name : String
  type : Option String
  pos : Position
  deriving DecidableEq, Repr

/-- The refusal of a second declaration, with the place of the first. -/
structure Redeclared where
  name : String
  previous : Position
  deriving DecidableEq, Repr

def Redeclared.message (r : Redeclared) : String :=
  "'" ++ r.name ++ "' already declared at " ++ r.previous.render

/-- The declared identifiers in order of declaration. -/
structure Declarations where
  entries : List Entry
  deriving DecidableEq, Repr

namespace Declarations

def empty : Declarations := ⟨[]⟩

def size (d : Declarations) : Nat := d.entries.length

def lookup (d : Declarations) (name : String) : Option Entry := d.entries.find? (·.name = name)

def contains (d : Declarations) (name : String) : Bool := (d.lookup name).isSome

/-- Adds a name at the end under the next serial number, unless it is declared already. -/
def insert (d : Declarations) (name : String) (type : Option String) (pos : Position) : Except Redeclared Declarations :=
  match d.lookup name with
  | some e => .error ⟨name, e.pos⟩
  | none => .ok ⟨d.entries ++ [⟨d.size + 1, name, type, pos⟩]⟩

/-- Adds a name where it is new and keeps the table as it is otherwise. -/
def insertNew (d : Declarations) (name : String) (type : Option String) (pos : Position) : Declarations :=
  match d.insert name type pos with
  | .ok d' => d'
  | .error _ => d

end Declarations
end Lookahead
