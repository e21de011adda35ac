import Lookahead.Declarations
import Std.Data.HashMap

/-! The table of declared identifiers as it is stored: by name, in no order. A new entry is numbered after the entries that
are there, and the order of declaration is recovered from the numbers. -/

namespace Lookahead

/-- The declared identifiers by their names. -/
structure NameTable where
  byName : Std.HashMap String Entry

namespace NameTable

def empty : NameTable := ⟨∅⟩

/-- Two tables are equal if they have the same entries under the same names. -/
instance : BEq NameTable := ⟨fun t u => t.byName == u.byName⟩

def size (t : NameTable) : Nat := t.byName.size

def isEmpty (t : NameTable) : Bool := t.byName.isEmpty

def lookup (t : NameTable) (name : String) : Option Entry := t.byName[name]?

def contains (t : NameTable) (name : String) : Bool := (t.lookup name).isSome

/-- Adds a name under the next serial number, unless it is declared already. -/
def insert (t : NameTable) (name : String) (type : Option String) (pos : Position) : Except Redeclared Unit × NameTable :=
  match t.lookup name with
  | some e => (.error ⟨name, e.pos⟩, t)
  | none => (.ok (), ⟨t.byName.insert name ⟨t.size + 1, name, type, pos⟩⟩)

/-- The entries in order of declaration. -/
def entries (t : NameTable) : List Entry := (t.byName.toList.map (·.2)).mergeSort (·.serial ≤ ·.serial)

def declarations (t : NameTable) : Declarations := ⟨t.entries⟩

/-! ### Requests -/

/-- What can be asked of a table. -/
inductive Request where
  | insert (name : String) (type : Option String) (pos : Position)
  | clear
  | lookup (name : String)
  | contains (name : String)
  | size
  | isEmpty
  | entries
  deriving DecidableEq, Repr

inductive Reply where
  | inserted
  | refused (r : Redeclared)
  | cleared
  | found (entry : Option Entry)
  | verdict (holds : Bool)
  | count (n : Nat)
  | listed (entries : List Entry)
  deriving DecidableEq, Repr

def answer (t : NameTable) : Request → Reply × NameTable
  | .insert name type pos =>
    match t.insert name type pos with
    | (.ok (), t) => (.inserted, t)
    | (.error r, t) => (.refused r, t)
  | .clear => (.cleared, empty)
  | .lookup name => (.found (t.lookup name), t)
  | .contains name => (.verdict (t.contains name), t)
  | .size => (.count t.size, t)
  | .isEmpty => (.verdict t.isEmpty, t)
  | .entries => (.listed t.entries, t)

/-- Answers requests one after another. Every request is kept with its reply. -/
def serve (t : NameTable) : List Request → List (Request × Reply) × NameTable
  | [] => ([], t)
  | request :: later =>
    let (reply, t) := t.answer request
    let (replies, t) := t.serve later
    ((request, reply) :: replies, t)

end NameTable
end Lookahead
