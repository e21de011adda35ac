/-! Places in a text: lines and columns counted in characters from one. -/

namespace Lookahead

/-- A line and a column. Those of a text start at one; `nowhere` is for what no text holds. -/
structure Position where
  line : Nat
  column : Nat
  deriving DecidableEq, Repr

namespace Position

/-- The place of the first character of any text. -/
def start : Position := ⟨1, 1⟩

/-- The place of a finding that belongs to no text. -/
def nowhere : Position := ⟨0, 0⟩

/-- A newline opens the next line; every other character takes one column. -/
def advance (p : Position) (c : Char) : Position :=
  if c = '\n' then ⟨p.line + 1, 1⟩ else ⟨p.line, p.column + 1⟩

/-- The place right after a text that starts at `p`. -/
def after (p : Position) (text : List Char) : Position := text.foldl advance p

@[simp] theorem after_nil (p : Position) : p.after [] = p := rfl

@[simp] theorem after_cons (p : Position) (c : Char) (text : List Char) :
    p.after (c :: text) = (p.advance c).after text := rfl

theorem after_append (p : Position) (left right : List Char) :
    p.after (left ++ right) = (p.after left).after right := List.foldl_append

/-- Written `line:column`. -/
def render (p : Position) : String := toString p.line ++ ":" ++ toString p.column

end Position
end Lookahead
