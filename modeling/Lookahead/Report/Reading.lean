import Lookahead.Report.Csv
import Lookahead.Report.Grid

/-! Reports read back: the tokens and the declared names of comma-separated rows, and the texts of the cells of a grid. -/

namespace Lookahead

/-- The lines of a text. A newline ends a line, and what stands behind the last one is a line unless it is empty. -/
def lines : List Char → List (List Char)
  | [] => []
  | c :: rest =>
    if c = '\n' then [] :: lines rest
    else match lines rest with
      | [] => [[c]]
      | first :: later => (c :: first) :: later

theorem lines_append {line : List Char} (unbroken : '\n' ∉ line) (rest : List Char) :
    lines (line ++ '\n' :: rest) = line :: lines rest := by
  induction line with
  | nil => rw [List.nil_append, lines, if_pos rfl]
  | cons c line ih =>
    have other : c ≠ '\n' := fun same => unbroken (same ▸ List.mem_cons_self)
    rw [List.cons_append, lines, if_neg other, ih fun member => unbroken (List.mem_cons_of_mem c member)]

/-- Lines that a newline ends each come back. -/
theorem lines_flatMap {ls : List (List Char)} (unbroken : ∀ line ∈ ls, '\n' ∉ line) (rest : List Char) :
    lines (ls.flatMap (· ++ ['\n']) ++ rest) = ls ++ lines rest := by
  induction ls with
  | nil => rfl
  | cons line ls ih =>
    rw [List.flatMap_cons, List.append_assoc, List.append_assoc, List.singleton_append,
      lines_append (unbroken line List.mem_cons_self), ih fun l member => unbroken l (List.mem_cons_of_mem line member),
      List.cons_append]

theorem isDigit_of_mem_number {n : Nat} {c : Char} (member : c ∈ (toString n).toList) : c.isDigit = true :=
  Nat.isDigit_of_mem_toDigits (by decide) (by decide) (Nat.toList_repr ▸ member)

theorem newline_not_mem_append {a b : String} (left : '\n' ∉ a.toList) (right : '\n' ∉ b.toList) :
    '\n' ∉ (a ++ b).toList := by
  rw [String.toList_append, List.mem_append, not_or]
  exact ⟨left, right⟩

theorem newline_not_mem_intercalate {separator : List Char} {texts : List (List Char)} (between : '\n' ∉ separator)
    (unbroken : ∀ text ∈ texts, '\n' ∉ text) : '\n' ∉ separator.intercalate texts := by
  induction texts with
  | nil => nofun
  | cons text texts ih =>
    have first := unbroken text List.mem_cons_self
    have later := ih fun t member => unbroken t (List.mem_cons_of_mem text member)
    cases texts with
    | nil => rwa [List.intercalate_singleton]
    | cons => simp [List.intercalate_cons_cons, first, between, later]

namespace Csv

/-! ### Rows with quoted fields -/

/-- Where a reader stands in a field. -/
inductive Place where
  | opening
  | bare
  | quoted
  /-- Behind a quote that ends the quoted part, unless it is followed by another one. -/
  | closing
  deriving DecidableEq, Repr

/-- What has been read: the rows that are complete, the complete fields of the next row and the part of its next field. -/
structure Reader where
  rows : List (List String)
  fields : List String
  field : List Char
  place : Place
  deriving DecidableEq, Repr

namespace Reader

def start : Reader := ⟨[], [], [], .opening⟩

def put (r : Reader) (c : Char) (place : Place) : Reader := { r with field := r.field ++ [c], place }

def endField (r : Reader) : Reader := ⟨r.rows, r.fields ++ [String.ofList r.field], [], .opening⟩

def endRow (r : Reader) : Reader := ⟨r.rows ++ [r.endField.fields], [], [], .opening⟩

/-- Outside of quotes a comma ends a field and a newline a row. -/
def readBare (r : Reader) (c : Char) : Reader :=
  if c = ',' then r.endField else if c = '\n' then r.endRow else r.put c .bare

/-- A quote begins a quoted field or ends it, and two inside of it stand for one. -/
def read (r : Reader) (c : Char) : Reader :=
  match r.place with
  | .opening => if c = '"' then { r with place := .quoted } else r.readBare c
  | .bare => r.readBare c
  | .quoted => if c = '"' then { r with place := .closing } else r.put c .quoted
  | .closing => if c = '"' then r.put c .quoted else r.readBare c

end Reader

/-- The rows of a text, each with its fields. -/
def rows (text : String) : List (List String) := (text.toList.foldl Reader.read .start).rows

def kinds : List TokenKind := [.keyword, .operator, .punctuation, .identifier, .integer, .float, .invalid, .eof]

def readToken : List String → Option Token
  | [label, source, line, column] => do
    let kind ← kinds.find? (·.label = label)
    return ⟨kind, source, ⟨← line.toNat?, ← column.toNat?⟩⟩
  | _ => none

/-- The tokens that a report lists below its head. -/
def readTokens (report : String) : Option (List Token) := (rows report).tail.mapM readToken

/-! ### Rows without quotes -/

/-- What stands between the commas of a line. -/
def fields (line : List Char) : List String := (line.splitOn ',').map String.ofList

def readEntry : List String → Option Entry
  | [serial, name, type, line, column] => do
    let serial ← serial.toNat?
    return ⟨serial, name, if type = "" then none else some type, ⟨← line.toNat?, ← column.toNat?⟩⟩
  | _ => none

/-- The names that a report lists below its head. -/
def readDeclarations (report : String) : Option Declarations :=
  (((lines report.toList).tail.map fields).mapM readEntry).map Declarations.mk

end Csv

namespace Grid

/-! ### Cells -/

/-- The number of bars that are not behind a backslash. -/
def openBars (escaped : Bool) : List Char → Nat
  | [] => 0
  | c :: rest => (if c = '|' ∧ escaped = false then 1 else 0) + openBars (c = '\\') rest

/-- The pieces of a line between the bars that are not behind a backslash. -/
def pieces (escaped : Bool) : List Char → List (List Char)
  | [] => [[]]
  | c :: rest =>
    if c = '|' ∧ escaped = false then [] :: pieces false rest
    else (pieces (c = '\\') rest).modifyHead (c :: ·)

/-- A bar loses the backslash before it. -/
def unescapeBars : List Char → List Char
  | [] => []
  | '\\' :: '|' :: rest => '|' :: unescapeBars rest
  | c :: rest => c :: unescapeBars rest

def dropBlank : List Char → List Char
  | ' ' :: rest => rest
  | text => text

/-- The text of a piece: one blank is dropped on either side, and then the bars lose their backslashes. -/
def cellText (piece : List Char) : String := String.ofList (unescapeBars (dropBlank (dropBlank piece).reverse).reverse)

/-- The texts between the bars of a line. -/
def cells (line : List Char) : List String := (pieces false line).tail.dropLast.map cellText

/-! ### What steps and tables show -/

def Deed.text (g : Grammar) : Deed → String
  | .matched column => "Match '" ++ g.name column.toSymbol ++ "'"
  | .other label => label

/-- The stack of a step from the bottom up, its lookahead, its production if it has one, and its deed. -/
def Step.texts (g : Grammar) (s : Step) : List String :=
  [" ".intercalate (s.stack.reverse.map g.name), s.lookahead, (s.production.map g.renderProduction).getD "", s.deed.text g]

/-- The name of a nonterminal, and the productions in its row of a table from column to column. -/
def rowTexts (g : Grammar) (t : Table) (name : String) (nonterminal : Nat) : List String :=
  name :: g.columns.map fun column => ((t.get? nonterminal column).map toString).getD ""

end Grid
end Lookahead
