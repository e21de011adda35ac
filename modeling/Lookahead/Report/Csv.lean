import Lookahead.Declarations
import Lookahead.Token

/-! Comma-separated reports of tokens and declared identifiers. -/

namespace Lookahead
namespace Csv

/-- Fields between commas, ended by a newline. -/
def row (fields : List String) : String := ",".intercalate fields ++ "\n"

/-- The characters of a quoted field: a quote is written twice. -/
def doubleQuotes : List Char → List Char
  | [] => []
  | c :: rest => if c = '"' then '"' :: '"' :: doubleQuotes rest else c :: doubleQuotes rest

/-- A field between quotes. -/
def quoted (text : String) : String := "\"" ++ String.ofList (doubleQuotes text.toList) ++ "\""

def tokenRow (t : Token) : String :=
  row [t.kind.label, quoted t.source, toString t.pos.line, toString t.pos.column]

/-- The tokens of a stream, one a row. -/
def tokens (ts : List Token) : String := row ["Token Type", "Lexeme", "Line", "Column"] ++ String.join (ts.map tokenRow)

def entryRow (e : Entry) : String :=
  row [toString e.serial, e.name, e.type.getD "", toString e.pos.line, toString e.pos.column]

/-- The declared identifiers in order of declaration, one a row. Nothing is quoted. -/
def declarations (d : Declarations) : String :=
  row ["Serial No", "Name", "Type", "Line", "Column"] ++ String.join (d.entries.map entryRow)

end Csv
end Lookahead
