import Lookahead.Diagnostic
import Lookahead.Prediction.Follow

/-! Plain listings of solved sets and of findings. -/

namespace Lookahead
namespace Listing

/-! ### Sets -/

/-- The names of a set between braces. -/
def braced (g : Grammar) (set : SymbolSet) : String :=
  "\x7b " ++ ", ".intercalate (set.elements.map g.name) ++ " \x7d"

/-- A line `title(name) = set` for each nonterminal. -/
def setLines (g : Grammar) (title : String) (set : Nat → SymbolSet) : String :=
  String.join (g.nonterminals.zipIdx.map fun (name, i) => title ++ "(" ++ name ++ ") = " ++ braced g (set i) ++ "\n")

/-- The FIRST sets and then the FOLLOW sets of the nonterminals, in order of declaration. -/
def sets (g : Grammar) (s : Sets) : String :=
  "=== FIRST SETS ===\n" ++ setLines g "FIRST" (fun i => s.first.ofSymbol (.nonterminal i)) ++
    "\n=== FOLLOW SETS ===\n" ++ setLines g "FOLLOW" s.follow.ofNonterminal

/-! ### Findings -/

def positioned (d : Diagnostic) : String :=
  "  Line " ++ toString d.pos.line ++ ", Column " ++ toString d.pos.column ++ ": " ++ d.message ++ "\n"

/-- The findings of one phase under a heading. -/
def group (ds : List Diagnostic) (k : Severity) : String :=
  "\n" ++ k.label ++ "s:\n" ++
    match Diagnostic.ofSeverity k ds with
    | [] => "  None\n"
    | found => String.join (found.map positioned)

/-- Totals, the findings by phase and then all of them in report order. -/
def diagnostics (ds : List Diagnostic) : String :=
  let warnings := (Diagnostic.ofSeverity .warning ds).length
  "=== Compilation Errors and Warnings ===\n" ++
    "Total errors: " ++ toString (ds.length - warnings) ++ "\n" ++
    "Total warnings: " ++ toString warnings ++ "\n" ++
    "\n=== Errors by Type ===\n" ++ String.join (Severity.all.map (group ds)) ++
    "\n=== All Errors (in order of occurrence) ===\n" ++ String.join (ds.map fun d => d.render ++ "\n")

end Listing
end Lookahead
