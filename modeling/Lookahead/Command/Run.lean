import Lookahead.Command.Options
import Lookahead.Command.Storage
import Lookahead.Imperative.Compile
import Lookahead.Report.Csv
import Lookahead.Report.Grid
import Lookahead.Report.Listing

/-! The command: compiles a file, prints what it finds and writes the reports. -/

namespace Lookahead
namespace Command

open Imperative (Compilation SetupError)

/-- What a run of the command leaves to its caller. -/
structure Result where
  exit : Nat
  stdout : String
  stderr : String
  deriving DecidableEq, Repr

def version : String := "predict 0.1.0\n"

def usage : String := "Usage: predict [OPTIONS] <INPUT>\n"

/-- The reports of a compilation under their file names, in the order in which they are written. -/
def reports (c : Compilation) : List (String × String) :=
  [("tokens.csv", Csv.tokens c.tokens),
    ("first_follow.txt", Listing.sets c.machine.grammar c.machine.sets),
    ("parse_table.md", Grid.table c.machine.grammar c.machine.table),
    ("parsing_stages.md", Grid.trace c.machine.grammar c.trace),
    ("symbol_table.csv", Csv.declarations c.declared),
    ("errors.txt", Listing.diagnostics c.diagnostics)]

/-- A failure with its cause, as it is printed. -/
def failure (doing path : String) (fault : StorageFault) : String :=
  "Error: failed to " ++ doing ++ " " ++ path ++ "\n\nCaused by:\n    " ++ fault.message ++ "\n"

/-- Writes files into a folder in order and stops at the first that cannot be written. -/
def writeAll {m : Type → Type} [Monad m] (s : Storage m) (folder : String) :
    List (String × String) → m (Except String Unit)
  | [] => return .ok ()
  | (name, text) :: rest => do
    let path := joinPath folder name
    match ← s.write path text with
    | .ok () => writeAll s folder rest
    | .error fault => return .error (failure "write" path fault)

/-- Writes the reports of a compilation. -/
def writeReports {m : Type → Type} [Monad m] (s : Storage m) (folder : String) (c : Compilation) :
    m (Except String Unit) := do
  match ← s.makeFolders (pathAndFolders folder) with
  | .error fault => return .error (failure "create" folder fault)
  | .ok () => writeAll s folder (reports c)

def verdict (input : String) (c : Compilation) : String :=
  if c.succeeded then input ++ ": accepted\n"
  else input ++ ": rejected with " ++ toString c.diagnostics.length ++ " diagnostic(s)\n"

/-- Compiles a source that was read from a path. -/
def runSource {m : Type → Type} [Monad m] (s : Storage m) (o : Options) (source : String) : m Result := do
  match Imperative.compile source o.trace with
  | .error e => return ⟨1, "", "Error: " ++ e.message ++ "\n"⟩
  | .ok c =>
    let printed := String.join (c.diagnostics.map fun d => d.render ++ "\n")
    match ← writeReports s o.outDir c with
    | .error message => return ⟨1, "", printed ++ message⟩
    | .ok () => return ⟨if c.succeeded then 0 else 1, verdict o.input c, printed⟩

/-- Runs the command. -/
def run {m : Type → Type} [Monad m] (s : Storage m) (args : List String) : m Result := do
  match readArguments args with
  | .error .version => return ⟨0, version, ""⟩
  | .error .misuse => return ⟨2, "", usage⟩
  | .ok o =>
    match ← s.readText o.input with
    | .error fault => return ⟨1, "", failure "read" o.input fault⟩
    | .ok source => runSource s o source

end Command
end Lookahead
