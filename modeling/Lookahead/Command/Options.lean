/-! The command line: one input path and options, read from left to right. -/

namespace Lookahead
namespace Command

/-- What a run of the command is asked to do. -/
structure Options where
  input : String
  outDir : String
  trace : Bool
  deriving DecidableEq, Repr

/-- Why reading the arguments ends before all are read. -/
inductive Ending where
  /-- The version is asked for. -/
  | version
  /-- The arguments do not fit together. -/
  | misuse
  deriving DecidableEq, Repr

/-- What was read of the arguments. -/
structure Arguments where
  input : Option String := none
  outDir : Option String := none
  noTrace : Bool := false
  /-- The last argument was an option whose value is the next one. -/
  awaitsValue : Bool := false
  /-- The options have ended. -/
  onlyPaths : Bool := false
  deriving DecidableEq, Repr

namespace Arguments

/-- The output directory is given once and is not empty. -/
def setOutDir (a : Arguments) (dir : String) : Except Ending Arguments :=
  if dir.isEmpty || a.outDir.isSome then .error .misuse else .ok { a with outDir := some dir, awaitsValue := false }

/-- The input path is given once and is not empty. -/
def setInput (a : Arguments) (path : String) : Except Ending Arguments :=
  if path.isEmpty || a.input.isSome then .error .misuse else .ok { a with input := some path }

/-- Tracing is switched off once. -/
def setNoTrace (a : Arguments) : Except Ending Arguments :=
  if a.noTrace then .error .misuse else .ok { a with noTrace := true }

/-- Short options in one argument. What follows `o` is its value, without an equals sign at the head of it. -/
def readShort (a : Arguments) : List Char → Except Ending Arguments
  | [] => .ok a
  | 'v' :: rest => a.readShort rest
  | 'V' :: _ => .error .version
  | ['o'] => .ok { a with awaitsValue := true }
  | 'o' :: '=' :: value => a.setOutDir (String.ofList value)
  | 'o' :: value => a.setOutDir (String.ofList value)
  | _ => .error .misuse

/-- A long option, with its value if an equals sign divides them. -/
def readLong (a : Arguments) (name : List Char) (value : Option (List Char)) : Except Ending Arguments :=
  match String.ofList name, value with
  | "verbose", none => .ok a
  | "version", none => .error .version
  | "no-trace", none => a.setNoTrace
  | "out-dir", none => .ok { a with awaitsValue := true }
  | "out-dir", some value => a.setOutDir (String.ofList value)
  | _, _ => .error .misuse

/-- Whether an argument is of the form of an option. A hyphen alone is not. -/
def isOption : List Char → Bool
  | '-' :: _ :: _ => true
  | _ => false

/-- Reads an argument. -/
def read (a : Arguments) (arg : String) : Except Ending Arguments :=
  let text := arg.toList
  if a.onlyPaths then a.setInput arg
  else if a.awaitsValue then if isOption text then .error .misuse else a.setOutDir arg
  else match text with
    | ['-', '-'] => .ok { a with onlyPaths := true }
    | '-' :: '-' :: long =>
      let name := long.takeWhile (· ≠ '=')
      a.readLong name (if name.length < long.length then some (long.drop (name.length + 1)) else none)
    | '-' :: c :: rest => a.readShort (c :: rest)
    | _ => a.setInput arg

/-- The options once all arguments are read; the reports go to `output` unless told otherwise. -/
def finish (a : Arguments) : Except Ending Options :=
  if a.awaitsValue then .error .misuse
  else match a.input with
    | none => .error .misuse
    | some input => .ok ⟨input, a.outDir.getD "output", !a.noTrace⟩

end Arguments

/-- The options of a list of arguments. -/
def readArguments (args : List String) : Except Ending Options := do
  let a ← args.foldlM Arguments.read {}
  a.finish

end Command
end Lookahead
