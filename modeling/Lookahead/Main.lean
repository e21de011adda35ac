import Lookahead.Command.Run

/-! The command on the real file system. -/

namespace Lookahead
namespace Command

/-- The error number of a code, which some operations give negated. -/
def errorNumber (code : UInt32) : Nat := min code.toNat (UInt32.size - code.toNat)

/-- The reason of a failed operation. -/
def storageFault : IO.Error → StorageFault
  | .noFileOrDirectory _ _ _ => .notFound
  | .alreadyExists _ _ _ => .alreadyExists
  | .inappropriateType _ code details =>
    match errorNumber code with
    | 20 => .notFolder
    | 21 => .isFolder
    | _ => .other details
  | e => .other (toString e)

/-- An operation with its failure as a value. -/
def attempt {α : Type} (act : IO α) : IO (Except StorageFault α) := do
  try return .ok (← act) catch e => return .error (storageFault e)

def fileSystem : Storage IO where
  read path := attempt (IO.FS.readBinFile ⟨path⟩)
  makeFolder path := attempt (IO.FS.createDir ⟨path⟩)
  isFolder path := do
    try return ← (← IO.FS.realPath ⟨path⟩).isDir catch _ => return false
  write path text := attempt (IO.FS.writeFile ⟨path⟩ text)

end Command
end Lookahead

open Lookahead.Command in
/-- Runs the command on its arguments. -/
def main (args : List String) : IO UInt32 := do
  let result ← run fileSystem args
  IO.print result.stdout
  IO.eprint result.stderr
  return result.exit.toUInt32
