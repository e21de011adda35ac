/-! Files and folders: what a command may do with them, and a folder tree that does it in memory. -/

namespace Lookahead
namespace Command

/-- Why a file or folder is out of reach. -/
inductive StorageFault where
  | notFound
  | alreadyExists
  | notFolder
  | isFolder
  | notText
  | other (reason : String)
  deriving DecidableEq, Repr

def StorageFault.message : StorageFault → String
  | notFound => "No such file or directory (os error 2)"
  | alreadyExists => "File exists (os error 17)"
  | notFolder => "Not a directory (os error 20)"
  | isFolder => "Is a directory (os error 21)"
  | notText => "stream did not contain valid UTF-8"
  | other reason => reason

/-- The operations on files and folders, by path. -/
structure Storage (m : Type → Type) where
  read : String → m (Except StorageFault ByteArray)
  makeFolder : String → m (Except StorageFault Unit)
  isFolder : String → m Bool
  write : String → String → m (Except StorageFault Unit)

/-! ### Paths -/

/-- The parts of a path between slashes. Empty parts and dots say nothing but for a dot at the head. -/
def pathParts (path : String) : List String :=
  match path.splitOn "/" with
  | [] => []
  | head :: rest => (if head.isEmpty then [] else [head]) ++ rest.filter fun p => !p.isEmpty && p ≠ "."

/-- The nonempty proper heads of a list, the longest first. -/
def properHeads {α : Type} (parts : List α) : List (List α) :=
  ((List.range parts.length).drop 1).reverse.map parts.take

/-- A path and the folders it lies in, the innermost first. -/
def pathAndFolders (path : String) : List String :=
  let root := if path.startsWith "/" then "/" else ""
  path :: (properHeads (pathParts path)).map fun parts => root ++ "/".intercalate parts

/-- The path of a name in a folder. -/
def joinPath (folder name : String) : String := if folder.endsWith "/" then folder ++ name else folder ++ "/" ++ name

namespace Storage

/-- Makes a folder, given as a path with the folders it lies in, and those of them that are missing. A folder that is
    there already is no fault. -/
def makeFolders {m : Type → Type} [Monad m] (s : Storage m) : List String → m (Except StorageFault Unit)
  | [] => return .ok ()
  | path :: around => do
    match ← s.makeFolder path with
    | .ok () => return .ok ()
    | .error .notFound =>
      match ← s.makeFolders around with
      | .error fault => return .error fault
      | .ok () =>
        match ← s.makeFolder path with
        | .ok () => return .ok ()
        | .error fault => return if ← s.isFolder path then .ok () else .error fault
    | .error fault => return if ← s.isFolder path then .ok () else .error fault

/-- Reads a file as text. -/
def readText {m : Type → Type} [Monad m] (s : Storage m) (path : String) : m (Except StorageFault String) := do
  match ← s.read path with
  | .error fault => return .error fault
  | .ok bytes =>
    match String.fromUTF8? bytes with
    | some text => return .ok text
    | none => return .error .notText

end Storage

/-! ### A tree in memory -/

/-- Files and folders, each by the names that lead to it from a working folder. The working folder and those it lies in,
    which two dots lead to, are always there. -/
structure Tree where
  files : List (List String × ByteArray)
  folders : List (List String)

namespace Tree

def empty : Tree := ⟨[], []⟩

def file? (t : Tree) (place : List String) : Option ByteArray := (t.files.find? (·.1 = place)).map (·.2)

/-- Whether a place is the working folder or one it lies in. -/
def isAround (place : List String) : Bool := place.all (· = "..")

def hasFolder (t : Tree) (place : List String) : Bool := isAround place || t.folders.contains place

/-- The place that a part of a path leads to from a place, which must be a folder. -/
def enter (t : Tree) (place : List String) (part : String) : Except StorageFault (List String) :=
  if t.hasFolder place then
    if part.isEmpty || part = "." then .ok place
    else if part = ".." then .ok (if isAround place then place ++ [part] else place.dropLast)
    else .ok (place ++ [part])
  else if (t.file? place).isSome then .error .notFolder
  else .error .notFound

/-- The place that a path leads to. Paths from the root of the file system lead nowhere in a tree. -/
def resolve (t : Tree) (path : String) : Except StorageFault (List String) :=
  if path.startsWith "/" then .error .notFound else (path.splitOn "/").foldlM t.enter []

def read (t : Tree) (path : String) : Except StorageFault ByteArray := do
  let place ← t.resolve path
  match t.file? place with
  | some bytes => return bytes
  | none => .error (if t.hasFolder place then .isFolder else .notFound)

def isFolder (t : Tree) (path : String) : Bool :=
  match t.resolve path with
  | .ok place => t.hasFolder place
  | .error _ => false

/-- A path without the slashes at its end. -/
def trimSlashes (path : String) : String := String.ofList (path.toList.reverse.dropWhile (· = '/')).reverse

def makeFolder (t : Tree) (path : String) : Except StorageFault Tree := do
  let place ← t.resolve (trimSlashes path)
  if t.hasFolder place || (t.file? place).isSome then .error .alreadyExists
  else return { t with folders := t.folders ++ [place] }

/-- Puts a file at a place, in the place of the one there. -/
def put (t : Tree) (place : List String) (bytes : ByteArray) : Tree :=
  { t with files := t.files.filter (·.1 ≠ place) ++ [(place, bytes)] }

def write (t : Tree) (path text : String) : Except StorageFault Tree := do
  let place ← t.resolve path
  if t.hasFolder place then .error .isFolder else return t.put place text.toUTF8

/-- A file with all folders it lies in. -/
def addFile (t : Tree) (path : String) (bytes : ByteArray) : Tree :=
  let parts := pathParts path
  let around := (properHeads parts).reverse.filter (!t.folders.contains ·)
  { t with folders := t.folders ++ around }.put parts bytes

/-- The files below the working folder that are not in an earlier tree, or not with the same contents. -/
def newFiles (earlier t : Tree) : List (String × ByteArray) :=
  let isNew := fun (place, bytes) => place.head? ≠ some ".." && (earlier.file? place).map (·.data) ≠ some bytes.data
  (t.files.filter isNew).map fun (place, bytes) => ("/".intercalate place, bytes)

/-- The operations on a tree. -/
def storage : Storage (StateM Tree) where
  read path := return (← get).read path
  makeFolder path := do
    match (← get).makeFolder path with
    | .ok t => set t; return .ok ()
    | .error fault => return .error fault
  isFolder path := return (← get).isFolder path
  write path text := do
    match (← get).write path text with
    | .ok t => set t; return .ok ()
    | .error fault => return .error fault

end Tree
end Command
end Lookahead
