import Lookahead.Pattern.Basic

/-! The pieces of a pattern's text: characters, classes, anchors, groups, bars and repetitions. What a piece means can
depend on the flags in force where it stands. -/

namespace Lookahead

/-- Why a text is no pattern. -/
inductive PatternError where
  | unclosedGroup
  | unopenedGroup
  | unclosedClass
  | invertedRange
  | rangeEndNotCharacter
  | anchorInClass
  | nothingToRepeat
  | badCount
  | unfinishedEscape
  | unknownEscape (c : Char)
  | backreference
  | badCodePoint
  | badGroupName
  | duplicateGroupName (name : String)
  | badFlags
  | lookAround
  | tooLarge
  deriving DecidableEq, Repr

/-- A flag that a pattern can switch. -/
inductive Flag where
  | ignoreCase
  | multiLine
  | dotNewline
  | swapGreed
  deriving DecidableEq, Repr

/-- A piece of a pattern's text. -/
inductive Piece where
  /-- A character or a bracket expression. -/
  | chars (c : CharClass)
  /-- A class that case has no part in. -/
  | fixed (c : CharClass)
  | dot
  | caret
  | dollar
  | anchor (a : Anchor)
  | group (name : Option String) (flags : List (Flag × Bool))
  | flags (flags : List (Flag × Bool))
  | close
  | bar
  | repeated (low : Nat) (high : Option Nat) (greedy : Bool)
  deriving DecidableEq, Repr

namespace Piece

/-! ### Escapes -/

/-- What an escape stands for. -/
inductive Escape where
  | char (c : Char)
  | set (c : CharClass)
  | anchor (a : Anchor)
  deriving DecidableEq, Repr

def hexValue? (c : Char) : Option Nat :=
  if '0' ≤ c ∧ c ≤ '9' then some (c.toNat - '0'.toNat)
  else if 'a' ≤ c ∧ c ≤ 'f' then some (c.toNat - 'a'.toNat + 10)
  else if 'A' ≤ c ∧ c ≤ 'F' then some (c.toNat - 'A'.toNat + 10)
  else none

/-- The character of a hexadecimal code point. -/
def charOfHex (digits : List Char) : Except PatternError Char :=
  match digits.mapM hexValue? with
  | some (d :: ds) =>
    let n := (d :: ds).foldl (fun n d => 16 * n + d) 0
    if n.isValidChar then .ok (Char.ofNat n) else .error .badCodePoint
  | _ => .error .badCodePoint

/-- A code point of so many digits, or of any number of digits between braces. -/
def readHex (count : Nat) (text : List Char) : Except PatternError (Char × List Char) :=
  match text with
  | '{' :: rest =>
    match rest.dropWhile (· ≠ '}') with
    | _ :: after => do return (← charOfHex (rest.takeWhile (· ≠ '}')), after)
    | [] => .error .unfinishedEscape
  | _ =>
    if text.length < count then .error .unfinishedEscape
    else do return (← charOfHex (text.take count), text.drop count)

/-- Whether a backslash before a character means that character. -/
def isEscapable (c : Char) : Bool := c.toNat < 0x80 && !c.isAlphanum && c ≠ '<' && c ≠ '>'

/-- Reads what follows a backslash. Digits and word characters are those of ASCII, white space is that of any script. -/
def readEscape : List Char → Except PatternError (Escape × List Char)
  | [] => .error .unfinishedEscape
  | c :: rest =>
    match c with
    | 'x' => do let (c, rest) ← readHex 2 rest; return (.char c, rest)
    | 'u' => do let (c, rest) ← readHex 4 rest; return (.char c, rest)
    | 'U' => do let (c, rest) ← readHex 8 rest; return (.char c, rest)
    | 'd' => .ok (.set .digit, rest)
    | 'D' => .ok (.set (.compl .digit), rest)
    | 's' => .ok (.set .space, rest)
    | 'S' => .ok (.set (.compl .space), rest)
    | 'w' => .ok (.set .word, rest)
    | 'W' => .ok (.set (.compl .word), rest)
    | 'a' => .ok (.char '\x07', rest)
    | 'f' => .ok (.char '\x0c', rest)
    | 't' => .ok (.char '\t', rest)
    | 'n' => .ok (.char '\n', rest)
    | 'r' => .ok (.char '\r', rest)
    | 'v' => .ok (.char '\x0b', rest)
    | 'A' => .ok (.anchor .textStart, rest)
    | 'z' => .ok (.anchor .textEnd, rest)
    | 'b' => .ok (.anchor .wordBoundary, rest)
    | 'B' => .ok (.anchor .notWordBoundary, rest)
    | c =>
      if c.isDigit then .error .backreference
      else if isEscapable c then .ok (.char c, rest)
      else .error (.unknownEscape c)

/-! ### Bracket expressions -/

/-- How two operands of a bracket expression are joined. -/
inductive SetOp where
  | inter
  | diff
  | symmDiff
  deriving DecidableEq, Repr

def SetOp.apply : SetOp → CharClass → CharClass → CharClass
  | inter, a, b => .inter a b
  | diff, a, b => .diff a b
  | symmDiff, a, b => .symmDiff a b

/-- An open bracket: whether it is negated, the operand left of the last operator, and the items since. -/
structure Bracket where
  negated : Bool
  left : Option (SetOp × CharClass)
  items : CharClass
  deriving DecidableEq, Repr

namespace Bracket

def add (b : Bracket) (c : CharClass) : Bracket :=
  { b with items := if b.items = .none then c else .union b.items c }

/-- The operand so far; operators group to the left. -/
def operand (b : Bracket) : CharClass :=
  match b.left with
  | some (op, left) => op.apply left b.items
  | none => b.items

def operator (b : Bracket) (op : SetOp) : Bracket := { b with left := some (op, b.operand), items := .none }

/-- The class of a bracket that closes. -/
def toClass (b : Bracket) : CharClass := if b.negated then .compl b.operand else b.operand

end Bracket

/-- Reads the head of a bracket expression: a caret negates it, and hyphens right after that, or else one closing
    bracket, are plain characters. -/
def readOpening (text : List Char) : Bracket × List Char :=
  let negated := text.head? = some '^'
  let text := if negated then text.drop 1 else text
  let hyphens := text.takeWhile (· = '-')
  let bracket : Bracket := ⟨negated, none, if hyphens.isEmpty then .none else .single '-'⟩
  match hyphens, text with
  | [], ']' :: rest => (bracket.add (.single ']'), rest)
  | _, _ => (bracket, text.drop hyphens.length)

/-- Reads `[:name:]` or `[:^name:]` from behind its first bracket; other text is not of this form. -/
def readNamed? (text : List Char) : Option (CharClass × List Char) :=
  match text with
  | ':' :: rest =>
    let negated := rest.head? = some '^'
    let rest := if negated then rest.drop 1 else rest
    match rest.dropWhile (· ≠ ':') with
    | ':' :: ']' :: after =>
      (CharClass.named? (String.ofList (rest.takeWhile (· ≠ ':')))).map fun c => (if negated then .compl c else c, after)
    | _ => none
  | _ => none

/-- Reads one member of a bracket expression. -/
def readMember : List Char → Except PatternError (Escape × List Char)
  | '\\' :: rest => readEscape rest
  | c :: rest => .ok (.char c, rest)
  | [] => .error .unclosedClass

/-- Reads a member or a range. A hyphen before the closing bracket or another hyphen makes no range. -/
def readRange (text : List Char) : Except PatternError (CharClass × List Char) := do
  let (low, rest) ← readMember text
  let alone : Except PatternError (CharClass × List Char) :=
    match low with
    | .char c => .ok (.single c, rest)
    | .set c => .ok (c, rest)
    | .anchor _ => .error .anchorInClass
  match rest with
  | [] => .error .unclosedClass
  | '-' :: ']' :: _ => alone
  | '-' :: '-' :: _ => alone
  | '-' :: after =>
    let (high, rest) ← readMember after
    match low, high with
    | .char low, .char high => if low ≤ high then .ok (.between low high, rest) else .error .invertedRange
    | _, _ => .error .rangeEndNotCharacter
  | _ => alone

/-- Reads on in a bracket expression that may stand inside others. Each round reads a character at least, so as much fuel
    as there are characters is enough. -/
def readBrackets : Nat → Bracket → List Bracket → List Char → Except PatternError (CharClass × List Char)
  | 0, _, _, _ => .error .unclosedClass
  | _ + 1, _, _, [] => .error .unclosedClass
  | fuel + 1, inner, outer, text@(c :: rest) =>
    match c, rest with
    | ']', _ =>
      match outer with
      | [] => .ok (inner.toClass, rest)
      | around :: outer => readBrackets fuel (around.add inner.toClass) outer rest
    | '[', _ =>
      match readNamed? rest with
      | some (named, rest) => readBrackets fuel (inner.add named) outer rest
      | none =>
        let (opened, rest) := readOpening rest
        readBrackets fuel opened (inner :: outer) rest
    | '&', '&' :: rest => readBrackets fuel (inner.operator .inter) outer rest
    | '-', '-' :: rest => readBrackets fuel (inner.operator .diff) outer rest
    | '~', '~' :: rest => readBrackets fuel (inner.operator .symmDiff) outer rest
    | _, _ => do
      let (c, rest) ← readRange text
      readBrackets fuel (inner.add c) outer rest

/-- Reads a bracket expression from behind its first bracket. -/
def readClass (text : List Char) : Except PatternError (CharClass × List Char) :=
  let (opened, rest) := readOpening text
  readBrackets text.length opened [] rest

/-! ### Groups -/

def flag? : Char → Option Flag
  | 'i' => some .ignoreCase
  | 'm' => some .multiLine
  | 's' => some .dotNewline
  | 'U' => some .swapGreed
  | _ => none

/-- The flags of a list of letters. A hyphen, at most one and not the last, turns the rest off; no flag comes twice. -/
def readFlags (letters : List Char) : Except PatternError (List (Flag × Bool)) :=
  let on := letters.takeWhile (· ≠ '-')
  let off := letters.drop (on.length + 1)
  if on.length < letters.length ∧ off.isEmpty then .error .badFlags
  else
    match on.mapM flag?, off.mapM flag? with
    | some on, some off =>
      if (on ++ off).Nodup then .ok (on.map (·, true) ++ off.map (·, false)) else .error .badFlags
    | _, _ => .error .badFlags

def isNameChar (c : Char) : Bool := c.isAlphanum || c = '_' || c = '.' || c = '[' || c = ']'

/-- Reads a group's name up to `>`. -/
def readName (text : List Char) : Except PatternError (String × List Char) :=
  match text.takeWhile (· ≠ '>'), text.dropWhile (· ≠ '>') with
  | c :: name, '>' :: rest =>
    if (c.isAlpha || c = '_') && name.all isNameChar then .ok (String.ofList (c :: name), rest)
    else .error .badGroupName
  | _, _ => .error .badGroupName

/-- Reads what follows an opening parenthesis. -/
def readGroup : List Char → Except PatternError (Piece × List Char)
  | '?' :: '=' :: _ | '?' :: '!' :: _ | '?' :: '<' :: '=' :: _ | '?' :: '<' :: '!' :: _ => .error .lookAround
  | '?' :: 'P' :: '<' :: rest | '?' :: '<' :: rest => do
    let (name, rest) ← readName rest
    return (.group (some name) [], rest)
  | '?' :: rest => do
    let isLetter := fun c => c ≠ ':' && c ≠ ')'
    let flags ← readFlags (rest.takeWhile isLetter)
    match rest.dropWhile isLetter with
    | ':' :: rest => return (.group none flags, rest)
    | ')' :: rest => if flags.isEmpty then .error .nothingToRepeat else return (.flags flags, rest)
    | _ => .error .unclosedGroup
  | rest => .ok (.group none [], rest)

/-! ### Repetitions -/

/-- Reads the mark that makes a repetition lazy. -/
def readLazy (low : Nat) (high : Option Nat) : List Char → Piece × List Char
  | '?' :: rest => (.repeated low high false, rest)
  | rest => (.repeated low high true, rest)

/-- The largest count of a repetition. -/
def maxCount : Nat := UInt32.size - 1

/-- Reads a number with blanks on either side. -/
def readNumber (text : List Char) : Except PatternError (Nat × List Char) :=
  let text := text.dropWhile CharClass.space.contains
  let digits := text.takeWhile Char.isDigit
  let n := digits.foldl (fun n c => 10 * n + (c.toNat - '0'.toNat)) 0
  if digits.isEmpty ∨ maxCount < n then .error .badCount
  else .ok (n, (text.drop digits.length).dropWhile CharClass.space.contains)

/-- Reads a counted repetition from behind its brace: `n}`, `n,}` or `n,m}` with `n` not above `m`. -/
def readCount (text : List Char) : Except PatternError (Piece × List Char) := do
  let (low, rest) ← readNumber text
  match rest with
  | '}' :: rest => return readLazy low (some low) rest
  | ',' :: '}' :: rest => return readLazy low none rest
  | ',' :: rest =>
    let (high, rest) ← readNumber rest
    match rest with
    | '}' :: rest => if low ≤ high then return readLazy low (some high) rest else .error .badCount
    | _ => .error .badCount
  | _ => .error .badCount

/-! ### Pieces -/

/-- Reads the piece that starts with a character. -/
def readOne (c : Char) (rest : List Char) : Except PatternError (Piece × List Char) :=
  match c with
  | '.' => .ok (.dot, rest)
  | '^' => .ok (.caret, rest)
  | '$' => .ok (.dollar, rest)
  | '|' => .ok (.bar, rest)
  | ')' => .ok (.close, rest)
  | '(' => readGroup rest
  | '[' => do let (c, rest) ← readClass rest; return (.chars c, rest)
  | '*' => .ok (readLazy 0 none rest)
  | '+' => .ok (readLazy 1 none rest)
  | '?' => .ok (readLazy 0 (some 1) rest)
  | '{' => readCount rest
  | '\\' => do
    match ← readEscape rest with
    | (.char c, rest) => return (.chars (.single c), rest)
    | (.set c, rest) => return (.fixed c, rest)
    | (.anchor a, rest) => return (.anchor a, rest)
  | c => .ok (.chars (.single c), rest)

/-- The pieces of a text. Each takes a character at least, so as much fuel as there are characters is enough. -/
def readMany : Nat → List Char → Except PatternError (List Piece)
  | _, [] => .ok []
  | 0, _ => .ok []
  | fuel + 1, c :: rest => do
    let (p, rest) ← readOne c rest
    return p :: (← readMany fuel rest)

def readAll (text : List Char) : Except PatternError (List Piece) := readMany text.length text

end Piece
end Lookahead
