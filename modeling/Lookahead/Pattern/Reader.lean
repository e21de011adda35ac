import Lookahead.Pattern.Piece

/-! Patterns from their text: pieces are put together group by group under the flags in force. -/

namespace Lookahead
namespace Pattern

/-- The flags in force. -/
structure Flags where
  ignoreCase : Bool := false
  multiLine : Bool := false
  dotNewline : Bool := false
  swapGreed : Bool := false
  deriving DecidableEq, Repr

def Flags.switch (f : Flags) : Flag × Bool → Flags
  | (.ignoreCase, on) => { f with ignoreCase := on }
  | (.multiLine, on) => { f with multiLine := on }
  | (.dotNewline, on) => { f with dotNewline := on }
  | (.swapGreed, on) => { f with swapGreed := on }

def Flags.switchAll (f : Flags) (changes : List (Flag × Bool)) : Flags := changes.foldl switch f

/-- A group being read: the flags to return to after it, its complete alternatives and the items of the current one, the
    last of each first. A place where flags were switched is an item that cannot be repeated. -/
structure Level where
  outside : Flags
  alternatives : List Pattern
  items : List (Option Pattern)
  deriving DecidableEq, Repr

namespace Level

def opened (outside : Flags) : Level := ⟨outside, [], []⟩

def push (l : Level) (item : Option Pattern) : Level := { l with items := item :: l.items }

/-- The alternative being read. -/
def current (l : Level) : Pattern := concat (l.items.reverse.filterMap id)

def nextAlternative (l : Level) : Level := { l with alternatives := l.current :: l.alternatives, items := [] }

def toPattern (l : Level) : Pattern := firstOf (l.current :: l.alternatives).reverse

end Level

/-- What was read of a pattern: the flags in force, the innermost group, those around it and the names in use. -/
structure Reader where
  flags : Flags
  level : Level
  outer : List Level
  names : List String
  deriving DecidableEq, Repr

namespace Reader

def initial : Reader := ⟨{}, .opened {}, [], []⟩

def push (r : Reader) (p : Pattern) : Reader := { r with level := r.level.push (some p) }

/-- The class of a piece where case may be ignored. -/
def charsOf (f : Flags) (c : CharClass) : CharClass := if f.ignoreCase then c.ignoreCase else c

/-- Opens a group under its flags. No two groups have one name. -/
def openGroup (r : Reader) (name : Option String) (changes : List (Flag × Bool)) : Except PatternError Reader :=
  match name.filter r.names.contains with
  | some name => .error (.duplicateGroupName name)
  | none => .ok {
      flags := r.flags.switchAll changes
      level := .opened r.flags
      outer := r.level :: r.outer
      names := name.toList ++ r.names }

/-- Closes the innermost group, whose flags end with it. -/
def closeGroup (r : Reader) : Except PatternError Reader :=
  match r.outer with
  | [] => .error .unopenedGroup
  | around :: outer => .ok { r with
      flags := r.level.outside
      level := around.push (some r.level.toPattern)
      outer }

/-- The size up to which repetitions are written out. -/
def maxSize : Nat := 1 <<< 18

/-- Repeats the last item. -/
def repeatLast (r : Reader) (low : Nat) (high : Option Nat) (greedy : Bool) : Except PatternError Reader :=
  match r.level.items with
  | some p :: items =>
    if maxSize < p.size * (high.getD low + 1) then .error .tooLarge
    else .ok { r with level := { r.level with items := some (p.times (greedy != r.flags.swapGreed) low high) :: items } }
  | _ => .error .nothingToRepeat

/-- Reads a piece. -/
def step (r : Reader) : Piece → Except PatternError Reader
  | .chars c => .ok (r.push (.chars (charsOf r.flags c)))
  | .fixed c => .ok (r.push (.chars c))
  | .dot => .ok (r.push (.chars (if r.flags.dotNewline then .any else .notNewline)))
  | .caret => .ok (r.push (.anchor (if r.flags.multiLine then .lineStart else .textStart)))
  | .dollar => .ok (r.push (.anchor (if r.flags.multiLine then .lineEnd else .textEnd)))
  | .anchor a => .ok (r.push (.anchor a))
  | .group name changes => r.openGroup name changes
  | .flags changes => .ok { r with flags := r.flags.switchAll changes, level := r.level.push none }
  | .close => r.closeGroup
  | .bar => .ok { r with level := r.level.nextAlternative }
  | .repeated low high greedy => r.repeatLast low high greedy

/-- The pattern that was read, once every group is closed. -/
def finish (r : Reader) : Except PatternError Pattern :=
  if r.outer.isEmpty then .ok r.level.toPattern else .error .unclosedGroup

end Reader

/-- The pattern of a text. -/
def read (text : List Char) : Except PatternError Pattern := do
  let pieces ← Piece.readAll text
  let r ← pieces.foldlM Reader.step .initial
  r.finish

/-- The pattern of a rule's text. The text is put behind an anchor into a group before it is read, so parentheses in it
    can close that group and open another. -/
def readRule (text : String) : Except PatternError Pattern := read ("^(?:".toList ++ text.toList ++ [')'])

end Pattern
end Lookahead
