/-! What a parser knows about the language beyond its grammar: token classes, declarations, assignments. -/

namespace Lookahead

/-- The terminals with a meaning of their own, by name. A name that the grammar does not declare has no effect. -/
structure Settings where
  /-- The terminal that every identifier stands for. -/
  identifier : String := "ID"
  /-- The terminal that every integer and float literal stands for. -/
  constant : String := "CONST"
  /-- Terminals that open a declaration. -/
  typeKeywords : List String := ["int", "float"]
  /-- Terminals up to which, and with which, recovery skips. -/
  syncTerminals : List String := [";"]
  /-- Terminals that close a declaration. -/
  declarationEnds : List String := [";"]
  /-- Terminals between the declarators of a declaration. -/
  separators : List String := [","]
  assignmentOperators : List String := ["="]
  /-- Types that take integral values only. -/
  integralTypes : List String := ["int"]
  /-- The type of a float literal in messages. -/
  floatLiteralType : String := "float"
  /-- Recovery prefers the first restart point that predicts the lookahead. -/
  predictiveRestart : Bool := false
  /-- Whether the rows of the trace are kept. -/
  trace : Bool := true
  deriving DecidableEq, Repr

/-- The parts a terminal plays in a language. One terminal can play several. -/
structure Role where
  isIdentifier : Bool
  isConstant : Bool
  isTypeKeyword : Bool
  isSync : Bool
  isDeclarationEnd : Bool
  isSeparator : Bool
  isAssignment : Bool
  deriving DecidableEq, Repr

namespace Settings

/-- The parts played by the terminal of a name. -/
def role (s : Settings) (name : String) : Role where
  isIdentifier := name = s.identifier
  isConstant := name = s.constant
  isTypeKeyword := s.typeKeywords.contains name
  isSync := s.syncTerminals.contains name
  isDeclarationEnd := s.declarationEnds.contains name
  isSeparator := s.separators.contains name
  isAssignment := s.assignmentOperators.contains name

def isIntegral (s : Settings) (type : String) : Bool := s.integralTypes.contains type

end Settings
end Lookahead
