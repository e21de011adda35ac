import Lookahead.Declarations
import Lookahead.Token
import Lookahead.Machine.Settings
import Lookahead.Machine.Trace

/-! Declarations and assignments as matched terminals tell them: names are declared after a type keyword and
looked up elsewhere, and operands of an assignment are held against the type of its target. -/

namespace Lookahead

/-- How far an assignment has come. -/
inductive Assignment where
  | idle
  /-- The last identifier, which an assignment operator would make a target. -/
  | target (name : String) (type : Option String)
  /-- Right of an assignment operator. The type is known only if it takes integral values only. -/
  | operands (name : String) (integral : Option String)
  deriving DecidableEq, Repr

/-- The type of the declaration being read, the assignment being read and all declared names. -/
structure Scope where
  declaring : Option String
  assignment : Assignment
  declared : Declarations
  deriving DecidableEq, Repr

namespace Scope

/-- Outside any declaration and assignment. -/
def fresh (declared : Declarations) : Scope := ⟨none, .idle, declared⟩

/-- Whether an identifier is an operand here. -/
def inOperands (s : Scope) : Bool :=
  match s.assignment with
  | .operands _ _ => true
  | _ => false

/-- An identifier that declares: its name is inserted and may become an assignment's target. -/
def declare (s : Scope) (type : String) (t : Token) : Scope × List SemanticFault :=
  let assignment := .target t.source (some type)
  match s.declared.insert t.source (some type) t.pos with
  | .ok declared => ({ s with assignment, declared }, [])
  | .error r => ({ s with assignment }, [.redeclaration r.name r.previous])

/-- The fault of an operand of a known type, if its type is not integral and the target's is. -/
def operandFault (settings : Settings) (s : Scope) (operand : String) (found : Option String) : List SemanticFault :=
  match s.assignment, found with
  | .operands name (some expected), some found =>
    if settings.isIntegral found then [] else [.typeMismatch name expected found operand]
  | _, _ => []

/-- An identifier that is used: it must be declared. As an operand its type is checked, elsewhere it may become
    an assignment's target. -/
def resolve (settings : Settings) (s : Scope) (t : Token) : Scope × List SemanticFault :=
  let entry := s.declared.lookup t.source
  let type := entry.bind (·.type)
  let missing := if entry.isNone then [.undeclared t.source] else []
  let s' := if s.inOperands then s else { s with assignment := .target t.source type }
  (s', missing ++ operandFault settings s t.source type)

/-- A matched identifier declares inside a declaration, but not as an operand of an initializer. -/
def identifier (settings : Settings) (s : Scope) (t : Token) : Scope × List SemanticFault :=
  match s.declaring with
  | some type => if s.inOperands then s.resolve settings t else s.declare type t
  | none => s.resolve settings t

/-- A float literal is no operand for a target that takes integral values only. -/
def constant (settings : Settings) (s : Scope) (t : Token) : List SemanticFault :=
  match s.assignment with
  | .operands name (some expected) =>
    if t.kind = .float then [.typeMismatch name expected settings.floatLiteralType t.source] else []
  | _ => []

/-- The declaration after a terminal that is neither identifier nor constant. A terminal that both opens and closes
    one closes it. -/
def nextDeclaring (role : Role) (source : String) (declaring : Option String) : Option String :=
  if role.isDeclarationEnd then none
  else if role.isTypeKeyword then some source
  else declaring

/-- The assignment after a terminal that is neither identifier nor constant. -/
def nextAssignment (settings : Settings) (role : Role) : Assignment → Assignment
  | .idle => .idle
  | .target name type => if role.isAssignment then .operands name (type.filter settings.isIntegral) else .idle
  | .operands name integral =>
    if role.isDeclarationEnd || role.isSync || role.isSeparator then .idle else .operands name integral

/-- The scope after a matched terminal, and the faults of the match. -/
def observe (settings : Settings) (role : Role) (s : Scope) (t : Token) : Scope × List SemanticFault :=
  if role.isIdentifier then s.identifier settings t
  else if role.isConstant then (s, s.constant settings t)
  else
    ({ s with
        declaring := nextDeclaring role t.source s.declaring
        assignment := nextAssignment settings role s.assignment }, [])

end Scope
end Lookahead
