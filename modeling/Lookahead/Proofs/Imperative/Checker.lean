import Lookahead.Proofs.Imperative.Compile
import Lookahead.Proofs.Imperative.Syntax

/-! The checks of the language, statement by statement. A run has no program to go through, only one token after the other:
what it keeps of declarations and assignments is enough to find the same. -/

namespace Lookahead
namespace Imperative

/-! ### Checks of programs -/

abbrev Finding := SemanticFault × Position

/-- A name that is used must be declared. -/
def lookUp (d : Declarations) (t : Token) : List Finding :=
  if d.contains t.source then [] else [(.undeclared t.source, t.pos)]

def typeOf (d : Declarations) (t : Token) : Option String := (d.lookup t.source).bind (·.type)

namespace Atom

def lookUp (d : Declarations) : Atom → List Finding
  | name t => Imperative.lookUp d t
  | literal _ => []

def isFloat (d : Declarations) : Atom → Bool
  | name t => typeOf d t = some "float"
  | literal t => t.kind = .float

/-- An operand of a value for a name of some type: an `int` takes no `float`. -/
def check (d : Declarations) (target : String) (type : Option String) (a : Atom) : List Finding :=
  let mismatched := type = some "int" ∧ a.isFloat d
  a.lookUp d ++ if mismatched then [(.typeMismatch target "int" "float" a.token.source, a.token.pos)] else []

end Atom

/-- Visits the operands of an expression from left to right. -/
def Expr.visit (f : Atom → List Finding) {r : Rank} : Expr r → List Finding
  | atom a => f a
  | group e => e.visit f
  | factor e => e.visit f
  | product left _ right => left.visit f ++ right.visit f
  | term e => e.visit f
  | sum left _ right => left.visit f ++ right.visit f

namespace Declarator

/-- A name is recorded with its type unless it is declared already. -/
def insert (type : String) (d : Declarations) (x : Declarator) : Declarations × List Finding :=
  match d.insert x.name.source (some type) x.name.pos with
  | .ok next => (next, [])
  | .error r => (d, [(.redeclaration r.name r.previous, x.name.pos)])

/-- The name is recorded first, and then its value is checked against the type. -/
def check (type : String) (d : Declarations) (x : Declarator) : Declarations × List Finding :=
  let (next, redeclared) := x.insert type d
  let mismatched := match x.initial with
    | none => []
    | some e => e.visit (Atom.check next x.name.source (some type))
  (next, redeclared ++ mismatched)

end Declarator

def Statement.check (d : Declarations) : Statement → Declarations × List Finding
  | declare type first others => collect (Declarator.check type) d (first :: others)
  | assign target value =>
    (d, lookUp d target ++ value.visit (Atom.check d target.source (typeOf d target)))
  | stepBefore _ target => (d, lookUp d target)
  | stepBehind target _ => (d, lookUp d target)

def Condition.check (d : Declarations) (c : Condition) : List Finding :=
  c.left.visit (Atom.lookUp d) ++ c.right.visit (Atom.lookUp d)

/-- Statements are checked in order, and those of a loop in the loop's place. -/
def Block.check (d : Declarations) : Block → Declarations × List Finding
  | done => (d, [])
  | simple s next =>
    let (between, here) := s.check d
    let (last, later) := next.check between
    (last, here ++ later)
  | loop c body next =>
    let (between, inside) := body.check d
    let (last, later) := next.check between
    (last, c.check d ++ (inside ++ later))

/-! ### Words as a run sees them -/

def Word.observe (s : Scope) : Word → Scope × List Finding
  | fixed text =>
    ({ s with
        declaring := Scope.nextDeclaring (settings.role text) text s.declaring
        assignment := Scope.nextAssignment settings (settings.role text) s.assignment }, [])
  | atom (.name t) =>
    let (next, faults) := s.identifier settings t
    (next, faults.map (·, t.pos))
  | atom (.literal t) => (s, (s.constant settings t).map (·, t.pos))

theorem observe_of_fits {g : Grammar} {trace : Bool} {w : Word} {t : Token} (s : Scope) (fits : w.Fits (machine g trace) t) :
    w.observe s = (machine g trace).observe s t := by
  cases w with
  | fixed text =>
    obtain ⟨named, identifier, constant⟩ := fits
    obtain rfl : t.source = text := by
      rcases (Machine.of_terminalName? named).2 with same | classed | classed
      · exact same
      · exact absurd classed identifier
      · exact absurd classed constant
    have unnamed : ((machine g trace).settings.role t.source).isIdentifier = false := decide_eq_false identifier
    have valueless : ((machine g trace).settings.role t.source).isConstant = false := decide_eq_false constant
    simp only [Machine.observe, named, Scope.observe, unnamed, valueless]
    rfl
  | atom a =>
    obtain ⟨named, rfl⟩ := fits
    rw [Machine.observe, named]
    cases a with
    | name t => rfl
    | literal t => rfl

theorem collect_of_spells {g : Grammar} {trace : Bool} {words : List Word} {tokens : List Token} {s : Scope}
    (spelled : Spells (machine g trace) words tokens) :
    collect Word.observe s words = collect (machine g trace).observe s tokens :=
  collect_congr (fun s _ _ fits => observe_of_fits s fits) spelled

/-! ### Names and their types -/

/-- Every name is recorded with a type of the language. -/
def Typed (d : Declarations) : Prop := ∀ e ∈ d.entries, e.type = some "int" ∨ e.type = some "float"

theorem Typed.typeOf {d : Declarations} (typed : Typed d) (t : Token) :
    typeOf d t = none ∨ typeOf d t = some "int" ∨ typeOf d t = some "float" := by
  unfold Imperative.typeOf
  cases found : d.lookup t.source with
  | none => exact Or.inl rfl
  | some e => exact Or.inr (typed e (List.mem_of_find?_eq_some found))

theorem typed_insert {d : Declarations} (typed : Typed d) (type : Choice ["int", "float"]) (x : Declarator) :
    Typed (x.insert type d).1 := by
  unfold Declarator.insert Declarations.insert
  cases d.lookup x.name.source with
  | some e => exact typed
  | none =>
    intro e member
    rcases List.mem_append.mp member with old | new
    · exact typed e old
    · rw [List.mem_singleton.mp new]
      exact (List.mem_pair.mp type.2).imp (congrArg some) (congrArg some)

theorem filter_isIntegral (type : Option String) :
    type.filter settings.isIntegral = if type = some "int" then some "int" else none := by
  cases type with
  | none => rfl
  | some type =>
    by_cases same : type = "int"
    · subst same
      rfl
    · simp [settings, Settings.isIntegral, same]

/-! ### Words in a scope -/

/-- What is around the operands of expressions and conditions. -/
def expressionTexts : List String := ["(", ")", "*", "/", "+", "-", "<", ">"]

/-- Words that do not end or part declarations, begin none and assign nothing. -/
def inertTexts : List String := expressionTexts ++ ["++", "--", "main", "while", "\x7d"]

section Observe
variable {d : Declarations} {declaring : Option String} {a : Assignment} {text : String}

/-- An inert word makes no target of the name before it, and changes nothing else. -/
theorem observe_inert (listed : text ∈ inertTexts) :
    Word.observe ⟨declaring, a, d⟩ (.fixed text) =
      (⟨declaring, match a with | .operands _ _ => a | _ => .idle, d⟩, []) := by
  have inert : ∀ text ∈ inertTexts, settings.role text = ⟨false, false, false, false, false, false, false⟩ := by decide
  rw [Word.observe, inert text listed]
  cases a <;> rfl

/-- A semicolon or an opening brace ends whatever is being read. -/
theorem observe_end (text : String) (listed : text ∈ [";", "\x7b"]) :
    Word.observe ⟨declaring, a, d⟩ (.fixed text) = (.fresh d, []) := by
  rcases List.mem_pair.mp listed with rfl | rfl <;> cases a <;> rfl

theorem observe_comma : Word.observe ⟨declaring, a, d⟩ (.fixed ",") = (⟨declaring, .idle, d⟩, []) := by
  cases a <;> rfl

theorem observe_type (type : Choice ["int", "float"]) :
    Word.observe (.fresh d) (.fixed type) = (⟨some type, .idle, d⟩, []) := by
  obtain ⟨type, listed⟩ := type
  rcases List.mem_pair.mp listed with rfl | rfl <;> rfl

theorem observe_equals {name : String} {type : Option String} :
    Word.observe ⟨declaring, .target name type, d⟩ (.fixed "=") =
      (⟨declaring, .operands name (type.filter settings.isIntegral), d⟩, []) := rfl

/-- A name that does not declare is looked up. Outside of a value it may become a target. -/
theorem observe_name {s : Scope} {t : Token} (used : s.identifier settings t = s.resolve settings t) :
    Word.observe s (.atom (.name t)) =
      (if s.inOperands then s else { s with assignment := .target t.source (typeOf s.declared t) },
        lookUp s.declared t ++ (s.operandFault settings t.source (typeOf s.declared t)).map (·, t.pos)) := by
  have missing : (if (s.declared.lookup t.source).isNone then [.undeclared t.source] else []).map (·, t.pos) =
      lookUp s.declared t := by
    unfold lookUp Declarations.contains
    cases s.declared.lookup t.source <;> rfl
  simp only [Word.observe, used, Scope.resolve, List.map_append, missing]
  rfl

theorem observe_use (t : Token) (outside : ∀ name type, a ≠ .operands name type) :
    Word.observe ⟨none, a, d⟩ (.atom (.name t)) = (⟨none, .target t.source (typeOf d t), d⟩, lookUp d t) := by
  cases a with
  | operands name type => exact absurd rfl (outside name type)
  | idle => exact (observe_name rfl).trans (congrArg (Prod.mk _) (List.append_nil _))
  | target name type => exact (observe_name rfl).trans (congrArg (Prod.mk _) (List.append_nil _))

theorem observe_declared (type : String) (x : Declarator) :
    Word.observe ⟨some type, .idle, d⟩ (.atom (.name x.name)) =
      (⟨some type, .target x.name.source (some type), (x.insert type d).1⟩, (x.insert type d).2) := by
  unfold Declarator.insert
  simp only [Word.observe, Scope.identifier, Scope.inOperands, Scope.declare]
  cases d.insert x.name.source (some type) x.name.pos <;> rfl

theorem observe_operand (typed : Typed d) (target : String) (type : Option String) (a : Atom) :
    Word.observe ⟨declaring, .operands target (type.filter settings.isIntegral), d⟩ (.atom a) =
      (⟨declaring, .operands target (type.filter settings.isIntegral), d⟩, a.check d target type) := by
  rw [filter_isIntegral]
  cases a with
  | literal t =>
    by_cases integral : type = some "int"
    · by_cases float : t.kind = .float
      · simp [Word.observe, Scope.constant, Atom.check, Atom.lookUp, Atom.isFloat, integral, float, Atom.token, settings]
      · simp [Word.observe, Scope.constant, Atom.check, Atom.lookUp, Atom.isFloat, integral, float]
    · simp [Word.observe, Scope.constant, Atom.check, Atom.lookUp, integral]
  | name t =>
    rw [observe_name (by cases declaring <;> rfl), Atom.check]
    refine congrArg (Prod.mk _) (congrArg (lookUp d t ++ ·) ?_)
    by_cases integral : type = some "int"
    · -- What is recorded as no `int` is a `float`.
      rcases typed.typeOf t with found | found | found
      · simp [Scope.operandFault, Atom.isFloat, integral, found]
      · simp [Scope.operandFault, Atom.isFloat, integral, found, Settings.isIntegral, settings]
      · simp [Scope.operandFault, Atom.isFloat, integral, found, Settings.isIntegral, settings, Atom.token]
    · simp [Scope.operandFault, integral]

end Observe

/-! ### Expressions -/

/-- Scopes that parentheses and operators leave as they are up to what counts, as do operands, in each of which something
    is found. -/
structure Visits (stays : Scope → Prop) (f : Atom → List Finding) : Prop where
  fixed : ∀ {s}, stays s → ∀ text ∈ expressionTexts, ∃ next, stays next ∧ Word.observe s (.fixed text) = (next, [])
  atom : ∀ {s}, stays s → ∀ a, ∃ next, stays next ∧ Word.observe s (.atom a) = (next, f a)

namespace Visits
variable {stays : Scope → Prop} {f : Atom → List Finding} {s : Scope}

theorem binary (visits : Visits stays f) {texts : List String} (known : texts ⊆ expressionTexts) (op : Choice texts)
    {left right : List Word} {here later : List Finding}
    (first : ∃ mid, stays mid ∧ collect Word.observe s left = (mid, here))
    (second : ∀ {s}, stays s → ∃ last, stays last ∧ collect Word.observe s right = (last, later)) :
    ∃ last, stays last ∧ collect Word.observe s (left ++ .fixed op :: right) = (last, here ++ later) := by
  obtain ⟨mid, stay, before⟩ := first
  obtain ⟨next, stay, operator⟩ := visits.fixed stay op (known op.2)
  obtain ⟨last, stay, behind⟩ := second stay
  exact ⟨last, stay, collect_append before (collect_cons operator behind)⟩

theorem expr (visits : Visits stays f) {r : Rank} (e : Expr r) (start : stays s) :
    ∃ last, stays last ∧ collect Word.observe s e.words = (last, e.visit f) := by
  induction e generalizing s with
  | atom a =>
    obtain ⟨last, stay, here⟩ := visits.atom start a
    exact ⟨last, stay, collect_singleton here⟩
  | group e ih =>
    obtain ⟨inside, stay, left⟩ := visits.fixed start "(" (by decide)
    obtain ⟨behind, stay, inner⟩ := ih stay
    obtain ⟨last, stay, right⟩ := visits.fixed stay ")" (by decide)
    have whole := collect_cons left (collect_append inner (collect_singleton right))
    rw [List.nil_append, List.append_nil] at whole
    exact ⟨last, stay, whole⟩
  | factor e ih => exact ih start
  | product left op right ihl ihr => exact visits.binary (by decide) op (ihl start) ihr
  | term e ih => exact ih start
  | sum left op right ihl ihr => exact visits.binary (by decide) op (ihl start) ihr

end Visits

section Programs
variable {d : Declarations} {declaring : Option String} {a : Assignment}

theorem collect_value (typed : Typed d) (target : String) (type : Option String) {r : Rank} (e : Expr r) :
    collect Word.observe ⟨declaring, .operands target (type.filter settings.isIntegral), d⟩ e.words =
      (⟨declaring, .operands target (type.filter settings.isIntegral), d⟩, e.visit (Atom.check d target type)) := by
  have visits : Visits (· = ⟨declaring, .operands target (type.filter settings.isIntegral), d⟩)
      (Atom.check d target type) := by
    refine ⟨?_, ?_⟩
    · rintro _ rfl text listed
      exact ⟨_, rfl, observe_inert (List.mem_append_left _ listed)⟩
    · rintro _ rfl a
      exact ⟨_, rfl, observe_operand typed target type a⟩
  obtain ⟨_, rfl, whole⟩ := visits.expr e rfl
  exact whole

theorem collect_condition (c : Condition) :
    ∃ a, collect Word.observe (.fresh d) c.words = (⟨none, a, d⟩, c.check d) := by
  -- A name may become a target that the next operator drops, so that the assignment is not always the same.
  have visits : Visits (fun s => ∃ a, (∀ name type, a ≠ .operands name type) ∧ s = ⟨none, a, d⟩) (Atom.lookUp d) := by
    refine ⟨?_, ?_⟩
    · rintro _ ⟨a, outside, rfl⟩ text listed
      refine ⟨_, ⟨.idle, nofun, rfl⟩, (observe_inert (List.mem_append_left _ listed)).trans ?_⟩
      cases a with
      | operands name type => exact absurd rfl (outside name type)
      | idle => rfl
      | target name type => rfl
    · rintro _ ⟨a, outside, rfl⟩ operand
      cases operand with
      | name t => exact ⟨_, ⟨.target t.source (typeOf d t), by simp, rfl⟩, observe_use t outside⟩
      | literal t =>
        refine ⟨_, ⟨a, outside, rfl⟩, ?_⟩
        cases a with
        | operands name type => exact absurd rfl (outside name type)
        | idle => rfl
        | target name type => rfl
  have start : ∃ a, (∀ name type, a ≠ .operands name type) ∧ Scope.fresh d = ⟨none, a, d⟩ := ⟨.idle, by simp, rfl⟩
  obtain ⟨_, ⟨a, -, rfl⟩, whole⟩ := visits.binary (by decide) c.op (visits.expr c.left start) (visits.expr c.right)
  exact ⟨a, whole⟩

theorem typed_check (typed : Typed d) (type : Choice ["int", "float"]) (x : Declarator) : Typed (x.check type d).1 :=
  typed_insert typed type x

/-- Behind a declarator the declaration is still going on. -/
theorem collect_declarator (typed : Typed d) (type : Choice ["int", "float"]) (x : Declarator) :
    ∃ a, collect Word.observe ⟨some type, .idle, d⟩ x.words = (⟨some type, a, (x.check type d).1⟩, (x.check type d).2) := by
  have declared := observe_declared (d := d) type x
  have recorded := typed_insert typed type x
  simp only [Declarator.words, Declarator.check]
  cases x.initial with
  | none => exact ⟨_, collect_cons declared rfl⟩
  | some e => exact ⟨_, collect_cons declared (collect_cons observe_equals (collect_value recorded _ _ e))⟩

theorem collect_others (typed : Typed d) (type : Choice ["int", "float"]) (xs : List Declarator) :
    ∃ a', collect Word.observe ⟨some type, a, d⟩ (otherWords xs) =
      (⟨some type, a', (collect (Declarator.check type) d xs).1⟩, (collect (Declarator.check type) d xs).2) := by
  induction xs generalizing d a with
  | nil => exact ⟨a, rfl⟩
  | cons x xs ih =>
    obtain ⟨between, here⟩ := collect_declarator typed type x
    obtain ⟨last, later⟩ := ih (typed_check typed type x) (a := between)
    have whole := collect_cons (observe_comma (a := a)) (collect_append here later)
    exact ⟨last, whole⟩

theorem typed_declarators (typed : Typed d) (type : Choice ["int", "float"]) (xs : List Declarator) :
    Typed (collect (Declarator.check type) d xs).1 := by
  induction xs generalizing d with
  | nil => exact typed
  | cons x xs ih => exact ih (typed_check typed type x)

/-! ### Statements -/

theorem Statement.typed_check (typed : Typed d) (s : Statement) : Typed (s.check d).1 := by
  cases s with
  | declare type first others => exact typed_declarators typed type (first :: others)
  | assign _ _ => exact typed
  | stepBefore _ _ => exact typed
  | stepBehind _ _ => exact typed

/-- A statement leaves nothing of itself behind but what it declares. -/
theorem collect_statement (typed : Typed d) (s : Statement) :
    collect Word.observe (.fresh d) s.words = (.fresh (s.check d).1, (s.check d).2) := by
  have steps : ["++", "--"] ⊆ inertTexts := by decide
  cases s with
  | declare type first others =>
    obtain ⟨between, here⟩ := collect_declarator typed type first
    obtain ⟨last, later⟩ := collect_others (Imperative.typed_check typed type first) type others (a := between)
    have whole := collect_cons (observe_type type) (collect_append (collect_append here later)
      (collect_singleton (observe_end ";" (by decide))))
    rw [List.nil_append, List.append_nil] at whole
    exact whole
  | assign target value =>
    have whole := collect_cons (observe_use (d := d) (a := .idle) target (by simp)) (collect_cons observe_equals
      (collect_append (collect_value typed target.source (typeOf d target) value)
        (collect_singleton (observe_end ";" (by decide)))))
    rw [List.nil_append, List.append_nil] at whole
    exact whole
  | stepBefore op target =>
    have step : Word.observe (.fresh d) (.fixed op) = (.fresh d, []) := observe_inert (steps op.2)
    have whole := collect_cons step (collect_cons (observe_use (d := d) (a := .idle) target (by simp))
      (collect_singleton (observe_end ";" (by decide))))
    rw [List.nil_append, List.append_nil] at whole
    exact whole
  | stepBehind target op =>
    have step : Word.observe ⟨none, .target target.source (typeOf d target), d⟩ (.fixed op) = (.fresh d, []) :=
      observe_inert (steps op.2)
    have whole := collect_cons (observe_use (d := d) (a := .idle) target (by simp)) (collect_cons step
      (collect_singleton (observe_end ";" (by decide))))
    rw [List.nil_append, List.append_nil] at whole
    exact whole

theorem Block.typed_check (typed : Typed d) (b : Block) : Typed (b.check d).1 := by
  induction b generalizing d with
  | done => exact typed
  | simple s next ih => exact ih (s.typed_check typed)
  | loop c body next ihb ihn => exact ihn (ihb typed)

theorem collect_block (typed : Typed d) (b : Block) :
    collect Word.observe (.fresh d) b.words = (.fresh (b.check d).1, (b.check d).2) := by
  induction b generalizing d with
  | done => rfl
  | simple s next ih => exact collect_append (collect_statement typed s) (ih (s.typed_check typed))
  | loop c body next ihb ihn =>
    have head : Word.observe (.fresh d) (.fixed "while") = (.fresh d, []) := observe_inert (by decide)
    have left : Word.observe (.fresh d) (.fixed "(") = (.fresh d, []) := observe_inert (by decide)
    obtain ⟨a, condition⟩ := collect_condition (d := d) c
    have right : Word.observe ⟨none, a, d⟩ (.fixed ")") = (_, []) := observe_inert (by decide)
    have last : Word.observe (.fresh (body.check d).1) (.fixed "\x7d") = (.fresh (body.check d).1, []) :=
      observe_inert (by decide)
    have behind := collect_append (ihb typed) (collect_cons last (ihn (body.typed_check typed)))
    have braces := collect_cons right (collect_cons (observe_end "\x7b" (by decide)) behind)
    have whole := collect_cons head (collect_cons left (collect_append condition braces))
    exact whole

theorem collect_program (typed : Typed d) (b : Block) :
    collect Word.observe (.fresh d) b.program = (.fresh (b.check d).1, (b.check d).2) := by
  -- The head starts like a declaration, but its brace ends it before a name comes up.
  have head : collect Word.observe (.fresh d)
      [.fixed "int", .fixed "main", .fixed "(", .fixed ")", .fixed "\x7b"] = (.fresh d, []) := rfl
  have last : Word.observe (.fresh (b.check d).1) (.fixed "\x7d") = (.fresh (b.check d).1, []) := observe_inert (by decide)
  have whole := collect_append (collect_append head (collect_block typed b)) (collect_singleton last)
  rw [List.nil_append, List.append_nil] at whole
  exact whole

end Programs

/-! ### Accepted sources -/

section Language
variable {g : Grammar} (language : IsLanguage g) (trace : Bool) (source : String)
  (accepted : (compileWith (machine g trace) source).outcome = .accept)
include language accepted

/-- The tokens of an accepted source are those of a program. -/
theorem program_compileWith :
    ∃ b : Block, Spells (machine g trace) b.program ((Scan.ofText rules source).tokens.takeWhile (!·.isEof)) := by
  obtain ⟨word, reads, derived⟩ := (accepts_compileWith language trace source).mp accepted
  rw [takeWhile_tokens]
  exact program_of_derives (m := machine g trace) language reads derived

/-- A run over the tokens of a program finds what the checks of the program do. -/
theorem check_compileWith {b : Block}
    (spelled : Spells (machine g trace) b.program ((Scan.ofText rules source).tokens.takeWhile (!·.isEof))) :
    (compileWith (machine g trace) source).declared = (b.check .empty).1 ∧
      Diagnostic.ofSeverity .semantic (compileWith (machine g trace) source).diagnostics =
        (b.check .empty).2.map fun (f, pos) => ⟨.semantic, f.message, pos⟩ := by
  have words := collect_program (d := .empty) (fun _ member => nomatch member) b
  rw [collect_of_spells spelled] at words
  obtain ⟨declared, findings⟩ := Machine.parse_observed accepted words
  refine ⟨declared, ?_⟩
  rw [ofSeverity_compileWith language trace source (by simp)]
  exact findings

end Language

/-- An accepted source is the text of a program, and what it declares and what is found in it beyond its syntax are what
    the checks of the program say. -/
theorem compile_checks {source : String} {trace : Bool} {c : Compilation} (compiled : compile source trace = .ok c)
    (accepted : c.outcome = .accept) :
    (∃ b : Block, Spells c.machine b.program (c.tokens.takeWhile (!·.isEof))) ∧
    ∀ b : Block, Spells c.machine b.program (c.tokens.takeWhile (!·.isEof)) →
      c.declared = (b.check .empty).1 ∧
      Diagnostic.ofSeverity .semantic c.diagnostics =
        (b.check .empty).2.map fun (f, pos) => ⟨.semantic, f.message, pos⟩ := by
  obtain ⟨g, result, language⟩ := grammar_isLanguage
  cases (compile_eq result source trace).symm.trans compiled
  exact ⟨program_compileWith language trace source accepted,
    fun b => check_compileWith language trace source accepted⟩

/-- A source whose syntax is right, but that misuses names and types. -/
def misuse : String := "int main()\x7bint a=b,a=1.5;float f;while(f<c)\x7ba=f+2.5;\x7dd=f;\x7d"

def misuseDeclared : List (String × Option String) := [("a", some "int"), ("f", some "float")]

/-- What is wrong with `misuse`, with the columns. -/
def misuseFound : List (String × Nat) := [
  ((SemanticFault.undeclared "b").message, 18),
  ((SemanticFault.redeclaration "a" ⟨1, 16⟩).message, 20),
  ((SemanticFault.typeMismatch "a" "int" "float" "1.5").message, 22),
  ((SemanticFault.undeclared "c").message, 42),
  ((SemanticFault.typeMismatch "a" "int" "float" "f").message, 47),
  ((SemanticFault.typeMismatch "a" "int" "float" "2.5").message, 49),
  ((SemanticFault.undeclared "d").message, 54)]

theorem compile_checks_misuse : ∃ c b, compile misuse true = .ok c ∧ c.outcome = .accept ∧
    Spells c.machine (Block.program b) (c.tokens.takeWhile (!·.isEof)) ∧
    (b.check .empty).1.entries.map (fun e => (e.name, e.type)) = misuseDeclared ∧
    (b.check .empty).2.map (fun (f, pos) => (f.message, pos.column)) = misuseFound := by
  have evaluated : (match compile misuse true with
      | .ok c => decide (c.outcome = .accept ∧ c.declared.entries.map (fun e => (e.name, e.type)) = misuseDeclared ∧
          (Diagnostic.ofSeverity .semantic c.diagnostics).map (fun d => (d.message, d.pos.column)) = misuseFound)
      | .error _ => false) = true := by
    decide +kernel
  cases compiled : compile misuse true with
  | error defect =>
    rw [compiled] at evaluated
    cases evaluated
  | ok c =>
    rw [compiled] at evaluated
    obtain ⟨accepted, declared, found⟩ := of_decide_eq_true evaluated
    obtain ⟨⟨b, spelled⟩, checks⟩ := compile_checks compiled accepted
    obtain ⟨same, findings⟩ := checks b spelled
    rw [findings, List.map_map] at found
    exact ⟨c, b, rfl, accepted, spelled, same ▸ declared, found⟩

end Imperative
end Lookahead
