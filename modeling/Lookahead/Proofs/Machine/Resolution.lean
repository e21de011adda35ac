import Lookahead.Proofs.Machine.History

/-! What a run says about names and types can be read off its history: which names it declares and where, which it finds
declared twice or not at all, and which operands do not fit the type of the target before them. The scope that a run carries
along is no more than what its past tells. -/

namespace Lookahead

def SemanticFault.isTypeMismatch : SemanticFault → Bool
  | typeMismatch _ _ _ _ => true
  | _ => false

namespace Machine
variable {m : Machine} {known : Declarations} {past history : List Portion} {n : Nat} {t : Token} {p : Portion}

/-! ### The scope that the past tells -/

def assignmentAfter (m : Machine) (known : Declarations) (past : List Portion) : Assignment :=
  match m.target? past with
  | some (earlier, target) => .operands target.source ((m.typeThere? known earlier target).filter m.settings.isIntegral)
  | none =>
    match m.lastIdentifier? past with
    | some (earlier, t) => .target t.source (m.typeThere? known earlier t)
    | none => .idle

/-- The scope as the past tells it. -/
def scopeAfter (m : Machine) (known : Declarations) (past : List Portion) : Scope where
  declaring := m.typeInForce? past
  assignment := m.assignmentAfter known past
  declared := m.declaredAfter known past

/-- No assignment operator of the grammar ends an initializer. -/
def OperatorsApart (m : Machine) : Prop :=
  ∀ name ∈ m.grammar.terminals, name ∈ m.settings.assignmentOperators →
    name ∉ m.settings.declarationEnds ∧ name ∉ m.settings.syncTerminals ∧ name ∉ m.settings.separators

instance : Decidable m.OperatorsApart := inferInstanceAs (Decidable (∀ name ∈ m.grammar.terminals, _))

theorem OperatorsApart.not_closes (apart : m.OperatorsApart) (column : m.column? t = some (.terminal n))
    (operator : m.plays (·.isAssignment) (.matched n t) = true) : m.closes (.matched n t) = false := by
  have name : m.terminalName? t = some (m.grammar.name (.terminal n)) := by rw [terminalName?, column]
  simp only [plays, role, Settings.role, List.contains_iff_mem, Bool.and_eq_true] at operator
  obtain ⟨ending, sync, separator⟩ := apart _ (of_terminalName? name).1 operator.2
  simp [closes, plays, role, Settings.role, Portion.isMatch, ending, sync, separator]

theorem scopeAfter_nil : m.scopeAfter known [] = .fresh known := by
  have declared : m.declaredAfter known [] = known := by
    simp [declaredAfter, declarationsIn, throughout, Declarations.extended, Declarations.firstOf]
  rw [scopeAfter, declared]
  rfl

/-- A recovery leaves nothing of the past but the declared names. -/
theorem scopeAfter_recovered (recovered : p.isMatch = false) :
    m.scopeAfter known (past ++ [p]) = .fresh (m.declaredAfter known past) := by
  have name : m.isIdentifier p = false := by cases p <;> simp_all [Portion.isMatch, isIdentifier]
  have literal : m.isConstant p = false := by cases p <;> simp_all [Portion.isMatch, isConstant]
  have operator : m.plays (·.isAssignment) p = false := by cases p <;> simp_all [Portion.isMatch, plays]
  have type : m.typeInForce? (past ++ [p]) = none := by
    cases p <;> simp_all [typeInForce?, List.filter_append, Portion.isMatch]
  rw [scopeAfter, type, assignmentAfter, target?_closed (by simp [closes, recovered]) operator,
    lastIdentifier?_other name literal, declaredAfter_other name]
  rfl

theorem inOperands_scopeAfter : (m.scopeAfter known past).inOperands = (m.opening? past).isSome := by
  rw [← isSome_target?]
  simp only [Scope.inOperands, scopeAfter, assignmentAfter]
  cases m.target? past with
  | some _ => rfl
  | none => cases m.lastIdentifier? past <;> rfl

/-- An identifier declares where it has a type to be declared under. -/
theorem identifier_scopeAfter : (m.scopeAfter known past).identifier m.settings t =
    match m.declaresAs? past with
    | some type => (m.scopeAfter known past).declare type t
    | none => (m.scopeAfter known past).resolve m.settings t := by
  rw [Scope.identifier, inOperands_scopeAfter, declaresAs?, scopeAfter]
  cases m.opening? past <;> cases m.typeInForce? past <;> rfl

theorem operandFault_scopeAfter (name : (m.role n).isIdentifier = true) :
    Scope.operandFault m.settings (m.scopeAfter known past) t.source
      (((m.declaredAfter known past).lookup t.source).bind (·.type)) = m.typeFaults known past n t := by
  simp only [Scope.operandFault, scopeAfter, assignmentAfter, typeFaults, unfit?, name, if_true]
  cases m.target? past with
  | none => cases m.lastIdentifier? past <;> rfl
  | some x =>
    dsimp only
    cases (m.typeThere? known x.1 x.2).filter m.settings.isIntegral with
    | none => rfl
    | some expected =>
      cases ((m.declaredAfter known past).lookup t.source).bind (·.type) with
      | none => rfl
      | some found => cases fits : m.settings.isIntegral found <;> simp [Option.filter, fits]

theorem constant_scopeAfter (name : (m.role n).isIdentifier = false) (literal : (m.role n).isConstant = true) :
    (m.scopeAfter known past).constant m.settings t = m.typeFaults known past n t := by
  simp only [Scope.constant, scopeAfter, assignmentAfter, typeFaults, unfit?, name, literal, Bool.true_and]
  cases m.target? past with
  | none => cases m.lastIdentifier? past <;> rfl
  | some x =>
    dsimp only
    cases (m.typeThere? known x.1 x.2).filter m.settings.isIntegral with
    | none => rfl
    | some expected => by_cases float : t.kind = .float <;> simp [float]

theorem assignmentAfter_identifier (name : (m.role n).isIdentifier = true) :
    m.assignmentAfter known (past ++ [.matched n t]) =
      if (m.opening? past).isSome then m.assignmentAfter known past else .target t.source (m.typeThere? known past t) := by
  have none_opened : m.plays (·.isAssignment) (.matched n t) = false := by simp [plays, name]
  rw [← isSome_target?, assignmentAfter, target?_concat (by simp [closes, Portion.isMatch, plays, name]), none_opened,
    lastIdentifier?_identifier name, assignmentAfter]
  cases m.target? past <;> rfl

theorem assignmentAfter_constant (name : (m.role n).isIdentifier = false) (literal : (m.role n).isConstant = true) :
    m.assignmentAfter known (past ++ [.matched n t]) = m.assignmentAfter known past := by
  have none_opened : m.plays (·.isAssignment) (.matched n t) = false := by simp [plays, literal]
  rw [assignmentAfter, target?_concat (by simp [closes, Portion.isMatch, plays, literal]), none_opened,
    lastIdentifier?_constant (by simp [isConstant, name, literal]), assignmentAfter]
  cases m.target? past <;> rfl

theorem assignmentAfter_plain (apart : m.OperatorsApart) (column : m.column? t = some (.terminal n))
    (name : (m.role n).isIdentifier = false) (literal : (m.role n).isConstant = false) :
    m.assignmentAfter known (past ++ [.matched n t]) =
      Scope.nextAssignment m.settings (m.role n) (m.assignmentAfter known past) := by
  have plays : ∀ part, m.plays part (.matched n t) = part (m.role n) := fun part => by simp [plays, name, literal]
  have last : m.lastIdentifier? (past ++ [.matched n t]) = none :=
    lastIdentifier?_other (by simp [isIdentifier, name]) (by simp [isConstant, literal])
  have closes : m.closes (.matched n t) =
      ((m.role n).isDeclarationEnd || (m.role n).isSync || (m.role n).isSeparator) := by
    simp [closes, Portion.isMatch, plays]
  cases closed : m.closes (.matched n t) with
  | true =>
    -- An operator that closed an initializer would also open one, behind the identifier before it.
    have other : m.plays (·.isAssignment) (.matched n t) = false :=
      Bool.eq_false_iff.mpr fun operator => by simp [apart.not_closes column operator] at closed
    rw [assignmentAfter, target?_closed closed other, last, assignmentAfter]
    rw [plays] at other
    rw [closes] at closed
    cases m.target? past with
    | some _ => simp [Scope.nextAssignment, closed]
    | none => cases m.lastIdentifier? past <;> simp [Scope.nextAssignment, other]
  | false =>
    rw [assignmentAfter, target?_concat closed, last, plays, assignmentAfter]
    rw [closes] at closed
    cases m.target? past with
    | some _ => simp [Scope.nextAssignment, closed]
    | none =>
      cases m.lastIdentifier? past with
      | none => simp [Scope.nextAssignment]
      | some _ => cases operator : (m.role n).isAssignment <;> simp [Scope.nextAssignment, operator]

theorem outside_of_declares {type : String} (declares : m.declaresAs? past = some type) :
    (m.opening? past).isSome = false := by
  by_contra inside
  simp [declaresAs?, inside] at declares

theorem declare_scopeAfter {type : String} (name : (m.role n).isIdentifier = true)
    (declares : m.declaresAs? past = some type) :
    (m.scopeAfter known past).declare type t =
      (m.scopeAfter known (past ++ [.matched n t]), m.nameFaults known past n t) := by
  have scope : m.scopeAfter known (past ++ [.matched n t]) =
      { m.scopeAfter known past with
        assignment := .target t.source (some type)
        declared := (m.declaredAfter known past).insertNew t.source (some type) t.pos } := by
    rw [scopeAfter, typeInForce?_identifier name, assignmentAfter_identifier name, outside_of_declares declares,
      declaredAfter_identifier name, typeThere?, declares]
    rfl
  rw [scope, nameFaults, if_pos name, declares]
  simp only [Scope.declare, Declarations.insert, Declarations.insertNew, scopeAfter]
  cases (m.declaredAfter known past).lookup t.source <;> rfl

theorem resolve_scopeAfter (name : (m.role n).isIdentifier = true) (uses : m.declaresAs? past = none) :
    (m.scopeAfter known past).resolve m.settings t =
      (m.scopeAfter known (past ++ [.matched n t]), m.nameFaults known past n t ++ m.typeFaults known past n t) := by
  have scope : m.scopeAfter known (past ++ [.matched n t]) =
      if (m.scopeAfter known past).inOperands then m.scopeAfter known past
      else { m.scopeAfter known past with
        assignment := .target t.source (((m.declaredAfter known past).lookup t.source).bind (·.type)) } := by
    rw [scopeAfter, typeInForce?_identifier name, assignmentAfter_identifier name, inOperands_scopeAfter,
      declaredAfter_identifier name, typeThere?, uses]
    cases m.opening? past <;> rfl
  have missing : m.nameFaults known past n t =
      if ((m.declaredAfter known past).lookup t.source).isNone then [.undeclared t.source] else [] := by
    rw [nameFaults, if_pos name, uses]
    cases (m.declaredAfter known past).lookup t.source <;> rfl
  rw [scope, missing, ← operandFault_scopeAfter name]
  rfl

theorem typeFaults_outside (outside : (m.opening? past).isSome = false) : m.typeFaults known past n t = [] := by
  have none_open : m.target? past = none := by
    simpa [outside] using m.isSome_target? past
  rw [typeFaults, none_open]

theorem typeFaults_plain (name : (m.role n).isIdentifier = false) (literal : (m.role n).isConstant = false) :
    m.typeFaults known past n t = [] := by
  have fits : m.unfit? known past n t = none := by simp [unfit?, name, literal]
  rw [typeFaults, fits]
  cases m.target? past with
  | none => rfl
  | some x =>
    dsimp only
    cases (m.typeThere? known x.1 x.2).filter m.settings.isIntegral <;> rfl

/-- What a match does to a scope and what is wrong with it can be read off the past. -/
theorem observe_scopeAfter (apart : m.OperatorsApart) (column : m.column? t = some (.terminal n)) :
    (m.scopeAfter known past).observe m.settings (m.role n) t =
      (m.scopeAfter known (past ++ [.matched n t]), m.nameFaults known past n t ++ m.typeFaults known past n t) := by
  rw [Scope.observe]
  cases name : (m.role n).isIdentifier with
  | true =>
    rw [if_pos rfl, identifier_scopeAfter]
    cases declares : m.declaresAs? past with
    | none => exact resolve_scopeAfter name declares
    | some type =>
      rw [typeFaults_outside (outside_of_declares declares), List.append_nil]
      exact declare_scopeAfter name declares
  | false =>
    have nameless : m.nameFaults known past n t = [] := if_neg (Bool.eq_false_iff.mp name)
    have scope : m.scopeAfter known (past ++ [.matched n t]) =
        ⟨m.typeInForce? (past ++ [.matched n t]), m.assignmentAfter known (past ++ [.matched n t]),
          m.declaredAfter known past⟩ := by
      rw [scopeAfter, declaredAfter_other (p := .matched n t) name]
    rw [if_neg Bool.false_ne_true, nameless, List.nil_append, scope]
    cases literal : (m.role n).isConstant with
    | true =>
      rw [if_pos rfl, constant_scopeAfter name literal, assignmentAfter_constant name literal,
        typeInForce?_kept rfl (by simp [plays, literal])]
      rfl
    | false =>
      rw [if_neg Bool.false_ne_true, typeFaults_plain name literal, assignmentAfter_plain apart column name literal,
        typeInForce?_plain name literal]
      rfl

/-! ### Runs -/

/-- What is found in a portion, if it is a match. -/
def judged (judge : List Portion → Nat → Token → List SemanticFault) (past : List Portion) :
    Portion → List (SemanticFault × Position)
  | .matched n t => (judge past n t).map (·, t.pos)
  | _ => []

/-- What is declared in the end and all that is found can be read off the portions. -/
theorem Narrates.told {portions : List Portion} {last : Scope} {found : List (SemanticFault × Position)}
    (apart : m.OperatorsApart) (h : m.Narrates (m.scopeAfter known past) portions last found) :
    last.declared = m.declaredAfter known (past ++ portions) ∧
      found = throughout (judged fun past n t => m.nameFaults known past n t ++ m.typeFaults known past n t) past
        portions := by
  -- The past grows by each portion, and the scope stays what it tells.
  generalize start : m.scopeAfter known past = scope at h
  induction h generalizing past with
  | nil scope =>
    subst start
    exact ⟨by rw [List.append_nil]; rfl, rfl⟩
  | @matched scope next last n token faults rest found column observed later ih =>
    subst start
    obtain ⟨rfl, rfl⟩ := Prod.mk.inj ((observe_scopeAfter apart column).symm.trans observed)
    obtain ⟨declared, found⟩ := ih rfl
    rw [List.append_assoc] at declared
    exact ⟨declared, congrArg (_ ++ ·) found⟩
  | @skipped scope last fault tokens sync rest found later ih =>
    subst start
    obtain ⟨declared, found⟩ := ih (scopeAfter_recovered (p := .skipped fault tokens sync) rfl)
    rw [List.append_assoc] at declared
    exact ⟨declared, found⟩
  | lost scope fault tokens =>
    subst start
    exact ⟨(declaredAfter_other rfl).symm, rfl⟩

theorem filter_judged (keep : SemanticFault → Bool) (judge : List Portion → Nat → Token → List SemanticFault) :
    (throughout (judged judge) past history).filter (fun f => keep f.1) =
      throughout (judged fun past n t => (judge past n t).filter keep) past history := by
  rw [filter_throughout]
  congr
  funext past p
  cases p with
  | matched n t => simp [judged, List.filter_map, Function.comp_def]
  | skipped _ _ _ => rfl
  | lost _ _ => rfl

theorem not_isTypeMismatch_of_nameFaults {fault : SemanticFault} (found : fault ∈ m.nameFaults known past n t) :
    fault.isTypeMismatch = false := by
  unfold nameFaults at found
  split at found
  · split at found
    all_goals simp_all [SemanticFault.isTypeMismatch]
  · cases found

theorem isTypeMismatch_of_typeFaults {fault : SemanticFault} (found : fault ∈ m.typeFaults known past n t) :
    fault.isTypeMismatch = true := by
  unfold typeFaults at found
  split at found
  · cases found
  · split at found
    all_goals simp_all [SemanticFault.isTypeMismatch]

theorem filter_faults_name : (m.nameFaults known past n t ++ m.typeFaults known past n t).filter (!·.isTypeMismatch) =
    m.nameFaults known past n t := by
  rw [List.filter_append, List.filter_eq_self.mpr fun fault found => by simp [not_isTypeMismatch_of_nameFaults found],
    List.filter_eq_nil_iff.mpr fun fault found => by simp [isTypeMismatch_of_typeFaults found], List.append_nil]

theorem filter_faults_type : (m.nameFaults known past n t ++ m.typeFaults known past n t).filter (·.isTypeMismatch) =
    m.typeFaults known past n t := by
  rw [List.filter_append, List.filter_eq_nil_iff.mpr fun fault found => by simp [not_isTypeMismatch_of_nameFaults found],
    List.filter_eq_self.mpr fun fault found => isTypeMismatch_of_typeFaults found, List.nil_append]

/-- The history of a run accounts for its input and its trace, and tells what it declares and all that it finds. -/
theorem run_told (apart : m.OperatorsApart) (stream : List Token) (known : Declarations) :
    ∃ history, m.Accounts [] (.ofTokens stream) (m.run (.ofTokens stream) known).events history ∧
      (m.parse stream known).declared = m.declaredAfter known history ∧
      semanticFaults (m.run (.ofTokens stream) known).events =
        throughout (judged fun past n t => m.nameFaults known past n t ++ m.typeFaults known past n t) [] history := by
  have halts := m.halts_runFrom (m.initial (.ofTokens stream) known)
  obtain ⟨history, accounts, narrates⟩ := halts.narrates (grounded_entry ..) []
  have start : (m.initial (.ofTokens stream) known).scope = m.scopeAfter known [] := scopeAfter_nil.symm
  rw [start] at narrates
  obtain ⟨declared, found⟩ := narrates.told apart
  exact ⟨history, accounts.silent [_] rfl rfl, declared, found⟩

end Machine

/-- `S → t S | ε` with any terminal `t`. -/
def Grammar.loose : Grammar where
  terminals := ["int", "float", "ID", "CONST", "=", ",", ";"]
  nonterminals := ["S"]
  productions := ((List.range 7).map fun i => ⟨0, [.terminal i, .nonterminal 0]⟩) ++ [⟨0, [.epsilon]⟩]
  start := 0
  restarts := []

/-- Tokens in one line, one in each column. -/
def line (words : List (TokenKind × String)) : List Token := words.zipIdx.map fun ((kind, text), i) => ⟨kind, text, ⟨1, i⟩⟩

namespace Machine

/-! ### Laws of a run -/

/-- An identifier declares where a type is in force and no initializer is open. In the end there are the names known before
    and, behind them, each new name as first declared. Of findings on names there is one for each identifier that declares a
    name of the table as it is there, and one for each other identifier whose name is not in it. -/
theorem names_resolved (m : Machine) (apart : m.OperatorsApart) (stream : List Token) (known : Declarations) :
    let faults := semanticFaults (m.run (.ofTokens stream) known).events
    Diagnostic.ofSeverity .semantic (m.parse stream known).diagnostics =
        faults.map (fun (f, pos) => ⟨.semantic, f.message, pos⟩) ∧
      ∃ history, m.Accounts [] (.ofTokens stream) (m.run (.ofTokens stream) known).events history ∧
        (m.parse stream known).declared = known.extended (m.declarationsIn history) ∧
        faults.filter (!·.1.isTypeMismatch) = throughout (judged (m.nameFaults known)) [] history := by
  obtain ⟨history, accounts, declared, found⟩ := run_told apart stream known
  refine ⟨ofSeverity_semantic _, history, accounts, declared, ?_⟩
  simp only [found, filter_judged (!·.isTypeMismatch), filter_faults_name]

/-- In `int a 1 = float b , c a ; int ? ; d` the initializer of `a` goes up to the comma, so that `b` is used in it and `c` is
    declared as a float behind it. The second `a` is declared again, and the recovery at `?` ends the last declaration. -/
theorem names_resolved_loose :
    let m := ofGrammar .loose {}
    let stream := line [(.keyword, "int"), (.identifier, "a"), (.integer, "1"), (.operator, "="), (.keyword, "float"),
      (.identifier, "b"), (.punctuation, ","), (.identifier, "c"), (.identifier, "a"), (.punctuation, ";"),
      (.keyword, "int"), (.invalid, "?"), (.punctuation, ";"), (.identifier, "d")]
    m.OperatorsApart ∧ ∃ history, m.Accounts [] (.ofTokens stream) (m.run (.ofTokens stream) .empty).events history ∧
      Declarations.empty.extended (m.declarationsIn history) =
        ⟨[⟨1, "a", some "int", ⟨1, 1⟩⟩, ⟨2, "c", some "float", ⟨1, 7⟩⟩]⟩ ∧
      throughout (judged (m.nameFaults .empty)) [] history =
        [(.undeclared "b", ⟨1, 5⟩), (.redeclaration "a" ⟨1, 1⟩, ⟨1, 8⟩), (.undeclared "d", ⟨1, 13⟩)] := by
  intro m stream
  have apart : m.OperatorsApart := by decide
  obtain ⟨-, history, accounts, declared, found⟩ := names_resolved m apart stream .empty
  refine ⟨apart, history, accounts, declared.symm.trans ?_, found.symm.trans ?_⟩
  · decide +kernel
  · decide +kernel

/-- Inside an initializer, a literal that is a float and an identifier of a type that the table has and that is not integral
    are found to be unfit for a target of an integral type, and nothing else is. The target is the identifier before the
    first operator, and its type is the one under which it is declared there, or else the one in the table there. -/
theorem operands_checked (m : Machine) (apart : m.OperatorsApart) (stream : List Token) (known : Declarations) :
    let faults := semanticFaults (m.run (.ofTokens stream) known).events
    Diagnostic.ofSeverity .semantic (m.parse stream known).diagnostics =
        faults.map (fun (f, pos) => ⟨.semantic, f.message, pos⟩) ∧
      ∃ history, m.Accounts [] (.ofTokens stream) (m.run (.ofTokens stream) known).events history ∧
        faults.filter (·.1.isTypeMismatch) = throughout (judged (m.typeFaults known)) [] history := by
  obtain ⟨history, accounts, -, found⟩ := run_told apart stream known
  refine ⟨ofSeverity_semantic _, history, accounts, ?_⟩
  simp only [found, filter_judged (·.isTypeMismatch), filter_faults_type]

/-- In `float b ; int a = b = 1.5 , b = 2.5 ; b = 3.5` both operands of `a` are unfit. The second `b` is declared again as an
    integer, which counts for its initializer but not later on. -/
theorem operands_checked_loose :
    let m := ofGrammar .loose {}
    let stream := line [(.keyword, "float"), (.identifier, "b"), (.punctuation, ";"), (.keyword, "int"), (.identifier, "a"),
      (.operator, "="), (.identifier, "b"), (.operator, "="), (.float, "1.5"), (.punctuation, ","), (.identifier, "b"),
      (.operator, "="), (.float, "2.5"), (.punctuation, ";"), (.identifier, "b"), (.operator, "="), (.float, "3.5")]
    m.OperatorsApart ∧ ∃ history, m.Accounts [] (.ofTokens stream) (m.run (.ofTokens stream) .empty).events history ∧
      throughout (judged (m.typeFaults .empty)) [] history =
        [(.typeMismatch "a" "int" "float" "b", ⟨1, 6⟩), (.typeMismatch "a" "int" "float" "1.5", ⟨1, 8⟩),
          (.typeMismatch "b" "int" "float" "2.5", ⟨1, 12⟩)] := by
  intro m stream
  have apart : m.OperatorsApart := by decide
  obtain ⟨-, history, accounts, found⟩ := operands_checked m apart stream .empty
  refine ⟨apart, history, accounts, found.symm.trans ?_⟩
  decide +kernel

end Machine
end Lookahead
