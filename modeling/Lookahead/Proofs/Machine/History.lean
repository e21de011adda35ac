import Lookahead.Proofs.Machine.Portions
import Mathlib.Data.List.Find
import Mathlib.Data.List.Induction

/-! Declarations and assignments as the history of a run tells them. A run takes its input in portions, and what a match does
can be read off the portions before it: which type is in force, whether an initializer is open and for which target, and
which names are declared by then. -/

namespace Lookahead

/-- What `f` makes of each element of a list, told those before it. -/
def throughout {α β : Type} (f : List α → α → List β) (past : List α) : List α → List β
  | [] => []
  | a :: rest => f past a ++ throughout f (past ++ [a]) rest

section Throughout
variable {α β : Type} {f : List α → α → List β}

theorem throughout_append (past as bs : List α) :
    throughout f past (as ++ bs) = throughout f past as ++ throughout f (past ++ as) bs := by
  induction as generalizing past with
  | nil => simp [throughout]
  | cons a rest ih => simp [throughout, ih]

theorem throughout_concat (as : List α) (a : α) : throughout f [] (as ++ [a]) = throughout f [] as ++ f as a := by
  rw [throughout_append]
  simp [throughout]

theorem filter_throughout (keep : β → Bool) (past as : List α) :
    (throughout f past as).filter keep = throughout (fun past a => (f past a).filter keep) past as := by
  induction as generalizing past with
  | nil => rfl
  | cons a rest ih => simp [throughout, ih]

end Throughout

def Portion.isMatch : Portion → Bool
  | .matched _ _ => true
  | .skipped _ _ _ => false
  | .lost _ _ => false

/-! ### Names that are declared -/

namespace Declarations

/-- Of some declarations those of a name that is neither known nor declared by an earlier one. -/
def firstOf (known : Declarations) (declarations : List (Token × String)) : List (Token × String) :=
  throughout (fun earlier d => if known.contains d.1.source || earlier.any (·.1.source = d.1.source) then [] else [d]) []
    declarations

/-- The known names as they are, and behind them each new name with the place and the type of its first declaration. -/
def extended (known : Declarations) (declarations : List (Token × String)) : Declarations where
  entries := known.entries ++ ((known.firstOf declarations).zipIdx (known.size + 1)).map fun (d, serial) =>
    ⟨serial, d.1.source, some d.2, d.1.pos⟩

variable {known d : Declarations} {ds : List (Token × String)} {t : Token} {type name : String}

theorem contains_entries_append (e : Entry) :
    contains ⟨d.entries ++ [e]⟩ name = (d.contains name || e.name = name) := by
  by_cases here : e.name = name <;> simp [contains, lookup, List.find?_append, here]

/-- A declaration changes nothing if its name is known or was declared before. -/
theorem extended_concat_old (old : (known.contains t.source || ds.any (·.1.source = t.source)) = true) :
    known.extended (ds ++ [(t, type)]) = known.extended ds := by
  have same : known.firstOf (ds ++ [(t, type)]) = known.firstOf ds := by
    rw [firstOf, throughout_concat, if_pos old, List.append_nil]
    rfl
  rw [extended, same]
  rfl

theorem extended_concat_new (fresh : ¬(known.contains t.source || ds.any (·.1.source = t.source)) = true) :
    known.extended (ds ++ [(t, type)]) =
      ⟨(known.extended ds).entries ++ [⟨(known.extended ds).size + 1, t.source, some type, t.pos⟩]⟩ := by
  have grown : known.firstOf (ds ++ [(t, type)]) = known.firstOf ds ++ [(t, type)] := by
    rw [firstOf, throughout_concat, if_neg fresh]
    rfl
  rw [extended, grown]
  simp [extended, size, List.zipIdx_append, Nat.add_right_comm]

theorem contains_extended :
    (known.extended ds).contains name = (known.contains name || ds.any (·.1.source = name)) := by
  induction ds using List.reverseRecOn with
  | nil => simp [extended, firstOf, throughout]
  | append_singleton ds last ih =>
    obtain ⟨t, type⟩ := last
    by_cases old : (known.contains t.source || ds.any (·.1.source = t.source)) = true
    · rw [extended_concat_old old, ih]
      by_cases here : t.source = name
      · subst here
        simp_all
      · simp [here]
    · rw [extended_concat_new old, contains_entries_append, ih]
      simp [Bool.or_assoc]

theorem extended_concat :
    known.extended (ds ++ [(t, type)]) = (known.extended ds).insertNew t.source (some type) t.pos := by
  by_cases old : (known.contains t.source || ds.any (·.1.source = t.source)) = true
  · obtain ⟨e, found⟩ := Option.isSome_iff_exists.mp (contains_extended.trans old)
    simp only [extended_concat_old old, insertNew, insert, found]
  · have absent : (known.extended ds).lookup t.source = none := by
      rw [← contains_extended] at old
      simpa [contains] using old
    simp only [extended_concat_new old, insertNew, insert, absent]

end Declarations

namespace Machine
variable {m : Machine} {known : Declarations} {past : List Portion} {n : Nat} {t : Token} {p : Portion}

/-! ### What a portion is to declarations and assignments -/

def isIdentifier (m : Machine) : Portion → Bool
  | .matched n _ => (m.role n).isIdentifier
  | _ => false

/-- A match of the terminal of literals, unless that is the one of identifiers too. -/
def isConstant (m : Machine) : Portion → Bool
  | .matched n _ => !(m.role n).isIdentifier && (m.role n).isConstant
  | _ => false

/-- A match of a terminal that plays a part. Those of identifiers and literals play none. -/
def plays (m : Machine) (part : Role → Bool) : Portion → Bool
  | .matched n _ => !(m.role n).isIdentifier && !(m.role n).isConstant && part (m.role n)
  | _ => false

/-- An initializer ends here: with a recovery, or at a declaration end, a synchronizing terminal or a separator. -/
def closes (m : Machine) (p : Portion) : Bool :=
  !p.isMatch || m.plays (fun role => role.isDeclarationEnd || role.isSync || role.isSeparator) p

/-! ### What the past tells -/

/-- The spelling of the type keyword in force: the last type keyword, if no declaration end or recovery came behind it. -/
def typeInForce? (m : Machine) (past : List Portion) : Option String :=
  let turns := past.filter fun p => !p.isMatch || m.plays (fun role => role.isTypeKeyword || role.isDeclarationEnd) p
  match turns.getLast? with
  | some (.matched n t) => if (m.role n).isDeclarationEnd then none else some t.source
  | _ => none

/-- The identifier that was matched last, literals aside, with what came before it. -/
def lastIdentifier? (m : Machine) (past : List Portion) : Option (List Portion × Token) :=
  match past.reverse.dropWhile m.isConstant with
  | .matched n t :: earlier => if (m.role n).isIdentifier then some (earlier.reverse, t) else none
  | _ => none

/-- At a place stands an assignment operator right behind an identifier, and the initializer it opens has not ended. -/
def opensAt (m : Machine) (past : List Portion) (place : Nat) : Bool :=
  past[place]?.any (m.plays (·.isAssignment)) && (m.lastIdentifier? (past.take place)).isSome &&
    (past.drop (place + 1)).all (!m.closes ·)

/-- The place of the earliest operator whose initializer has not ended. -/
def opening? (m : Machine) (past : List Portion) : Option Nat := (List.range past.length).find? (m.opensAt past)

/-- The identifier before that operator, with what came before it. -/
def target? (m : Machine) (past : List Portion) : Option (List Portion × Token) :=
  (m.opening? past).bind fun place => m.lastIdentifier? (past.take place)

/-- The type under which an identifier is declared here: that in force, outside initializers. -/
def declaresAs? (m : Machine) (past : List Portion) : Option String :=
  if (m.opening? past).isSome then none else m.typeInForce? past

/-- The matches that declare, each with its type. -/
def declarationsIn (m : Machine) (history : List Portion) : List (Token × String) :=
  throughout (fun past p =>
    match p with
    | .matched n t => if (m.role n).isIdentifier then (m.declaresAs? past).toList.map (t, ·) else []
    | _ => []) [] history

def declaredAfter (m : Machine) (known : Declarations) (past : List Portion) : Declarations :=
  known.extended (m.declarationsIn past)

/-- The type of an identifier where it is matched: the one that it is declared under there, or else the one in the table. -/
def typeThere? (m : Machine) (known : Declarations) (past : List Portion) (t : Token) : Option String :=
  (m.declaresAs? past).or (((m.declaredAfter known past).lookup t.source).bind (·.type))

/-- The type of an operand that a target of integral values does not take. -/
def unfit? (m : Machine) (known : Declarations) (past : List Portion) (n : Nat) (t : Token) : Option String :=
  if (m.role n).isIdentifier then
    (((m.declaredAfter known past).lookup t.source).bind (·.type)).filter (!m.settings.isIntegral ·)
  else if (m.role n).isConstant && t.kind = .float then some m.settings.floatLiteralType
  else none

/-- What is wrong with the name of a match: one that declares must be new, and any other must be declared. -/
def nameFaults (m : Machine) (known : Declarations) (past : List Portion) (n : Nat) (t : Token) : List SemanticFault :=
  if (m.role n).isIdentifier then
    match m.declaresAs? past, (m.declaredAfter known past).lookup t.source with
    | some _, some first => [.redeclaration t.source first.pos]
    | none, none => [.undeclared t.source]
    | _, _ => []
  else []

/-- What is wrong with the type of a match: inside an initializer it must fit an integral type of the target. -/
def typeFaults (m : Machine) (known : Declarations) (past : List Portion) (n : Nat) (t : Token) : List SemanticFault :=
  match m.target? past with
  | none => []
  | some (earlier, target) =>
    match (m.typeThere? known earlier target).filter m.settings.isIntegral, m.unfit? known past n t with
    | some expected, some found => [.typeMismatch target.source expected found t.source]
    | _, _ => []

/-! ### One portion more -/

theorem typeInForce?_kept (kept : p.isMatch = true)
    (silent : m.plays (fun role => role.isTypeKeyword || role.isDeclarationEnd) p = false) :
    m.typeInForce? (past ++ [p]) = m.typeInForce? past := by
  simp [typeInForce?, List.filter_append, kept, silent]

theorem typeInForce?_identifier (name : (m.role n).isIdentifier = true) :
    m.typeInForce? (past ++ [.matched n t]) = m.typeInForce? past :=
  typeInForce?_kept rfl (by simp [plays, name])

theorem typeInForce?_plain (name : (m.role n).isIdentifier = false) (literal : (m.role n).isConstant = false) :
    m.typeInForce? (past ++ [.matched n t]) = Scope.nextDeclaring (m.role n) t.source (m.typeInForce? past) := by
  cases ending : (m.role n).isDeclarationEnd with
  | true => simp [typeInForce?, Scope.nextDeclaring, plays, List.filter_append, name, literal, ending]
  | false =>
    cases type : (m.role n).isTypeKeyword with
    | true => simp [typeInForce?, Scope.nextDeclaring, plays, List.filter_append, name, literal, ending, type]
    | false =>
      rw [typeInForce?_kept rfl (by simp [plays, ending, type])]
      simp [Scope.nextDeclaring, ending, type]

theorem lastIdentifier?_identifier (name : (m.role n).isIdentifier = true) :
    m.lastIdentifier? (past ++ [.matched n t]) = some (past, t) := by
  simp [lastIdentifier?, isConstant, name]

theorem lastIdentifier?_constant (literal : m.isConstant p = true) :
    m.lastIdentifier? (past ++ [p]) = m.lastIdentifier? past := by
  simp [lastIdentifier?, literal]

theorem lastIdentifier?_other (name : m.isIdentifier p = false) (literal : m.isConstant p = false) :
    m.lastIdentifier? (past ++ [p]) = none := by
  cases p <;> simp_all [lastIdentifier?, isIdentifier]

theorem opensAt_before {place : Nat} (before : place < past.length) :
    m.opensAt (past ++ [p]) place = (m.opensAt past place && !m.closes p) := by
  rw [opensAt, List.getElem?_append_left before, List.take_append_of_le_length (Nat.le_of_lt before),
    List.drop_append_of_le_length before]
  simp [opensAt, Bool.and_assoc]

theorem opensAt_last : m.opensAt (past ++ [p]) past.length =
    (m.plays (·.isAssignment) p && (m.lastIdentifier? past).isSome) := by
  simp [opensAt]

theorem opening?_concat (opened : m.closes p = false) : m.opening? (past ++ [p]) =
    (m.opening? past).or
      (if m.plays (·.isAssignment) p && (m.lastIdentifier? past).isSome then some past.length else none) := by
  have earlier : (List.range past.length).find? (m.opensAt (past ++ [p])) = m.opening? past :=
    List.find?_congr fun place member => by simp [opensAt_before (List.mem_range.mp member), opened]
  rw [opening?, List.length_append, List.length_singleton, List.range_succ, List.find?_append, earlier,
    List.find?_singleton, opensAt_last]

theorem opening?_closed (closed : m.closes p = true) (other : m.plays (·.isAssignment) p = false) :
    m.opening? (past ++ [p]) = none := by
  refine List.find?_eq_none.mpr fun place member => ?_
  rw [List.length_append, List.length_singleton, List.range_succ] at member
  rcases List.mem_append.mp member with before | last
  · simp [opensAt_before (List.mem_range.mp before), closed]
  · obtain rfl := List.mem_singleton.mp last
    simp [opensAt_last, other]

theorem isSome_target? (m : Machine) (past : List Portion) : (m.target? past).isSome = (m.opening? past).isSome := by
  cases opened : m.opening? past with
  | none => simp [target?, opened]
  | some place =>
    have opens := List.find?_some opened
    simp only [opensAt, Bool.and_eq_true] at opens
    simp [target?, opened, opens.1.2]

theorem target?_concat (opened : m.closes p = false) : m.target? (past ++ [p]) =
    (m.target? past).or (if m.plays (·.isAssignment) p then m.lastIdentifier? past else none) := by
  cases found : m.opening? past with
  | none =>
    simp only [target?, opening?_concat opened, found]
    cases last : m.lastIdentifier? past <;> cases m.plays (·.isAssignment) p <;> simp [last]
  | some place =>
    have before : place < past.length := List.mem_range.mp (List.mem_of_find?_eq_some found)
    obtain ⟨x, target⟩ := Option.isSome_iff_exists.mp ((m.isSome_target? past).trans (by rw [found]; rfl))
    rw [target, Option.some_or, ← target]
    simp [target?, opening?_concat opened, found, List.take_append_of_le_length (Nat.le_of_lt before)]

theorem target?_closed (closed : m.closes p = true) (other : m.plays (·.isAssignment) p = false) :
    m.target? (past ++ [p]) = none := by
  rw [target?, opening?_closed closed other]
  rfl

theorem declaredAfter_other (name : m.isIdentifier p = false) :
    m.declaredAfter known (past ++ [p]) = m.declaredAfter known past := by
  have same : m.declarationsIn (past ++ [p]) = m.declarationsIn past := by
    rw [declarationsIn, throughout_concat]
    cases p <;> simp_all [declarationsIn, isIdentifier]
  rw [declaredAfter, same, declaredAfter]

theorem declaredAfter_identifier (name : (m.role n).isIdentifier = true) :
    m.declaredAfter known (past ++ [.matched n t]) =
      match m.declaresAs? past with
      | some type => (m.declaredAfter known past).insertNew t.source (some type) t.pos
      | none => m.declaredAfter known past := by
  have grown : m.declarationsIn (past ++ [.matched n t]) =
      m.declarationsIn past ++ (m.declaresAs? past).toList.map (t, ·) := by
    rw [declarationsIn, throughout_concat]
    simp only [name, if_true]
    rfl
  rw [declaredAfter, grown]
  cases m.declaresAs? past with
  | none => simp [declaredAfter]
  | some type => exact Declarations.extended_concat

end Machine
end Lookahead
