import Lookahead.Grammar.Draft
import Mathlib.Data.List.Nodup

/-! What an edit does to a draft. It is refused for a defect, or else it is one of five changes. All that drafts keep under
edits is told by these. -/

namespace Lookahead

/-! ### Names and their numbers -/

theorem getElem?_of_idxOf? {names : List String} {name : String} {i : Nat} (found : names.idxOf? name = some i) :
    names[i]? = some name := by
  obtain ⟨bound, here, -⟩ := List.idxOf?_eq_some_iff.mp found
  rw [List.getElem?_eq_getElem bound, here]

theorem idxOf?_eq_some {names : List String} {name : String} {i : Nat} (distinct : names.Nodup) :
    names.idxOf? name = some i ↔ names[i]? = some name := by
  refine ⟨getElem?_of_idxOf?, fun here => ?_⟩
  obtain ⟨bound, here⟩ := List.getElem?_eq_some_iff.mp here
  refine List.idxOf?_eq_some_iff.mpr ⟨bound, here, fun j before same => ?_⟩
  exact absurd ((List.Nodup.getElem_inj_iff distinct).mp (same.trans here.symm)) (Nat.ne_of_lt before)

namespace Vocabulary
variable {v : Vocabulary} {name : String}

theorem name_of_terminal? {i : Nat} (h : v.terminal? name = some i) : v.name (.terminal i) = name := by
  rw [Vocabulary.name, List.getD_eq_getElem?_getD, getElem?_of_idxOf? h, Option.getD_some]

theorem name_of_nonterminal? {i : Nat} (h : v.nonterminal? name = some i) : v.name (.nonterminal i) = name := by
  rw [Vocabulary.name, List.getD_eq_getElem?_getD, getElem?_of_idxOf? h, Option.getD_some]

/-- What a name stands for. -/
theorem find?_cases {s : Symbol} (h : v.find? name = some s) :
    (s = .epsilon ∧ name = epsilonName) ∨ (s = .endMarker ∧ name = endMarkerName) ∨
    (∃ i, s = .nonterminal i ∧ v.nonterminal? name = some i) ∨ ∃ i, s = .terminal i ∧ v.terminal? name = some i := by
  unfold find? at h
  split at h
  · cases h
    exact .inl ⟨rfl, ‹_›⟩
  · split at h
    · cases h
      exact .inr (.inl ⟨rfl, ‹_›⟩)
    · split at h
      · cases h
        exact .inr (.inr (.inl ⟨_, rfl, ‹_›⟩))
      · obtain ⟨i, found, rfl⟩ := Option.map_eq_some_iff.mp h
        exact .inr (.inr (.inr ⟨i, rfl, found⟩))

theorem name_of_find? {s : Symbol} (h : v.find? name = some s) : v.name s = name := by
  rcases find?_cases h with ⟨rfl, same⟩ | ⟨rfl, same⟩ | ⟨i, rfl, found⟩ | ⟨i, rfl, found⟩
  · exact same.symm
  · exact same.symm
  · exact name_of_nonterminal? found
  · exact name_of_terminal? found

/-- Why a name cannot stand where a nonterminal is asked for. -/
def nonterminalDefect? (v : Vocabulary) (name : String) : Option Defect :=
  match v.find? name with
  | some (.nonterminal _) => none
  | _ => some (.notNonterminal name)

theorem resolveNonterminal_cases (v : Vocabulary) (name : String) :
    v.resolveNonterminal name = .error (.notNonterminal name) ∧ v.nonterminalDefect? name = some (.notNonterminal name) ∨
    ∃ i, v.resolveNonterminal name = .ok i ∧ v.nonterminalDefect? name = none ∧ v.find? name = some (.nonterminal i) := by
  simp only [resolveNonterminal, nonterminalDefect?]
  cases v.find? name with
  | none => exact .inl ⟨rfl, rfl⟩
  | some s =>
    cases s with
    | nonterminal i => exact .inr ⟨i, rfl, rfl, rfl⟩
    | terminal i => exact .inl ⟨rfl, rfl⟩
    | epsilon => exact .inl ⟨rfl, rfl⟩
    | endMarker => exact .inl ⟨rfl, rfl⟩

end Vocabulary

namespace Draft
variable {names names' : List String} {name : String} {i : Nat} {d d' : Draft} {e : Edit} {n : Option Nat}

/-! ### Declaring a name -/

/-- Distinct names, none of which is reserved. -/
structure Proper (names : List String) : Prop where
  distinct : names.Nodup
  unreserved : ∀ name ∈ names, isReserved name = false

theorem declare_cases (names : List String) (name : String) :
    (declare names name = .error (.reservedName name) ∧ isReserved name = true) ∨
    ∃ names' i, declare names name = .ok (names', i) ∧ isReserved name = false := by
  unfold declare
  split
  · exact .inl ⟨rfl, ‹_›⟩
  · rename_i free
    split <;> exact .inr ⟨_, _, rfl, Bool.eq_false_iff.mpr free⟩

/-- The name is found under the number that is given, and no other name has moved. -/
theorem getElem?_declare (h : declare names name = .ok (names', i)) : names <+: names' ∧ names'[i]? = some name := by
  unfold declare at h
  split at h
  · cases h
  · split at h
    · cases h
      exact ⟨List.prefix_rfl, getElem?_of_idxOf? ‹_›⟩
    · cases h
      exact ⟨List.prefix_append .., List.getElem?_concat_length⟩

theorem Proper.declare (proper : Proper names) (h : declare names name = .ok (names', i)) : Proper names' := by
  unfold Draft.declare at h
  split at h
  · cases h
  · rename_i free
    split at h
    · cases h
      exact proper
    · rename_i fresh
      cases h
      have absent : name ∉ names := List.idxOf?_eq_none_iff.mp fresh
      refine ⟨?_, List.forall_mem_append.mpr ⟨proper.unreserved, List.forall_mem_singleton.mpr (Bool.eq_false_iff.mpr free)⟩⟩
      rw [← List.concat_eq_append]
      exact proper.distinct.concat absent

/-! ### Edits -/

/-- A body is refused for its first unknown name, or its symbols are what its names stand for. -/
theorem resolveBody_cases (d : Draft) (head : String) (body : List String) :
    (∃ name, d.resolveBody head body = .error (.unknownSymbol head name) ∧
      body.find? (fun name => (d.find? name).isNone) = some name) ∨
    ∃ symbols, d.resolveBody head body = .ok symbols ∧ body.find? (fun name => (d.find? name).isNone) = none ∧
      symbols.map d.name = body ∧ ∀ s ∈ symbols, d.find? (d.name s) = some s := by
  induction body with
  | nil => exact .inr ⟨[], rfl, rfl, rfl, nofun⟩
  | cons name rest ih =>
    cases found : d.find? name with
    | none => exact .inl ⟨name, by simp [resolveBody, found], by simp [found]⟩
    | some s =>
      have named := Vocabulary.name_of_find? found
      rcases ih with ⟨other, refused, first⟩ | ⟨symbols, resolved, known, spelled, settled⟩
      · exact .inl ⟨other, by simp only [resolveBody, found, refused]; rfl, by simpa [found] using first⟩
      · refine .inr ⟨s :: symbols, by simp only [resolveBody, found, resolved]; rfl, by simpa [found] using known, ?_, ?_⟩
        · rw [List.map_cons, named, spelled]
        · exact List.forall_mem_cons.mpr ⟨by rw [named, found], settled⟩

/-- Why an edit is refused: a reserved name, a head, start or restart point that is no nonterminal, or else the first name of
    a body that is not declared. -/
def defect? (d : Draft) : Edit → Option Defect
  | .terminal name => if isReserved name then some (.reservedName name) else none
  | .nonterminal name => if isReserved name then some (.reservedName name) else none
  | .production head body =>
    (d.nonterminalDefect? head).or ((body.find? fun name => (d.find? name).isNone).map (.unknownSymbol head))
  | .start name => d.nonterminalDefect? name
  | .restart name => d.nonterminalDefect? name

/-- What an edit that goes through makes of a draft, with the number that it gives. -/
inductive Change (d : Draft) : Edit → Option Nat → Draft → Prop
  | terminal {name : String} {i : Nat} {names : List String} (declared : declare d.terminals name = .ok (names, i)) :
    Change d (.terminal name) (some i) { d with terminals := names }
  | nonterminal {name : String} {i : Nat} {names : List String} (declared : declare d.nonterminals name = .ok (names, i)) :
    Change d (.nonterminal name) (some i) { d with nonterminals := names }
  | production {head : String} {body : List String} {i : Nat} {symbols : List Symbol}
    (found : d.find? head = some (.nonterminal i)) (spelled : symbols.map d.name = body)
    (settled : ∀ s ∈ symbols, d.find? (d.name s) = some s) :
    Change d (.production head body) (some d.productions.length)
      { d with productions := d.productions ++ [⟨i, if symbols.isEmpty then [.epsilon] else symbols⟩] }
  | start {name : String} {i : Nat} (found : d.find? name = some (.nonterminal i)) :
    Change d (.start name) none { d with start := some i }
  | restart {name : String} {i : Nat} (found : d.find? name = some (.nonterminal i)) :
    Change d (.restart name) none (if d.restarts.contains i then d else { d with restarts := d.restarts ++ [i] })

/-- What holds of the symbols of a body and of `ε` holds of the body that is kept. -/
theorem forall_mem_kept {P : Symbol → Prop} {symbols : List Symbol} (epsilon : P .epsilon) (each : ∀ s ∈ symbols, P s) :
    ∀ s ∈ (if symbols.isEmpty then [Symbol.epsilon] else symbols), P s := by
  cases symbols with
  | nil => exact List.forall_mem_singleton.mpr epsilon
  | cons s rest => exact each

/-- An edit is refused for its defect, or it has none and changes the draft. -/
theorem apply_cases (d : Draft) (e : Edit) :
    (∃ defect, d.apply e = .error defect ∧ d.defect? e = some defect) ∨
    ∃ d' n, d.apply e = .ok (d', n) ∧ d.defect? e = none ∧ d.Change e n d' := by
  cases e with
  | terminal name =>
    rcases declare_cases d.terminals name with ⟨refused, reserved⟩ | ⟨names, i, declared, free⟩
    · exact .inl ⟨_, by simp only [apply, addTerminal, refused]; rfl, if_pos reserved⟩
    · exact .inr ⟨_, _, by simp only [apply, addTerminal, declared]; rfl, if_neg (by simp [free]), .terminal declared⟩
  | nonterminal name =>
    rcases declare_cases d.nonterminals name with ⟨refused, reserved⟩ | ⟨names, i, declared, free⟩
    · exact .inl ⟨_, by simp only [apply, addNonterminal, refused]; rfl, if_pos reserved⟩
    · exact .inr ⟨_, _, by simp only [apply, addNonterminal, declared]; rfl, if_neg (by simp [free]), .nonterminal declared⟩
  | production head body =>
    rcases d.resolveNonterminal_cases head with ⟨refused, defect⟩ | ⟨i, resolved, sound, found⟩
    · exact .inl ⟨_, by simp only [apply, addProduction, refused]; rfl, by rw [defect?, defect, Option.some_or]⟩
    · rcases d.resolveBody_cases head body with ⟨name, refused, first⟩ | ⟨symbols, written, known, spelled, settled⟩
      · exact .inl ⟨_, by simp only [apply, addProduction, resolved, refused]; rfl, by rw [defect?, sound, first]; rfl⟩
      · exact .inr ⟨_, _, by simp only [apply, addProduction, resolved, written]; rfl, by rw [defect?, sound, known]; rfl,
          .production found spelled settled⟩
  | start name =>
    rcases d.resolveNonterminal_cases name with ⟨refused, defect⟩ | ⟨i, resolved, sound, found⟩
    · exact .inl ⟨_, by simp only [apply, setStart, refused]; rfl, defect⟩
    · exact .inr ⟨_, _, by simp only [apply, setStart, resolved]; rfl, sound, .start found⟩
  | restart name =>
    rcases d.resolveNonterminal_cases name with ⟨refused, defect⟩ | ⟨i, resolved, sound, found⟩
    · exact .inl ⟨_, by simp only [apply, addRestart, refused]; rfl, defect⟩
    · exact .inr ⟨_, _, by simp only [apply, addRestart, resolved]; rfl, sound, .restart found⟩

theorem change_of_apply (h : d.apply e = .ok (d', n)) : d.Change e n d' := by
  rcases d.apply_cases e with ⟨_, refused, -⟩ | ⟨_, _, done, -, change⟩
  · cases refused.symm.trans h
  · cases done.symm.trans h
    exact change

/-- What a draft and all changes of it have, it keeps whatever edit is tried. -/
theorem attempt_of_change {motive : Draft → Prop} (here : motive d)
    (changed : ∀ {n d'}, d.Change e n d' → motive d') : motive (d.attempt e) := by
  unfold attempt
  split
  · exact changed (change_of_apply ‹_›)
  · exact here

end Draft
end Lookahead
