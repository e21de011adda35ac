import Lookahead.Proofs.Grammar.Renaming

/-! Grammars whose names are declared before their rules. There a name stands for one symbol in all rules, so that two such
grammars with the same names and the same rules by name are the same under new numbers for the names. -/

namespace Lookahead

/-- Whether an edit declares a name. -/
def Edit.isDeclaration : Edit → Bool
  | .terminal _ => true
  | .nonterminal _ => true
  | .production _ _ => false
  | .start _ => false
  | .restart _ => false

/-- Whether an edit adds a rule. -/
def Edit.isRule : Edit → Bool
  | .production _ _ => true
  | .terminal _ => false
  | .nonterminal _ => false
  | .start _ => false
  | .restart _ => false

namespace Vocabulary
variable {v v' : Vocabulary} {ρ : Renaming}

/-! ### Names and what they stand for -/

theorem nonterminal?_name {n : Nat} (distinct : v.nonterminals.Nodup) (known : n < v.nonterminals.length) :
    v.nonterminal? (v.name (.nonterminal n)) = some n := by
  rw [nonterminal?, idxOf?_eq_some distinct, name, List.getD_eq_getElem?_getD, List.getElem?_eq_getElem known,
    Option.getD_some]

namespace Renamed
variable (h : v.Renamed ρ v') (terminals : v.terminals.Nodup) (terminals' : v'.terminals.Nodup)
  (nonterminals : v.nonterminals.Nodup) (nonterminals' : v'.nonterminals.Nodup)
include h

theorem terminal? (terminals : v.terminals.Nodup) (terminals' : v'.terminals.Nodup) (name : String) :
    v'.terminal? name = (v.terminal? name).map ρ.terminal := idxOf?_places terminals terminals' h.terminals name

theorem nonterminal? (nonterminals : v.nonterminals.Nodup) (nonterminals' : v'.nonterminals.Nodup) (name : String) :
    v'.nonterminal? name = (v.nonterminal? name).map ρ.nonterminal :=
  idxOf?_places nonterminals nonterminals' h.nonterminals name

include terminals terminals' nonterminals nonterminals' in
theorem find? (name : String) : v'.find? name = (v.find? name).map (.renamed ρ) := by
  unfold Vocabulary.find?
  rw [h.nonterminal? nonterminals nonterminals', h.terminal? terminals terminals']
  split
  · rfl
  · split
    · rfl
    · cases v.nonterminal? name with
      | some i => rfl
      | none =>
        rw [Option.map_none]
        cases v.terminal? name <;> rfl

end Renamed
end Vocabulary

/-! ### Drafts whose names are declared first -/

namespace Draft
variable {d d' : Draft}

/-- Each symbol of a body is what its name stands for. -/
def Settled (d : Draft) : Prop := ∀ p ∈ d.productions, ∀ s ∈ p.body, d.find? (d.name s) = some s

/-- No rule changes its sense unless another name is declared. -/
theorem Settled.attempt (settled : d.Settled) {e : Edit} (kept : e.isDeclaration = false) : (d.attempt e).Settled := by
  refine attempt_of_change settled fun change => ?_
  cases change with
  | terminal _ => cases kept
  | nonterminal _ => cases kept
  | production _ _ known =>
    exact List.forall_mem_append.mpr ⟨settled, List.forall_mem_singleton.mpr (forall_mem_kept rfl known)⟩
  | start _ => exact settled
  | restart _ => split <;> exact settled

theorem attempt_productions {e : Edit} (kept : e.isRule = false) : (d.attempt e).productions = d.productions := by
  refine attempt_of_change (motive := fun d' => d'.productions = d.productions) rfl fun change => ?_
  cases change with
  | terminal _ => rfl
  | nonterminal _ => rfl
  | production _ _ _ => cases kept
  | start _ => rfl
  | restart _ => split <;> rfl

theorem foldl_productions {edits : List Edit} (kept : ∀ e ∈ edits, e.isRule = false) :
    (edits.foldl Draft.attempt d).productions = d.productions := by
  induction edits generalizing d with
  | nil => rfl
  | cons e rest ih =>
    rw [List.foldl_cons, ih fun e he => kept e (List.mem_cons_of_mem _ he), attempt_productions (kept e List.mem_cons_self)]

theorem Settled.foldl {edits : List Edit} (settled : d.Settled) (kept : ∀ e ∈ edits, e.isDeclaration = false) :
    (edits.foldl Draft.attempt d).Settled := by
  induction edits generalizing d with
  | nil => exact settled
  | cons e rest ih =>
    exact ih (settled.attempt (kept e List.mem_cons_self)) fun e he => kept e (List.mem_cons_of_mem _ he)

end Draft

namespace Grammar
variable {g g' : Grammar}

/-- The grammar is what some edits leave, all names being declared before the first rule. -/
def DeclaredFirst (g : Grammar) : Prop :=
  ∃ names rest : List Edit, (∀ e ∈ names, e.isRule = false) ∧ (∀ e ∈ rest, e.isDeclaration = false) ∧
    ((names ++ rest).foldl Draft.attempt .empty).build = .ok g

theorem DeclaredFirst.built (h : g.DeclaredFirst) : g.Built := by
  obtain ⟨names, rest, -, -, built⟩ := h
  exact ⟨names ++ rest, built⟩

theorem DeclaredFirst.settled (h : g.DeclaredFirst) :
    ∀ p ∈ g.productions, ∀ s ∈ p.body, g.find? (g.name s) = some s := by
  obtain ⟨names, rest, rules, declarations, built⟩ := h
  rw [List.foldl_append] at built
  have none : (names.foldl Draft.attempt .empty).productions = [] := Draft.foldl_productions rules
  have start : (names.foldl Draft.attempt .empty).Settled := by
    intro p hp
    rw [none] at hp
    cases hp
  have settled := start.foldl declarations
  unfold Draft.build at built
  split at built
  · cases built
  · cases built
    exact settled

/-! ### The same grammar in other numbers -/

/-- A production by the names of its head and of the symbols of its body. -/
def spelled (g : Grammar) (p : Production) : String × List String := (g.name (.nonterminal p.head), p.body.map g.name)

/-- Grammars that declare the same names, in whatever order, with the same productions in the same order, the same start and
    the same restart points by name. -/
structure SameByNames (g g' : Grammar) : Prop where
  terminals : ∀ name, name ∈ g.terminals ↔ name ∈ g'.terminals
  nonterminals : ∀ name, name ∈ g.nonterminals ↔ name ∈ g'.nonterminals
  productions : g.productions.map g.spelled = g'.productions.map g'.spelled
  start : g.name (.nonterminal g.start) = g'.name (.nonterminal g'.start)
  restarts : g.restarts.map (fun n => g.name (.nonterminal n)) = g'.restarts.map fun n => g'.name (.nonterminal n)

/-- Where names tell what they stand for, lists with the same names are the same under the new numbers. -/
theorem renamed_of_named {α β : Type} {name : α → String} {name' : β → String} {find : String → Option α}
    {find' : String → Option β} {rename : α → β} {as : List α} {bs : List β}
    (carried : ∀ text, find' text = (find text).map rename) (found : ∀ a ∈ as, find (name a) = some a)
    (found' : ∀ b ∈ bs, find' (name' b) = some b) (same : as.map name = bs.map name') : bs = as.map rename := by
  refine List.map_injective_iff.mpr (Option.some_injective β) ?_
  calc bs.map some = bs.map (fun b => find' (name' b)) := (List.map_congr_left found').symm
    _ = (as.map name).map find' := by rw [same, List.map_map]; rfl
    _ = as.map (fun a => (find (name a)).map rename) := by rw [List.map_map]; simp only [Function.comp_def, carried]
    _ = as.map (fun a => some (rename a)) := List.map_congr_left fun a ha => by rw [found a ha]; rfl
    _ = (as.map rename).map some := by rw [List.map_map]; rfl

theorem SameByNames.renamed (same : g.SameByNames g') (first : g.DeclaredFirst) (first' : g'.DeclaredFirst) :
    ∃ σ τ : Equiv.Perm Nat, g.Renamed (.ofNames σ τ) g' := by
  obtain ⟨terminals, nonterminals, points⟩ := first.built.distinct
  obtain ⟨terminals', nonterminals', points'⟩ := first'.built.distinct
  have declared := first.built.declared
  have declared' := first'.built.declared
  obtain ⟨σ, places⟩ := exists_places ((List.perm_ext_iff_of_nodup terminals terminals').mpr same.terminals)
  obtain ⟨τ, places'⟩ := exists_places ((List.perm_ext_iff_of_nodup nonterminals nonterminals').mpr same.nonterminals)
  have renamed : Vocabulary.Renamed (.ofNames σ τ) g.toVocabulary g'.toVocabulary := ⟨places, places'⟩
  have numbers : ∀ {ns ns' : List Nat}, (∀ n ∈ ns, n < g.nonterminals.length) → (∀ n ∈ ns', n < g'.nonterminals.length) →
      ns.map (fun n => g.name (.nonterminal n)) = ns'.map (fun n => g'.name (.nonterminal n)) → ns' = ns.map τ :=
    fun known known' named => renamed_of_named (renamed.nonterminal? nonterminals nonterminals')
      (fun n hn => Vocabulary.nonterminal?_name nonterminals (known n hn))
      (fun n hn => Vocabulary.nonterminal?_name nonterminals' (known' n hn)) named
  have number : ∀ {n n' : Nat}, n < g.nonterminals.length → n' < g'.nonterminals.length →
      g.name (.nonterminal n) = g'.name (.nonterminal n') → n' = τ n := by
    intro n n' known known' named
    have one : [n'] = [n].map τ := numbers (by simpa using known) (by simpa using known') (by simpa using named)
    exact List.singleton_injective one
  refine ⟨σ, τ, renamed, fun id => ?_, number declared.start declared'.start same.start,
    numbers points points' same.restarts⟩
  have row : (g.production? id).map g.spelled = (g'.production? id).map g'.spelled := by
    rw [production?, production?, ← List.getElem?_map, ← List.getElem?_map, same.productions]
  show g'.production? id = _
  cases found : g.production? id with
  | none =>
    rw [found, Option.map_none, eq_comm, Option.map_eq_none_iff] at row
    exact row
  | some p =>
    rw [found, Option.map_some, eq_comm, Option.map_eq_some_iff] at row
    obtain ⟨p', found', spelled⟩ := row
    have member := List.mem_of_getElem? found
    have member' := List.mem_of_getElem? found'
    obtain ⟨head, body⟩ := Prod.ext_iff.mp spelled.symm
    have heads := number (declared.heads p member) (declared'.heads p' member') head
    have bodies := renamed_of_named (renamed.find? terminals terminals' nonterminals nonterminals')
      (first.settled p member) (first'.settled p' member') body
    rw [found', Option.map_some, Production.renamed, ← bodies]
    exact congrArg (fun head => some (Production.mk head p'.body)) heads

end Grammar
end Lookahead
