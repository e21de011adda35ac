import Lookahead.Proofs.Grammar.Renaming
import Lookahead.Proofs.Prediction.Table
import Mathlib.Algebra.BigOperators.Group.List.Basic

/-! Prediction under new numbers. The solved sets of two grammars that differ in their numbering have the same members, so
that each production is written equally often to a cell as it is to the cell of the new numbers. The order of productions
tells the order of the writes and nothing else. -/

namespace Lookahead
variable {ρ : Renaming} {g g' : Grammar} {a : List Symbol} {x : Symbol} {n id : Nat} {c : Column} {p : Production}

/-! ### FIRST and FOLLOW -/

namespace Grammar

theorem Begins.renamed (h : g.Renamed ρ g') (begins : g.Begins a x) : g'.Begins (a.map (.renamed ρ)) (x.renamed ρ) := by
  cases x with
  | terminal t =>
    obtain ⟨rest, derived⟩ := begins
    exact ⟨_, h.derives derived⟩
  | endMarker =>
    obtain ⟨rest, derived⟩ := begins
    exact ⟨_, h.derives derived⟩
  | epsilon => exact h.derives begins
  | nonterminal m => exact begins

theorem Beside.renamed (h : g.Renamed ρ g') (beside : g.Beside n x) : g'.Beside (ρ.nonterminal n) (x.renamed ρ) := by
  obtain ⟨m, bound, before, after, derived⟩ := beside
  refine ⟨ρ.nonterminal m, h.declares (s := .nonterminal m) bound, before.map (.renamed ρ), after.map (.renamed ρ), ?_⟩
  simpa only [List.map_append, List.map_cons, List.map_nil, Symbol.renamed] using h.derives derived

theorem Ends.renamed (h : g.Renamed ρ g') (ends : g.Ends n) : g'.Ends (ρ.nonterminal n) := by
  obtain ⟨before, derived⟩ := ends
  refine ⟨before.map (.renamed ρ), ?_⟩
  rw [h.start]
  simpa only [List.map_append, List.map_cons, List.map_nil, Symbol.renamed] using h.derives derived

theorem Follows.renamed (h : g.Renamed ρ g') (follows : g.Follows n x) :
    g'.Follows (ρ.nonterminal n) (x.renamed ρ) := by
  cases x with
  | terminal t => exact Beside.renamed h follows
  | endMarker => exact follows.imp (Ends.renamed h) (Beside.renamed h)
  | epsilon => exact follows
  | nonterminal m => exact follows

namespace Renamed

theorem begins_iff (h : g.Renamed ρ g') : g'.Begins (a.map (.renamed ρ)) (x.renamed ρ) ↔ g.Begins a x := by
  refine ⟨fun begins => ?_, Begins.renamed h⟩
  have back := Begins.renamed h.symm begins
  rwa [map_renamed_symm, Symbol.renamed_symm] at back

theorem follows_iff (h : g.Renamed ρ g') : g'.Follows (ρ.nonterminal n) (x.renamed ρ) ↔ g.Follows n x := by
  refine ⟨fun follows => ?_, Follows.renamed h⟩
  have back := Follows.renamed h.symm follows
  rwa [Symbol.renamed_symm, show ρ.symm.nonterminal (ρ.nonterminal n) = n from ρ.nonterminal.symm_apply_apply n] at back

theorem mem_first (h : g.Renamed ρ g') (declared : g.Declared) (known : ∀ s ∈ a, g.Declares s) :
    x.renamed ρ ∈ (FirstSets.solve g').ofSequence (a.map (.renamed ρ)) ↔ x ∈ (FirstSets.solve g).ofSequence a := by
  have known' : ∀ s ∈ a.map (.renamed ρ), g'.Declares s := by
    intro s hs
    obtain ⟨t, ht, rfl⟩ := List.mem_map.mp hs
    exact h.declares (known t ht)
  rw [FirstSets.mem_solve_ofSequence (h.declared declared) known', FirstSets.mem_solve_ofSequence declared known,
    erased_renamed, h.begins_iff]

theorem mem_follow (h : g.Renamed ρ g') (declared : g.Declared) :
    x.renamed ρ ∈ (Sets.solve g').follow.ofNonterminal (ρ.nonterminal n) ↔ x ∈ (Sets.solve g).follow.ofNonterminal n := by
  rw [Sets.solve, Sets.solve, FollowSets.mem_solve (h.declared declared), FollowSets.mem_solve declared, h.follows_iff]

theorem ahead_iff (h : g.Renamed ρ g') (declared : g.Declared) (known : ∀ s ∈ a, g.Declares s) :
    (Sets.solve g').first.Ahead (a.map (.renamed ρ)) (· ∈ (Sets.solve g').follow.ofNonterminal (ρ.nonterminal n))
        (x.renamed ρ) ↔
      (Sets.solve g).first.Ahead a (· ∈ (Sets.solve g).follow.ofNonterminal n) x := by
  have begins : ∀ {y : Symbol}, y.renamed ρ ∈ (Sets.solve g').first.ofSequence (a.map (.renamed ρ)) ↔
      y ∈ (Sets.solve g).first.ofSequence a := h.mem_first declared known
  have vanishes := begins (y := .epsilon)
  simp only [FirstSets.Ahead, begins, h.mem_follow declared, ne_eq, Symbol.renamed_eq_epsilon]
  exact or_congr_right (and_congr_left fun _ => vanishes)

end Renamed
end Grammar

/-- The sets of a grammar do not tell the order of its productions. -/
theorem Sets.solve_of_renamed {π : Equiv.Perm Nat} (h : g.Renamed (.ofProductions π) g') (declared : g.Declared)
    (terminals : g.terminals.length = g'.terminals.length) (nonterminals : g.nonterminals.length = g'.nonterminals.length) :
    Sets.solve g = Sets.solve g' := by
  have first : FirstSets.solve g = FirstSets.solve g' := by
    refine FirstSets.Fits.ext .solve .solve terminals nonterminals fun i bound x => ?_
    have known : ∀ s ∈ [Symbol.nonterminal i], g.Declares s := fun s hs => by
      rw [List.mem_singleton.mp hs]
      exact bound
    have same := h.mem_first (x := x) declared known
    rw [List.map_singleton, Symbol.renamed_ofProductions, Symbol.renamed_ofProductions,
      FirstSets.mem_ofSequence_singleton, FirstSets.mem_ofSequence_singleton] at same
    exact same.symm
  have follow : FollowSets.solve g (.solve g) = FollowSets.solve g' (.solve g') := by
    refine FollowSets.Fits.ext (.solve declared .solve) (.solve (h.declared declared) .solve) nonterminals fun i x => ?_
    have same := h.mem_follow (x := x) (n := i) declared
    rw [Symbol.renamed_ofProductions] at same
    exact same.symm
  exact congrArg₂ Sets.mk first follow

/-! ### What is written to a cell -/

theorem Grammar.Renamed.share (h : g.Renamed ρ g') (declared : g.Declared) (member : p ∈ g.productions) :
    (Sets.solve g').share (p.renamed ρ) (ρ.nonterminal n) (c.renamed ρ) = (Sets.solve g).share p n c := by
  have begins : ∀ {x : Symbol}, x.renamed ρ ∈ (Sets.solve g').first.ofSequence (p.renamed ρ).body ↔
      x ∈ (Sets.solve g).first.ofSequence p.body := h.mem_first declared (declared.bodies p member)
  have vanishes := begins (x := .epsilon)
  have follows : ∀ {x : Symbol}, x.renamed ρ ∈ (Sets.solve g').follow.ofNonterminal (ρ.nonterminal p.head) ↔
      x ∈ (Sets.solve g).follow.ofNonterminal p.head := h.mem_follow declared
  simp only [Symbol.renamed] at vanishes
  simp only [Sets.share, (Sets.ordered_solve _).count_columnsOf, Column.toSymbol_renamed, begins, follows, vanishes,
    show (p.renamed ρ).head = ρ.nonterminal p.head from rfl, ρ.nonterminal.apply_eq_iff_eq]

/-! ### What a cell holds -/

namespace Grammar.Renamed
open Table

theorem mem_writes (h : g.Renamed ρ g') (declared : g.Declared) :
    ρ.production id ∈ writes (predictions g' (Sets.solve g')) (ρ.nonterminal n) (c.renamed ρ) ↔
      id ∈ writes (predictions g (Sets.solve g)) n c := by
  rw [Table.mem_writes, Table.mem_writes, h.productions, Column.toSymbol_renamed]
  cases found : g.production? id with
  | none => simp
  | some p =>
    have ahead := h.ahead_iff (n := p.head) (x := c.toSymbol) declared (declared.bodies p (List.mem_of_getElem? found))
    simp only [Option.map_some, Option.some.injEq, exists_eq_left', Production.renamed, ahead,
      ρ.nonterminal.apply_eq_iff_eq]

/-- Without conflicts a cell holds the new number of what it held. -/
theorem get?_of_isLL1 (h : g.Renamed ρ g') (declared : g.Declared) (ll1 : (build g (Sets.solve g)).isLL1 = true)
    (ll1' : (build g' (Sets.solve g')).isLL1 = true) (n : Nat) (c : Column) :
    (build g' (Sets.solve g')).get? (ρ.nonterminal n) (c.renamed ρ) =
      ((build g (Sets.solve g)).get? n c).map ρ.production := by
  refine Option.ext fun id => ?_
  rw [get?_eq_some_iff ll1', Option.map_eq_some_iff]
  constructor
  · intro member
    rw [← ρ.production.apply_symm_apply id, h.mem_writes declared] at member
    exact ⟨_, (get?_eq_some_iff ll1).mpr member, ρ.production.apply_symm_apply id⟩
  · rintro ⟨old, held, rfl⟩
    exact (h.mem_writes declared).mpr ((get?_eq_some_iff ll1).mp held)

/-- Where productions keep their numbers, the same are written to a cell in the same order, with conflicts and without. -/
theorem get?_ofNames {σ τ : Equiv.Perm Nat} (h : g.Renamed (.ofNames σ τ) g') (declared : g.Declared) (n : Nat)
    (c : Column) : (build g' (Sets.solve g')).get? (τ n) (c.renamed (.ofNames σ τ)) = (build g (Sets.solve g)).get? n c := by
  have renamed : g'.productions = g.productions.map (.renamed (.ofNames σ τ)) := by
    refine List.ext_getElem? fun id => ?_
    rw [List.getElem?_map]
    exact h.productions id
  have same : writes (predictions g' (Sets.solve g')) (τ n) (c.renamed (.ofNames σ τ)) =
      writes (predictions g (Sets.solve g)) n c := by
    rw [writes_predictions, writes_predictions, numbered, renamed, List.zipIdx_map, List.flatMap_map]
    refine List.flatMap_congr ?_
    rintro ⟨p, id⟩ member
    have written : p ∈ g.productions := List.mem_of_getElem? (List.mem_zipIdx_iff_getElem?.mp member)
    exact congrArg (List.replicate · id) (h.share declared written)
  rw [build, build, get?_foldl, get?_foldl, same]

end Grammar.Renamed

namespace Table
variable {sets sets' : Sets}

/-- Where the cells of two tables are filled alike, a row has the same columns but for their order. -/
theorem perm_row (ρ : Renaming)
    (filled : ∀ n c, (build g' sets').predicts (ρ.nonterminal n) (c.renamed ρ) = (build g sets).predicts n c)
    (n : Nat) : List.Perm ((((build g sets).row n).map (·.column)).map (Column.renamed ρ))
      (((build g' sets').row (ρ.nonterminal n)).map (·.column)) := by
  have distinct : ∀ g sets n, (((build g sets).row n).map (·.column)).Nodup := fun g sets n =>
    (pairwise_row g sets n).imp Column.ne_of_precedes
  rw [List.perm_ext_iff_of_nodup ((distinct g sets n).map Column.renamed_injective) (distinct g' sets' _)]
  intro c
  rw [mem_row, List.mem_map]
  constructor
  · rintro ⟨old, member, rfl⟩
    rw [filled]
    exact mem_row.mp member
  · intro member
    obtain ⟨old, rfl⟩ : ∃ old, Column.renamed ρ old = c := ⟨_, Column.renamed_of_symm c⟩
    rw [filled] at member
    exact ⟨old, mem_row.mpr member, rfl⟩

theorem row_eq (filled : ∀ n c, (build g' sets').predicts n c = (build g sets).predicts n c) (n : Nat) :
    ((build g' sets').row n).map (·.column) = ((build g sets).row n).map (·.column) := by
  have perm := perm_row (.ofProductions (.refl Nat)) (fun n c => by
    rw [Column.renamed_ofProductions]
    exact filled n c) n
  rw [funext (Column.renamed_ofProductions _), List.map_id'] at perm
  refine List.Perm.eq_of_pairwise (fun c d _ _ before after => ?_) (pairwise_row ..) (pairwise_row ..) perm.symm
  exact absurd rfl (Column.ne_of_precedes (Column.precedes_trans before after))

end Table
end Lookahead
