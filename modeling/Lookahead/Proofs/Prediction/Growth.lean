import Lookahead.Proofs.Prediction.Table
import Mathlib.Algebra.Order.BigOperators.Group.List
import Mathlib.Algebra.Order.Group.Nat

/-! Grammars that grow. With more productions every derivation stays one, so that FIRST and FOLLOW take in all that they held.
Each production is then written to a cell at least as often as before, and so no filled cell is emptied and no conflict goes
away, whatever the new productions make nullable. -/

namespace Lookahead

/-- The second grammar has the names and the start of the first, and more productions behind those of the first. -/
structure Grammar.GrowsTo (g g' : Grammar) : Prop where
  terminals : g'.terminals = g.terminals
  nonterminals : g'.nonterminals = g.nonterminals
  start : g'.start = g.start
  productions : g.productions <+: g'.productions

namespace Grammar.GrowsTo
variable {g g' : Grammar} {a b : List Symbol} {s x : Symbol} {n : Nat} {c : Column} {p : Production}

theorem declares_iff (grows : g.GrowsTo g') : g'.Declares s ↔ g.Declares s := by
  cases s <;> simp [Vocabulary.Declares, grows.terminals, grows.nonterminals]

theorem mem_productions (grows : g.GrowsTo g') (member : p ∈ g.productions) : p ∈ g'.productions :=
  grows.productions.subset member

theorem declared (grows : g.GrowsTo g') (declared : g'.Declared) : g.Declared where
  start := by
    rw [← grows.start, ← grows.nonterminals]
    exact declared.start
  heads p hp := by
    rw [← grows.nonterminals]
    exact declared.heads p (grows.mem_productions hp)
  bodies p hp s hs := grows.declares_iff.mp (declared.bodies p (grows.mem_productions hp) s hs)

/-! ### Derivations stay -/

theorem derives (grows : g.GrowsTo g') (h : g.Derives a b) : g'.Derives a b := by
  induction h with
  | refl => exact .refl a
  | tail _ step ih =>
    cases step with
    | rewrite before after member => exact ih.tail (.rewrite before after (grows.mem_productions member))

theorem begins (grows : g.GrowsTo g') (begins : g.Begins a x) : g'.Begins a x := by
  cases x with
  | terminal t =>
    obtain ⟨rest, derived⟩ := begins
    exact ⟨rest, grows.derives derived⟩
  | endMarker =>
    obtain ⟨rest, derived⟩ := begins
    exact ⟨rest, grows.derives derived⟩
  | epsilon => exact grows.derives begins
  | nonterminal m => exact begins

theorem beside (grows : g.GrowsTo g') (beside : g.Beside n x) : g'.Beside n x := by
  obtain ⟨m, bound, before, after, derived⟩ := beside
  exact ⟨m, grows.nonterminals ▸ bound, before, after, grows.derives derived⟩

theorem follows (grows : g.GrowsTo g') (follows : g.Follows n x) : g'.Follows n x := by
  cases x with
  | terminal t => exact grows.beside follows
  | endMarker =>
    rcases follows with ⟨before, derived⟩ | beside
    · refine Or.inl ⟨before, ?_⟩
      rw [grows.start]
      exact grows.derives derived
    · exact Or.inr (grows.beside beside)
  | epsilon => exact follows
  | nonterminal m => exact follows

/-! ### Sets and cells take in what they held -/

theorem mem_first (grows : g.GrowsTo g') (declared : g'.Declared) (known : ∀ s ∈ a, g.Declares s)
    (member : x ∈ (Sets.solve g).first.ofSequence a) : x ∈ (Sets.solve g').first.ofSequence a := by
  have begins : g.Begins (erased a) x := FirstSets.Sound.solve.ofSequence member
  exact FirstSets.mem_solve_of_begins declared (fun s hs => grows.declares_iff.mpr (known s hs)) (grows.begins begins)

theorem mem_follow (grows : g.GrowsTo g') (declared : g'.Declared)
    (member : x ∈ (Sets.solve g).follow.ofNonterminal n) : x ∈ (Sets.solve g').follow.ofNonterminal n := by
  have follows : g.Follows n x := (FollowSets.mem_solve (grows.declared declared)).mp member
  exact (FollowSets.mem_solve declared).mpr (grows.follows follows)

theorem share_le (grows : g.GrowsTo g') (declared : g'.Declared) (member : p ∈ g.productions) (n : Nat) (c : Column) :
    (Sets.solve g).share p n c ≤ (Sets.solve g').share p n c := by
  have first : ∀ x ∈ (Sets.solve g).first.ofSequence p.body, x ∈ (Sets.solve g').first.ofSequence p.body := fun _ =>
    grows.mem_first declared ((grows.declared declared).bodies p member)
  have follow : ∀ x ∈ (Sets.solve g).follow.ofNonterminal p.head, x ∈ (Sets.solve g').follow.ofNonterminal p.head :=
    fun _ => grows.mem_follow declared
  unfold Sets.share
  split
  · rw [(Sets.ordered_solve g).count_columnsOf, (Sets.ordered_solve g').count_columnsOf]
    refine Nat.add_le_add ?_ ?_
    · grind
    · grind
  · exact Nat.le_refl 0

theorem length_writes_le (grows : g.GrowsTo g') (declared : g'.Declared) (n : Nat) (c : Column) :
    (Table.writes (Table.predictions g (Sets.solve g)) n c).length ≤
      (Table.writes (Table.predictions g' (Sets.solve g')) n c).length := by
  obtain ⟨more, split⟩ := grows.productions
  rw [Table.length_writes, Table.length_writes, ← split, List.map_append, List.sum_append]
  exact Nat.le_add_right_of_le (List.sum_le_sum fun p member => grows.share_le declared member n c)

/-- As a grammar grows, FIRST and FOLLOW and the filled cells grow with it and each cell has at least as many conflicts, so
    that only a grammar without conflicts can grow to one without conflicts. -/
theorem predictions_kept (built : g'.Built) (grows : g.GrowsTo g') :
    let table := Table.build g (Sets.solve g)
    let table' := Table.build g' (Sets.solve g')
    (∀ s, g.Declares s → ∀ x ∈ (Sets.solve g).first.ofSymbol s, x ∈ (Sets.solve g').first.ofSymbol s) ∧
    (∀ n, ∀ x ∈ (Sets.solve g).follow.ofNonterminal n, x ∈ (Sets.solve g').follow.ofNonterminal n) ∧
    (∀ n c, table.predicts n c = true → table'.predicts n c = true) ∧
    (∀ n c, (table.conflictsAt n c).length ≤ (table'.conflictsAt n c).length) ∧
    (table'.isLL1 = true → table.isLL1 = true) := by
  intro table table'
  have written := grows.length_writes_le built.declared
  refine ⟨fun s known x member => ?_, fun n x => grows.mem_follow built.declared, fun n c filled => ?_, fun n c => ?_,
    fun ll1 => ?_⟩
  · rw [← FirstSets.mem_ofSequence_singleton] at member ⊢
    exact grows.mem_first built.declared (fun _ hs => List.mem_singleton.mp hs ▸ known) member
  · rw [Table.predicts_iff] at filled ⊢
    have := written n c
    omega
  · rw [Table.length_conflictsAt, Table.length_conflictsAt]
    exact Nat.sub_le_sub_right (written n c) 1
  · exact Table.isLL1_iff.mpr fun n c => Nat.le_trans (written n c) (Table.isLL1_iff.mp ll1 n c)

/-- Without its empty alternative `S → ( S ) S | ε` derives no word, but it has no conflicts either, and all that it predicts
    is still predicted when the alternative is added. -/
theorem predictions_kept_balanced : ∃ g : Grammar, g.GrowsTo .balanced ∧ Grammar.balanced.Built ∧
    g.productions = [⟨0, [.terminal 0, .nonterminal 0, .terminal 1, .nonterminal 0]⟩] ∧
    (Table.build .balanced (Sets.solve .balanced)).isLL1 = true ∧ (Table.build g (Sets.solve g)).isLL1 = true ∧
    .terminal 1 ∈ (Sets.solve .balanced).follow.ofNonterminal 0 ∧
    (Table.build .balanced (Sets.solve .balanced)).predicts 0 (.terminal 0) = true := by
  let g : Grammar := { Grammar.balanced with productions := Grammar.balanced.productions.take 1 }
  have grows : g.GrowsTo .balanced := ⟨rfl, rfl, rfl, List.take_prefix ..⟩
  have ll1 : (Table.build .balanced (Sets.solve .balanced)).isLL1 = true := by decide +kernel
  obtain ⟨-, follow, filled, -, kept⟩ := predictions_kept balanced_built grows
  exact ⟨g, grows, balanced_built, rfl, ll1, kept ll1, follow 0 _ (by decide +kernel), filled 0 _ (by decide +kernel)⟩

end Grammar.GrowsTo
end Lookahead
