import Lookahead.Proofs.Prediction.Table
import Mathlib.Algebra.BigOperators.Group.Finset.Basic

/-! The log of a table's conflicts, told from the sets that the table is built from. What is written to a cell can be read off
FIRST and FOLLOW. The cell holds the last of it, the log holds its neighbours, and there are as many conflicts as there are
writes beyond the first of each cell. -/

namespace Lookahead

/-- The writes of one production to a cell: one if it belongs to the row and the column can begin its body, and one more if its
    body can vanish and the column can follow the row. -/
def Sets.writesOf (sets : Sets) (p : Production) (id n : Nat) (c : Column) : List Nat :=
  if p.head = n then
    (if c.toSymbol ∈ sets.first.ofSequence p.body then [id] else []) ++
      if .epsilon ∈ sets.first.ofSequence p.body ∧ c.toSymbol ∈ sets.follow.ofNonterminal n then [id] else []
  else []

/-- The writes to a cell in order. -/
def Sets.writesTo (sets : Sets) (g : Grammar) (n : Nat) (c : Column) : List Nat :=
  g.numbered.flatMap fun (p, id) => sets.writesOf p id n c

def Prediction.cell (p : Prediction) : Nat × Column := (p.nonterminal, p.column)

/-- The cells that a table fills. -/
def Table.filled (t : Table) : List (Nat × Column) := t.cells.map Prediction.cell

/-- The elements of a list are shared out among their keys. -/
theorem length_eq_sum_countP {α κ : Type} [DecidableEq κ] (key : α → κ) {keys : List κ} (distinct : keys.Nodup) {l : List α}
    (inside : ∀ a ∈ l, key a ∈ keys) : l.length = (keys.map fun k => l.countP (key · = k)).sum := by
  have covered : ∀ k ∈ (l.map key : Multiset κ), k ∈ keys.toFinset := by
    intro k member
    obtain ⟨a, ha, rfl⟩ := List.mem_map.mp (Multiset.mem_coe.mp member)
    exact List.mem_toFinset.mpr (inside a ha)
  have shared := Multiset.sum_count_eq_card covered
  rw [List.sum_toFinset _ distinct, Multiset.coe_card, List.length_map] at shared
  rw [← shared]
  congr 2
  funext k
  rw [Multiset.coe_count, List.count, List.countP_map]
  rfl

namespace Table
variable {g : Grammar} {sets : Sets} {t : Table} {n : Nat} {c : Column}

theorem replicate_share (ordered : sets.Ordered) (p : Production) (id n : Nat) (c : Column) :
    List.replicate (sets.share p n c) id = sets.writesOf p id n c := by
  unfold Sets.share Sets.writesOf
  split
  · rename_i row
    rw [ordered.count_columnsOf, List.replicate_add, ite_and, row]
    congr 1
    · split <;> rfl
    · split
      · split <;> rfl
      · rfl
  · rfl

/-- The writes of the table are those that the sets tell. -/
theorem writes_eq_writesTo (ordered : sets.Ordered) (g : Grammar) (n : Nat) (c : Column) :
    writes (predictions g sets) n c = sets.writesTo g n c := by
  rw [writes_predictions, Sets.writesTo]
  refine List.flatMap_congr ?_
  rintro ⟨p, id⟩ -
  exact replicate_share ordered p id n c

/-! ### Filled cells -/

theorem mem_filled : (n, c) ∈ t.filled ↔ t.predicts n c = true := by
  simp [filled, Prediction.cell, predicts, get?, List.find?_isSome]

theorem nodup_filled (g : Grammar) (sets : Sets) : (build g sets).filled.Nodup := by
  rw [filled, List.nodup_iff_pairwise_ne, List.pairwise_map]
  refine (pairwise_foldl (predictions g sets)).imp fun {p q} before same => ?_
  obtain ⟨row, column⟩ := Prod.mk.inj same
  rcases Prediction.precedes_iff.mp before with less | ⟨-, before⟩
  · omega
  · exact Column.ne_of_precedes before column

theorem mem_filled_iff : (n, c) ∈ (build g sets).filled ↔ writes (predictions g sets) n c ≠ [] := by
  rw [mem_filled, predicts_iff, ne_eq, List.length_eq_zero_iff]

/-- The cell of a conflict is filled. -/
theorem filled_of_conflict {k : Conflict} (member : k ∈ (build g sets).conflicts) :
    (k.nonterminal, k.column) ∈ (build g sets).filled := by
  have some : ((build g sets).conflictsAt k.nonterminal k.column).length ≠ 0 := by
    rw [conflictsAt, List.length_map, ne_eq, List.length_eq_zero_iff, List.filter_eq_nil_iff]
    exact fun none => none k member (by simp)
  rw [length_conflictsAt] at some
  rw [mem_filled, predicts_iff]
  omega

/-! ### How many conflicts there are -/

/-- All writes but the first of each cell are conflicts. -/
theorem length_conflicts (g : Grammar) (sets : Sets) :
    (build g sets).conflicts.length + (build g sets).filled.length =
      ((build g sets).filled.map fun k => (writes (predictions g sets) k.1 k.2).length).sum := by
  have shared := length_eq_sum_countP (fun k : Conflict => (k.nonterminal, k.column)) (nodup_filled g sets)
    fun _ => filled_of_conflict
  have each : ∀ k ∈ (build g sets).filled,
      (build g sets).conflicts.countP (fun x => (x.nonterminal, x.column) = k) + 1 =
        (writes (predictions g sets) k.1 k.2).length := by
    rintro ⟨n, c⟩ member
    have conflicts : (build g sets).conflicts.countP (fun x => (x.nonterminal, x.column) = (n, c)) =
        ((build g sets).conflictsAt n c).length := by
      simp only [conflictsAt, List.length_map, List.countP_eq_length_filter, Prod.mk.injEq]
    have some := List.length_pos_iff.mpr (mem_filled_iff.mp member)
    rw [conflicts, length_conflictsAt]
    show _ = (writes (predictions g sets) n c).length
    omega
  calc (build g sets).conflicts.length + (build g sets).filled.length
      = ((build g sets).filled.map fun k =>
          (build g sets).conflicts.countP (fun x => (x.nonterminal, x.column) = k) + 1).sum := by
        rw [List.sum_map_add, ← shared, List.map_const', List.sum_replicate_nat, Nat.mul_one]
    _ = _ := congrArg List.sum (List.map_congr_left each)

/-- Built from the solved sets of any grammar, its own or another, a table holds the last write to each cell and nothing where
    none is made. The conflicts of a cell are its neighbouring writes in order, so that there are as many conflicts as there
    are writes beyond the filled cells, and a cell holds a production of its row. -/
theorem build_logs_writes (g other : Grammar) :
    let sets := Sets.solve other
    let table := build g sets
    (∀ n c, table.get? n c = (sets.writesTo g n c).getLast? ∧ (table.get? n c = none ↔ sets.writesTo g n c = []) ∧
      table.conflictsAt n c = (sets.writesTo g n c).zip (sets.writesTo g n c).tail) ∧
    table.filled.Nodup ∧ (∀ n c, (n, c) ∈ table.filled ↔ sets.writesTo g n c ≠ []) ∧
    table.conflicts.length =
      (table.filled.map fun k => (sets.writesTo g k.1 k.2).length).sum - table.filled.length ∧
    table.filled.length ≤ (table.filled.map fun k => (sets.writesTo g k.1 k.2).length).sum ∧
    ∀ n c id, table.get? n c = some id → ∃ p, g.production? id = some p ∧ p.head = n := by
  intro sets table
  have written : ∀ n c, writes (predictions g sets) n c = sets.writesTo g n c :=
    writes_eq_writesTo (Sets.ordered_solve other) g
  have last : ∀ n c, table.get? n c = (sets.writesTo g n c).getLast? := fun n c => by rw [← written]; exact get?_foldl _
  have total : table.conflicts.length + table.filled.length =
      (table.filled.map fun k => (sets.writesTo g k.1 k.2).length).sum := by
    simp only [← written]
    exact length_conflicts g sets
  refine ⟨fun n c => ⟨last n c, ?_, ?_⟩, nodup_filled g sets, fun n c => ?_, Nat.eq_sub_of_add_eq total,
    total ▸ Nat.le_add_left .., fun n c id held => ?_⟩
  · rw [last, List.getLast?_eq_none_iff]
  · rw [← written]
    exact conflictsAt_foldl _
  · rw [mem_filled_iff, written]
  · obtain ⟨p, found, head, -⟩ := predicted_of_get? held
    exact ⟨p, found, head⟩

/-- Before `e` the tail of `S → i S E` can vanish or go on, and the latter is written last. -/
example : (Sets.solve .dangling).writesTo .dangling 1 (.terminal 1) = [2, 3] := by decide +kernel

end Table
end Lookahead
