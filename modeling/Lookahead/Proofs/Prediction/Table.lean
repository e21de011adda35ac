import Lookahead.Prediction.Table
import Lookahead.Proofs.Prediction.Follow
import Mathlib.Algebra.BigOperators.Group.List.Basic
import Mathlib.Data.List.Induction

/-! The prediction table as what is written to each of its cells. A cell holds what was last written to it, and the
conflicts of a cell are the neighbours among its writes. Without conflicts a cell holds the one production that is
predicted there. The order of productions tells the order of the writes, not how many there are. -/

namespace Lookahead

/-- The columns that a production is written to, as often as it is. -/
def Sets.columnsOf (sets : Sets) (p : Production) : List Column :=
  (sets.first.ofSequence p.body).columns ++
    if Symbol.epsilon ∈ sets.first.ofSequence p.body then (sets.follow.ofNonterminal p.head).columns else []

/-- How often a production is written to a cell. -/
def Sets.share (sets : Sets) (p : Production) (n : Nat) (c : Column) : Nat :=
  if p.head = n then (sets.columnsOf p).count c else 0

/-- FIRST and FOLLOW list each symbol once. -/
structure Sets.Ordered (sets : Sets) : Prop where
  first : ∀ a, (sets.first.ofSequence a).Increasing
  follow : ∀ n, (sets.follow.ofNonterminal n).Increasing

theorem Sets.ordered_solve (g : Grammar) : (Sets.solve g).Ordered where
  first := FirstSets.increasing_ofSequence
  follow := (FollowSets.within_solve .solve).increasing

theorem Sets.Ordered.count_columnsOf {sets : Sets} (ordered : sets.Ordered) (p : Production) (c : Column) :
    (sets.columnsOf p).count c = (if c.toSymbol ∈ sets.first.ofSequence p.body then 1 else 0) +
      if .epsilon ∈ sets.first.ofSequence p.body then
        if c.toSymbol ∈ sets.follow.ofNonterminal p.head then 1 else 0
      else 0 := by
  rw [columnsOf, List.count_append, (ordered.first p.body).count_columns]
  congr 1
  split
  · rw [(ordered.follow p.head).count_columns]
  · rw [List.count_nil]

/-! ### The order of cells -/

theorem Column.precedes_trans {a b c : Column} (h : a.precedes b) (h' : b.precedes c) : a.precedes c := by
  cases a <;> cases b <;> cases c <;> simp_all [Column.precedes]
  omega

theorem Column.ne_of_precedes {a b : Column} (h : a.precedes b) : a ≠ b := by
  rintro rfl
  cases a <;> simp [Column.precedes] at h

theorem Column.precedes_of_not {a b : Column} (h : ¬b.precedes a) (distinct : a ≠ b) : a.precedes b := by
  cases a <;> cases b <;> simp_all [Column.precedes]
  omega

theorem Prediction.precedes_iff {p q : Prediction} : p.precedes q ↔
    p.nonterminal < q.nonterminal ∨ (p.nonterminal = q.nonterminal ∧ p.column.precedes q.column) := by
  simp [Prediction.precedes]

theorem Prediction.precedes_trans {p q r : Prediction} (h : p.precedes q) (h' : q.precedes r) : p.precedes r := by
  rw [precedes_iff] at *
  rcases h with h | ⟨same, h⟩
  · exact Or.inl (by omega)
  · rcases h' with h' | ⟨same', h'⟩
    · exact Or.inl (by omega)
    · exact Or.inr ⟨same.trans same', Column.precedes_trans h h'⟩

theorem Prediction.precedes_of_not {p q : Prediction} (h : ¬q.precedes p) (distinct : ¬q.sameCell p) : p.precedes q := by
  simp only [precedes_iff, Prediction.sameCell, Bool.and_eq_true, decide_eq_true_eq, not_or, not_and] at *
  rcases Nat.lt_trichotomy p.nonterminal q.nonterminal with less | same | more
  · exact Or.inl less
  · exact Or.inr ⟨same, Column.precedes_of_not (h.2 same.symm) fun equal => distinct same.symm equal.symm⟩
  · exact absurd more h.1

namespace Table
variable {t : Table} {p : Prediction} {n id : Nat} {c : Column}

/-- The productions written to a cell, in order. -/
def writes (predictions : List Prediction) (n : Nat) (c : Column) : List Nat :=
  (predictions.filter fun p => p.nonterminal = n ∧ p.column = c).map (·.production)

/-- The conflicts of a cell: what was there and what took its place. -/
def conflictsAt (t : Table) (n : Nat) (c : Column) : List (Nat × Nat) :=
  (t.conflicts.filter fun k => k.nonterminal = n ∧ k.column = c).map fun k => (k.previous, k.replacement)

theorem writes_concat (ps : List Prediction) (p : Prediction) (n : Nat) (c : Column) : writes (ps ++ [p]) n c =
    writes ps n c ++ if p.nonterminal = n ∧ p.column = c then [p.production] else [] := by
  unfold writes
  rw [List.filter_append, List.map_append]
  congr 1
  by_cases here : p.nonterminal = n ∧ p.column = c
  · simp [here]
  · simp [here]

/-! ### One write -/

theorem find?_place (p : Prediction) (cells : List Prediction) (n : Nat) (c : Column) :
    (place p cells).find? (fun q => q.nonterminal = n ∧ q.column = c) =
      if p.nonterminal = n ∧ p.column = c then some p
      else cells.find? (fun q => q.nonterminal = n ∧ q.column = c) := by
  induction cells with
  | nil => by_cases here : p.nonterminal = n ∧ p.column = c <;> simp [place, here]
  | cons q rest ih =>
    unfold place
    split
    · rename_i same
      simp only [Prediction.sameCell, Bool.and_eq_true, decide_eq_true_eq] at same
      rw [List.find?_cons, List.find?_cons, same.1, same.2]
      by_cases here : q.nonterminal = n ∧ q.column = c <;> simp [here]
    · rename_i other
      split
      · by_cases here : p.nonterminal = n ∧ p.column = c <;> simp [here]
      · rw [List.find?_cons, ih, List.find?_cons]
        by_cases here : p.nonterminal = n ∧ p.column = c
        · have elsewhere : ¬(q.nonterminal = n ∧ q.column = c) := by
            rintro ⟨rfl, rfl⟩
            exact other (by simp [Prediction.sameCell, here])
          simp [here, elsewhere]
        · simp [here]

theorem get?_write : (t.write p).get? n c =
    if p.nonterminal = n ∧ p.column = c then some p.production else t.get? n c := by
  unfold get? write
  rw [find?_place]
  split <;> rfl

theorem conflictsAt_write : (t.write p).conflictsAt n c = t.conflictsAt n c ++
    if p.nonterminal = n ∧ p.column = c then (t.get? n c).toList.map (·, p.production) else [] := by
  unfold conflictsAt write
  by_cases here : p.nonterminal = n ∧ p.column = c
  · obtain ⟨rfl, rfl⟩ := here
    cases t.get? p.nonterminal p.column <;> simp
  · cases t.get? p.nonterminal p.column <;> simp [here]

/-! ### All writes -/

theorem get?_foldl (ps : List Prediction) : (ps.foldl write empty).get? n c = (writes ps n c).getLast? := by
  induction ps using List.reverseRecOn with
  | nil => rfl
  | append_singleton ps p ih =>
    rw [List.foldl_append, List.foldl_cons, List.foldl_nil, get?_write, ih, writes_concat]
    split <;> simp

theorem zip_tail_concat (l : List Nat) (x : Nat) :
    (l ++ [x]).zip (l ++ [x]).tail = l.zip l.tail ++ l.getLast?.toList.map (·, x) := by
  induction l with
  | nil => rfl
  | cons y rest ih =>
    cases rest with
    | nil => rfl
    | cons z more => simpa using ih

theorem conflictsAt_foldl (ps : List Prediction) :
    (ps.foldl write empty).conflictsAt n c = (writes ps n c).zip (writes ps n c).tail := by
  induction ps using List.reverseRecOn with
  | nil => rfl
  | append_singleton ps p ih =>
    rw [List.foldl_append, List.foldl_cons, List.foldl_nil, conflictsAt_write, ih, get?_foldl, writes_concat]
    split
    · rw [zip_tail_concat]
    · rw [List.append_nil, List.append_nil]

/-! ### The table of a grammar -/

section Build
variable {g : Grammar} {sets : Sets}

theorem mem_writes : id ∈ writes (predictions g sets) n c ↔
    ∃ p, g.production? id = some p ∧ p.head = n ∧
      sets.first.Ahead p.body (· ∈ sets.follow.ofNonterminal p.head) c.toSymbol := by
  simp only [writes, List.mem_map, List.mem_filter, predictions, List.mem_flatMap, Grammar.numbered, predictionsOf,
    List.mem_append, decide_eq_true_eq]
  constructor
  · rintro ⟨_, ⟨⟨⟨p, i⟩, member, column, columns, rfl⟩, rfl, rfl⟩, rfl⟩
    refine ⟨p, List.mem_zipIdx_iff_getElem?.mp member, rfl, ?_⟩
    rcases columns with here | after
    · exact Or.inl ⟨SymbolSet.mem_columns.mp here, column.toSymbol_ne_epsilon⟩
    · split at after
      · rename_i vanishes
        exact Or.inr ⟨vanishes, SymbolSet.mem_columns.mp after⟩
      · exact absurd after List.not_mem_nil
  · rintro ⟨p, found, rfl, ahead⟩
    refine ⟨⟨p.head, c, id⟩, ⟨⟨(p, id), List.mem_zipIdx_iff_getElem?.mpr found, c, ?_, rfl⟩, rfl, rfl⟩, rfl⟩
    rcases ahead with ⟨here, -⟩ | ⟨vanishes, after⟩
    · exact Or.inl (SymbolSet.mem_columns.mpr here)
    · rw [if_pos vanishes]
      exact Or.inr (SymbolSet.mem_columns.mpr after)

theorem writes_predictionsOf (sets : Sets) (p : Production) (id n : Nat) (c : Column) :
    writes (predictionsOf sets p id) n c = List.replicate (sets.share p n c) id := by
  have all : predictionsOf sets p id = (sets.columnsOf p).map fun column => ⟨p.head, column, id⟩ := rfl
  rw [writes, all, List.filter_map, List.map_map, Sets.share]
  show (List.filter _ (sets.columnsOf p)).map (fun _ => id) = _
  rw [List.map_const', ← List.countP_eq_length_filter]
  congr 1
  by_cases here : p.head = n
  · simp only [here, Function.comp_def, true_and, if_true]
    rfl
  · simp [here, Function.comp_def]

/-- Each production is written to a cell in one go. -/
theorem writes_predictions (g : Grammar) (sets : Sets) (n : Nat) (c : Column) : writes (predictions g sets) n c =
    g.numbered.flatMap fun (p, id) => List.replicate (sets.share p n c) id := by
  simp only [writes, predictions, List.filter_flatMap, List.map_flatMap]
  refine List.flatMap_congr ?_
  rintro ⟨p, id⟩ -
  exact writes_predictionsOf sets p id n c

theorem length_writes (g : Grammar) (sets : Sets) (n : Nat) (c : Column) :
    (writes (predictions g sets) n c).length = (g.productions.map fun p => sets.share p n c).sum := by
  have numbers : g.numbered.map Prod.fst = g.productions := List.zipIdx_map_fst 0 g.productions
  rw [writes_predictions, List.length_flatMap, ← numbers, List.map_map]
  simp only [List.length_replicate]
  rfl

theorem length_writes_perm {g' : Grammar} (shuffled : g.productions.Perm g'.productions) (sets : Sets) (n : Nat)
    (c : Column) : (writes (predictions g sets) n c).length = (writes (predictions g' sets) n c).length := by
  rw [length_writes, length_writes]
  exact (shuffled.map _).sum_eq

theorem predicts_iff : (build g sets).predicts n c = true ↔ (writes (predictions g sets) n c).length ≠ 0 := by
  rw [predicts, build, get?_foldl, List.getLast?_isSome, ne_eq, ne_eq, List.length_eq_zero_iff]

theorem length_conflictsAt : ((build g sets).conflictsAt n c).length = (writes (predictions g sets) n c).length - 1 := by
  rw [build, conflictsAt_foldl, List.length_zip, List.length_tail]
  omega

/-- A cell holds a production of its row that is predicted on its column. -/
theorem predicted_of_get? (h : (build g sets).get? n c = some id) :
    ∃ p, g.production? id = some p ∧ p.head = n ∧
      sets.first.Ahead p.body (· ∈ sets.follow.ofNonterminal p.head) c.toSymbol := by
  rw [build, get?_foldl] at h
  exact mem_writes.mp (List.mem_of_getLast? h)

theorem length_writes_le (ll1 : (build g sets).isLL1 = true) : (writes (predictions g sets) n c).length ≤ 1 := by
  have none : (build g sets).conflictsAt n c = [] := by
    rw [conflictsAt, List.isEmpty_iff.mp ll1]
    rfl
  rw [build, conflictsAt_foldl, List.zip_eq_nil_iff] at none
  rcases none with none | none
  · simp [none]
  · have shorter := congrArg List.length none
    rw [List.length_tail, List.length_nil] at shorter
    omega

theorem get?_of_predicted (ll1 : (build g sets).isLL1 = true) {p : Production} (found : g.production? id = some p)
    (ahead : sets.first.Ahead p.body (· ∈ sets.follow.ofNonterminal p.head) c.toSymbol) :
    (build g sets).get? p.head c = some id := by
  have member := mem_writes.mpr ⟨p, found, rfl, ahead⟩
  have one : (writes (predictions g sets) p.head c).length ≤ 1 := length_writes_le ll1
  rw [build, get?_foldl]
  match writes (predictions g sets) p.head c, member, one with
  | [only], member, _ => rw [List.mem_singleton.mp member]; rfl

theorem isLL1_iff : (build g sets).isLL1 = true ↔ ∀ n c, (writes (predictions g sets) n c).length ≤ 1 := by
  refine ⟨fun ll1 n c => length_writes_le ll1, fun once => List.isEmpty_iff.mpr ?_⟩
  cases kept : (build g sets).conflicts with
  | nil => rfl
  | cons k rest =>
    have here : ((build g sets).conflictsAt k.nonterminal k.column).length ≠ 0 := by simp [conflictsAt, kept]
    have few := once k.nonterminal k.column
    rw [length_conflictsAt] at here
    omega

theorem get?_eq_some_iff (ll1 : (build g sets).isLL1 = true) :
    (build g sets).get? n c = some id ↔ id ∈ writes (predictions g sets) n c := by
  refine ⟨fun held => mem_writes.mpr (predicted_of_get? held), fun member => ?_⟩
  obtain ⟨p, found, rfl, ahead⟩ := mem_writes.mp member
  exact get?_of_predicted ll1 found ahead

end Build

/-! ### The columns of a row -/

theorem mem_place {q : Prediction} {cells : List Prediction} (h : q ∈ place p cells) : q = p ∨ q ∈ cells := by
  induction cells with
  | nil => exact Or.inl (List.mem_singleton.mp h)
  | cons c rest ih =>
    unfold place at h
    split at h
    · exact (List.mem_cons.mp h).imp_right (List.mem_cons_of_mem _)
    · split at h
      · exact List.mem_cons.mp h
      · rcases List.mem_cons.mp h with rfl | later
        · exact Or.inr List.mem_cons_self
        · exact (ih later).imp_right (List.mem_cons_of_mem _)

theorem pairwise_place {cells : List Prediction} (h : cells.Pairwise (·.precedes ·)) :
    (place p cells).Pairwise (·.precedes ·) := by
  induction cells with
  | nil => exact List.pairwise_singleton _ _
  | cons c rest ih =>
    obtain ⟨first, later⟩ := List.pairwise_cons.mp h
    unfold place
    split
    · rename_i same
      simp only [Prediction.sameCell, Bool.and_eq_true, decide_eq_true_eq] at same
      refine List.pairwise_cons.mpr ⟨fun q hq => ?_, later⟩
      have before := first q hq
      rwa [Prediction.precedes_iff, ← same.1, ← same.2, ← Prediction.precedes_iff] at before
    · rename_i distinct
      split
      · rename_i before
        refine List.pairwise_cons.mpr ⟨fun q hq => ?_, h⟩
        rcases List.mem_cons.mp hq with rfl | hq
        · exact before
        · exact Prediction.precedes_trans before (first q hq)
      · rename_i after
        refine List.pairwise_cons.mpr ⟨fun q hq => ?_, ih later⟩
        rcases mem_place hq with rfl | hq
        · exact Prediction.precedes_of_not after distinct
        · exact first q hq

theorem pairwise_foldl (ps : List Prediction) : (ps.foldl write empty).cells.Pairwise (·.precedes ·) := by
  induction ps using List.reverseRecOn with
  | nil => exact .nil
  | append_singleton ps p ih =>
    rw [List.foldl_append]
    exact pairwise_place ih

/-- The filled columns of a row are listed in order, each once. -/
theorem pairwise_row (g : Grammar) (sets : Sets) (n : Nat) :
    (((build g sets).row n).map (·.column)).Pairwise (·.precedes ·) := by
  rw [List.pairwise_map]
  refine List.Pairwise.imp_of_mem ?_ ((pairwise_foldl (predictions g sets)).filter _)
  intro p q hp hq before
  have here : p.nonterminal = n := by simpa using (List.mem_filter.mp hp).2
  have there : q.nonterminal = n := by simpa using (List.mem_filter.mp hq).2
  rcases Prediction.precedes_iff.mp before with less | ⟨-, before⟩
  · omega
  · exact before

theorem mem_row : c ∈ (t.row n).map (·.column) ↔ t.predicts n c = true := by
  simp [row, predicts, get?, List.find?_isSome, and_assoc]

end Table
end Lookahead
