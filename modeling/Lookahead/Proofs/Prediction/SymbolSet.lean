import Lookahead.Prediction.SymbolSet
import Mathlib.Algebra.GroupWithZero.Nat
import Mathlib.Data.List.Basic
import Mathlib.Data.List.Nodup
import Mathlib.Data.List.Perm.Subperm

/-! Sets of symbols and rows of such sets, seen through their members. Adding symbols to a set of a row leaves the row as
it is or makes it larger, and a row of sets from a finite stock of symbols has a largest size. -/

namespace Lookahead

theorem Symbol.precedes_trans {a b c : Symbol} (h₁ : a.precedes b) (h₂ : b.precedes c) : a.precedes c := by
  simp only [precedes, Bool.or_eq_true, Bool.and_eq_true, decide_eq_true_eq, beq_iff_eq] at *
  omega

theorem Symbol.ne_of_precedes {a b : Symbol} (h : a.precedes b) : a ≠ b := by
  rintro rfl
  simp [precedes] at h

theorem Symbol.rank_injective {a b : Symbol} (h : a.rank = b.rank) : a = b := by
  cases a <;> cases b <;> simp_all [rank]

/-- Of two symbols one comes first. -/
theorem Symbol.precedes_of_not {a b : Symbol} (h : ¬b.precedes a) (distinct : a ≠ b) : a.precedes b := by
  have apart : ¬(a.rank.1 = b.rank.1 ∧ a.rank.2 = b.rank.2) := fun ⟨first, second⟩ =>
    distinct (rank_injective (Prod.ext first second))
  simp only [precedes, Bool.or_eq_true, Bool.and_eq_true, decide_eq_true_eq, beq_iff_eq] at *
  omega

theorem Column.toSymbol_ne_epsilon (c : Column) : c.toSymbol ≠ .epsilon := by
  cases c <;> simp [toSymbol]

namespace SymbolSet
variable {a b set : SymbolSet} {s x : Symbol}

/-! ### Members -/

@[simp] theorem not_mem_empty : ¬x ∈ SymbolSet.empty := List.not_mem_nil

@[simp] theorem mem_singleton : x ∈ SymbolSet.singleton s ↔ x = s := List.mem_singleton

theorem mem_insertAll {symbols : List Symbol} : x ∈ set.insertAll symbols ↔ x ∈ set ∨ x ∈ symbols := by
  induction symbols generalizing set with
  | nil => simp [insertAll]
  | cons s rest ih =>
    show x ∈ (set.insert s).insertAll rest ↔ _
    rw [ih, mem_insert, List.mem_cons, or_assoc, or_left_comm]

@[simp] theorem mem_union : x ∈ a.union b ↔ x ∈ a ∨ x ∈ b := mem_insertAll

@[simp] theorem mem_withoutEpsilon : x ∈ set.withoutEpsilon ↔ x ∈ set ∧ x ≠ .epsilon := by
  show x ∈ set.elements.filter _ ↔ x ∈ set.elements ∧ _
  simp [List.mem_filter]

theorem column?_eq_some {c : Column} : s.column? = some c ↔ s = c.toSymbol := by
  cases s <;> cases c <;> simp [Symbol.column?, Column.toSymbol]

@[simp] theorem mem_columns {c : Column} : c ∈ set.columns ↔ c.toSymbol ∈ set := by
  simp only [columns, List.mem_filterMap, column?_eq_some]
  exact ⟨fun ⟨_, member, same⟩ => same ▸ member, fun member => ⟨_, member, rfl⟩⟩

/-! ### Order -/

/-- The elements are listed in order, each once. -/
def Increasing (set : SymbolSet) : Prop := set.elements.Pairwise (·.precedes ·)

theorem Increasing.nodup (h : set.Increasing) : set.elements.Nodup :=
  List.Pairwise.imp Symbol.ne_of_precedes h

theorem increasing_place {l : List Symbol} (h : l.Pairwise (·.precedes ·)) : (place s l).Pairwise (·.precedes ·) := by
  induction l with
  | nil => exact List.pairwise_singleton _ _
  | cons y rest ih =>
    obtain ⟨first, later⟩ := List.pairwise_cons.mp h
    unfold place
    split
    · exact h
    · rename_i distinct
      split
      · rename_i before
        refine List.pairwise_cons.mpr ⟨fun z hz => ?_, h⟩
        rcases List.mem_cons.mp hz with rfl | hz
        · exact before
        · exact Symbol.precedes_trans before (first z hz)
      · rename_i after
        refine List.pairwise_cons.mpr ⟨fun z hz => ?_, ih later⟩
        rcases mem_place.mp hz with rfl | hz
        · exact Symbol.precedes_of_not after (Ne.symm distinct)
        · exact first z hz

theorem Increasing.insertAll (h : set.Increasing) (symbols : List Symbol) : (set.insertAll symbols).Increasing := by
  induction symbols generalizing set with
  | nil => exact h
  | cons s rest ih =>
    have placed : (set.insert s).Increasing := increasing_place h
    exact ih placed

theorem Increasing.union (h : a.Increasing) : (a.union b).Increasing := h.insertAll _

theorem increasing_empty : SymbolSet.empty.Increasing := List.Pairwise.nil

theorem increasing_singleton : (SymbolSet.singleton s).Increasing := List.pairwise_singleton _ _

theorem Increasing.withoutEpsilon (h : set.Increasing) : set.withoutEpsilon.Increasing := h.filter _

/-- There is one order only in which the members of a set can be listed. -/
theorem Increasing.ext (ha : a.Increasing) (hb : b.Increasing) (same : ∀ x, x ∈ a ↔ x ∈ b) : a = b := by
  obtain ⟨l⟩ := a
  obtain ⟨l'⟩ := b
  have perm : l.Perm l' := (List.perm_ext_iff_of_nodup ha.nodup hb.nodup).mpr same
  have apart : ∀ x y, x ∈ l → y ∈ l' → x.precedes y → y.precedes x → x = y := fun x y _ _ before after =>
    absurd rfl (Symbol.ne_of_precedes (Symbol.precedes_trans before after))
  rw [List.Perm.eq_of_pairwise apart ha hb perm]

theorem Increasing.nodup_columns (h : set.Increasing) : set.columns.Nodup := by
  refine h.nodup.filterMap fun x y c hx hy => ?_
  rw [column?_eq_some.mp hx, column?_eq_some.mp hy]

theorem Increasing.count_columns (h : set.Increasing) (c : Column) :
    set.columns.count c = if c.toSymbol ∈ set then 1 else 0 := by
  rw [h.nodup_columns.count]
  simp only [mem_columns]

/-! ### Size -/

/-- The number of elements. -/
def size (set : SymbolSet) : Nat := set.elements.length

theorem place_grows (s : Symbol) (l : List Symbol) : place s l = l ∨ l.length < (place s l).length := by
  induction l with
  | nil => exact Or.inr (Nat.zero_lt_one)
  | cons y rest ih =>
    unfold place
    split
    · exact Or.inl rfl
    · split
      · exact Or.inr (by simp)
      · rcases ih with same | more
        · exact Or.inl (by rw [same])
        · exact Or.inr (by simpa using more)

theorem insertAll_grows (set : SymbolSet) (symbols : List Symbol) :
    set.insertAll symbols = set ∨ set.size < (set.insertAll symbols).size := by
  induction symbols generalizing set with
  | nil => exact Or.inl rfl
  | cons s rest ih =>
    show (set.insert s).insertAll rest = set ∨ set.size < ((set.insert s).insertAll rest).size
    have first : set.insert s = set ∨ set.size < (set.insert s).size := by
      rcases place_grows s set.elements with same | more
      · exact Or.inl (by rw [SymbolSet.insert, same])
      · exact Or.inr more
    rcases first with same | more
    · rw [same]
      exact ih set
    · rcases ih (set.insert s) with same | later
      · exact Or.inr (by rw [same]; exact more)
      · exact Or.inr (Nat.lt_trans more later)

theorem union_grows (a b : SymbolSet) : a.union b = a ∨ a.size < (a.union b).size := insertAll_grows a _

theorem Increasing.size_le (h : set.Increasing) {stock : List Symbol} (within : ∀ s ∈ set, s ∈ stock) :
    set.size ≤ stock.length :=
  (List.subperm_of_subset h.nodup within).length_le

/-! ### Rows of sets -/

/-- The number of elements of all sets of a row. -/
def total (sets : List SymbolSet) : Nat := (sets.map size).sum

/-- Every set of a row is listed in order and takes its elements from a stock. -/
def Within (stock : List Symbol) (sets : List SymbolSet) : Prop :=
  ∀ set ∈ sets, set.Increasing ∧ ∀ s ∈ set, s ∈ stock

variable {sets : List SymbolSet} {stock : List Symbol} {i j : Nat}

theorem mem_getD_modify : x ∈ (sets.modify i (·.union set)).getD j .empty ↔
    x ∈ sets.getD j .empty ∨ (i = j ∧ j < sets.length ∧ x ∈ set) := by
  rw [List.getD_eq_getElem?_getD, List.getD_eq_getElem?_getD, List.getElem?_modify]
  by_cases bound : j < sets.length
  · rw [List.getElem?_eq_getElem bound]
    by_cases here : i = j <;> simp [here, bound]
  · rw [List.getElem?_eq_none (Nat.le_of_not_lt bound)]
    simp [bound]

theorem modify_grows (sets : List SymbolSet) (i : Nat) (set : SymbolSet) :
    sets.modify i (·.union set) = sets ∨ total sets < total (sets.modify i (·.union set)) := by
  induction sets generalizing i with
  | nil => exact Or.inl (by simp)
  | cons first rest ih =>
    cases i with
    | zero =>
      rw [List.modify_zero_cons]
      rcases union_grows first set with same | more
      · exact Or.inl (by rw [same])
      · refine Or.inr ?_
        simp only [total, List.map_cons, List.sum_cons]
        omega
    | succ i =>
      rw [List.modify_succ_cons]
      rcases ih i with same | more
      · exact Or.inl (by rw [same])
      · refine Or.inr ?_
        simp only [total, List.map_cons, List.sum_cons] at more ⊢
        omega

theorem Within.modify (h : Within stock sets) (inside : ∀ s ∈ set, s ∈ stock) :
    Within stock (sets.modify i (·.union set)) := by
  intro other member
  obtain ⟨j, bound, rfl⟩ := List.mem_iff_getElem.mp member
  rw [List.length_modify] at bound
  have old := h sets[j] (List.getElem_mem bound)
  rw [List.getElem_modify]
  split
  · refine ⟨old.1.union, fun s hs => ?_⟩
    rcases mem_union.mp hs with hs | hs
    · exact old.2 s hs
    · exact inside s hs
  · exact old

theorem Within.total_le (h : Within stock sets) : total sets ≤ sets.length * stock.length := by
  induction sets with
  | nil => simp [total]
  | cons first rest ih =>
    have here := (h first List.mem_cons_self).1.size_le (h first List.mem_cons_self).2
    have later := ih fun set member => h set (List.mem_cons_of_mem _ member)
    simp only [total, List.map_cons, List.sum_cons, List.length_cons, Nat.succ_mul] at later ⊢
    omega

theorem Within.increasing (h : Within stock sets) (i : Nat) : (sets.getD i .empty).Increasing := by
  rw [List.getD_eq_getElem?_getD]
  cases found : sets[i]? with
  | none => exact increasing_empty
  | some set => exact (h set (List.mem_of_getElem? found)).1

/-- Rows of as many sets with the same members are the same. -/
theorem Within.ext {sets' : List SymbolSet} {stock' : List Symbol} (h : Within stock sets) (h' : Within stock' sets')
    (length : sets.length = sets'.length)
    (same : ∀ i < sets.length, ∀ x, x ∈ sets.getD i .empty ↔ x ∈ sets'.getD i .empty) : sets = sets' := by
  refine List.ext_getElem length fun i bound bound' => ?_
  have alike := (h.increasing i).ext (h'.increasing i) (same i bound)
  simpa only [List.getD_eq_getElem?_getD, List.getElem?_eq_getElem, bound, bound', Option.getD_some] using alike

theorem Within.mem_stock (h : Within stock sets) (member : x ∈ sets.getD i .empty) : x ∈ stock := by
  rw [List.getD_eq_getElem?_getD] at member
  cases found : sets[i]? with
  | none => rw [found] at member; exact absurd member not_mem_empty
  | some set =>
    rw [found] at member
    exact (h set (List.mem_of_getElem? found)).2 x member

end SymbolSet
end Lookahead
