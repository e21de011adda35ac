import Lookahead.Proofs.Prediction.Opening

/-! Rivals: two productions of one nonterminal that a column calls for. A table logs a conflict for them, and another one
wherever a production meets itself in a cell. A production meets itself only if its body can both vanish and begin with the
column, and this it has from a nonterminal of the body. Going down that way, each time to a production that the column opens
in fewer steps, leads to rivals, so that a table with conflicts always has one between two productions. -/

namespace Lookahead

/-- A column calls for a production: it can begin the body, or the body can vanish and the column can follow the head. -/
def Sets.CallsFor (sets : Sets) (c : Column) (p : Production) : Prop :=
  c.toSymbol ∈ sets.first.ofSequence p.body ∨
    .epsilon ∈ sets.first.ofSequence p.body ∧ c.toSymbol ∈ sets.follow.ofNonterminal p.head

/-- A column calls for two productions of a nonterminal. -/
def Sets.Rivals (sets : Sets) (g : Grammar) (n : Nat) (c : Column) : Prop :=
  ∃ i j p q, i ≠ j ∧ g.production? i = some p ∧ g.production? j = some q ∧ p.head = n ∧ q.head = n ∧
    sets.CallsFor c p ∧ sets.CallsFor c q

/-- `S → A b`, `A → B` and `B → b | ε`: the body of `A` can vanish before a `b` and can begin with one. -/
def Grammar.layered : Grammar where
  terminals := ["b"]
  nonterminals := ["S", "A", "B"]
  productions := [
    ⟨0, [.nonterminal 1, .terminal 0]⟩,
    ⟨1, [.nonterminal 2]⟩,
    ⟨2, [.terminal 0]⟩,
    ⟨2, [.epsilon]⟩]
  start := 0
  restarts := []

theorem Grammar.layered_built : layered.Built :=
  ⟨[.terminal "b", .nonterminal "S", .nonterminal "A", .nonterminal "B", .start "S", .production "S" ["A", "b"],
    .production "A" ["B"], .production "B" ["b"], .production "B" []], rfl⟩

theorem Sets.ahead_iff_callsFor {sets : Sets} {p : Production} {c : Column} :
    sets.first.Ahead p.body (· ∈ sets.follow.ofNonterminal p.head) c.toSymbol ↔ sets.CallsFor c p :=
  or_congr_left (and_iff_left c.toSymbol_ne_epsilon)

/-! ### Neighbours in a list -/

theorem exists_neighbours_ne {l : List Nat} {a b : Nat} (ha : a ∈ l) (hb : b ∈ l) (distinct : a ≠ b) :
    ∃ x y, (x, y) ∈ l.zip l.tail ∧ x ≠ y := by
  induction l with
  | nil => cases ha
  | cons x rest ih =>
    cases rest with
    | nil => exact absurd ((List.mem_singleton.mp ha).trans (List.mem_singleton.mp hb).symm) distinct
    | cons y more =>
      by_cases same : x = y
      · subst same
        have later : ∀ {z}, z ∈ x :: x :: more → z ∈ x :: more := fun member => by simpa using member
        obtain ⟨u, v, inside, differ⟩ := ih (later ha) (later hb)
        exact ⟨u, v, List.mem_cons_of_mem _ inside, differ⟩
      · exact ⟨x, y, List.mem_cons_self, same⟩

theorem mem_neighbours (before after : List Nat) (x y : Nat) :
    (x, y) ∈ (before ++ x :: y :: after).zip (before ++ x :: y :: after).tail := by
  induction before with
  | nil => exact List.mem_cons_self
  | cons z before ih =>
    cases before with
    | nil => exact List.mem_cons_of_mem _ List.mem_cons_self
    | cons w before => exact List.mem_cons_of_mem _ ih

namespace Table
variable {g : Grammar} {sets : Sets} {t : Table} {n id i j : Nat} {c : Column} {p : Production}

/-! ### Writes to a cell -/

theorem mem_writes_iff_callsFor : id ∈ writes (predictions g sets) n c ↔
    ∃ p, g.production? id = some p ∧ p.head = n ∧ sets.CallsFor c p := by
  simp only [mem_writes, Sets.ahead_iff_callsFor]

theorem rivals_iff : sets.Rivals g n c ↔
    ∃ i ∈ writes (predictions g sets) n c, ∃ j ∈ writes (predictions g sets) n c, i ≠ j := by
  simp only [mem_writes_iff_callsFor]
  constructor
  · rintro ⟨i, j, p, q, distinct, hp, hq, rfl, head, calls, calls'⟩
    exact ⟨i, ⟨p, hp, rfl, calls⟩, j, ⟨q, hq, head, calls'⟩, distinct⟩
  · rintro ⟨i, ⟨p, hp, rfl, calls⟩, j, ⟨q, hq, head, calls'⟩, distinct⟩
    exact ⟨i, j, p, q, distinct, hp, hq, rfl, head, calls, calls'⟩

theorem mem_conflictsAt : (i, j) ∈ t.conflictsAt n c ↔ ⟨n, c, i, j⟩ ∈ t.conflicts := by
  simp only [conflictsAt, List.mem_map, List.mem_filter, decide_eq_true_eq, Prod.mk.injEq]
  constructor
  · rintro ⟨⟨_, _, _, _⟩, ⟨member, rfl, rfl⟩, rfl, rfl⟩
    exact member
  · exact fun member => ⟨_, ⟨member, rfl, rfl⟩, rfl, rfl⟩

/-- A production is written to a cell twice where its body can begin with the column, and can vanish before it. -/
theorem one_lt_share (ordered : sets.Ordered) : 1 < sets.share p n c ↔ p.head = n ∧
    c.toSymbol ∈ sets.first.ofSequence p.body ∧ .epsilon ∈ sets.first.ofSequence p.body ∧
    c.toSymbol ∈ sets.follow.ofNonterminal p.head := by
  unfold Sets.share
  by_cases row : p.head = n
  · rw [if_pos row, ordered.count_columnsOf]
    split_ifs <;> simp_all
  · simp [row]

/-- Where no production is written twice, the writes are in the order of the productions. -/
theorem pairwise_writes (once : ∀ p ∈ g.productions, sets.share p n c ≤ 1) :
    (writes (predictions g sets) n c).Pairwise (· < ·) := by
  have numbers : g.numbered.Pairwise (·.2 < ·.2) := by
    rw [← List.pairwise_map, Grammar.numbered, List.zipIdx_map_snd]
    exact List.pairwise_lt_range'
  rw [writes_predictions, List.pairwise_flatMap]
  refine ⟨?_, numbers.imp fun {a b} less x hx y hy => ?_⟩
  · rintro ⟨p, id⟩ member
    have few := once p (List.mem_of_getElem? (List.mem_zipIdx_iff_getElem?.mp member))
    rw [List.pairwise_replicate]
    exact Or.inl few
  · rw [List.eq_of_mem_replicate hx, List.eq_of_mem_replicate hy]
    exact less

theorem conflict_of_rivals (rivals : sets.Rivals g n c) :
    ∃ k ∈ (build g sets).conflicts, k.nonterminal = n ∧ k.column = c ∧ k.previous ≠ k.replacement := by
  obtain ⟨i, hi, j, hj, distinct⟩ := rivals_iff.mp rivals
  obtain ⟨x, y, neighbours, differ⟩ := exists_neighbours_ne hi hj distinct
  rw [← conflictsAt_foldl, mem_conflictsAt] at neighbours
  exact ⟨_, neighbours, rfl, rfl, differ⟩

theorem conflict_of_share (found : g.production? id = some p) (twice : 1 < sets.share p n c) :
    ⟨n, c, id, id⟩ ∈ (build g sets).conflicts := by
  have member : (p, id) ∈ g.numbered := List.mem_zipIdx_iff_getElem?.mpr found
  obtain ⟨before, after, split⟩ := List.append_of_mem member
  obtain ⟨more, twice⟩ := Nat.exists_eq_add_of_le' twice
  have both : List.replicate (sets.share p n c) id = id :: id :: List.replicate more id := by
    rw [twice]
    rfl
  rw [← mem_conflictsAt, build, conflictsAt_foldl, writes_predictions, split, List.flatMap_append, List.flatMap_cons]
  simp only [both]
  exact mem_neighbours ..

/-! ### The descent to rivals -/

/-- On a column that can follow a form, rivals come up where the form can both begin with the column and vanish. -/
theorem rivals_of_opens {form : List Symbol} {word : List Column} {ids : List Nat} (declared : g.Declared)
    (opens : g.Opens form (c :: word)) (vanishes : g.Yields form ids [])
    (foreseen : g.Foreseen (form ++ [c.toSymbol])) : ∃ n, (Sets.solve g).Rivals g n c := by
  generalize columns : c :: word = whole at opens
  induction opens generalizing word ids with
  | done => cases columns
  | terminal => cases vanishes
  | endMarker => cases vanishes
  | @expand n id p rest _ _ found head opens ih =>
    cases columns
    subst head
    cases vanishes with
    | @expand _ other q _ ids _ found' head gone =>
      by_cases same : id = other
      · -- One production does both, and its body takes the place of its head.
        subst same
        cases found.symm.trans found'
        have expanded : g.Foreseen (erased p.body ++ rest ++ [c.toSymbol]) := by
          rw [List.append_assoc]
          exact foreseen.expand declared found
        exact ih gone expanded rfl
      · have begins := foreseen.ahead declared found (by simpa using opens.append [c.toSymbol])
        have ends : g.Derives (erased q.body ++ (rest ++ [c.toSymbol])) ([c].map Column.toSymbol ++ []) := by
          simpa using gone.derives.append_right [c.toSymbol]
        rw [← head] at foreseen
        have follows := foreseen.ahead declared found' (.of_derives ends)
        exact ⟨p.head, id, other, p, q, same, found, found', rfl, head, Sets.ahead_iff_callsFor.mp begins,
          Sets.ahead_iff_callsFor.mp follows⟩

/-- Where a production meets itself there are rivals, in the same row or in that of a nonterminal of its body. -/
theorem rivals_of_share (declared : g.Declared) (member : p ∈ g.productions) (twice : 1 < (Sets.solve g).share p n c) :
    ∃ n, (Sets.solve g).Rivals g n c := by
  obtain ⟨-, begins, vanishes, follows⟩ := (one_lt_share (Sets.ordered_solve g)).mp twice
  have first : FirstSets.Sound g (FirstSets.solve g) := .solve
  have opens : g.Opens [.nonterminal p.head] [c] :=
    .of_begins (.of_derives (.of_production member) (first.ofSequence begins))
  have empty : g.Derives [.nonterminal p.head] (([] : List Column).map Column.toSymbol) :=
    (Grammar.Derives.of_production member).trans (first.ofSequence vanishes)
  obtain ⟨ids, gone⟩ := Grammar.Yields.of_derives empty
  exact rivals_of_opens declared opens gone
    (.pair (declared.heads p member) (FollowSets.declares_of_mem follows) follows)

/-- A cell that is written twice is written by two productions, or by one production twice. -/
theorem exists_rivals (declared : g.Declared) (conflict : (build g (Sets.solve g)).isLL1 = false) :
    ∃ n c, (Sets.solve g).Rivals g n c := by
  obtain ⟨n, c, several⟩ : ∃ n c, 1 < (writes (predictions g (Sets.solve g)) n c).length := by
    by_contra none
    have once : (build g (Sets.solve g)).isLL1 = true :=
      isLL1_iff.mpr fun n c => Nat.le_of_not_lt fun several => none ⟨n, c, several⟩
    cases conflict.symm.trans once
  by_cases once : ∀ p ∈ g.productions, (Sets.solve g).share p n c ≤ 1
  · have ordered := pairwise_writes once
    refine ⟨n, c, rivals_iff.mpr ?_⟩
    match writes (predictions g (Sets.solve g)) n c, several, ordered with
    | i :: j :: _, _, ordered =>
      exact ⟨i, by simp, j, by simp, Nat.ne_of_lt (List.rel_of_pairwise_cons ordered List.mem_cons_self)⟩
  · obtain ⟨p, member, twice⟩ : ∃ p ∈ g.productions, 1 < (Sets.solve g).share p n c := by simpa using once
    obtain ⟨m, rivals⟩ := rivals_of_share declared member twice
    exact ⟨m, c, rivals⟩

/-- A table built from the sets of its own grammar has a conflict if and only if some column calls for two productions of a
    nonterminal, and then one of its conflicts is between two productions, though every production that meets itself in a
    cell is logged too. -/
theorem conflict_iff_rivals {g : Grammar} (built : g.Built) :
    let sets := Sets.solve g
    let table := build g sets
    (table.isLL1 = false ↔ ∃ n c, sets.Rivals g n c) ∧
    (table.conflicts ≠ [] → ∃ k ∈ table.conflicts, k.previous ≠ k.replacement) ∧
    ∀ id p c, g.production? id = some p → c.toSymbol ∈ sets.first.ofSequence p.body →
      .epsilon ∈ sets.first.ofSequence p.body → c.toSymbol ∈ sets.follow.ofNonterminal p.head →
      ⟨p.head, c, id, id⟩ ∈ table.conflicts := by
  intro sets table
  have logged : table.isLL1 = false ↔ table.conflicts ≠ [] := by
    rw [isLL1, List.isEmpty_eq_false_iff]
  refine ⟨⟨exists_rivals built.declared, ?_⟩, fun conflicts => ?_, fun id p c found begins vanishes follows => ?_⟩
  · rintro ⟨n, c, rivals⟩
    obtain ⟨k, member, -⟩ := conflict_of_rivals rivals
    exact logged.mpr (List.ne_nil_of_mem member)
  · obtain ⟨n, c, rivals⟩ := exists_rivals built.declared (logged.mpr conflicts)
    obtain ⟨k, member, -, -, differ⟩ := conflict_of_rivals rivals
    exact ⟨k, member, differ⟩
  · exact conflict_of_share found ((one_lt_share (Sets.ordered_solve g)).mpr ⟨rfl, begins, vanishes, follows⟩)

/-- `A → B` meets itself on `b`, and below it `B → b` and `B → ε` are rivals. -/
theorem conflict_iff_rivals_layered :
    Grammar.layered.Built ∧ (build .layered (Sets.solve .layered)).isLL1 = false ∧
    (∃ n c, (Sets.solve .layered).Rivals .layered n c) ∧
    ⟨1, .terminal 0, 1, 1⟩ ∈ (build .layered (Sets.solve .layered)).conflicts ∧
    ∃ k ∈ (build .layered (Sets.solve .layered)).conflicts, k.previous ≠ k.replacement := by
  obtain ⟨rivals, differ, itself⟩ := conflict_iff_rivals Grammar.layered_built
  have conflict : (build .layered (Sets.solve .layered)).isLL1 = false := by decide +kernel
  refine ⟨Grammar.layered_built, conflict, rivals.mp conflict, ?_, differ (by decide +kernel)⟩
  exact itself 1 ⟨1, [.nonterminal 2]⟩ (.terminal 0) rfl (by decide +kernel) (by decide +kernel) (by decide +kernel)

end Table
end Lookahead
