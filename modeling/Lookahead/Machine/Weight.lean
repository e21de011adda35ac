import Lookahead.Machine.Basic

/-! Why runs halt: every step that goes on lowers the energy of the state, which is a number. A step that consumes no input
lowers the weight of the stack; one that does lowers what the rest of the input may still put on it. -/

namespace Lookahead
namespace Machine

/-! ### Weight of a stack -/

/-- The length of the longest body. -/
def widest (m : Machine) : Nat := (m.grammar.productions.map (·.body.length)).foldr max 0

/-- How many cells of the table belong to a nonterminal that has not been opened below a height. -/
def room (m : Machine) (opened : List (Nat × Nat)) (height : Nat) : Nat :=
  m.table.cells.countP fun c => !opened.any fun o => o.1 = c.nonterminal && o.2 ≤ height

/-- Each symbol weighs more than all that its expansions can put in its place before a token is consumed. -/
def weight (m : Machine) (opened : List (Nat × Nat)) : List Symbol → Nat
  | [] => 0
  | _ :: below => (m.widest + 1).pow (m.room opened below.length) + m.weight opened below

theorem length_body_le {m : Machine} {id : Nat} {p : Production} (found : m.grammar.production? id = some p) :
    p.body.length ≤ m.widest := by
  have member : p ∈ m.grammar.productions := List.mem_of_getElem? found
  unfold widest
  generalize m.grammar.productions = all at member
  induction all with
  | nil => cases member
  | cons q rest ih =>
    simp only [List.map_cons, List.foldr_cons]
    rcases List.mem_cons.mp member with rfl | later
    · exact Nat.le_max_left _ _
    · exact Nat.le_trans (ih later) (Nat.le_max_right _ _)

/-- Only what is opened at a height or below it counts for that height. -/
theorem room_congr (m : Machine) {a b : List (Nat × Nat)} {height : Nat}
    (same : ∀ o : Nat × Nat, o.2 ≤ height → (o ∈ a ↔ o ∈ b)) : m.room a height = m.room b height := by
  unfold room
  congr 1
  funext c
  congr 1
  rw [Bool.eq_iff_iff]
  simp only [List.any_eq_true, Bool.and_eq_true, decide_eq_true_eq]
  constructor
  · rintro ⟨o, member, here, low⟩; exact ⟨o, (same o low).mp member, here, low⟩
  · rintro ⟨o, member, here, low⟩; exact ⟨o, (same o low).mpr member, here, low⟩

theorem weight_congr (m : Machine) {a b : List (Nat × Nat)} {stack : List Symbol}
    (same : ∀ o : Nat × Nat, o.2 < stack.length → (o ∈ a ↔ o ∈ b)) : m.weight a stack = m.weight b stack := by
  induction stack with
  | nil => rfl
  | cons s below ih =>
    simp only [weight]
    rw [m.room_congr fun o low => same o (by simp only [List.length_cons]; omega),
      ih fun o low => same o (by simp only [List.length_cons]; omega)]

/-- What stands above a height at which all openings lie weighs the same everywhere. -/
theorem weight_append (m : Machine) (opened : List (Nat × Nat)) (above below : List Symbol)
    (low : ∀ o ∈ opened, o.2 ≤ below.length) :
    m.weight opened (above ++ below) =
      above.length * (m.widest + 1).pow (m.room opened below.length) + m.weight opened below := by
  induction above with
  | nil => simp
  | cons s rest ih =>
    have flat : m.room opened (rest ++ below).length = m.room opened below.length := by
      unfold room
      congr 1
      funext c
      congr 1
      rw [Bool.eq_iff_iff]
      simp only [List.any_eq_true, Bool.and_eq_true, decide_eq_true_eq, List.length_append]
      constructor
      · rintro ⟨o, member, here, _⟩; exact ⟨o, member, here, low o member⟩
      · rintro ⟨o, member, here, _⟩; exact ⟨o, member, here, by have := low o member; omega⟩
    simp only [List.cons_append, weight, flat, ih, List.length_cons, Nat.succ_mul]
    omega

/-- Opening a nonterminal that has a cell takes room. -/
theorem room_open_lt (m : Machine) {opened : List (Nat × Nat)} {n height : Nat}
    (closed : opened.any (·.1 = n) = false) {column : Column} {id : Nat} (found : m.table.get? n column = some id) :
    m.room ((n, height) :: opened) height < m.room opened height := by
  obtain ⟨cell, hit, _⟩ := Option.map_eq_some_iff.mp found
  have member : cell ∈ m.table.cells := List.mem_of_find?_eq_some hit
  have here : cell.nonterminal = n := by have := List.find?_some hit; simp at this; exact this.1
  unfold room
  generalize m.table.cells = cells at member
  induction cells with
  | nil => cases member
  | cons c rest ih =>
    have mono : ∀ l : List Prediction,
        l.countP (fun c => !((n, height) :: opened).any fun o => o.1 = c.nonterminal && o.2 ≤ height) ≤
          l.countP (fun c => !opened.any fun o => o.1 = c.nonterminal && o.2 ≤ height) := by
      intro l
      apply List.countP_mono_left
      intro x _ free
      simp only [List.any_cons, Bool.not_or, Bool.and_eq_true] at free
      exact free.2
    rcases List.mem_cons.mp member with rfl | later
    · have before : (!opened.any fun o => o.1 = cell.nonterminal && o.2 ≤ height) = true := by
        simp only [Bool.not_eq_true', List.any_eq_false] at closed ⊢
        intro o inside
        have := closed o inside
        simp [here] at this ⊢
        intro h; exact absurd h this
      have after : (!((n, height) :: opened).any fun o => o.1 = cell.nonterminal && o.2 ≤ height) = false := by
        simp [here]
      rw [List.countP_cons, List.countP_cons, before, after]
      simpa using Nat.lt_succ_of_le (mono rest)
    · have smaller := ih later
      rw [List.countP_cons, List.countP_cons]
      have head := mono [c]
      simp only [List.countP_cons, List.countP_nil, Nat.zero_add] at head
      omega

/-! ### Energy of a state -/

/-- What no symbol weighs more than. -/
def heaviest (m : Machine) : Nat := (m.widest + 1).pow m.table.cells.length

theorem room_le (m : Machine) (opened : List (Nat × Nat)) (height : Nat) : m.room opened height ≤ m.table.cells.length :=
  List.countP_le_length

theorem weight_le (m : Machine) (opened : List (Nat × Nat)) (stack : List Symbol) :
    m.weight opened stack ≤ stack.length * m.heaviest := by
  induction stack with
  | nil => simp [weight]
  | cons s below ih =>
    have top : (m.widest + 1).pow (m.room opened below.length) ≤ m.heaviest :=
      Nat.pow_le_pow_right (Nat.succ_pos _) (m.room_le opened _)
    simp only [weight, List.length_cons, Nat.succ_mul]
    omega

theorem length_le_weight (m : Machine) (opened : List (Nat × Nat)) (stack : List Symbol) :
    stack.length ≤ m.weight opened stack := by
  induction stack with
  | nil => simp
  | cons s below ih =>
    have top : 0 < (m.widest + 1).pow (m.room opened below.length) := Nat.pow_pos (Nat.succ_pos _)
    simp only [weight, List.length_cons]
    omega

/-- The weight of the stack, scaled up with each token that is left so that consuming one pays for a whole new stack. -/
def energy (m : Machine) (s : State) : Nat :=
  m.weight s.opened s.stack * (2 * m.heaviest + 2).pow s.input.tokens.length

/-- Consuming input lowers the energy, though the stack may grow by a symbol and all may be expanded again. -/
theorem energy_lt_of_consumed {m : Machine} {later s : State}
    (consumed : later.input.tokens.length < s.input.tokens.length) (nonempty : 0 < s.stack.length)
    (bounded : later.stack.length ≤ s.stack.length + 1) : m.energy later < m.energy s := by
  unfold energy
  generalize later.input.tokens.length = left at consumed ⊢
  have scale : (2 * m.heaviest + 2).pow (left + 1) ≤ (2 * m.heaviest + 2).pow s.input.tokens.length :=
    Nat.pow_le_pow_right (Nat.succ_pos _) consumed
  have light : m.weight later.opened later.stack < s.stack.length * (2 * m.heaviest + 2) := by
    have top := m.weight_le later.opened later.stack
    have grown : later.stack.length * m.heaviest ≤ (2 * s.stack.length) * m.heaviest :=
      Nat.mul_le_mul_right _ (by omega)
    have split : s.stack.length * (2 * m.heaviest + 2) = (2 * s.stack.length) * m.heaviest + 2 * s.stack.length := by
      rw [Nat.mul_add, Nat.mul_left_comm, Nat.mul_assoc, Nat.mul_comm s.stack.length 2]
    omega
  calc m.weight later.opened later.stack * (2 * m.heaviest + 2).pow left
      < s.stack.length * (2 * m.heaviest + 2) * (2 * m.heaviest + 2).pow left :=
        Nat.mul_lt_mul_of_pos_right light (Nat.pow_pos (Nat.succ_pos _))
    _ = s.stack.length * (2 * m.heaviest + 2).pow (left + 1) := by
        rw [Nat.mul_assoc]
        exact congrArg _ Nat.pow_succ'.symm
    _ ≤ m.weight s.opened s.stack * (2 * m.heaviest + 2).pow s.input.tokens.length :=
        Nat.mul_le_mul (m.length_le_weight _ _) scale

/-- With the same input, a lighter stack has less energy. -/
theorem energy_lt_of_lighter {m : Machine} {later s : State} (same : later.input = s.input)
    (lighter : m.weight later.opened later.stack < m.weight s.opened s.stack) : m.energy later < m.energy s := by
  unfold energy
  rw [same]
  exact Nat.mul_lt_mul_of_pos_right lighter (Nat.pow_pos (Nat.succ_pos _))

/-! ### Steps lower the energy -/

theorem resync_length {m : Machine} {tokens rest : List Token} (found : m.resync tokens = some rest) :
    rest.length < tokens.length := by
  induction tokens with
  | nil => cases found
  | cons t tail ih =>
    simp only [resync] at found
    split at found
    · cases found; simp
    · exact Nat.lt_succ_of_lt (ih found)

/-- Recovery goes on with less input and two symbols on the stack. -/
theorem fail_next {m : Machine} {s later : State} {fault : SyntaxFault} {events : List Event}
    (h : m.fail s fault = .next events later) :
    later.input.tokens.length < s.input.tokens.length ∧ later.stack.length = 2 := by
  simp only [fail] at h
  split at h
  · cases h
  · rename_i rest found
    cases h
    exact ⟨resync_length found, rfl⟩

theorem fail_energy {m : Machine} {s later : State} {top : Symbol} {below : List Symbol} {fault : SyntaxFault}
    {events : List Event} (stack : s.stack = top :: below) (h : m.fail (s.pop below) fault = .next events later) :
    m.energy later < m.energy s := by
  obtain ⟨consumed, two⟩ := fail_next h
  apply energy_lt_of_consumed
  · exact consumed
  · simp [stack]
  · simp [stack, two]

/-- Taking the top off keeps the weight of what is below it. -/
theorem weight_pop (m : Machine) (s : State) (below : List Symbol) :
    m.weight (s.pop below).opened below = m.weight s.opened below := by
  apply m.weight_congr
  intro o low
  simp only [State.pop, List.mem_filter, decide_eq_true_eq]
  exact ⟨And.left, fun member => ⟨member, by omega⟩⟩

theorem room_pop (m : Machine) (s : State) (below : List Symbol) :
    m.room (s.pop below).opened below.length = m.room s.opened below.length := by
  apply m.room_congr
  intro o low
  simp only [State.pop, List.mem_filter, decide_eq_true_eq]
  exact ⟨And.left, fun member => ⟨member, low⟩⟩

/-- An expansion weighs less than the nonterminal it replaces. -/
theorem expand_lighter {m : Machine} {s : State} {n id : Nat} {below : List Symbol} {column : Column} {p : Production}
    (closed : (s.pop below).isOpen n = false) (found : m.table.get? n column = some id)
    (production : m.grammar.production? id = some p) :
    m.weight ((n, below.length) :: (s.pop below).opened) (p.body.filter (· ≠ .epsilon) ++ below) <
      m.weight s.opened (.nonterminal n :: below) := by
  have low : ∀ o ∈ (n, below.length) :: (s.pop below).opened, o.2 ≤ below.length := by
    intro o member
    rcases List.mem_cons.mp member with rfl | old
    · exact Nat.le_refl _
    · simpa using (List.mem_filter.mp old).2
  have fewer : m.room ((n, below.length) :: (s.pop below).opened) below.length < m.room s.opened below.length := by
    rw [← m.room_pop s below]
    exact m.room_open_lt closed found
  have same : m.weight ((n, below.length) :: (s.pop below).opened) below = m.weight s.opened below := by
    rw [← m.weight_pop s below]
    apply m.weight_congr
    intro o inside
    simp only [List.mem_cons]
    exact ⟨fun member => member.resolve_left (by rintro rfl; exact Nat.lt_irrefl _ inside), Or.inr⟩
  rw [m.weight_append _ _ _ low, same, weight]
  apply Nat.add_lt_add_right
  have width : (p.body.filter (· ≠ .epsilon)).length ≤ m.widest :=
    Nat.le_trans (List.length_filter_le _ _) (length_body_le production)
  generalize m.room ((n, below.length) :: (s.pop below).opened) below.length = fresh at fewer ⊢
  calc (p.body.filter (· ≠ .epsilon)).length * (m.widest + 1).pow fresh
      ≤ m.widest * (m.widest + 1).pow fresh := Nat.mul_le_mul_right _ width
    _ < (m.widest + 1) * (m.widest + 1).pow fresh :=
      Nat.mul_lt_mul_of_pos_right (Nat.lt_succ_self _) (Nat.pow_pos (Nat.succ_pos _))
    _ = (m.widest + 1).pow (fresh + 1) := Nat.pow_succ'.symm
    _ ≤ (m.widest + 1).pow (m.room s.opened below.length) := Nat.pow_le_pow_right (Nat.succ_pos _) fewer

theorem stepNonterminal_energy {m : Machine} {s later : State} {n : Nat} {below : List Symbol} {events : List Event}
    (stack : s.stack = .nonterminal n :: below) (h : m.stepNonterminal (s.pop below) n = .next events later) :
    m.energy later < m.energy s := by
  unfold stepNonterminal at h
  split at h
  · exact fail_energy stack h
  · rename_i closed
    split at h
    · rename_i id p predicted
      simp only [predict, Option.bind_eq_some_iff, Option.map_eq_some_iff] at predicted
      obtain ⟨i, ⟨column, _, found⟩, q, production, same⟩ := predicted
      cases same
      cases h
      refine energy_lt_of_lighter ?_ ?_
      · rfl
      rw [stack]
      exact expand_lighter (Bool.eq_false_iff.mpr closed) found production
    · split at h
      · exact fail_energy stack h
      · exact fail_energy stack h

/-- A step that goes on lowers the energy. -/
theorem step_energy {m : Machine} {s later : State} {events : List Event} (h : m.step s = .next events later) :
    m.energy later < m.energy s := by
  unfold step at h
  split at h
  · cases h
  · rename_i below stack
    cases h
    refine energy_lt_of_lighter ?_ ?_
    · rfl
    show m.weight (s.pop below).opened below < m.weight s.opened s.stack
    rw [m.weight_pop s below, stack, weight]
    have top : 0 < (m.widest + 1).pow (m.room s.opened below.length) := Nat.pow_pos (Nat.succ_pos _)
    omega
  · rename_i stack
    unfold stepEnd at h
    split at h
    · cases h
    · exact fail_energy stack h
  · rename_i below stack
    unfold stepTerminal at h
    split at h
    · exact fail_energy stack h
    · rename_i t rest tokens
      split at h
      · cases h
        apply energy_lt_of_consumed
        · show rest.length < s.input.tokens.length
          rw [show s.input.tokens = t :: rest from tokens]
          exact Nat.lt_succ_self _
        · simp [stack]
        · show below.length ≤ s.stack.length + 1
          simp only [stack, List.length_cons]
          omega
      · exact fail_energy stack h
  · rename_i stack
    exact stepNonterminal_energy stack h

end Machine
end Lookahead
