import Lookahead.Proofs.Grammar.Derivation
import Lookahead.Proofs.Machine.Step
import Mathlib.Logic.Function.Iterate
import Mathlib.Tactic.Choose

/-! The guard against expansions that come up again. An open nonterminal is one whose expansion led, without a token, to
what stands above its height. When it comes up there again the same expansions would follow once more, and so for ever:
the guard stops only what would never stop, and a run that stops without it is the same with it. -/

namespace Lookahead

/-- A state in which nothing is open. -/
def State.forget (s : State) : State := { s with opened := [] }

namespace Machine
variable {m : Machine} {s t u : State}

/-! ### The machine without the guard -/

/-- A step that does not ask for what is open. -/
def freeStep (m : Machine) (s : State) : Turn := m.step s.forget

/-- Without the guard a nonterminal is expanded whenever the table has a production for it. -/
theorem freeStep_nonterminal {n id : Nat} {p : Production} {below : List Symbol} (stack : s.stack = .nonterminal n :: below)
    (predicted : m.predict n (m.lookahead? s.input) = some (id, p)) :
    m.freeStep s =
      .next [((s.forget.pop below).expand n p).row (.expand id)] ((s.forget.pop below).expand n p) := by
  have closed : (s.forget.pop below).isOpen n = false := rfl
  have same : m.predict n (m.lookahead? (s.forget.pop below).input) = some (id, p) := predicted
  have top : s.forget.stack = .nonterminal n :: below := stack
  simp only [freeStep, step, top, stepNonterminal, closed, same]
  rfl

theorem freeStep_terminal {n : Nat} {below : List Symbol} {token : Token} {rest : List Token}
    (stack : s.stack = .terminal n :: below) (tokens : s.input.tokens = token :: rest)
    (column : m.column? token = some (.terminal n)) :
    ∃ events scope, m.freeStep s = .next events ((s.forget.pop below).advance rest scope) ∧ expansions events = [] := by
  have top : s.forget.stack = .terminal n :: below := stack
  have same : (s.forget.pop below).input.tokens = token :: rest := tokens
  simp only [freeStep, step, top, stepTerminal, same, column, if_true, consume]
  exact ⟨_, _, rfl, expansions_matched ..⟩

theorem freeStep_end {below : List Symbol} (stack : s.stack = .endMarker :: below) (tokens : s.input.tokens = []) :
    m.freeStep s = .halt [(s.pop below).row .accept] (if s.faulty then .reject else .accept) s.scope := by
  have top : s.forget.stack = .endMarker :: below := stack
  have same : (s.forget.pop below).input.tokens = [] := tokens
  simp only [freeStep, step, top, stepEnd, same]
  rfl

/-- From here on the machine without the guard would expand nonterminals, and take no token, without end. -/
def ExpandsForever (m : Machine) (s : State) : Prop :=
  ∃ run : Nat → State, run 0 = s ∧ ∀ k, (run k).input = s.input ∧
    ∃ id, m.freeStep (run k) = .next [(run (k + 1)).row (.expand id)] (run (k + 1))

theorem Halts.not_expandsForever {run : Run} (h : Halts m.freeStep s run) : ¬m.ExpandsForever s := by
  induction h with
  | halt h =>
    rintro ⟨states, rfl, goes⟩
    obtain ⟨-, id, next⟩ := goes 0
    rw [h] at next
    cases next
  | next h _ ih =>
    rintro ⟨states, rfl, goes⟩
    obtain ⟨-, id, next⟩ := goes 0
    rw [h] at next
    cases next
    refine ih ⟨fun k => states (k + 1), rfl, fun k => ⟨?_, (goes (k + 1)).2⟩⟩
    rw [(goes (k + 1)).1, (goes (0 + 1)).1]

/-! ### Steps with and without the guard -/

/-- Two turns differ at most in what is open. -/
inductive Agree : Turn → Turn → Prop
  | halt (events : List Event) (outcome : Outcome) (scope : Scope) :
    Agree (.halt events outcome scope) (.halt events outcome scope)
  | next (events : List Event) {t u : State} (same : t.forget = u.forget) : Agree (.next events t) (.next events u)

theorem Agree.refl (turn : Turn) : Agree turn turn := by
  cases turn with
  | halt events outcome scope => exact .halt events outcome scope
  | next events t => exact .next events rfl

/-- Where the top is not open, the guard makes no difference to a step. -/
theorem step_agree (closed : ∀ n below, s.stack = .nonterminal n :: below → (s.pop below).isOpen n = false) :
    Agree (m.step s) (m.freeStep s) := by
  have same : s.forget.stack = s.stack := rfl
  unfold freeStep step
  rw [same]
  split
  · exact .refl _
  · exact .next [] rfl
  · exact .refl _
  · rename_i n below stack
    have tokens : (s.forget.pop below).input.tokens = (s.pop below).input.tokens := rfl
    simp only [stepTerminal, tokens]
    split
    · exact .refl _
    · split
      · exact .next _ rfl
      · exact .refl _
  · rename_i n below stack
    have shut : (s.forget.pop below).isOpen n = false := rfl
    have input : (s.forget.pop below).input = (s.pop below).input := rfl
    simp only [stepNonterminal, closed n below stack, shut, input, Bool.false_eq_true, if_false]
    split
    · exact .next _ rfl
    · exact .refl _

/-! ### Expansions under one lookahead -/

/-- An expansion of the first symbol by what the table gives under a lookahead. -/
inductive Unfolds (m : Machine) (look : Option Column) : List Symbol → List Symbol → Prop
  | expand {n id : Nat} {p : Production} (rest : List Symbol) (predicted : m.predict n look = some (id, p)) :
    Unfolds m look (.nonterminal n :: rest) (erased p.body ++ rest)

variable {look : Option Column} {a b : List Symbol} {n : Nat}

theorem Unfolds.append (rest : List Symbol) (h : m.Unfolds look a b) : m.Unfolds look (a ++ rest) (b ++ rest) := by
  cases h with
  | expand later predicted =>
    rw [List.append_assoc]
    exact .expand (later ++ rest) predicted

theorem unfolds_append (rest : List Symbol) (h : Relation.TransGen (m.Unfolds look) a b) :
    Relation.TransGen (m.Unfolds look) (a ++ rest) (b ++ rest) :=
  Relation.TransGen.lift (· ++ rest) (fun _ _ => Unfolds.append rest) _ _ h

/-- The stack leads back, by expansions, to a nonterminal that leads back to itself. -/
def Circles (m : Machine) (look : Option Column) (n : Nat) (stack : List Symbol) : Prop :=
  ∃ rest, Relation.TransGen (m.Unfolds look) stack (.nonterminal n :: rest)

theorem Circles.append (rest : List Symbol) (h : m.Circles look n a) : m.Circles look n (a ++ rest) := by
  obtain ⟨above, h⟩ := h
  exact ⟨above ++ rest, unfolds_append rest h⟩

theorem Circles.step (again : m.Circles look n [.nonterminal n]) (h : m.Circles look n a) :
    ∃ b, m.Unfolds look a b ∧ m.Circles look n b := by
  obtain ⟨rest, h⟩ := h
  obtain ⟨above, loop⟩ := again
  obtain ⟨b, first, later⟩ := Relation.TransGen.head'_iff.mp h
  exact ⟨b, first, above ++ rest, Relation.TransGen.trans_right later (unfolds_append rest loop)⟩

theorem expandsForever_of_circles (again : m.Circles (m.lookahead? s.input) n [.nonterminal n])
    (h : m.Circles (m.lookahead? s.input) n s.stack) : m.ExpandsForever s := by
  have goes : ∀ t : State, t.input = s.input ∧ m.Circles (m.lookahead? s.input) n t.stack → ∃ u : State,
      (u.input = s.input ∧ m.Circles (m.lookahead? s.input) n u.stack) ∧
        ∃ id, m.freeStep t = .next [u.row (.expand id)] u := by
    rintro t ⟨input, circles⟩
    obtain ⟨b, unfolds, later⟩ := again.step circles
    generalize stack : t.stack = form at unfolds
    cases unfolds with
    | @expand n' id p rest predicted =>
      rw [← input] at predicted
      exact ⟨(t.forget.pop rest).expand n' p, ⟨input, later⟩, id, freeStep_nonterminal stack predicted⟩
  choose! following kept turns using goes
  have all : ∀ k, (following^[k] s).input = s.input ∧ m.Circles (m.lookahead? s.input) n (following^[k] s).stack := by
    intro k
    induction k with
    | zero => exact ⟨rfl, h⟩
    | succ k ih =>
      rw [Function.iterate_succ_apply']
      exact kept _ ih
  refine ⟨fun k => following^[k] s, rfl, fun k => ⟨(all k).1, ?_⟩⟩
  simp only [Function.iterate_succ_apply']
  exact turns _ (all k)

/-! ### What is open -/

/-- Each open nonterminal stands for expansions, all under the present lookahead, that led from it to what is above its
    height. -/
structure Tracked (m : Machine) (s : State) : Prop where
  visible : .epsilon ∉ s.stack
  opened : ∀ o ∈ s.opened, ∃ above below, s.stack = above ++ below ∧ below.length = o.2 ∧
    Relation.TransGen (m.Unfolds (m.lookahead? s.input)) [.nonterminal o.1] above

namespace Tracked

theorem entry (n : Nat) (input : Input) (declared : Declarations) (faulty : Bool) :
    m.Tracked (Machine.entry n input declared faulty) where
  visible := by simp [Machine.entry]
  opened := fun _ h => nomatch h

/-- What is open when the top is taken off was expanded to a form that begins with the top. -/
theorem pop (tracked : m.Tracked s) {top : Symbol} {below : List Symbol} (stack : s.stack = top :: below) {o : Nat × Nat}
    (member : o ∈ (s.pop below).opened) : ∃ above lower, below = above ++ lower ∧ lower.length = o.2 ∧
      Relation.TransGen (m.Unfolds (m.lookahead? s.input)) [.nonterminal o.1] (top :: above) := by
  obtain ⟨old, low⟩ := List.mem_filter.mp member
  have bound : o.2 ≤ below.length := by simpa using low
  obtain ⟨above, lower, split, height, unfolded⟩ := tracked.opened o old
  rw [stack] at split
  cases above with
  | nil =>
    -- The top would lie at the height itself, but what is left is that high.
    have length := congrArg List.length split
    simp only [List.nil_append, List.length_cons] at length
    omega
  | cons s above =>
    cases split
    exact ⟨above, lower, rfl, height, unfolded⟩

theorem expand (tracked : m.Tracked s) {n id : Nat} {p : Production} {below : List Symbol}
    (stack : s.stack = .nonterminal n :: below) (predicted : m.predict n (m.lookahead? s.input) = some (id, p)) :
    m.Tracked ((s.pop below).expand n p) where
  visible := by
    intro member
    rcases List.mem_append.mp member with body | old
    · exact (mem_erased.mp body).2 rfl
    · exact tracked.visible (stack ▸ List.mem_cons_of_mem _ old)
  opened := by
    intro o member
    rcases List.mem_cons.mp member with rfl | old
    · refine ⟨erased p.body, below, rfl, rfl, .single ?_⟩
      have unfolds : m.Unfolds _ _ _ := .expand [] predicted
      rwa [List.append_nil] at unfolds
    · obtain ⟨above, lower, rfl, height, unfolded⟩ := tracked.pop stack old
      exact ⟨erased p.body ++ above, lower, (List.append_assoc ..).symm, height, unfolded.tail (.expand above predicted)⟩

theorem step (tracked : m.Tracked s) {events : List Event} {later : State} (h : m.step s = .next events later) :
    m.Tracked later := by
  cases Move.of_step h with
  | skip stack => exact absurd (stack ▸ List.mem_cons_self) tracked.visible
  | consume stack _ _ _ =>
    exact ⟨fun member => tracked.visible (stack ▸ List.mem_cons_of_mem _ member), fun _ h => nomatch h⟩
  | expand stack _ predicted => exact tracked.expand stack predicted
  | resume _ _ _ => exact entry ..

theorem reaches (tracked : m.Tracked s) (h : Reaches m.step s t) : m.Tracked t := by
  induction h with
  | refl => exact tracked
  | tail _ next ih =>
    obtain ⟨events, next⟩ := next
    exact ih.step next

theorem circles (tracked : m.Tracked s) {n : Nat} {below : List Symbol} (stack : s.stack = .nonterminal n :: below)
    (going : (s.pop below).isOpen n = true) : m.Circles (m.lookahead? s.input) n [.nonterminal n] := by
  obtain ⟨o, member, same⟩ := List.any_eq_true.mp going
  obtain ⟨above, lower, -, -, unfolded⟩ := tracked.pop stack member
  rw [decide_eq_true_eq.mp same] at unfolded
  exact ⟨above, unfolded⟩

/-- A nonterminal that comes up while it is open would come up for ever. -/
theorem expandsForever (tracked : m.Tracked s) {n : Nat} {below : List Symbol} (stack : s.stack = .nonterminal n :: below)
    (going : (s.pop below).isOpen n = true) : m.ExpandsForever s := by
  have again := tracked.circles stack going
  refine expandsForever_of_circles again ?_
  rw [stack]
  exact again.append below

end Tracked

/-! ### Runs with and without the guard -/

theorem mem_faultEvents {fault : SyntaxFault} {f : Fault} {pos : Position} (t : State) (action : Action)
    (member : .fault f pos ∈ s.faultEvents fault ++ [t.row action]) : f = .syntactic fault := by
  simp only [State.faultEvents, State.row, List.mem_append, List.mem_cons, List.not_mem_nil, or_false] at member
  rcases member with (same | same | same) | same
  · cases same
    rfl
  · cases same
  · cases same
  · cases same

theorem open_of_refused {top : Symbol} {below : List Symbol} {fault : SyntaxFault} {name : String} {pos : Position}
    {action : Action} (stack : s.stack = top :: below) (refused : m.Refuses (s.pop below) top fault)
    (member : .fault (.syntactic (.expansionCycle name)) pos ∈ (s.pop below).faultEvents fault ++ [t.row action]) :
    ∃ n below, s.stack = .nonterminal n :: below ∧ (s.pop below).isOpen n = true := by
  cases mem_faultEvents t action member
  cases refused with
  | cycle going => exact ⟨_, _, stack, going⟩

/-- The fault of a cycle is reported only where a nonterminal comes up that is open. -/
theorem open_of_cycle {name : String} {pos : Position}
    (member : .fault (.syntactic (.expansionCycle name)) pos ∈ (m.step s).events) :
    ∃ n below, s.stack = .nonterminal n :: below ∧ (s.pop below).isOpen n = true := by
  cases turn : m.step s with
  | halt events outcome scope =>
    rw [turn] at member
    cases Move.of_step turn with
    | exhausted _ => cases member
    | accept _ _ => simp [Turn.events, State.row] at member
    | abort stack refused _ => exact open_of_refused stack refused member
  | next events later =>
    rw [turn] at member
    cases Move.of_step turn with
    | skip _ => cases member
    | consume _ _ _ _ => simp [Turn.events, State.row] at member
    | expand _ _ _ => simp [Turn.events, State.row] at member
    | resume stack refused _ => exact open_of_refused stack refused member

theorem runFrom_of_halts {run : Run} (h : Halts m.freeStep s run) (same : t.forget = s.forget) (tracked : m.Tracked t) :
    m.runFrom t = run := by
  have free : ∀ {s t : State}, t.forget = s.forget → m.freeStep t = m.freeStep s := fun same => by
    rw [freeStep, freeStep, same]
  -- The guard is silent on the way: where it spoke the run without it would not end.
  have closed : ∀ {s t : State} {run : Run}, Halts m.freeStep s run → t.forget = s.forget → m.Tracked t →
      Agree (m.step t) (m.freeStep s) := by
    intro s t run h same tracked
    rw [← free same]
    refine step_agree fun n below stack => Bool.eq_false_iff.mpr fun going => ?_
    have halts : Halts m.freeStep t run := by
      cases h with
      | halt h => exact .halt ((free same).trans h)
      | next h rest => exact .next ((free same).trans h) rest
    exact halts.not_expandsForever (tracked.expandsForever stack going)
  induction h generalizing t with
  | halt h =>
    have agree := closed (.halt h) same tracked
    rw [h] at agree
    generalize turn : m.step t = result at agree
    cases agree with
    | halt => exact runFrom_halt turn
  | next h rest ih =>
    have agree := closed (.next h rest) same tracked
    rw [h] at agree
    generalize turn : m.step t = result at agree
    cases agree with
    | next _ kept => rw [runFrom_next turn, ih kept (tracked.step turn)]

/-- Every run halts. The guard reports a cycle only where the machine without it would expand for ever, so that a run
    which halts without the guard has the same results with it. -/
theorem guard_exact (m : Machine) (stream : List Token) (declared : Declarations) :
    Halts m.step (m.initial (.ofTokens stream) declared) (m.runFrom (m.initial (.ofTokens stream) declared)) ∧
    (∀ s, Reaches m.step (m.initial (.ofTokens stream) declared) s →
      (∃ name pos, .fault (.syntactic (.expansionCycle name)) pos ∈ (m.step s).events) → m.ExpandsForever s) ∧
    ∀ run, Halts m.freeStep (m.initial (.ofTokens stream) declared) run →
      m.parse stream declared = m.report (run.preceded [(m.initial (.ofTokens stream) declared).row .initial]) := by
  have tracked : m.Tracked (m.initial (.ofTokens stream) declared) := .entry ..
  refine ⟨m.halts_runFrom _, ?_, ?_⟩
  · rintro s reached ⟨name, pos, member⟩
    obtain ⟨n, below, stack, going⟩ := open_of_cycle member
    exact (tracked.reaches reached).expandsForever stack going
  · intro run h
    rw [parse, Machine.run, runFrom_of_halts h rfl tracked]

/-- On `b` the table lets `S` come up again behind the vanished `A`. -/
theorem guard_exact_leftRecursive : ∃ s,
    Reaches (ofGrammar .leftRecursive {}).step
      ((ofGrammar .leftRecursive {}).initial (.ofTokens [⟨.keyword, "b", .start⟩]) .empty) s ∧
    (ofGrammar .leftRecursive {}).ExpandsForever s := by
  let first := (ofGrammar .leftRecursive {}).initial (.ofTokens [⟨.keyword, "b", .start⟩]) .empty
  let second := (first.pop [.endMarker]).expand 0 ⟨0, [.nonterminal 1, .nonterminal 0, .terminal 0]⟩
  let third := (second.pop [.nonterminal 0, .terminal 0, .endMarker]).expand 1 ⟨1, [.epsilon]⟩
  have one : (ofGrammar .leftRecursive {}).step first = .next [second.row (.expand 1)] second := by decide +kernel
  have two : (ofGrammar .leftRecursive {}).step second = .next [third.row (.expand 2)] third := by decide +kernel
  have reached : Reaches (ofGrammar .leftRecursive {}).step first third := .tail (.single ⟨_, one⟩) ⟨_, two⟩
  exact ⟨third, reached, (guard_exact _ _ _).2.1 third reached ⟨"S", .start, by decide +kernel⟩⟩

end Machine
end Lookahead
