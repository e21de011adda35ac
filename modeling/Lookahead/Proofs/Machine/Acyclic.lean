import Lookahead.Proofs.Machine.Correctness
import Lookahead.Proofs.Machine.Trail
import Lookahead.Proofs.Prediction.Opening

/-! Without conflicts the guard is never needed. What the table predicts on a column either can begin with the column or
vanishes before it. Either way some expansions come to the column after finitely many steps, and as the table holds no
other production for any of these steps, they are the ones that the machine does. Nothing is asked of the grammar beyond
that: nonterminals may be out of reach of the start, or derive no word, and the machine may resume from any of them. -/

namespace Lookahead
namespace Machine
variable {g : Grammar} {settings : Settings} {s : State} {c : Column} {look : Option Column} {word : List Column}
  {n : Nat}

/-! ### No circles -/

/-- On the column that a form opens with, the expansions of the form do not circle: they lead to the column. -/
theorem not_circles_of_opens {form : List Symbol} (declared : g.Declared)
    (ll1 : (Table.build g (Sets.solve g)).isLL1 = true)
    (again : (ofGrammar g settings).Circles (some c) n [.nonterminal n]) (foreseen : g.Foreseen form)
    (h : g.Opens form (c :: word)) : ¬(ofGrammar g settings).Circles (some c) n form := by
  generalize columns : c :: word = whole at h
  induction h generalizing word with
  | done => cases columns
  | terminal =>
    intro circles
    obtain ⟨b, unfolds, -⟩ := again.step circles
    cases unfolds
  | endMarker =>
    intro circles
    obtain ⟨b, unfolds, -⟩ := again.step circles
    cases unfolds
  | expand found head opens ih =>
    intro circles
    subst head
    cases columns
    obtain ⟨b, unfolds, later⟩ := again.step circles
    cases unfolds with
    | expand rest predicted =>
      -- The cell has one production, so that the machine expands as the form opens.
      obtain ⟨_, same, cell, found'⟩ := cell_of_predict predicted
      cases same
      rw [foreseen.predicted declared ll1 found opens] at cell
      cases cell
      cases found.symm.trans found'
      exact ih (foreseen.expand declared found) rfl later

/-- No nonterminal comes up again by expansions on one column. -/
theorem not_circles (declared : g.Declared) (ll1 : (Table.build g (Sets.solve g)).isLL1 = true) :
    ¬(ofGrammar g settings).Circles look n [.nonterminal n] := by
  intro again
  obtain ⟨b, unfolds, -⟩ := again.step again
  cases unfolds with
  | @expand _ id p _ predicted =>
    obtain ⟨c, rfl, cell, found⟩ := cell_of_predict predicted
    obtain ⟨q, found', rfl, ahead⟩ := Table.predicted_of_get? cell
    cases found.symm.trans found'
    have member : p ∈ g.productions := List.mem_of_getElem? found
    have head : p.head < g.nonterminals.length := declared.heads p member
    have first : FirstSets.Sound g (FirstSets.solve g) := .solve
    rcases ahead with ⟨begins, -⟩ | ⟨vanishes, follows⟩
    · have opens : g.Opens [.nonterminal p.head] [c] :=
        .of_begins (.of_derives (.of_production member) (first.ofSequence begins))
      exact not_circles_of_opens declared ll1 again (.single head) opens again
    · -- The body vanishes before a column that can follow, and then the column is what the pair opens with.
      have known : g.Declares c.toSymbol := FollowSets.declares_of_mem follows
      have gone : g.Derives [.nonterminal p.head, c.toSymbol] ([c].map Column.toSymbol ++ []) :=
        ((Grammar.Derives.of_production member).trans (first.ofSequence vanishes)).append_right [c.toSymbol]
      exact not_circles_of_opens declared ll1 again (.pair head known follows) (.of_derives gone)
        (again.append [c.toSymbol])

/-! ### Runs without conflicts -/

theorem never_open {below : List Symbol} (declared : g.Declared) (ll1 : (Table.build g (Sets.solve g)).isLL1 = true)
    (tracked : (ofGrammar g settings).Tracked s) (stack : s.stack = .nonterminal n :: below) :
    (s.pop below).isOpen n = false :=
  Bool.eq_false_iff.mpr fun going => not_circles declared ll1 (tracked.circles stack going)

theorem step_not_cycle {name : String} {pos : Position} (declared : g.Declared)
    (ll1 : (Table.build g (Sets.solve g)).isLL1 = true) (tracked : (ofGrammar g settings).Tracked s) :
    .fault (.syntactic (.expansionCycle name)) pos ∉ ((ofGrammar g settings).step s).events := by
  intro member
  obtain ⟨n, below, stack, going⟩ := open_of_cycle member
  rw [never_open declared ll1 tracked stack] at going
  cases going

theorem runFrom_not_cycle {name : String} {pos : Position} (declared : g.Declared)
    (ll1 : (Table.build g (Sets.solve g)).isLL1 = true) (tracked : (ofGrammar g settings).Tracked s) :
    .fault (.syntactic (.expansionCycle name)) pos ∉ ((ofGrammar g settings).runFrom s).events := by
  intro member
  obtain ⟨t, reached, reported⟩ := ((ofGrammar g settings).halts_runFrom s).mem_events member
  exact step_not_cycle declared ll1 (tracked.reaches reached) reported

theorem runFrom_not_cycle_row {name : String} {row : Row} (declared : g.Declared)
    (ll1 : (Table.build g (Sets.solve g)).isLL1 = true) (tracked : (ofGrammar g settings).Tracked s)
    (member : .row row ∈ ((ofGrammar g settings).runFrom s).events) : row.action ≠ .error (.expansionCycle name) := by
  intro action
  obtain ⟨t, reached, reported⟩ := ((ofGrammar g settings).halts_runFrom s).mem_events member
  obtain ⟨pos, fault⟩ := fault_of_error reported action
  exact step_not_cycle declared ll1 (tracked.reaches reached) fault

/-- A parser whose table has no conflicts never reports that a nonterminal comes up again, neither as a finding nor in the
    trace, on no stream and whatever nonterminal it starts or resumes from. -/
theorem reports_no_cycle {g : Grammar} (built : g.Built) (ll1 : (Table.build g (Sets.solve g)).isLL1 = true)
    (settings : Settings) (stream : List Token) (known : Declarations) (name : String) :
    (∀ pos, .fault (.syntactic (.expansionCycle name)) pos ∉
      ((ofGrammar g settings).run (.ofTokens stream) known).events) ∧
    (∀ row ∈ ((ofGrammar g settings).parse stream known).trace, row.action ≠ .error (.expansionCycle name)) ∧
    ∀ n faulty pos, .fault (.syntactic (.expansionCycle name)) pos ∉
      ((ofGrammar g settings).runFrom (entry n (.ofTokens stream) known faulty)).events := by
  have tracked : ∀ n faulty, (ofGrammar g settings).Tracked (entry n (.ofTokens stream) known faulty) :=
    fun _ _ => .entry ..
  refine ⟨fun pos member => ?_, fun row member => ?_, fun n faulty pos => ?_⟩
  · rcases List.mem_cons.mp member with first | later
    · cases first
    · exact runFrom_not_cycle built.declared ll1 (tracked g.start false) later
  · simp only [parse, report] at member
    split at member
    · obtain ⟨e, inside, same⟩ := List.mem_filterMap.mp member
      cases e with
      | fault => cases same
      | row r =>
        cases same
        rcases List.mem_cons.mp inside with first | later
        · cases first
          simp
        · exact runFrom_not_cycle_row built.declared ll1 (tracked g.start false) later
    · cases member
  · exact runFrom_not_cycle built.declared ll1 (tracked n faulty)

/-- The first fault is behind `a`, and the run resumes from `U`, which the start does not reach and which derives no
    word. -/
theorem reports_no_cycle_scattered :
    Grammar.scattered.Built ∧ (Table.build .scattered (Sets.solve .scattered)).isLL1 = true ∧
    ∃ run, run = (ofGrammar .scattered {}).run
        (.ofTokens [⟨.keyword, "a", .start⟩, ⟨.keyword, ";", .start⟩, ⟨.keyword, "b", .start⟩]) .empty ∧
      (syntaxFaults run.events).length = 2 ∧ expansions run.events = [0, 2, 3] ∧
      .fault (.syntactic (.expansionCycle "U")) .start ∉ run.events := by
  have ll1 : (Table.build .scattered (Sets.solve .scattered)).isLL1 = true := by decide +kernel
  refine ⟨Grammar.scattered_built, ll1, _, rfl, by decide +kernel, by decide +kernel, ?_⟩
  exact (reports_no_cycle Grammar.scattered_built ll1 {} _ .empty "U").1 .start

end Machine
end Lookahead
