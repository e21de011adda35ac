import Lookahead.Proofs.Grammar.Built
import Lookahead.Proofs.Machine.Trail
import Mathlib.Algebra.GroupWithZero.Nat
import Mathlib.Algebra.Order.BigOperators.Group.List
import Mathlib.Algebra.Order.Group.Nat
import Mathlib.Data.List.DropRight

/-! What a run leaves on its stack when it accepts. It accepts at the first end marker that it comes to, be it the one at the
bottom or one that a body brought up. No marker is taken off before that, so that the stack holds the one at the bottom and all
that were brought up since the run began or last resumed. Hence acceptance leaves the stack empty if and only if none was. -/

namespace Lookahead

/-! ### Since a run last resumed -/

def Event.isResume : Event → Bool
  | .row r => r.action = .resume
  | .fault _ _ => false

/-- What was reported since the run last resumed, or all of it if it never did. -/
def sinceResume (events : List Event) : List Event := events.rtakeWhile (!·.isResume)

theorem sinceResume_append {events more : List Event} (going : ∀ e ∈ more, e.isResume = false) :
    sinceResume (events ++ more) = sinceResume events ++ more := by
  have all : ∀ e ∈ more.reverse, (!e.isResume) = true := fun e member => by simp [going e (List.mem_reverse.mp member)]
  simp only [sinceResume, List.rtakeWhile, List.reverse_append, List.takeWhile_append_of_pos all, List.reverse_reverse]

theorem sinceResume_concat {events : List Event} {e : Event} (resumes : e.isResume = true) :
    sinceResume (events ++ [e]) = [] := by
  rw [sinceResume, List.rtakeWhile_concat_neg _ _ _ (by simp [resumes])]

/-- How many end markers the body of a production holds. -/
def Grammar.marks (g : Grammar) (id : Nat) : Nat := ((g.production? id).map (·.body.count .endMarker)).getD 0

theorem Grammar.marks_eq_zero {g : Grammar} {id : Nat} :
    g.marks id = 0 ↔ ∀ p, g.production? id = some p → .endMarker ∉ p.body := by
  unfold marks
  cases g.production? id with
  | none => simp
  | some p => simp [List.count_eq_zero]

/-- `S → a $ b` and `R → a`, where a run resumes from `R`: the end marker stands inside a body. -/
def Grammar.cut : Grammar where
  terminals := ["a", "b", ";"]
  nonterminals := ["S", "R"]
  productions := [⟨0, [.terminal 0, .endMarker, .terminal 1]⟩, ⟨1, [.terminal 0]⟩]
  start := 0
  restarts := [1]

theorem Grammar.cut_built : cut.Built :=
  ⟨[.terminal "a", .terminal "b", .terminal ";", .nonterminal "S", .nonterminal "R", .start "S",
    .production "S" ["a", "$", "b"], .production "R" ["a"], .restart "R"], rfl⟩

namespace Machine
variable {m : Machine} {s t later : State} {events more : List Event} {run : Run} {row : Row}

/-! ### The end markers on the stack -/

/-- The stack holds one end marker, and those of the bodies that were expanded since the run last resumed. -/
def Marked (m : Machine) (events : List Event) (s : State) : Prop :=
  s.stack.count .endMarker = ((expansions (sinceResume events)).map m.grammar.marks).sum + 1

/-- A step that does not resume adds the markers of what it expands. -/
theorem Marked.extend {k : Nat} (marked : m.Marked events s) (going : ∀ e ∈ more, e.isResume = false)
    (expanded : ((expansions more).map m.grammar.marks).sum = k)
    (added : later.stack.count .endMarker = k + s.stack.count .endMarker) : m.Marked (events ++ more) later := by
  unfold Marked at marked ⊢
  rw [sinceResume_append going, expansions_append, List.map_append, List.sum_append, expanded, added, marked]
  omega

theorem Marked.step (marked : m.Marked events s) (h : m.step s = .next more later) : m.Marked (events ++ more) later := by
  cases Move.of_step h with
  | skip stack => exact marked.extend (by simp) rfl (by simp [stack, State.pop])
  | consume stack _ _ _ =>
    refine marked.extend ?_ (by rw [expansions_matched]) (by simp [stack, State.advance, State.pop])
    intro e member
    rcases List.mem_cons.mp member with rfl | fault
    · rfl
    · obtain ⟨_, -, rfl⟩ := List.mem_map.mp fault
      rfl
  | @expand n id p below stack _ predicted =>
    obtain ⟨_, -, -, found⟩ := lookup_of_predict predicted
    have body : p.body.count .endMarker = m.grammar.marks id := by
      rw [Grammar.marks, found]
      rfl
    refine marked.extend ?_ (List.sum_singleton ..) ?_
    · intro e member
      cases List.mem_singleton.mp member
      rfl
    · simp [stack, State.expand, State.pop, List.count_append, body]
  | resume _ _ _ =>
    unfold Marked
    rw [← List.append_assoc, sinceResume_concat (by simp [State.row, Event.isResume])]
    rfl

theorem Marked.trail (marked : m.Marked events s) (steps : Trail m.step s more t) : m.Marked (events ++ more) t := by
  induction steps generalizing events with
  | refl s =>
    rw [List.append_nil]
    exact marked
  | head next _ ih =>
    rw [← List.append_assoc]
    exact ih (marked.step next)

/-! ### The end of a run -/

theorem not_accept_of_next (h : m.step s = .next events later) (member : .row row ∈ events) : row.action ≠ .accept := by
  intro accepts
  cases Move.of_step h with
  | skip _ => cases member
  | consume _ _ _ _ =>
    rcases List.mem_cons.mp member with same | other
    · cases same
      cases accepts
    · simp at other
  | expand _ _ _ =>
    cases List.mem_singleton.mp member
    cases accepts
  | resume _ _ _ => rcases row_of_faultEvents member with told | told | told <;> cases accepts.symm.trans told

/-- A run that accepts does so in its last step, at an end marker. -/
theorem Halts.accepts_at_mark (h : Halts m.step s run) (taken : .row row ∈ run.events) (accepts : row.action = .accept) :
    ∃ events t, Trail m.step s events t ∧ run.events = events ++ [.row row] ∧ t.stack = .endMarker :: row.stack := by
  induction h with
  | @halt s _ _ _ h =>
    cases Move.of_step h with
    | exhausted _ => cases taken
    | accept stack _ =>
      cases List.mem_singleton.mp taken
      exact ⟨[], s, .refl s, rfl, stack⟩
    | abort _ _ _ => rcases row_of_faultEvents taken with told | told | told <;> cases accepts.symm.trans told
  | next h _ ih =>
    rcases List.mem_append.mp taken with here | behind
    · exact absurd accepts (not_accept_of_next h here)
    · obtain ⟨events, t, steps, last, stack⟩ := ih behind
      exact ⟨_, t, .head h steps, by rw [Run.preceded, last, List.append_assoc], stack⟩

/-- A run that accepts leaves its stack empty if and only if no body that it has expanded since it began or last resumed holds
    an end marker. Otherwise all that was predicted behind the first marker is left. -/
theorem accept_empties_iff (m : Machine) (stream : List Token) (known : Declarations)
    (taken : .row row ∈ (m.run (.ofTokens stream) known).events) (accepts : row.action = .accept) :
    row.stack = [] ↔ ∀ id ∈ expansions (sinceResume (m.run (.ofTokens stream) known).events), ∀ p,
      m.grammar.production? id = some p → .endMarker ∉ p.body := by
  let first := m.initial (.ofTokens stream) known
  have later : .row row ∈ (m.runFrom first).events := by
    rcases List.mem_cons.mp taken with same | later
    · cases same
      cases accepts
    · exact later
  obtain ⟨events, t, steps, last, stack⟩ := (m.halts_runFrom first).accepts_at_mark later accepts
  have whole : (m.run (.ofTokens stream) known).events = ([first.row .initial] ++ events) ++ [.row row] :=
    congrArg (List.cons _) last
  have began : m.Marked [first.row .initial] first := rfl
  have marked := began.trail steps
  have recent : expansions (sinceResume (m.run (.ofTokens stream) known).events) =
      expansions (sinceResume ([first.row .initial] ++ events)) := by
    rw [whole, sinceResume_append (by simp [Event.isResume, accepts]), expansions_append]
    simp [expansions, Event.row?, accepts, Action.production?]
  have count : row.stack.count .endMarker =
      ((expansions (sinceResume (m.run (.ofTokens stream) known).events)).map m.grammar.marks).sum := by
    rw [Marked, stack, List.count_cons_self] at marked
    rw [recent]
    omega
  have grounded : t.Grounded := grounded_reaches (grounded_entry ..) steps.reaches
  rw [grounded_mark grounded stack, ← List.count_eq_zero, count, List.sum_eq_zero_iff]
  simp only [List.mem_map, forall_exists_index, and_imp, forall_apply_eq_imp_iff₂, Grammar.marks_eq_zero]

/-- The marker inside a body is taken for the end of the input: `a` alone is accepted while `b` is still predicted, though
    there are no conflicts and no word of the language is a single `a`. -/
theorem accept_leaves_symbols : Grammar.cut.Built ∧ (Table.build .cut (Sets.solve .cut)).isLL1 = true ∧
    ∃ row, .row row ∈ ((ofGrammar .cut {}).run (.ofTokens [⟨.keyword, "a", ⟨1, 1⟩⟩]) .empty).events ∧
      row.action = .accept ∧ row.stack = [.terminal 1, .endMarker] ∧
      ((ofGrammar .cut {}).run (.ofTokens [⟨.keyword, "a", ⟨1, 1⟩⟩]) .empty).outcome = .accept :=
  ⟨Grammar.cut_built, by decide +kernel, ⟨[.terminal 1, .endMarker], "$", .accept⟩, by decide +kernel, rfl, rfl,
    by decide +kernel⟩

/-- In `a b ; a` the body with the marker is given up at `b`. The run resumes from `R`, whose body holds none, and accepts
    with an empty stack. -/
theorem accept_empties_iff_cut : ∃ stream : List Token, ∃ row,
    .row row ∈ ((ofGrammar .cut {}).run (.ofTokens stream) .empty).events ∧ row.action = .accept ∧
    0 ∈ expansions ((ofGrammar .cut {}).run (.ofTokens stream) .empty).events ∧ row.stack = [] := by
  let stream : List Token :=
    [⟨.keyword, "a", ⟨1, 1⟩⟩, ⟨.keyword, "b", ⟨1, 3⟩⟩, ⟨.punctuation, ";", ⟨1, 5⟩⟩, ⟨.keyword, "a", ⟨1, 7⟩⟩]
  have taken : .row ⟨[], "$", .accept⟩ ∈ ((ofGrammar .cut {}).run (.ofTokens stream) .empty).events := by decide +kernel
  have recent : expansions (sinceResume ((ofGrammar .cut {}).run (.ofTokens stream) .empty).events) = [1] := by
    decide +kernel
  refine ⟨stream, _, taken, rfl, by decide +kernel, (accept_empties_iff _ stream .empty taken rfl).mpr ?_⟩
  intro id member p found
  rw [recent] at member
  cases List.mem_singleton.mp member
  cases found
  decide

end Machine
end Lookahead
