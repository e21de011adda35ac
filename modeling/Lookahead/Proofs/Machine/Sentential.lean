import Lookahead.Proofs.Machine.Correctness
import Lookahead.Proofs.Machine.Trail

/-! Until its first syntax fault a run derives from the left. What it has matched, followed by the stack, is the form that
the productions it has expanded lead to from its first stack. This needs a production of the right head in every cell but
not that the cells are without conflicts: a table with conflicts may lose words and accepts none that the grammar does not
derive. -/

namespace Lookahead
namespace Machine
variable {g : Grammar} {settings : Settings} {first s t later : State} {events more : List Event}

/-- What steps without a fault leave behind: the tokens they passed are those they matched, and the expansions derive what
    was matched and is still on the stack. -/
structure Unfolded (g : Grammar) (settings : Settings) (first : State) (events : List Event) (s : State) : Prop where
  visible : .epsilon ∉ s.stack
  reads : ∃ passed, first.input = s.input.prepend passed ∧ (ofGrammar g settings).Reads passed (matched events)
  form : g.LeftDerives first.stack (expansions events) ((matched events).map .terminal ++ s.stack)

namespace Unfolded

theorem refl (visible : .epsilon ∉ s.stack) : Unfolded g settings s [] s where
  visible := visible
  reads := ⟨[], rfl, rfl⟩
  form := .refl _

theorem consume {n : Nat} {below : List Symbol} {token : Token} {rest : List Token} {scope : Scope}
    {faults : List SemanticFault} (h : Unfolded g settings first events s) (stack : s.stack = .terminal n :: below)
    (tokens : s.input.tokens = token :: rest) (column : (ofGrammar g settings).column? token = some (.terminal n)) :
    Unfolded g settings first
      (events ++ (s.pop below).row (.matched n) :: faults.map fun f => .fault (.semantic f) token.pos)
      ((s.pop below).advance rest scope) where
  visible := fun member => h.visible (stack ▸ List.mem_cons_of_mem _ member)
  reads := by
    obtain ⟨passed, input, reads⟩ := h.reads
    refine ⟨passed ++ [token], ?_, ?_⟩
    · rw [input]
      simp [Input.prepend, State.advance, State.pop, tokens]
    · rw [matched_append, matched_match, Reads, List.map_append, List.map_append, reads, List.map_singleton, column]
      rfl
  form := by
    have form := h.form
    rw [stack] at form
    rw [expansions_append, matched_append, matched_match, expansions_matched, List.append_nil, List.map_append,
      List.append_assoc]
    exact form

theorem expand {n id : Nat} {p : Production} {below : List Symbol} (h : Unfolded g settings first events s)
    (stack : s.stack = .nonterminal n :: below)
    (predicted : (ofGrammar g settings).predict n ((ofGrammar g settings).lookahead? s.input) = some (id, p)) :
    Unfolded g settings first (events ++ [((s.pop below).expand n p).row (.expand id)]) ((s.pop below).expand n p) where
  visible := by
    intro member
    rcases List.mem_append.mp member with body | old
    · exact (mem_erased.mp body).2 rfl
    · exact h.visible (stack ▸ List.mem_cons_of_mem _ old)
  reads := by
    obtain ⟨passed, input, reads⟩ := h.reads
    rw [matched_append, matched_expand, List.append_nil]
    exact ⟨passed, input, reads⟩
  form := by
    obtain ⟨found, rfl⟩ := production_of_predict predicted
    have form := h.form
    rw [stack, ← Grammar.map_terminal] at form
    have expanded := form.concat found
    rw [Grammar.map_terminal] at expanded
    rw [expansions_append, matched_append, matched_expand, List.append_nil]
    exact expanded

theorem step (h : Unfolded g settings first events s) (next : (ofGrammar g settings).step s = .next more later)
    (silent : syntaxFaults more = []) : Unfolded g settings first (events ++ more) later := by
  cases Move.of_step next with
  | skip stack => exact absurd (stack ▸ List.mem_cons_self) h.visible
  | consume stack tokens column _ => exact h.consume stack tokens column
  | expand stack _ predicted => exact h.expand stack predicted
  | resume _ _ _ => simp at silent

theorem of_trail (n : Nat) (input : Input) (known : Declarations) (faulty : Bool)
    (steps : Trail (ofGrammar g settings).step (entry n input known faulty) events t) (silent : syntaxFaults events = []) :
    Unfolded g settings (entry n input known faulty) events t :=
  steps.keeps (Unfolded g settings _) step silent (.refl (by simp [entry]))

end Unfolded

/-- A step that expands takes a production of the nonterminal on top. -/
theorem head_of_expand {id : Nat} (next : (ofGrammar g settings).step s = .next [later.row (.expand id)] later) :
    ∃ p below, g.production? id = some p ∧ s.stack = .nonterminal p.head :: below := by
  generalize reported : [later.row (.expand id)] = events at next
  cases Move.of_step next with
  | skip _ => cases reported
  | consume _ _ _ _ => simp [State.row] at reported
  | expand stack _ predicted =>
    simp only [State.row, List.cons.injEq, Event.row.injEq, Row.mk.injEq, Action.expand.injEq, true_and, and_true]
      at reported
    subst reported
    obtain ⟨found, rfl⟩ := production_of_predict predicted
    exact ⟨_, _, found, stack⟩
  | resume _ _ _ => simp [State.row, State.faultEvents] at reported

/-- At every state that a run comes to before a syntax fault, the terminals it has matched are the columns of the tokens it
    has passed, and these terminals with the stack behind them are the form that its expansions derive from the left. Each
    expansion is of the nonterminal on top. Where no body holds the end marker, what is accepted is derived, whether or
    not the table has conflicts. -/
theorem unfolds_from_left (g : Grammar) (settings : Settings) (stream : List Token) (known : Declarations) :
    (∀ events s, Trail (ofGrammar g settings).step ((ofGrammar g settings).initial (.ofTokens stream) known) events s →
      syntaxFaults events = [] →
      (∃ passed, stream.takeWhile (!·.isEof) = passed ++ s.input.tokens ∧
        (ofGrammar g settings).Reads passed (matched events)) ∧
      (∀ form, g.LeftDerives [.nonterminal g.start, .endMarker] (expansions events) form ↔
        form = (matched events).map .terminal ++ s.stack) ∧
      ∀ id later, (ofGrammar g settings).step s = .next [later.row (.expand id)] later →
        ∃ p below, g.production? id = some p ∧ s.stack = .nonterminal p.head :: below) ∧
    ((∀ p ∈ g.productions, .endMarker ∉ p.body) → ((ofGrammar g settings).parse stream known).outcome = .accept →
      ∃ word, (ofGrammar g settings).Reads (stream.takeWhile (!·.isEof)) word ∧
        g.Derives [.nonterminal g.start] (word.map .terminal)) := by
  refine ⟨fun events s steps silent => ?_, fun plain accepted => ?_⟩
  · have unfolded := Unfolded.of_trail g.start (.ofTokens stream) known false steps silent
    obtain ⟨passed, input, reads⟩ := unfolded.reads
    refine ⟨⟨passed, congrArg Input.tokens input, reads⟩, fun form => ⟨fun derived => ?_, ?_⟩, fun _ _ => head_of_expand⟩
    · exact derived.unique unfolded.form
    · rintro rfl
      exact unfolded.form
  · obtain ⟨word, reads, yields⟩ :=
      yields_of_halts plain (halts_runFrom _ _) accepted (Grammar.Pending.start g) (.entry ..)
    exact ⟨word, reads, Grammar.derives_iff_leftDerives.mpr ⟨_, yields_columns.mp yields⟩⟩

/-- The table has two productions for `E` on `e` and keeps the second. Behind the `i` it has matched the stack is what is
    left of the first body, and `i x e x` is accepted and derived. -/
theorem unfolds_from_left_dangling :
    Grammar.dangling.Built ∧ (Table.build .dangling (Sets.solve .dangling)).isLL1 = false ∧
    Grammar.dangling.LeftDerives [.nonterminal 0, .endMarker] [0]
      [.terminal 0, .nonterminal 0, .nonterminal 1, .endMarker] ∧
    Grammar.dangling.Derives [.nonterminal 0] [.terminal 0, .terminal 2, .terminal 1, .terminal 2] := by
  let stream : List Token :=
    [⟨.keyword, "i", .start⟩, ⟨.keyword, "x", .start⟩, ⟨.keyword, "e", .start⟩, ⟨.keyword, "x", .start⟩]
  let first := (ofGrammar .dangling {}).initial (.ofTokens stream) .empty
  let second := (first.pop [.endMarker]).expand 0 ⟨0, [.terminal 0, .nonterminal 0, .nonterminal 1]⟩
  let below : List Symbol := [.nonterminal 0, .nonterminal 1, .endMarker]
  let third := (second.pop below).advance stream.tail first.scope
  have one : (ofGrammar .dangling {}).step first = .next [second.row (.expand 0)] second := by decide +kernel
  have two : (ofGrammar .dangling {}).step second = .next [(second.pop below).row (.matched 0)] third := by decide +kernel
  have trail : Trail (ofGrammar .dangling {}).step first _ third := .head one (.head two (.refl third))
  have plain : ∀ p ∈ Grammar.dangling.productions, .endMarker ∉ p.body := by decide
  have accepted : ((ofGrammar .dangling {}).parse stream .empty).outcome = .accept := by decide +kernel
  have unfolds := unfolds_from_left .dangling {} stream .empty
  refine ⟨Grammar.dangling_built, by decide +kernel, ((unfolds.1 _ third trail rfl).2.1 _).mpr rfl, ?_⟩
  obtain ⟨word, reads, derived⟩ := unfolds.2 plain accepted
  have columns : (ofGrammar .dangling {}).Reads stream [0, 2, 1, 2] := rfl
  cases columns.unique reads
  exact derived

end Machine
end Lookahead
