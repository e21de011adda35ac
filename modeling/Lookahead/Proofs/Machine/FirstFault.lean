import Lookahead.Proofs.Machine.Acyclic
import Lookahead.Proofs.Machine.Sentential
import Mathlib.Data.List.TakeWhile

/-! Where a run without conflicts meets its first syntax fault. It may expand nonterminals to nothing on a lookahead that
does not fit, but it never gets past a token that no form can go on with, and it never stops at one that some form can:
whatever the first stack could open with, the stack can still open with when the matched part is taken off. -/

namespace Lookahead

/-- Some form derived from the whole input begins with the columns. Where one of them is missing there is none. -/
def Grammar.Begun (g : Grammar) (columns : List (Option Column)) : Prop :=
  ∃ (word : List Column) (rest : List Symbol), word.map some = columns ∧
    g.Derives [.nonterminal g.start, .endMarker] (word.map Column.toSymbol ++ rest)

namespace Machine
variable {m : Machine} {g : Grammar} {settings : Settings} {first s t later : State} {events more : List Event}

/-! ### Columns of the input -/

/-- The columns of the tokens, and then that of the end. -/
def columnsOf (m : Machine) (i : Input) : List (Option Column) := i.tokens.map m.column? ++ [some .endMarker]

theorem columnsOf_cons (m : Machine) (i : Input) : ∃ behind, m.columnsOf i = m.lookahead? i :: behind := by
  unfold columnsOf lookahead?
  cases i.tokens with
  | nil => exact ⟨[], rfl⟩
  | cons t rest => exact ⟨_, rfl⟩

theorem columnsOf_prepend (m : Machine) (passed : List Token) (i : Input) :
    m.columnsOf (i.prepend passed) = passed.map m.column? ++ m.columnsOf i := by
  simp [columnsOf, Input.prepend]

theorem lookahead?_of_prefix {i : Input} {c : Column} {word : List Column}
    (ahead : (c :: word).map some <+: m.columnsOf i) : m.lookahead? i = some c := by
  obtain ⟨behind, columns⟩ := m.columnsOf_cons i
  rw [columns, List.map_cons, List.cons_prefix_cons] at ahead
  exact ahead.1.symm

theorem column?_ne_endMarker {token : Token} (open? : token.isEof = false) : m.column? token ≠ some .endMarker := by
  unfold column?
  cases kind : token.kind <;> simp_all [Token.isEof]

/-! ### What the stack can open with -/

/-- What steps without a fault leave behind when the table has no conflicts. -/
structure Directed (g : Grammar) (settings : Settings) (first : State) (events : List Event) (s : State) : Prop
    extends Unfolded g settings first events s where
  foreseen : g.Foreseen s.stack
  opens : ∀ word, word.map some <+: (ofGrammar g settings).columnsOf s.input →
    g.Opens first.stack ((matched events).map .terminal ++ word) → g.Opens s.stack word

namespace Directed

theorem refl (visible : .epsilon ∉ s.stack) (foreseen : g.Foreseen s.stack) : Directed g settings s [] s where
  toUnfolded := .refl visible
  foreseen := foreseen
  opens := fun _ _ h => h

theorem step (declared : g.Declared) (ll1 : (Table.build g (Sets.solve g)).isLL1 = true)
    (h : Directed g settings first events s) (next : (ofGrammar g settings).step s = .next more later)
    (silent : syntaxFaults more = []) : Directed g settings first (events ++ more) later := by
  have foreseen := h.foreseen
  refine ⟨h.toUnfolded.step next silent, ?_, fun word ahead opens => ?_⟩
  · cases Move.of_step next with
    | skip stack => exact (stack ▸ foreseen).tail
    | consume stack _ _ _ => exact (stack ▸ foreseen).tail
    | expand stack _ predicted =>
      obtain ⟨found, rfl⟩ := production_of_predict predicted
      exact (stack ▸ foreseen).expand declared found
    | resume _ _ _ => simp at silent
  · rw [matched_append] at opens
    cases Move.of_step next with
    | skip stack => exact absurd (stack ▸ List.mem_cons_self) h.visible
    | @consume n below token rest _ _ stack tokens column _ =>
      rw [matched_match, List.map_append, List.append_assoc] at opens
      have wider : (.terminal n :: word : List Column).map some <+: (ofGrammar g settings).columnsOf s.input := by
        rw [columnsOf, tokens, List.map_cons, List.map_cons, column, List.cons_append, List.cons_prefix_cons]
        exact ⟨rfl, ahead⟩
      have before := h.opens _ wider opens
      rw [stack] at before
      cases before with
      | terminal _ later => exact later
    | expand stack _ predicted =>
      rw [matched_expand, List.append_nil] at opens
      have before := h.opens word ahead opens
      rw [stack] at before foreseen
      obtain ⟨c, look, cell, found⟩ := cell_of_predict predicted
      cases before with
      | done => exact .done _
      | expand found' head later =>
        -- The lookahead is the next column, and the form opens by the production of its cell.
        subst head
        have same := lookahead?_of_prefix ahead
        rw [show ((s.pop _).expand _ _).input = s.input from rfl, look] at same
        cases same
        rw [foreseen.predicted declared ll1 found' later] at cell
        cases cell
        cases found.symm.trans found'
        exact later
    | resume _ _ _ => simp at silent

theorem of_trail (declared : g.Declared) (ll1 : (Table.build g (Sets.solve g)).isLL1 = true) {input : Input}
    {known : Declarations}
    (steps : Trail (ofGrammar g settings).step ((ofGrammar g settings).initial input known) events t)
    (silent : syntaxFaults events = []) :
    Directed g settings ((ofGrammar g settings).initial input known) events t :=
  steps.keeps (Directed g settings _) (step declared ll1) silent (.refl (by simp [initial, entry]) (.start declared))

end Directed

/-- Where a symbol is refused, the stack does not open with the column of the lookahead. -/
theorem not_opens_of_refused {top : Symbol} {below : List Symbol} {fault : SyntaxFault} {c : Column}
    (declared : g.Declared) (ll1 : (Table.build g (Sets.solve g)).isLL1 = true)
    (tracked : (ofGrammar g settings).Tracked s) (foreseen : g.Foreseen s.stack)
    (unclosed : ∀ token ∈ s.input.tokens, token.isEof = false) (stack : s.stack = top :: below)
    (refused : (ofGrammar g settings).Refuses (s.pop below) top fault)
    (look : (ofGrammar g settings).lookahead? s.input = some c) : ¬g.Opens s.stack [c] := by
  intro opens
  rw [stack] at opens foreseen
  have unpredicted : ∀ {n : Nat}, top = .nonterminal n →
      (ofGrammar g settings).predict n ((ofGrammar g settings).lookahead? (s.pop below).input) ≠ none := by
    rintro n rfl
    cases opens with
    | expand found head later =>
      subst head
      rw [show (s.pop below).input = s.input from rfl, look,
        predict_of_cell (foreseen.predicted declared ll1 found later) found]
      simp
  cases refused with
  | trailing tokens =>
    cases opens
    have inside : s.input.tokens = _ :: _ := tokens
    rw [lookahead?, inside] at look
    exact column?_ne_endMarker (unclosed _ (inside ▸ List.mem_cons_self)) look
  | ended tokens =>
    have inside : s.input.tokens = [] := tokens
    rw [lookahead?, inside] at look
    cases look
    cases opens
  | mismatch tokens other =>
    have inside : s.input.tokens = _ :: _ := tokens
    rw [lookahead?, inside] at look
    cases opens
    exact other look
  | cycle going =>
    rw [never_open declared ll1 tracked stack] at going
    cases going
  | unpredictedEnd missing _ => exact unpredicted rfl missing
  | unpredicted missing _ => exact unpredicted rfl missing

/-! ### The first fault -/

section FirstFault
variable {input : Input} {known : Declarations}

theorem Unfolded.columnsOf (h : Unfolded g settings first events s) : (ofGrammar g settings).columnsOf first.input =
    ((matched events).map Column.terminal).map some ++ (ofGrammar g settings).columnsOf s.input := by
  obtain ⟨passed, input, reads⟩ := h.reads
  rw [input, columnsOf_prepend, reads, List.map_map]
  rfl

/-- What was matched begins a form, and so does each part of it. -/
theorem Unfolded.begun (h : Unfolded g settings ((ofGrammar g settings).initial input known) events s) {j : Nat}
    (inside : j < (matched events).length) : g.Begun (((ofGrammar g settings).columnsOf input).take (j + 1)) := by
  have columns : (ofGrammar g settings).columnsOf input = _ ++ _ := h.columnsOf
  refine ⟨((matched events).map .terminal).take (j + 1),
    (((matched events).map Column.terminal).drop (j + 1)).map Column.toSymbol ++ s.stack, ?_, ?_⟩
  · rw [columns, List.take_append_of_le_length (by simp; omega), List.map_take]
  · rw [← List.append_assoc, ← List.map_append, List.take_append_drop, Grammar.map_terminal]
    exact h.form.derives

/-- Where the stack does not open with the lookahead, no form goes on with it. -/
theorem Directed.not_begun (h : Directed g settings ((ofGrammar g settings).initial input known) events s)
    (stuck : ∀ c, (ofGrammar g settings).lookahead? s.input = some c → ¬g.Opens s.stack [c]) :
    ¬g.Begun (((ofGrammar g settings).columnsOf input).take ((matched events).length + 1)) := by
  rintro ⟨word, rest, begun, derived⟩
  have columns : (ofGrammar g settings).columnsOf input = _ ++ _ := h.columnsOf
  obtain ⟨behind, ahead⟩ := (ofGrammar g settings).columnsOf_cons s.input
  have last : word.map some =
      ((matched events).map Column.terminal).map some ++ [(ofGrammar g settings).lookahead? s.input] := by
    have length : (matched events).length = (((matched events).map Column.terminal).map some).length := by simp
    rw [begun, columns, ahead, length, List.take_length_add_append]
    rfl
  cases look : (ofGrammar g settings).lookahead? s.input with
  | none =>
    have missing : none ∈ word.map some := by simp [last, look]
    simp at missing
  | some c =>
    obtain rfl : word = (matched events).map .terminal ++ [c] := by
      refine List.map_injective_iff.mpr (fun _ _ => Option.some.inj) ?_
      rw [last, look, List.map_append]
      rfl
    refine stuck c look (h.opens [c] ?_ (.of_derives derived))
    rw [ahead, look]
    exact ⟨behind, rfl⟩

/-- A run without conflicts that is rejected meets its first syntax fault at the first token that has no column, or with
    which no form goes on that is derived from the whole input. All tokens before it are matched. -/
theorem first_fault_located {g : Grammar} (built : g.Built) (ll1 : (Table.build g (Sets.solve g)).isLL1 = true)
    (settings : Settings) (stream : List Token) (known : Declarations)
    (rejected : ((ofGrammar g settings).parse stream known).outcome = .reject) :
    ∃ k before fault pos after,
      ((ofGrammar g settings).run (.ofTokens stream) known).events = before ++ .fault (.syntactic fault) pos :: after ∧
      syntaxFaults before = [] ∧
      (Diagnostic.ofSeverity .syntactic ((ofGrammar g settings).parse stream known).diagnostics).head? =
        some ⟨.syntactic, fault.message, pos⟩ ∧
      (Input.ofTokens stream).positions[k]? = some pos ∧
      (ofGrammar g settings).Reads ((stream.takeWhile (!·.isEof)).take k) (matched before) ∧
      ¬g.Begun (((ofGrammar g settings).columnsOf (.ofTokens stream)).take (k + 1)) ∧
      ∀ j < k, g.Begun (((ofGrammar g settings).columnsOf (.ofTokens stream)).take (j + 1)) := by
  obtain ⟨events, t, top, below, fault, after, steps, silent, stack, refused, split, reported⟩ :=
    first_fault_of_rejected rejected
  have directed := Directed.of_trail built.declared ll1 steps silent
  obtain ⟨passed, start, reads⟩ := directed.reads
  have input : Input.ofTokens stream = t.input.prepend passed := start
  have tokens : stream.takeWhile (!·.isEof) = passed ++ t.input.tokens := congrArg Input.tokens input
  have count : passed.length = (matched events).length := by simpa using congrArg List.length reads
  have unclosed : ∀ token ∈ t.input.tokens, token.isEof = false := by
    intro token member
    have inside : token ∈ stream.takeWhile (!·.isEof) := tokens ▸ List.mem_append_right _ member
    simpa using List.mem_takeWhile_imp inside
  have tracked : (ofGrammar g settings).Tracked t := Tracked.reaches (.entry ..) steps.reaches
  have stuck : ∀ c, (ofGrammar g settings).lookahead? t.input = some c → ¬g.Opens t.stack [c] := fun _ =>
    not_opens_of_refused built.declared ll1 tracked directed.foreseen unclosed stack refused
  refine ⟨passed.length, _, fault, t.input.pos, after, split, silent, reported, ?_, ?_, ?_, ?_⟩
  · rw [input]
    exact Input.positions_prepend passed t.input
  · rw [tokens, List.take_left]
    exact reads
  · rw [count]
    exact directed.not_begun stuck
  · rw [count]
    exact fun j => directed.begun

end FirstFault

/-- On the second `)` of `( ) )` the machine expands `S` to nothing once more, and then has read too much: a form can begin
    with the first two tokens and none with all three. -/
theorem first_fault_located_balanced :
    Grammar.balanced.Built ∧ (Table.build .balanced (Sets.solve .balanced)).isLL1 = true ∧
    Grammar.balanced.Begun [some (.terminal 0), some (.terminal 1)] ∧
    ¬Grammar.balanced.Begun [some (.terminal 0), some (.terminal 1), some (.terminal 1)] := by
  let stream : List Token :=
    [⟨.punctuation, "(", ⟨1, 1⟩⟩, ⟨.punctuation, ")", ⟨1, 2⟩⟩, ⟨.punctuation, ")", ⟨1, 3⟩⟩, .closing ⟨1, 4⟩]
  have ll1 : (Table.build .balanced (Sets.solve .balanced)).isLL1 = true := by decide +kernel
  have rejected : ((ofGrammar .balanced {}).parse stream .empty).outcome = .reject := by decide +kernel
  have places : (Diagnostic.ofSeverity .syntactic ((ofGrammar .balanced {}).parse stream .empty).diagnostics).head?.map
      Diagnostic.pos = some ⟨1, 3⟩ := by decide +kernel
  obtain ⟨k, _, _, pos, _, -, -, first, place, -, stuck, begun⟩ :=
    first_fault_located Grammar.balanced_built ll1 {} stream .empty rejected
  rw [first] at places
  cases places
  obtain rfl : k = 2 := by
    match k, place with
    | 2, _ => rfl
    | 3, place => cases place
    | _ + 4, place => cases place
  exact ⟨Grammar.balanced_built, ll1, begun 1 (by decide), stuck⟩

end Machine
end Lookahead
