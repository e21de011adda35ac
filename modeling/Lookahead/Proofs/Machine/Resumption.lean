import Lookahead.Proofs.Machine.FirstFault
import Lookahead.Proofs.Machine.Portions

/-! Runs that resume after a fault. Nothing but the declared names and the blame for the fault is carried over: behind the
recovery a run reports what a fresh run reports that starts at the restart point. Where the table has no conflicts and the
end of the input can follow the restart point, such a run takes whatever the restart point derives to its end. -/

namespace Lookahead

/-! ### What is left of a stream -/

namespace Input

/-- The lookahead and all behind it when some tokens of a stream were passed. A stream that ends there goes on with a
    closing record at its last token. -/
def upcoming (stream : List Token) (passed : Nat) : List Token :=
  match stream.drop passed with
  | [] => [.closing (lastPos stream)]
  | ahead => ahead

theorem lastPos_append {passed ahead : List Token} (more : ahead ≠ []) : lastPos (passed ++ ahead) = lastPos ahead := by
  simp only [lastPos, List.getLast?_append_of_ne_nil _ more]

theorem ofTokens_append {passed ahead : List Token} (unclosed : ∀ token ∈ passed, token.isEof = false) (more : ahead ≠ []) :
    ofTokens (passed ++ ahead) = (ofTokens ahead).prepend passed := by
  have all : ∀ token ∈ passed, (!token.isEof) = true := fun token member => by rw [unclosed token member]; rfl
  have none : passed.find? (·.isEof) = none := List.find?_eq_none.mpr fun token member => by simp [unclosed token member]
  simp only [ofTokens, prepend, List.takeWhile_append_of_pos all, List.find?_append, none, Option.none_or,
    lastPos_append more]

theorem ofTokens_unclosed {tokens : List Token} (unclosed : ∀ token ∈ tokens, token.isEof = false) :
    ofTokens tokens = ⟨tokens, lastPos tokens⟩ := by
  simp only [ofTokens]
  rw [List.takeWhile_eq_self_iff.mpr (by simpa using unclosed), List.find?_eq_none.mpr (by simpa using unclosed)]

theorem unclosed_of_ofTokens {stream passed : List Token} {i : Input} (input : ofTokens stream = i.prepend passed) :
    ∀ token ∈ passed ++ i.tokens, token.isEof = false := by
  intro token member
  have inside : token ∈ stream.takeWhile (!·.isEof) := by
    rw [show stream.takeWhile _ = passed ++ i.tokens from congrArg tokens input]
    exact member
  simpa using List.mem_takeWhile_imp inside

theorem ofTokens_upcoming {stream passed : List Token} {i : Input} (input : ofTokens stream = i.prepend passed) :
    ofTokens (upcoming stream passed.length) = i := by
  have unclosed : ∀ token ∈ passed, token.isEof = false := fun token member =>
    unclosed_of_ofTokens input token (List.mem_append_left _ member)
  have begins : passed <+: stream := by
    refine List.IsPrefix.trans ?_ (List.takeWhile_prefix (!·.isEof))
    rw [show stream.takeWhile _ = passed ++ i.tokens from congrArg tokens input]
    exact List.prefix_append ..
  obtain ⟨ahead, rfl⟩ := begins
  unfold upcoming
  rw [List.drop_left]
  cases ahead with
  | nil =>
    -- The stream has no closing record, and all of its tokens were passed.
    rw [List.append_nil, ofTokens_unclosed unclosed] at input
    obtain ⟨tokens, stop⟩ := i
    simp only [prepend, Input.mk.injEq, List.self_eq_append_right] at input
    obtain ⟨rfl, rfl⟩ := input
    simp [ofTokens, Token.closing, Token.isEof]
  | cons token ahead =>
    rw [ofTokens_append unclosed (List.cons_ne_nil token ahead)] at input
    simp only [prepend, Input.mk.injEq, List.append_cancel_left_eq] at input
    obtain ⟨tokens, stop⟩ := i
    obtain ⟨rfl, rfl⟩ := input
    rfl

end Input

/-- The state with the blame for a fault. -/
def State.blamed (s : State) : State := { s with faulty := true }

/-- The turn of a state that takes the blame for a fault. -/
def Turn.blamed : Turn → Turn
  | .halt events _ scope => .halt events .reject scope
  | .next events later => .next events later.blamed

/-- `P → int S` and `S → ID ; S | ε`, where a run resumes from `S`. -/
def Grammar.listing : Grammar where
  terminals := ["int", "ID", ";"]
  nonterminals := ["P", "S"]
  productions := [⟨0, [.terminal 0, .nonterminal 1]⟩, ⟨1, [.terminal 1, .terminal 2, .nonterminal 1]⟩, ⟨1, [.epsilon]⟩]
  start := 0
  restarts := [1]

theorem Grammar.listing_built : listing.Built :=
  ⟨[.terminal "int", .terminal "ID", .terminal ";", .nonterminal "P", .nonterminal "S", .start "P",
    .production "P" ["int", "S"], .production "S" ["ID", ";", "S"], .production "S" [], .restart "S"], rfl⟩

namespace Machine
variable {m : Machine} {s t later : State} {before events more : List Event} {run : Run}

/-! ### The rest of a run -/

theorem Halts.runFrom_eq (h : Halts m.step s run) : m.runFrom s = run := by
  induction h with
  | halt h => exact runFrom_halt h
  | next h _ ih => rw [runFrom_next h, ih]

theorem runFrom_congr {m' : Machine} (same : ∀ s, m'.step s = m.step s) (s : State) : m'.runFrom s = m.runFrom s := by
  refine Halts.runFrom_eq ?_
  rw [funext same]
  exact m.halts_runFrom s

theorem Trail.runFrom_eq (steps : Trail m.step s events t) : m.runFrom s = (m.runFrom t).preceded events := by
  induction steps with
  | refl s => rfl
  | head h _ ih => rw [runFrom_next h, ih, Run.preceded, Run.preceded, Run.preceded, List.append_assoc]

theorem step_passes (h : m.step s = .next events later) : ∃ passed, s.input = later.input.prepend passed := by
  cases Move.of_step h with
  | skip _ => exact ⟨[], rfl⟩
  | consume _ tokens _ _ => exact ⟨[_], prepend_rest tokens⟩
  | expand _ _ _ => exact ⟨[], rfl⟩
  | resume _ _ found =>
    obtain ⟨skipped, sync, tokens, -, -⟩ := resync_some found
    exact ⟨skipped ++ [sync], prepend_rest (by simp [tokens])⟩

theorem Trail.passes (steps : Trail m.step s events t) : ∃ passed, s.input = t.input.prepend passed := by
  induction steps with
  | refl s => exact ⟨[], rfl⟩
  | head h _ ih =>
    obtain ⟨first, here⟩ := step_passes h
    obtain ⟨others, later⟩ := ih
    exact ⟨first ++ others, by rw [here, later, ← Input.prepend_append]⟩

theorem Trail.concat (steps : Trail m.step s before t) (h : m.step t = .next events later) :
    Trail m.step s (before ++ events) later := by
  induction steps with
  | refl s =>
    have one := Trail.head h (.refl later)
    rwa [List.append_nil] at one
  | head first _ ih =>
    rw [List.append_assoc]
    exact .head first (ih h)

/-- Only a recovery records that the run resumes. -/
theorem resumed_of_recorded (h : m.step s = .next events later) (recorded : later.row .resume ∈ events) :
    ∃ below rest, m.resync s.input.tokens = some rest ∧ later = m.resumed (s.pop below) rest := by
  generalize resumed : later.row .resume = event at recorded
  cases Move.of_step h with
  | skip _ => cases recorded
  | consume _ _ _ _ =>
    rcases List.mem_cons.mp recorded with rfl | fault
    · simp [State.row] at resumed
    · obtain ⟨_, -, rfl⟩ := List.mem_map.mp fault
      cases resumed
  | expand _ _ _ =>
    cases List.mem_singleton.mp recorded
    simp [State.row] at resumed
  | resume _ _ found => exact ⟨_, _, found, rfl⟩

/-! ### The blame for a fault -/

theorem fail_blamed (m : Machine) (s : State) (fault : SyntaxFault) : m.fail s.blamed fault = (m.fail s fault).blamed := by
  have same : s.blamed.input = s.input := rfl
  unfold fail
  rw [same]
  split <;> rfl

/-- A step asks for the blame only when it ends the run. -/
theorem step_blamed (m : Machine) (s : State) : m.step s.blamed = (m.step s).blamed := by
  have stack : s.blamed.stack = s.stack := rfl
  have pop : ∀ below, s.blamed.pop below = (s.pop below).blamed := fun _ => rfl
  have input : ∀ t : State, t.blamed.input = t.input := fun _ => rfl
  unfold step
  rw [stack]
  split
  · rfl
  · rfl
  · rw [pop, stepEnd, stepEnd, input]
    split
    · rfl
    · exact fail_blamed ..
  · rw [pop, stepTerminal, stepTerminal, input]
    split
    · exact fail_blamed ..
    · split
      · rfl
      · exact fail_blamed ..
  · rename_i n below _
    rw [pop, stepNonterminal, stepNonterminal, input, show (s.pop below).blamed.isOpen n = (s.pop below).isOpen n from rfl]
    split
    · exact fail_blamed ..
    · split
      · rfl
      · split
        · exact fail_blamed ..
        · exact fail_blamed ..

theorem Halts.blamed (h : Halts m.step s run) : m.runFrom s.blamed = { run with outcome := .reject } := by
  induction h with
  | @halt s _ _ _ h =>
    have turn := m.step_blamed s
    rw [h] at turn
    exact runFrom_halt turn
  | @next s _ _ _ h _ ih =>
    have turn := m.step_blamed s
    rw [h] at turn
    rw [runFrom_next turn, ih]
    rfl

/-! ### Another start -/

/-- The machine whose grammar starts from a nonterminal. Its sets and its table stay. -/
def startingFrom (m : Machine) (n : Nat) : Machine := { m with grammar := { m.grammar with start := n } }

theorem resync_startingFrom (m : Machine) (n : Nat) (tokens : List Token) :
    (m.startingFrom n).resync tokens = m.resync tokens := by
  induction tokens with
  | nil => rfl
  | cons t rest ih => rw [resync, resync, ih, show (m.startingFrom n).isSync t = m.isSync t from rfl]

/-- A restart point is chosen without the start, or there are none and the start is the choice. -/
theorem restart_startingFrom (m : Machine) (look other : Option Column) :
    (m.startingFrom (m.restart look)).restart other = m.restart other := by
  cases points : m.grammar.restarts with
  | nil =>
    have chosen : ∀ look, m.restart look = m.grammar.start := by
      intro look
      simp only [restart, points, List.find?_nil, List.head?_nil, Option.or_none, Option.bind_fun_none, Option.getD_none]
    rw [chosen look, chosen other, restart]
    simp only [startingFrom, points, List.find?_nil, List.head?_nil, Option.or_none, Option.bind_fun_none, Option.getD_none]
  | cons point rest =>
    simp only [restart, startingFrom, points, List.head?_cons, Option.or_some]
    rfl

theorem step_startingFrom (m : Machine) (look : Option Column) (s : State) :
    (m.startingFrom (m.restart look)).step s = m.step s := by
  have fails : ∀ s fault, (m.startingFrom (m.restart look)).fail s fault = m.fail s fault := by
    intro s fault
    have resumes : ∀ rest, (m.startingFrom (m.restart look)).resumed s rest = m.resumed s rest := by
      intro rest
      simp only [resumed, restart_startingFrom]
      rfl
    simp only [fail, resync_startingFrom, resumes]
  unfold step
  split
  · rfl
  · rfl
  · simp only [stepEnd, fails]
  · simp only [stepTerminal, fails]
    rfl
  · simp only [stepNonterminal, fails]
    rfl

theorem runFrom_startingFrom (m : Machine) (look : Option Column) (s : State) :
    (m.startingFrom (m.restart look)).runFrom s = m.runFrom s := runFrom_congr (m.step_startingFrom look) s

/-! ### Recovery keeps the declared names only -/

/-- What a run does after a recovery is what a fresh run does from the restart point, but that it is rejected. -/
theorem runFrom_resumed (m : Machine) (s : State) (rest : List Token) : ∃ n, ∃ fresh : State,
    fresh = (m.startingFrom n).initial (m.resumed s rest).input (m.resumed s rest).scope.declared ∧
    (m.resumed s rest).stack = [.nonterminal n, .endMarker] ∧
    m.runFrom (m.resumed s rest) = { (m.startingFrom n).runFrom fresh with outcome := .reject } := by
  let input := (m.resumed s rest).input
  let fresh := entry (m.restart (m.lookahead? input)) input s.scope.declared false
  refine ⟨m.restart (m.lookahead? input), fresh, rfl, rfl, ?_⟩
  rw [runFrom_startingFrom]
  exact (m.halts_runFrom fresh).blamed

theorem parse_of_events {stream : List Token} {known : Declarations} {more : List Event} {outcome : Outcome} {scope : Scope}
    (whole : m.run (.ofTokens stream) known =
      ⟨(m.initial (.ofTokens stream) known).row .initial :: before ++ more, outcome, scope⟩) :
    (m.parse stream known).outcome = outcome ∧ (m.parse stream known).declared = scope.declared ∧
    (m.parse stream known).diagnostics = before.filterMap Event.diagnostic? ++ more.filterMap Event.diagnostic? ∧
    (m.settings.trace = true → (m.parse stream known).trace =
      ⟨[.nonterminal m.grammar.start, .endMarker], (Input.ofTokens stream).text, .initial⟩ ::
        before.filterMap Event.row? ++ more.filterMap Event.row?) := by
  rw [parse, whole]
  refine ⟨rfl, rfl, ?_, fun kept => ?_⟩
  · exact List.filterMap_append ..
  · simp only [report, kept, if_true]
    exact congrArg (List.cons _) (List.filterMap_append ..)

/-- Where a run records that it resumes, what it reports from there on is what the machine that starts from the restart
    point reports of the rest of the stream, its first row left out, and the same names are declared in the end. The run
    as a whole is rejected. -/
theorem resumes_afresh (m : Machine) (stream : List Token) (known : Declarations)
    (steps : Trail m.step (m.initial (.ofTokens stream) known) before s) (resumes : m.step s = .next events later)
    (recorded : later.row .resume ∈ events) :
    ∃ n passed, later.stack = [.nonterminal n, .endMarker] ∧
      later.input = .ofTokens (Input.upcoming stream passed) ∧
      later.input.tokens.length + passed = (stream.takeWhile (!·.isEof)).length ∧
      let fresh := (m.startingFrom n).parse (Input.upcoming stream passed) later.scope.declared
      (m.parse stream known).outcome = .reject ∧
      (m.parse stream known).declared = fresh.declared ∧
      (m.parse stream known).diagnostics = (before ++ events).filterMap Event.diagnostic? ++ fresh.diagnostics ∧
      (m.settings.trace = true → ∃ rows, fresh.trace = ⟨later.stack, later.input.text, .initial⟩ :: rows ∧
        (m.parse stream known).trace =
          ⟨[.nonterminal m.grammar.start, .endMarker], (Input.ofTokens stream).text, .initial⟩ ::
            (before ++ events).filterMap Event.row? ++ rows) := by
  have whole := (steps.concat resumes).runFrom_eq
  obtain ⟨passed, input⟩ := (steps.concat resumes).passes
  obtain ⟨below, tail, -, rfl⟩ := resumed_of_recorded resumes recorded
  obtain ⟨n, first, begins, stack, same⟩ := m.runFrom_resumed (s.pop below) tail
  have upcoming := Input.ofTokens_upcoming input
  have tokens : stream.takeWhile (!·.isEof) = passed ++ (m.resumed (s.pop below) tail).input.tokens :=
    congrArg Input.tokens input
  have run : m.run (.ofTokens stream) known =
      ⟨(m.initial (.ofTokens stream) known).row .initial :: (before ++ events) ++ ((m.startingFrom n).runFrom first).events,
        .reject, ((m.startingFrom n).runFrom first).scope⟩ := by
    rw [Machine.run, whole, same]
    rfl
  obtain ⟨outcome, declared, diagnostics, trace⟩ := parse_of_events run
  refine ⟨n, passed.length, stack, upcoming.symm, ?_, outcome, ?_, ?_, fun kept => ⟨_, ?_, trace kept⟩⟩
  · rw [tokens, List.length_append, Nat.add_comm]
  · rw [declared, parse, upcoming, Machine.run, ← begins]
    rfl
  · rw [diagnostics, parse, upcoming, Machine.run, ← begins]
    rfl
  · have fresh : (m.startingFrom n).settings.trace = true := kept
    rw [parse, upcoming, Machine.run, ← begins, report, if_pos fresh, stack, begins]
    rfl

/-- The tokens of `int ; b ;`. -/
def unfinished : List Token :=
  [⟨.keyword, "int", ⟨1, 1⟩⟩, ⟨.punctuation, ";", ⟨1, 5⟩⟩, ⟨.identifier, "b", ⟨1, 7⟩⟩, ⟨.punctuation, ";", ⟨1, 8⟩⟩]

/-- Behind the type keyword the run is at fault, and it resumes before `b`. -/
theorem unfinished_resumes : ∃ before s events later,
    Trail (ofGrammar .listing {}).step ((ofGrammar .listing {}).initial (.ofTokens unfinished) .empty) before s ∧
    (ofGrammar .listing {}).step s = .next events later ∧ later.row .resume ∈ events ∧
    later = entry 1 ⟨unfinished.drop 2, ⟨1, 8⟩⟩ .empty true ∧
    (before ++ events).filterMap Event.diagnostic? =
      [⟨.syntactic, (SyntaxFault.noProduction "S" ";").message, ⟨1, 5⟩⟩] := by
  let first := (ofGrammar .listing {}).initial (.ofTokens unfinished) .empty
  let second := (first.pop [.endMarker]).expand 0 ⟨0, [.terminal 0, .nonterminal 1]⟩
  let third := (second.pop [.nonterminal 1, .endMarker]).advance unfinished.tail ⟨some "int", .idle, .empty⟩
  let last := entry 1 ⟨unfinished.drop 2, ⟨1, 8⟩⟩ .empty true
  have one : (ofGrammar .listing {}).step first = .next [second.row (.expand 0)] second := by decide +kernel
  have two : (ofGrammar .listing {}).step second =
      .next [(second.pop [.nonterminal 1, .endMarker]).row (.matched 0)] third := by decide +kernel
  have three : (ofGrammar .listing {}).step third = .next ((third.pop [.endMarker]).faultEvents (.noProduction "S" ";") ++
      [last.row .resume]) last := by decide +kernel
  exact ⟨_, third, _, last, .head one (.head two (.refl third)), three, by simp, rfl, rfl⟩

/-- What is left of the declaration when the run resumes would declare `b`. As nothing is left, `b` is missing just as in
    a run over `b ;` alone. -/
theorem resumes_afresh_listing : ∃ missing : Diagnostic, missing.severity = .semantic ∧
    (((ofGrammar .listing {}).startingFrom 1).parse (unfinished.drop 2) .empty).diagnostics = [missing] ∧
    (((ofGrammar .listing {}).startingFrom 1).parse (unfinished.drop 2) .empty).outcome = .accept ∧
    ((ofGrammar .listing {}).parse unfinished .empty).diagnostics =
      [⟨.syntactic, (SyntaxFault.noProduction "S" ";").message, ⟨1, 5⟩⟩, missing] ∧
    ((ofGrammar .listing {}).parse unfinished .empty).outcome = .reject := by
  obtain ⟨before, s, events, later, steps, resumes, recorded, rfl, found⟩ := unfinished_resumes
  obtain ⟨n, passed, stack, -, count, outcome, -, diagnostics, -⟩ :=
    resumes_afresh (ofGrammar .listing {}) unfinished .empty steps resumes recorded
  cases stack
  obtain rfl : passed = 2 := Nat.add_left_cancel (n := 2) count
  let missing : Diagnostic := ⟨.semantic, (SemanticFault.undeclared "b").message, ⟨1, 7⟩⟩
  have rest : (((ofGrammar .listing {}).startingFrom 1).parse (unfinished.drop 2) .empty).diagnostics = [missing] := by
    decide +kernel
  refine ⟨missing, rfl, rest, by decide +kernel, ?_, outcome⟩
  rw [diagnostics, found]
  exact congrArg (List.cons _) rest

/-! ### Restarts that go through -/

/-- A run that reports no syntax fault ends when it accepts. -/
theorem Halts.accept_last (h : Halts m.step s run) (grounded : s.Grounded) (silent : syntaxFaults run.events = []) :
    ∃ more below, run.events = more ++ [.row ⟨below, endMarkerName, .accept⟩] ∧ syntaxFaults more = [] := by
  induction h with
  | halt h =>
    cases Move.of_step h with
    | exhausted stack => exact absurd stack (stack_ne_nil grounded)
    | @accept below _ tokens =>
      refine ⟨[], below, ?_, rfl⟩
      simp only [State.row, State.pop, Input.text, tokens, List.nil_append]
    | abort _ _ _ => simp at silent
  | @next _ _ events _ h _ ih =>
    rw [syntaxFaults_preceded, List.append_eq_nil_iff] at silent
    obtain ⟨more, below, last, quiet⟩ := ih (grounded_step grounded h) silent.2
    refine ⟨events ++ more, below, ?_, ?_⟩
    · rw [Run.preceded, last, List.append_assoc]
    · rw [syntaxFaults_append, silent.1, quiet, List.append_nil]

section Restart
variable {g : Grammar} {settings : Settings} {word : List Nat}

theorem lt_of_follows {n : Nat} {x : Symbol} (declared : g.Declared) (follows : x ∈ (Sets.solve g).follow.ofNonterminal n) :
    n < g.nonterminals.length := by
  by_contra outside
  have length : (Sets.solve g).follow.sets.length = g.nonterminals.length := (FollowSets.Fits.solve declared .solve).length
  unfold FollowSets.ofNonterminal at follows
  rw [List.getD_eq_getElem?_getD, List.getElem?_eq_none (length.trans_le (Nat.le_of_not_lt outside))] at follows
  exact SymbolSet.not_mem_empty follows

theorem columnsOf_of_reads {i : Input} (reads : m.Reads i.tokens word) : m.columnsOf i = (columns word).map some := by
  rw [columnsOf, reads, columns, List.map_append, List.map_map]
  rfl

/-- Without conflicts a run meets no syntax fault where its stack derives the whole input, if FOLLOW knows what stands
    behind the nonterminals of the stack. They need not be within reach of the start. -/
theorem silent_of_derives (declared : g.Declared) (ll1 : (Table.build g (Sets.solve g)).isLL1 = true)
    (foreseen : g.Foreseen s.stack) (tracked : (ofGrammar g settings).Tracked s)
    (unclosed : ∀ token ∈ s.input.tokens, token.isEof = false) (reads : (ofGrammar g settings).Reads s.input.tokens word)
    (derived : g.Derives s.stack ((columns word).map Column.toSymbol)) :
    syntaxFaults ((ofGrammar g settings).runFrom s).events = [] := by
  by_contra faulted
  obtain ⟨events, t, top, below, fault, after, steps, silent, stack, refused, -⟩ :=
    ((ofGrammar g settings).halts_runFrom s).first_fault faulted
  have directed : Directed g settings s events t :=
    steps.keeps (Directed g settings s) (.step declared ll1) silent (.refl tracked.visible foreseen)
  obtain ⟨passed, input, -⟩ := directed.reads
  obtain ⟨behind, ahead⟩ := (ofGrammar g settings).columnsOf_cons t.input
  have split := directed.toUnfolded.columnsOf
  rw [columnsOf_of_reads reads, ahead] at split
  -- What is left of the word begins with the lookahead, so that the stack opens with it.
  obtain ⟨done, rest, whole, here, next⟩ := List.map_eq_append_iff.mp split
  obtain ⟨c, later, rfl, look, columns⟩ := List.map_eq_cons_iff.mp next
  obtain rfl := List.map_injective_iff.mpr (fun _ _ => Option.some.inj) here
  have begins : g.Derives s.stack
      (((matched events).map Column.terminal ++ [c]).map Column.toSymbol ++ later.map Column.toSymbol) := by
    rw [whole] at derived
    simpa using derived
  have opens : g.Opens t.stack [c] := by
    refine directed.opens [c] ?_ (.of_derives begins)
    rw [ahead, ← look]
    exact ⟨behind, rfl⟩
  refine not_opens_of_refused declared ll1 (tracked.reaches steps.reaches) directed.foreseen ?_ stack refused look.symm opens
  intro token member
  refine unclosed token ?_
  rw [input]
  exact List.mem_append_right _ member

end Restart

/-- A run without conflicts that resumes from a nonterminal which the end of the input can follow, before tokens that make
    up a word of it, reports no further syntax fault and accepts. As a whole it is rejected for the faults before. -/
theorem restart_completes {g : Grammar} (built : g.Built) (ll1 : (Table.build g (Sets.solve g)).isLL1 = true)
    (settings : Settings) (stream : List Token) (known : Declarations) {n : Nat} {word : List Nat}
    (steps : Trail (ofGrammar g settings).step ((ofGrammar g settings).initial (.ofTokens stream) known) before s)
    (resumes : (ofGrammar g settings).step s = .next events later) (recorded : later.row .resume ∈ events)
    (stack : later.stack = [.nonterminal n, .endMarker])
    (ends : .endMarker ∈ (Sets.solve g).follow.ofNonterminal n)
    (reads : (ofGrammar g settings).Reads later.input.tokens word)
    (derived : g.Derives [.nonterminal n] (word.map .terminal)) :
    ∃ more below, ((ofGrammar g settings).run (.ofTokens stream) known).events =
        ((ofGrammar g settings).initial (.ofTokens stream) known).row .initial :: (before ++ events) ++
          (more ++ [.row ⟨below, endMarkerName, .accept⟩]) ∧
      syntaxFaults more = [] ∧
      Diagnostic.ofSeverity .syntactic ((ofGrammar g settings).parse stream known).diagnostics =
        Diagnostic.ofSeverity .syntactic ((before ++ events).filterMap Event.diagnostic?) ∧
      ((ofGrammar g settings).parse stream known).outcome = .reject := by
  have trail := steps.concat resumes
  have tracked : (ofGrammar g settings).Tracked later := Tracked.reaches (.entry ..) trail.reaches
  have grounded : later.Grounded := grounded_reaches (grounded_entry ..) trail.reaches
  obtain ⟨passed, input⟩ := trail.passes
  have unclosed : ∀ token ∈ later.input.tokens, token.isEof = false := fun token member =>
    Input.unclosed_of_ofTokens input token (List.mem_append_right _ member)
  have foreseen : g.Foreseen later.stack := by
    rw [stack]
    exact .pair (c := .endMarker) (lt_of_follows built.declared ends) trivial ends
  have whole : g.Derives later.stack ((columns word).map Column.toSymbol) := by
    rw [stack, columns, List.map_append, Grammar.map_terminal]
    exact derived.append_right [.endMarker]
  have silent := silent_of_derives built.declared ll1 foreseen tracked unclosed reads whole
  obtain ⟨more, below, last, quiet⟩ := (halts_runFrom _ later).accept_last grounded silent
  have blame : later.faulty = true := by
    obtain ⟨_, _, -, rfl⟩ := resumed_of_recorded resumes recorded
    rfl
  have rejected := (halts_runFrom (ofGrammar g settings) later).reject (step_rejects blame)
  have run : (ofGrammar g settings).run (.ofTokens stream) known =
      ⟨((ofGrammar g settings).initial (.ofTokens stream) known).row .initial :: (before ++ events) ++
        (more ++ [.row ⟨below, endMarkerName, .accept⟩]), .reject, ((ofGrammar g settings).runFrom later).scope⟩ := by
    rw [Machine.run, trail.runFrom_eq, ← last, ← rejected]
    rfl
  obtain ⟨outcome, -, diagnostics, -⟩ := parse_of_events run
  refine ⟨more, below, congrArg Run.events run, quiet, ?_, outcome⟩
  rw [diagnostics, Diagnostic.ofSeverity_append, ofSeverity_syntactic (more ++ _), syntaxFaults_append, quiet]
  exact List.append_nil _

/-- `b ;` is a word of `S`, so that the only syntactic finding is the one before the run resumed. -/
theorem restart_completes_listing :
    (Table.build .listing (Sets.solve .listing)).isLL1 = true ∧
    .endMarker ∈ (Sets.solve .listing).follow.ofNonterminal 1 ∧
    Grammar.listing.Derives [.nonterminal 1] [.terminal 1, .terminal 2] ∧
    Diagnostic.ofSeverity .syntactic ((ofGrammar .listing {}).parse unfinished .empty).diagnostics =
      [⟨.syntactic, (SyntaxFault.noProduction "S" ";").message, ⟨1, 5⟩⟩] := by
  obtain ⟨before, s, events, later, steps, resumes, recorded, rfl, found⟩ := unfinished_resumes
  have ll1 : (Table.build .listing (Sets.solve .listing)).isLL1 = true := by decide +kernel
  have ends : .endMarker ∈ (Sets.solve .listing).follow.ofNonterminal 1 := by decide +kernel
  have derived : Grammar.listing.Derives [.nonterminal 1] [.terminal 1, .terminal 2] := by
    refine Relation.ReflTransGen.head (.rewrite [] [] (p := ⟨1, [.terminal 1, .terminal 2, .nonterminal 1]⟩) (by decide)) ?_
    exact .single (.rewrite [.terminal 1, .terminal 2] [] (p := ⟨1, [.epsilon]⟩) (by decide))
  have reads : (ofGrammar .listing {}).Reads (unfinished.drop 2) [1, 2] := rfl
  obtain ⟨_, _, -, -, syntactic, -⟩ := restart_completes Grammar.listing_built ll1 {} unfinished .empty steps resumes recorded
    rfl ends reads derived
  refine ⟨ll1, ends, derived, ?_⟩
  rw [syntactic, found]
  rfl

end Machine
end Lookahead
