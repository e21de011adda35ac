import Lookahead.Proofs.Machine.Guard
import Lookahead.Proofs.Prediction.Table

/-! A machine whose table has no conflicts accepts what its grammar derives. An accepting run reads a derivation off its
expansions. The other way round each production of a derivation is the one that the table predicts, so that the machine
without the guard follows the derivation and accepts, and the guard does not change a run that ends. -/

namespace Lookahead

/-! ### Derivations are predicted -/

namespace Grammar
variable {g : Grammar} {id : Nat} {p : Production} {before below : List Symbol} {ids : List Nat} {word : List Column}
  {c : Column}

/-- The next column of a derivation can begin the body of the production that is applied, or follow its head where the
    body vanishes. -/
theorem ahead_of_yields (declared : g.Declared) (found : g.production? id = some p)
    (derived : g.Derives [.nonterminal g.start, .endMarker] (before ++ .nonterminal p.head :: below))
    (h : g.Yields (erased p.body ++ below) ids (c :: word)) :
    (Sets.solve g).first.Ahead p.body (· ∈ (Sets.solve g).follow.ofNonterminal p.head) c.toSymbol := by
  have member : p ∈ g.productions := List.mem_of_getElem? found
  have known : ∀ s ∈ p.body, g.Declares s := declared.bodies p member
  obtain ⟨left, right, first, second, -, split, body, rest⟩ := h.append_inv
  cases first with
  | nil =>
    -- The body vanishes, and the column comes from what is below it.
    obtain rfl : c :: word = second := split
    have vanishes : .epsilon ∈ (FirstSets.solve g).ofSequence p.body :=
      FirstSets.mem_solve_of_begins declared known (x := .epsilon) body.derives
    have after := derived.trans ((rest.derives.append_left [.nonterminal p.head]).append_left before)
    exact Or.inr ⟨vanishes, FollowSets.mem_solve_of_derives_start declared after⟩
  | cons d more =>
    cases split
    have begins : g.Begins (erased p.body) c.toSymbol := by
      cases c with
      | terminal t => exact ⟨_, body.derives⟩
      | endMarker => exact ⟨_, body.derives⟩
    exact Or.inl ⟨FirstSets.mem_solve_of_begins declared known begins, c.toSymbol_ne_epsilon⟩

/-- A form that the end marker closes yields what the form before it yields, and then the end. -/
theorem Yields.end_inv {a : List Symbol} (h : g.Yields (a ++ [.endMarker]) ids word) :
    ∃ first, word = first ++ [.endMarker] ∧ g.Yields a ids first := by
  obtain ⟨left, right, first, second, rfl, rfl, inner, last⟩ := h.append_inv
  cases last with
  | endMarker last =>
    cases last
    rw [List.append_nil]
    exact ⟨first, rfl, inner⟩

/-! ### Forms that are still to be read -/

/-- A grammar that one column of lookahead suffices for: its table has no conflicts, and the end marker of no body can
    be taken for that of the input. -/
structure Predictive (g : Grammar) : Prop where
  declared : g.Declared
  plain : ∀ p ∈ g.productions, .endMarker ∉ p.body
  ll1 : (Table.build g (Sets.solve g)).isLL1 = true

/-- A form that is left of a derivation from the start when what stands before it is read. The end marker closes it and
    stands nowhere else. -/
structure Pending (g : Grammar) (form : List Symbol) : Prop where
  derived : ∃ before, g.Derives [.nonterminal g.start, .endMarker] (before ++ form)
  closed : ∃ inner, form = inner ++ [.endMarker] ∧ .endMarker ∉ inner

namespace Pending

theorem start (g : Grammar) : g.Pending [.nonterminal g.start, .endMarker] where
  derived := ⟨[], .refl _⟩
  closed := ⟨[.nonterminal g.start], rfl, by simp⟩

theorem tail {s : Symbol} (pending : g.Pending (s :: below)) (other : s ≠ .endMarker) : g.Pending below := by
  obtain ⟨⟨before, derived⟩, inner, form, plain⟩ := pending
  refine ⟨⟨before ++ [s], by simpa using derived⟩, ?_⟩
  cases inner with
  | nil =>
    cases form
    exact absurd rfl other
  | cons s inner =>
    cases form
    exact ⟨inner, rfl, fun member => plain (List.mem_cons_of_mem _ member)⟩

theorem end_inv (pending : g.Pending (.endMarker :: below)) : below = [] := by
  obtain ⟨-, inner, form, plain⟩ := pending
  cases inner with
  | nil =>
    cases form
    rfl
  | cons s inner =>
    cases form
    exact absurd List.mem_cons_self plain

theorem expand (plain : ∀ p ∈ g.productions, .endMarker ∉ p.body) (found : g.production? id = some p)
    (pending : g.Pending (.nonterminal p.head :: below)) : g.Pending (erased p.body ++ below) := by
  have member : p ∈ g.productions := List.mem_of_getElem? found
  obtain ⟨inner, rfl, clean⟩ := (pending.tail (by simp)).closed
  obtain ⟨before, derived⟩ := pending.derived
  refine ⟨⟨before, derived.trans (.append_left before ?_)⟩, erased p.body ++ inner, (List.append_assoc ..).symm, ?_⟩
  · exact (Derives.of_production member).append_right _
  · intro marked
    rcases List.mem_append.mp marked with body | rest
    · exact plain p member (mem_erased.mp body).1
    · exact clean rest

/-- The production by which a derivation goes on is the one that the table holds for the next column. -/
theorem predicted (predictive : g.Predictive) (pending : g.Pending (.nonterminal p.head :: below))
    (found : g.production? id = some p) (h : g.Yields (erased p.body ++ below) ids word) :
    ∃ c later, word = c :: later ∧ (Table.build g (Sets.solve g)).get? p.head c = some id := by
  obtain ⟨before, derived⟩ := pending.derived
  obtain ⟨inner, rfl, -⟩ := (pending.tail (by simp)).closed
  cases word with
  | nil =>
    rw [← List.append_assoc] at h
    obtain ⟨first, split, -⟩ := h.end_inv
    simp at split
  | cons c later =>
    have ahead := ahead_of_yields predictive.declared found derived h
    exact ⟨c, later, rfl, Table.get?_of_predicted predictive.ll1 found ahead⟩

/-- Without conflicts a form can be read in one way. -/
theorem unique (predictive : g.Predictive) {form : List Symbol} {ids' : List Nat} (pending : g.Pending form)
    (h : g.Yields form ids word) (h' : g.Yields form ids' word) : ids = ids' := by
  induction h generalizing ids' with
  | nil =>
    cases h'
    rfl
  | terminal t _ ih =>
    cases h' with
    | terminal _ later' => exact ih (pending.tail (by simp)) later'
  | endMarker later _ =>
    cases pending.end_inv
    cases h' with
    | endMarker later' =>
      cases later
      cases later'
      rfl
  | expand found head later ih =>
    cases h' with
    | expand found' head' later' =>
      subst head
      -- Both productions are held by the cell of the next column.
      obtain ⟨c, _, rfl, cell⟩ := pending.predicted predictive found later
      obtain ⟨_, _, same, cell'⟩ := (head' ▸ pending).predicted predictive found' later'
      cases same
      rw [head', cell] at cell'
      cases cell'
      cases found.symm.trans found'
      rw [ih (pending.expand predictive.plain found) later']

end Pending
end Grammar

namespace Machine
variable {m : Machine} {s : State} {run : Run}

/-! ### What a machine reads -/

/-- Each of the tokens stands for a terminal of the grammar, and these make up the word. -/
def Reads (m : Machine) (tokens : List Token) (word : List Nat) : Prop :=
  tokens.map m.column? = word.map fun t => some (.terminal t)

/-- The columns of a word, which the end of the input closes. -/
def columns (word : List Nat) : List Column := word.map .terminal ++ [.endMarker]

theorem lookahead?_of_reads {input : Input} {word : List Nat} (reads : m.Reads input.tokens word) :
    m.lookahead? input = (columns word).head? := by
  unfold lookahead?
  cases tokens : input.tokens with
  | nil =>
    rw [tokens] at reads
    cases word with
    | nil => rfl
    | cons t word => cases reads
  | cons token rest =>
    rw [tokens] at reads
    cases word with
    | nil => cases reads
    | cons t word => exact (List.cons.inj reads).1

theorem Reads.unique {tokens : List Token} {word other : List Nat} (h : m.Reads tokens word) (h' : m.Reads tokens other) :
    word = other := by
  refine List.map_injective_iff.mpr ?_ (h.symm.trans h')
  intro t u same
  cases same
  rfl

theorem cell_of_predict {g : Grammar} {settings : Settings} {n id : Nat} {look : Option Column} {p : Production}
    (h : (ofGrammar g settings).predict n look = some (id, p)) :
    ∃ c, look = some c ∧ (Table.build g (Sets.solve g)).get? n c = some id ∧ g.production? id = some p :=
  lookup_of_predict h

/-- The table holds a production of the grammar for each nonterminal that it predicts. -/
theorem production_of_predict {g : Grammar} {settings : Settings} {n id : Nat} {look : Option Column} {p : Production}
    (h : (ofGrammar g settings).predict n look = some (id, p)) : g.production? id = some p ∧ p.head = n := by
  obtain ⟨c, -, cell, found⟩ := cell_of_predict h
  obtain ⟨q, found', head, -⟩ := Table.predicted_of_get? cell
  cases found.symm.trans found'
  exact ⟨found, head⟩

/-! ### Accepting runs are derivations -/

/-- What a run without a fault took off the stack and the input is a reading of the stack. -/
theorem yields_of_halts {g : Grammar} {settings : Settings} (plain : ∀ p ∈ g.productions, .endMarker ∉ p.body)
    (h : Halts (ofGrammar g settings).step s run) (accepted : run.outcome = .accept) (pending : g.Pending s.stack)
    (tracked : (ofGrammar g settings).Tracked s) : ∃ word, (ofGrammar g settings).Reads s.input.tokens word ∧
      g.Yields s.stack (expansions run.events) (columns word) := by
  induction h with
  | halt h =>
    cases Move.of_step h with
    | exhausted _ => cases accepted
    | accept stack tokens =>
      rw [stack] at pending ⊢
      cases pending.end_inv
      exact ⟨[], by rw [tokens]; rfl, .endMarker .nil⟩
    | abort _ _ _ => cases accepted
  | next h rest ih =>
    -- A state that resumes is at fault, and the run would reject.
    have clean := (Halts.next h rest).not_rejects accepted
    rw [h] at clean
    have kept := tracked.step h
    cases Move.of_step h with
    | skip stack => exact absurd (stack ▸ List.mem_cons_self) tracked.visible
    | @consume t below token tokens scope faults stack input column _ =>
      rw [stack] at pending ⊢
      obtain ⟨word, reads, yields⟩ := ih accepted (pending.tail (by simp)) kept
      refine ⟨t :: word, ?_, ?_⟩
      · rw [input]
        exact congrArg₂ List.cons column reads
      · rw [Run.preceded, expansions_append, expansions_matched]
        exact yields.terminal t
    | expand stack _ predicted =>
      obtain ⟨found, rfl⟩ := production_of_predict predicted
      rw [stack] at pending ⊢
      obtain ⟨word, reads, yields⟩ := ih accepted (pending.expand plain found) kept
      exact ⟨word, reads, .expand found rfl yields⟩
    | resume _ _ _ => exact absurd rfl clean

/-! ### Derivations are accepting runs -/

theorem predict_of_cell {g : Grammar} {settings : Settings} {id : Nat} {p : Production} {c : Column}
    (cell : (Table.build g (Sets.solve g)).get? p.head c = some id) (found : g.production? id = some p) :
    (ofGrammar g settings).predict p.head (some c) = some (id, p) := by
  have held : (ofGrammar g settings).table.get? p.head c = some id := cell
  have known : (ofGrammar g settings).grammar.production? id = some p := found
  simp [predict, held, known]

/-- The machine without the guard follows a reading of its stack to the end. -/
theorem halts_of_yields {g : Grammar} (predictive : g.Predictive) {settings : Settings} {word ids : List Nat}
    (h : g.Yields s.stack ids (columns word)) (pending : g.Pending s.stack)
    (reads : (ofGrammar g settings).Reads s.input.tokens word) (clean : s.faulty = false) :
    ∃ run, Halts (ofGrammar g settings).freeStep s run ∧ run.outcome = .accept ∧ expansions run.events = ids := by
  generalize stack : s.stack = form at h pending
  generalize ends : columns word = cs at h
  induction h generalizing s word with
  | nil => simp [columns] at ends
  | @terminal t below ids later h ih =>
    obtain _ | ⟨t, word⟩ := word
    · cases ends
    obtain ⟨rfl, rfl⟩ : t = _ ∧ columns word = later := by simpa [columns] using ends
    obtain ⟨token, tokens, input, column, reads⟩ := List.map_eq_cons_iff.mp reads
    obtain ⟨events, scope, turn, silent⟩ := freeStep_terminal stack input column
    obtain ⟨run, halts, accepted, expanded⟩ :=
      ih (s := (s.forget.pop below).advance tokens scope) reads clean rfl (pending.tail (by simp)) rfl
    refine ⟨run.preceded events, .next turn halts, accepted, ?_⟩
    rw [Run.preceded, expansions_append, silent, expanded]
    rfl
  | @endMarker below ids later h _ =>
    cases pending.end_inv
    obtain _ | ⟨t, word⟩ := word
    · have turn := freeStep_end (m := ofGrammar g settings) stack (List.map_eq_nil_iff.mp reads)
      rw [clean] at turn
      cases h
      exact ⟨_, .halt turn, rfl, rfl⟩
    · cases ends
  | @expand n id p below ids cs found head h ih =>
    subst head ends
    obtain ⟨c, later, next, cell⟩ := pending.predicted predictive found h
    have look : (ofGrammar g settings).lookahead? s.input = some c := by
      rw [lookahead?_of_reads reads, next]
      rfl
    have turn := freeStep_nonterminal stack (look ▸ predict_of_cell cell found)
    obtain ⟨run, halts, accepted, expanded⟩ := ih (s := (s.forget.pop below).expand p.head p) reads clean rfl
      (pending.expand predictive.plain found) rfl
    refine ⟨run.preceded _, .next turn halts, accepted, ?_⟩
    rw [Run.preceded, expansions_append, expanded]
    rfl

/-! ### What a machine accepts -/

theorem yields_columns {g : Grammar} {word ids : List Nat} :
    g.Yields [.nonterminal g.start, .endMarker] ids (columns word) ↔
      g.LeftDerives [.nonterminal g.start] ids (word.map .terminal) := by
  rw [← Grammar.map_terminal, ← Grammar.Yields.iff_leftDerives]
  constructor
  · intro h
    obtain ⟨first, split, inner⟩ := h.end_inv (a := [_])
    rwa [List.append_cancel_right split]
  · intro h
    have whole := h.append (.of_columns [.endMarker])
    rwa [List.append_nil] at whole

theorem leftDerives_unique {g : Grammar} (predictive : g.Predictive) {word ids ids' : List Nat}
    (h : g.LeftDerives [.nonterminal g.start] ids (word.map .terminal))
    (h' : g.LeftDerives [.nonterminal g.start] ids' (word.map .terminal)) : ids = ids' :=
  (Grammar.Pending.start g).unique predictive (yields_columns.mpr h) (yields_columns.mpr h')

/-- The productions that a run of a parser expands are those of a derivation of what it reads, and there is a run to
    each derivation. -/
theorem run_accepts_iff {g : Grammar} (predictive : g.Predictive) (settings : Settings) (stream : List Token)
    (known : Declarations) (ids : List Nat) :
    (((ofGrammar g settings).run (.ofTokens stream) known).outcome = .accept ∧
      expansions ((ofGrammar g settings).run (.ofTokens stream) known).events = ids) ↔
    ∃ word, (ofGrammar g settings).Reads (stream.takeWhile (!·.isEof)) word ∧
      g.LeftDerives [.nonterminal g.start] ids (word.map .terminal) := by
  have pending := Grammar.Pending.start g
  have tracked : (ofGrammar g settings).Tracked ((ofGrammar g settings).initial (.ofTokens stream) known) := .entry ..
  constructor
  · rintro ⟨accepted, rfl⟩
    obtain ⟨word, reads, yields⟩ := yields_of_halts predictive.plain (halts_runFrom _ _) accepted pending tracked
    exact ⟨word, reads, yields_columns.mp yields⟩
  · rintro ⟨word, reads, derived⟩
    obtain ⟨run, halts, accepted, expanded⟩ :=
      halts_of_yields (s := (ofGrammar g settings).initial (.ofTokens stream) known) predictive
        (yields_columns.mpr derived) pending reads rfl
    rw [Machine.run, runFrom_of_halts halts rfl tracked]
    exact ⟨accepted, expanded⟩

/-- A parser accepts a stream if and only if its tokens are a word that the start derives. -/
theorem accepts_iff_derives {g : Grammar} (predictive : g.Predictive) (settings : Settings) (stream : List Token)
    (known : Declarations) : ((ofGrammar g settings).parse stream known).outcome = .accept ↔
      ∃ word, (ofGrammar g settings).Reads (stream.takeWhile (!·.isEof)) word ∧
        g.Derives [.nonterminal g.start] (word.map .terminal) := by
  have runs := run_accepts_iff predictive settings stream known
  constructor
  · intro accepted
    obtain ⟨word, reads, derived⟩ := (runs _).mp ⟨accepted, rfl⟩
    exact ⟨word, reads, derived.derives⟩
  · rintro ⟨word, reads, derived⟩
    obtain ⟨ids, derived⟩ := Grammar.derives_iff_leftDerives.mp derived
    exact ((runs ids).mpr ⟨word, reads, derived⟩).1

/-- Without conflicts a parser accepts a stream if and only if its tokens are a word that the start derives. The
    productions that it expands are then those of the derivation of the word from the left, of which there is one. -/
theorem parse_accepts_iff {g : Grammar} (built : g.Built) (plain : ∀ p ∈ g.productions, .endMarker ∉ p.body)
    (ll1 : (Table.build g (Sets.solve g)).isLL1 = true) (settings : Settings) (stream : List Token)
    (known : Declarations) :
    (((ofGrammar g settings).parse stream known).outcome = .accept ↔
      ∃ word, (ofGrammar g settings).Reads (stream.takeWhile (!·.isEof)) word ∧
        g.Derives [.nonterminal g.start] (word.map .terminal)) ∧
    (((ofGrammar g settings).parse stream known).outcome = .accept →
      ∀ word, (ofGrammar g settings).Reads (stream.takeWhile (!·.isEof)) word →
        ∀ ids, g.LeftDerives [.nonterminal g.start] ids (word.map .terminal) ↔
          ids = expansions ((ofGrammar g settings).run (.ofTokens stream) known).events) ∧
    (settings.trace = true →
      ((ofGrammar g settings).parse stream known).trace.filterMap (·.action.production?) =
        expansions ((ofGrammar g settings).run (.ofTokens stream) known).events) ∧
    ∀ word ids ids' : List Nat, g.LeftDerives [.nonterminal g.start] ids (word.map .terminal) →
      g.LeftDerives [.nonterminal g.start] ids' (word.map .terminal) → ids = ids' := by
  have predictive : g.Predictive := ⟨built.declared, plain, ll1⟩
  have runs := run_accepts_iff predictive settings stream known
  refine ⟨⟨?_, ?_⟩, ?_, ?_, fun _ _ _ => leftDerives_unique predictive⟩
  · intro accepted
    obtain ⟨word, reads, derived⟩ := (runs _).mp ⟨accepted, rfl⟩
    exact ⟨word, reads, Grammar.derives_iff_leftDerives.mpr ⟨_, derived⟩⟩
  · rintro ⟨word, reads, derived⟩
    obtain ⟨ids, derived⟩ := Grammar.derives_iff_leftDerives.mp derived
    exact ((runs ids).mpr ⟨word, reads, derived⟩).1
  · intro accepted word reads ids
    obtain ⟨other, reads', derived⟩ := (runs _).mp ⟨accepted, rfl⟩
    cases reads.unique reads'
    exact ⟨fun h => leftDerives_unique predictive h derived, fun same => same ▸ derived⟩
  · intro kept
    have rows : (ofGrammar g settings).settings.trace = true := kept
    rw [parse, report, rows, if_pos rfl, expansions]

theorem parse_accepts_balanced :
    Grammar.balanced.Built ∧ (Table.build .balanced (Sets.solve .balanced)).isLL1 = true ∧
    Grammar.balanced.LeftDerives [.nonterminal 0] [0, 1, 1] [.terminal 0, .terminal 1] ∧
    ¬Grammar.balanced.Derives [.nonterminal 0] [.terminal 0] := by
  let pair : List Token := [⟨.punctuation, "(", .start⟩, ⟨.punctuation, ")", .start⟩, .closing .start]
  let half : List Token := [⟨.punctuation, "(", .start⟩]
  have plain : ∀ p ∈ Grammar.balanced.productions, .endMarker ∉ p.body := by decide
  have ll1 : (Table.build .balanced (Sets.solve .balanced)).isLL1 = true := by decide +kernel
  refine ⟨Grammar.balanced_built, ll1, ?_, ?_⟩
  · have accepted : ((ofGrammar .balanced {}).parse pair .empty).outcome = .accept := by decide +kernel
    have expanded : expansions ((ofGrammar .balanced {}).run (.ofTokens pair) .empty).events = [0, 1, 1] := by
      decide +kernel
    rw [← expanded]
    exact ((parse_accepts_iff Grammar.balanced_built plain ll1 {} pair .empty).2.1 accepted [0, 1] rfl _).mpr rfl
  · intro derived
    have accepted := (parse_accepts_iff Grammar.balanced_built plain ll1 {} half .empty).1.mpr ⟨[0], rfl, derived⟩
    exact absurd accepted (by decide +kernel)

end Machine
end Lookahead
