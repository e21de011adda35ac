import Lookahead.Machine.Feed
import Lookahead.Proofs.Machine.Resumption

/-! Where the input of a run ends. A run asks for its tokens one after another, never behind a closing record, and where the
stream stops without one it makes one up. So it goes as over the tokens before the first closing record, and neither the text
of the record nor anything behind it is seen. -/

namespace Lookahead

theorem Input.ofTokens_closed {tokens : List Token} {e : Token} (unclosed : ∀ t ∈ tokens, t.isEof = false)
    (closing : e.isEof = true) (more : List Token) : ofTokens (tokens ++ e :: more) = ⟨tokens, e.pos⟩ := by
  rw [ofTokens_append unclosed (List.cons_ne_nil e more)]
  simp [ofTokens, prepend, closing]

/-- A run over a stream is one over the whole input. -/
theorem FedState.runFrom_state (m : Machine) (f : FedState) : m.runFrom f.state = f.runFrom m := by
  fun_induction runFrom m f with
  | case1 f events outcome scope halt => exact Machine.runFrom_halt (by rw [step_state, halt]; rfl)
  | case2 f events later next ih => rw [Machine.runFrom_next (by rw [step_state, next]; rfl), ih]

namespace Machine

theorem parseStream_eq (m : Machine) (stream : List Token) (known : Declarations) :
    m.parseStream stream known = m.parse stream known := by
  have first : (FedState.entry m.grammar.start (.ofTokens stream) known false).state =
      m.initial (.ofTokens stream) known := by
    rw [FedState.state, FedState.entry, Feed.input_ofTokens]
    rfl
  rw [parseStream, parse, run, ← first, FedState.runFrom_state, FedState.row_state]

/-- A stream counts up to its first closing record. One without it is parsed as though such a record stood where its last
    token does. The text of the record and all behind it have no effect, so that a stream is parsed as the tokens before the
    record and the place of it tell. -/
theorem parse_closed (m : Machine) (known : Declarations) {tokens : List Token} {e : Token}
    (unclosed : ∀ t ∈ tokens, t.isEof = false) (closing : e.isEof = true) (more : List Token) :
    (e.pos = Input.lastPos tokens → m.parseStream (tokens ++ [e]) known = m.parseStream tokens known) ∧
    m.parseStream (tokens ++ e :: more) known = m.parseStream (tokens ++ [e]) known ∧
    m.parseStream (tokens ++ [e]) known = m.parseStream (tokens ++ [.closing e.pos]) known ∧
    m.parseStream (tokens ++ e :: more) known = m.report (m.run ⟨tokens, e.pos⟩ known) ∧
    ∀ stream, m.parseStream stream known = m.parse stream known := by
  have closed : ∀ {e : Token} (closing : e.isEof = true) (more : List Token),
      m.parseStream (tokens ++ e :: more) known = m.report (m.run ⟨tokens, e.pos⟩ known) := by
    intro e closing more
    rw [parseStream_eq, parse, Input.ofTokens_closed unclosed closing]
  refine ⟨fun last => ?_, ?_, ?_, closed closing more, fun stream => m.parseStream_eq stream known⟩
  · rw [closed closing, parseStream_eq, parse, Input.ofTokens_unclosed unclosed, last]
  · rw [closed closing, closed closing]
  · rw [closed closing, closed rfl]
    rfl

/-- Two faults are found in `int ; b ;`, and the same two when a record with a text of its own and another token follow. -/
theorem parse_closed_unfinished : ∃ e : Token, ∃ more : List Token, e.isEof = true ∧ e.source ≠ "" ∧ more ≠ [] ∧
    (∀ t ∈ unfinished, t.isEof = false) ∧
    (ofGrammar .listing {}).parseStream (unfinished ++ e :: more) .empty =
      (ofGrammar .listing {}).parseStream unfinished .empty ∧
    ((ofGrammar .listing {}).parseStream unfinished .empty).diagnostics.length = 2 := by
  let e : Token := ⟨.eof, "end", ⟨1, 8⟩⟩
  have unclosed : ∀ t ∈ unfinished, t.isEof = false := by decide
  obtain ⟨alone, behind, -, -, whole⟩ := parse_closed (ofGrammar .listing {}) .empty unclosed (rfl : e.isEof = true)
    [⟨.keyword, "int", ⟨2, 1⟩⟩]
  refine ⟨e, _, rfl, by decide, List.cons_ne_nil _ _, unclosed, behind.trans (alone rfl), ?_⟩
  rw [whole]
  decide +kernel

end Machine
end Lookahead
