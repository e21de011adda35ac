import Lookahead.Proofs.Machine.Trail
import Mathlib.Data.List.Forall2

/-! What a run sees of declarations and assignments. Without a syntax fault a run matches each token once and in order, so
that its scope at the end and its semantic findings are told by the tokens alone, each with the terminal it stands for. -/

namespace Lookahead

/-- Threads a state through a list and lists what is found on the way. -/
def collect {σ α β : Type} (f : σ → α → σ × List β) (s : σ) : List α → σ × List β
  | [] => (s, [])
  | a :: rest =>
    let (next, here) := f s a
    let (last, later) := collect f next rest
    (last, here ++ later)

section Collect
variable {σ α α' β : Type} {f : σ → α → σ × List β} {s mid last : σ} {a : α} {as bs : List α} {here later : List β}

theorem collect_cons (h : f s a = (mid, here)) (rest : collect f mid as = (last, later)) :
    collect f s (a :: as) = (last, here ++ later) := by
  simp only [collect, h, rest]

theorem collect_singleton (h : f s a = (last, here)) : collect f s [a] = (last, here) := by
  simp only [collect, h, List.append_nil]

theorem collect_append (first : collect f s as = (mid, here)) (second : collect f mid bs = (last, later)) :
    collect f s (as ++ bs) = (last, here ++ later) := by
  induction as generalizing s here with
  | nil =>
    cases first
    exact second
  | cons a as ih =>
    cases first
    rw [List.append_assoc]
    exact collect_cons rfl (ih rfl)

/-- Two lists are gone through alike if each element of one does what its counterpart does. -/
theorem collect_congr {f' : σ → α' → σ × List β} {related : α → α' → Prop} {as' : List α'}
    (alike : ∀ s a a', related a a' → f s a = f' s a') (h : List.Forall₂ related as as') :
    collect f s as = collect f' s as' := by
  induction h generalizing s with
  | nil => rfl
  | cons here _ ih => simp only [collect, alike s _ _ here, ih]

end Collect

/-- The semantic fault that an event reports, and where. -/
def Event.semanticFault? : Event → Option (SemanticFault × Position)
  | fault (.semantic f) pos => some (f, pos)
  | _ => none

def semanticFaults (events : List Event) : List (SemanticFault × Position) := events.filterMap Event.semanticFault?

theorem semanticFaults_append (a b : List Event) : semanticFaults (a ++ b) = semanticFaults a ++ semanticFaults b := by
  simp [semanticFaults]

theorem semanticFaults_match (s : State) (n : Nat) (faults : List SemanticFault) (pos : Position) :
    semanticFaults (s.row (.matched n) :: faults.map fun f => .fault (.semantic f) pos) = faults.map (·, pos) := by
  rw [semanticFaults, State.row, List.filterMap_cons_none rfl, List.filterMap_map]
  exact congrFun List.filterMap_eq_map faults

/-- The semantic findings are the semantic faults. -/
theorem ofSeverity_semantic (events : List Event) :
    Diagnostic.ofSeverity .semantic (events.filterMap Event.diagnostic?) =
      (semanticFaults events).map fun (f, pos) => ⟨.semantic, f.message, pos⟩ := by
  induction events with
  | nil => rfl
  | cons e rest ih =>
    cases e with
    | row r => exact ih
    | fault f pos =>
      cases f with
      | syntactic f => exact ih
      | semantic f => exact congrArg (List.cons _) ih

namespace Machine
variable {m : Machine} {s : State} {run : Run} {t : Token} {text : String}

/-- The name of the terminal that a token stands for. -/
def terminalName? (m : Machine) (t : Token) : Option String :=
  match m.column? t with
  | some (.terminal i) => some (m.grammar.name (.terminal i))
  | _ => none

/-- What a token does to a scope when it is matched, and what is found in it. -/
def observe (m : Machine) (scope : Scope) (t : Token) : Scope × List (SemanticFault × Position) :=
  match m.terminalName? t with
  | none => (scope, [])
  | some text =>
    let (next, faults) := scope.observe m.settings (m.settings.role text) t
    (next, faults.map (·, t.pos))

/-- A token stands for a terminal of its own text, or for that of all identifiers or of all literals. -/
theorem of_terminalName? (h : m.terminalName? t = some text) : text ∈ m.grammar.terminals ∧
    (t.source = text ∨ text = m.settings.identifier ∨ text = m.settings.constant) := by
  have told : ∀ {name}, m.column? t = (m.grammar.terminal? name).map .terminal → text ∈ m.grammar.terminals ∧ name = text := by
    intro name column
    rw [terminalName?, column] at h
    cases found : m.grammar.terminal? name with
    | none => simp [found] at h
    | some i =>
      rw [found] at h
      cases h
      obtain ⟨bound, same, -⟩ := List.idxOf?_eq_some_iff.mp found
      have named : m.grammar.name (.terminal i) = name := by simpa [Vocabulary.name, bound] using same
      rw [named]
      exact ⟨same ▸ List.getElem_mem bound, rfl⟩
  cases kind : t.kind with
  | eof => simp [terminalName?, column?, kind] at h
  | invalid => simp [terminalName?, column?, kind] at h
  | identifier => exact (told (by rw [column?, kind])).imp_right fun same => Or.inr (Or.inl same.symm)
  | integer => exact (told (by rw [column?, kind])).imp_right fun same => Or.inr (Or.inr same.symm)
  | float => exact (told (by rw [column?, kind])).imp_right fun same => Or.inr (Or.inr same.symm)
  | keyword => exact (told (by rw [column?, kind])).imp_right Or.inl
  | operator => exact (told (by rw [column?, kind])).imp_right Or.inl
  | punctuation => exact (told (by rw [column?, kind])).imp_right Or.inl

/-- A run without a syntax fault goes through its tokens from the first to the last. -/
theorem Halts.observed (h : Halts m.step s run) (grounded : s.Grounded) (silent : syntaxFaults run.events = []) :
    collect m.observe s.scope s.input.tokens = (run.scope, semanticFaults run.events) := by
  induction h with
  | halt h =>
    cases Move.of_step h with
    | exhausted stack => exact absurd stack (stack_ne_nil grounded)
    | accept _ tokens =>
      rw [tokens]
      rfl
    | abort _ _ _ => simp at silent
  | next h _ ih =>
    rw [syntaxFaults_preceded, List.append_eq_nil_iff] at silent
    have later := ih (grounded_step grounded h) silent.2
    rw [Run.preceded, semanticFaults_append]
    -- Only a match changes the scope. A state that resumes reports a syntax fault before.
    cases Move.of_step h with
    | skip _ => exact later
    | @consume n below token rest scope faults stack tokens column observed =>
      rw [tokens, semanticFaults_match]
      refine collect_cons ?_ later
      have name : m.terminalName? token = some (m.grammar.name (.terminal n)) := by rw [terminalName?, column]
      rw [role] at observed
      simp only [observe, name, observed]
      rfl
    | expand _ _ _ => exact later
    | resume _ _ _ => simp at silent

/-- The tokens of an accepted stream tell which names are declared in the end, and all semantic findings. -/
theorem parse_observed {stream : List Token} {known : Declarations} {scope : Scope}
    {found : List (SemanticFault × Position)} (accepted : (m.parse stream known).outcome = .accept)
    (observed : collect m.observe (.fresh known) (stream.takeWhile (!·.isEof)) = (scope, found)) :
    (m.parse stream known).declared = scope.declared ∧
      Diagnostic.ofSeverity .semantic (m.parse stream known).diagnostics =
        found.map fun (f, pos) => ⟨.semantic, f.message, pos⟩ := by
  have halts := m.halts_runFrom (m.initial (.ofTokens stream) known)
  obtain ⟨-, silent⟩ := (halts.accepts_iff (grounded_entry ..)).mp accepted
  have same := (halts.observed (grounded_entry ..) silent).symm.trans observed
  obtain ⟨rfl, faults⟩ := Prod.mk.inj same
  refine ⟨rfl, ?_⟩
  rw [parse, report, ofSeverity_semantic, ← faults]
  rfl

end Machine
end Lookahead
