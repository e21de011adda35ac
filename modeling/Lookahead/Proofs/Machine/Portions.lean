import Lookahead.Proofs.Grammar.Built
import Lookahead.Proofs.Machine.Observation

/-! What becomes of each token. A run divides its input into portions: a token that is matched, the tokens that a recovery
skips, and the tokens that are lost when the input ends before a recovery does. Each portion but a lost one takes a token,
so that faults come at later and later tokens, and a recovery that resumes uses up a synchronizing one. -/

namespace Lookahead

/-- What a step takes from the input. -/
inductive Portion where
  /-- A token that matches a terminal. -/
  | matched (terminal : Nat) (token : Token)
  /-- The tokens from a fault on, through the first one behind which the run resumes. -/
  | skipped (fault : SyntaxFault) (tokens : List Token) (sync : Token)
  /-- The tokens from a fault to the end. -/
  | lost (fault : SyntaxFault) (tokens : List Token)

namespace Portion

def tokens : Portion → List Token
  | matched _ token => [token]
  | skipped _ tokens sync => tokens ++ [sync]
  | lost _ tokens => tokens

def fault? : Portion → Option SyntaxFault
  | matched _ _ => none
  | skipped fault _ _ => some fault
  | lost fault _ => some fault

/-- What the trace says of a portion. -/
def actions : Portion → List Action
  | matched n _ => [.matched n]
  | skipped fault _ _ => [.error fault, .panic, .resume]
  | lost fault _ => [.error fault, .panic, .abort]

/-- The faults of portions, each with the number of tokens before it when `i` tokens come before the portions. -/
def faults : Nat → List Portion → List (Nat × SyntaxFault)
  | _, [] => []
  | i, p :: rest => p.fault?.toList.map (i, ·) ++ faults (i + p.tokens.length) rest

theorem faults_skipped (i : Nat) (fault : SyntaxFault) (skipped : List Token) (token : Token) (rest : List Portion) :
    faults i (.skipped fault skipped token :: rest) = (i, fault) :: faults (i + (skipped.length + 1)) rest := by
  simp [faults, fault?, tokens]

end Portion

namespace Machine
variable {m : Machine} {s later : State} {events : List Event} {run : Run} {passed : List Token} {input : Input}
  {portions : List Portion}

/-! ### Portions of an input -/

/-- Matched tokens have the column of their terminal, what is skipped ends with its first synchronizing token, and what is
    lost comes last and has none. -/
inductive Lawful (m : Machine) : List Portion → Prop
  | nil : Lawful m []
  | matched {n : Nat} {token : Token} {rest : List Portion} (column : m.column? token = some (.terminal n))
    (later : Lawful m rest) : Lawful m (.matched n token :: rest)
  | skipped {fault : SyntaxFault} {tokens : List Token} {sync : Token} {rest : List Portion}
    (before : ∀ token ∈ tokens, m.isSync token = false) (last : m.isSync sync = true) (later : Lawful m rest) :
    Lawful m (.skipped fault tokens sync :: rest)
  | lost {fault : SyntaxFault} {tokens : List Token} (all : ∀ token ∈ tokens, m.isSync token = false) :
    Lawful m [.lost fault tokens]

namespace Lawful

theorem le_of_mem_faults {i : Nat} {x : Nat × SyntaxFault} (member : x ∈ Portion.faults i portions) : i ≤ x.1 := by
  induction portions generalizing i with
  | nil => cases member
  | cons p rest ih =>
    rcases List.mem_append.mp member with here | later
    · obtain ⟨fault, -, rfl⟩ := List.mem_map.mp here
      exact Nat.le_refl i
    · exact Nat.le_trans (Nat.le_add_right ..) (ih later)

theorem increasing (h : m.Lawful portions) (i : Nat) : (Portion.faults i portions).Pairwise (·.1 < ·.1) := by
  induction h generalizing i with
  | nil => exact .nil
  | matched _ _ ih => exact ih (i + 1)
  | skipped _ _ _ ih =>
    rw [Portion.faults_skipped]
    refine List.pairwise_cons.mpr ⟨fun x member => ?_, ih _⟩
    have bound := le_of_mem_faults member
    show i < x.1
    omega
  | lost _ => exact List.pairwise_singleton ..

/-- Only the last fault can come at the end of the input. -/
theorem before_end (h : m.Lawful portions) (i : Nat) :
    ∀ x ∈ (Portion.faults i portions).dropLast, x.1 < i + (portions.flatMap Portion.tokens).length := by
  induction h generalizing i with
  | nil => exact fun _ member => nomatch member
  | matched _ _ ih =>
    intro x member
    have bound := ih (i + 1) x member
    simp only [List.flatMap_cons, Portion.tokens, List.length_append, List.length_singleton]
    omega
  | @skipped _ tokens _ rest _ _ _ ih =>
    intro x member
    rw [Portion.faults_skipped] at member
    simp only [List.flatMap_cons, Portion.tokens, List.length_append, List.length_singleton]
    have bound := ih (i + (tokens.length + 1)) x
    cases behind : Portion.faults (i + (tokens.length + 1)) rest with
    | nil =>
      rw [behind] at member
      cases member
    | cons first others =>
      rw [behind, List.dropLast_cons_cons, ← behind] at member
      rcases List.mem_cons.mp member with rfl | later
      · show i < _
        omega
      · have := bound later
        omega
  | lost _ => exact fun _ member => nomatch member

/-- All recoveries but the last use up a synchronizing token. -/
theorem length_faults_le (h : m.Lawful portions) (i : Nat) :
    (Portion.faults i portions).length ≤ (portions.flatMap Portion.tokens).countP m.isSync + 1 := by
  induction h generalizing i with
  | nil => exact Nat.zero_le _
  | matched _ _ ih =>
    refine Nat.le_trans (ih (i + 1)) ?_
    rw [List.flatMap_cons, List.countP_append]
    omega
  | @skipped _ tokens sync _ _ last _ ih =>
    have bound := ih (i + (tokens.length + 1))
    have used : [sync].countP m.isSync = 1 := by simp [last]
    rw [Portion.faults_skipped, List.length_cons, List.flatMap_cons, Portion.tokens, List.countP_append,
      List.countP_append, used]
    omega
  | lost _ => exact Nat.le_add_left ..

end Lawful

/-! ### What runs do with their input -/

theorem resync_some {tokens rest : List Token} (found : m.resync tokens = some rest) :
    ∃ skipped sync, tokens = skipped ++ sync :: rest ∧ (∀ token ∈ skipped, m.isSync token = false) ∧
      m.isSync sync = true := by
  induction tokens with
  | nil => cases found
  | cons t tail ih =>
    simp only [resync] at found
    split at found
    · rename_i sync
      cases found
      exact ⟨[], t, rfl, by simp, sync⟩
    · rename_i other
      obtain ⟨skipped, sync, rfl, before, last⟩ := ih found
      refine ⟨t :: skipped, sync, rfl, fun token member => ?_, last⟩
      rcases List.mem_cons.mp member with rfl | later
      · exact Bool.eq_false_iff.mpr other
      · exact before token later

theorem resync_none {tokens : List Token} (lost : m.resync tokens = none) : ∀ token ∈ tokens, m.isSync token = false := by
  induction tokens with
  | nil => exact fun _ member => nomatch member
  | cons t tail ih =>
    simp only [resync] at lost
    split at lost
    · cases lost
    · rename_i other
      intro token member
      rcases List.mem_cons.mp member with rfl | later
      · exact Bool.eq_false_iff.mpr other
      · exact ih lost token later

/-- The portions make up what is left of an input behind the tokens that were passed, and events tell of them: one match or
    one recovery for each, and each fault at its token. -/
structure Accounts (m : Machine) (passed : List Token) (input : Input) (events : List Event) (portions : List Portion) :
    Prop where
  lawful : m.Lawful portions
  tokens : portions.flatMap Portion.tokens = input.tokens
  dealings : dealings events = portions.flatMap Portion.actions
  faults : List.Forall₂ (fun f x => f.1 = x.2 ∧ (input.prepend passed).positions[x.1]? = some f.2) (syntaxFaults events)
    (Portion.faults passed.length portions)

namespace Accounts

theorem nil (ended : input.tokens = []) : m.Accounts passed input [] [] where
  lawful := .nil
  tokens := ended.symm
  dealings := rfl
  faults := .nil

theorem silent (h : m.Accounts passed input events portions) (more : List Event) (idle : Lookahead.dealings more = [])
    (quiet : syntaxFaults more = []) : m.Accounts passed input (more ++ events) portions where
  lawful := h.lawful
  tokens := h.tokens
  dealings := by rw [dealings_append, idle, h.dealings, List.nil_append]
  faults := by
    rw [syntaxFaults_append, quiet]
    exact h.faults

theorem cons {whole : Input} (portion : Portion) (more : List Event)
    (h : m.Accounts (passed ++ portion.tokens) input events portions) (start : whole = input.prepend portion.tokens)
    (lawful : m.Lawful (portion :: portions)) (deals : Lookahead.dealings more = portion.actions)
    (reported : syntaxFaults more = portion.fault?.toList.map (·, whole.pos)) :
    m.Accounts passed whole (more ++ events) (portion :: portions) where
  lawful := lawful
  tokens := by
    rw [start, List.flatMap_cons, h.tokens]
    rfl
  dealings := by rw [dealings_append, deals, h.dealings, List.flatMap_cons]
  faults := by
    have later := h.faults
    rw [Input.prepend_append, List.length_append, ← start] at later
    rw [syntaxFaults_append, reported, Portion.faults]
    refine List.rel_append ?_ later
    cases portion.fault? with
    | none => exact .nil
    | some fault => exact .cons ⟨rfl, Input.positions_prepend ..⟩ .nil

end Accounts

theorem prepend_rest {i : Input} {taken rest : List Token} (tokens : i.tokens = taken ++ rest) :
    i = ({ i with tokens := rest } : Input).prepend taken := by
  rw [Input.prepend, ← tokens]

/-- What becomes of a scope over portions, and what is found in them: matched tokens are observed, and a recovery leaves
    nothing but the declared names. -/
inductive Narrates (m : Machine) : Scope → List Portion → Scope → List (SemanticFault × Position) → Prop
  | nil (scope : Scope) : Narrates m scope [] scope []
  | matched {scope next last : Scope} {n : Nat} {token : Token} {faults : List SemanticFault} {rest : List Portion}
    {found : List (SemanticFault × Position)} (column : m.column? token = some (.terminal n))
    (observed : scope.observe m.settings (m.role n) token = (next, faults)) (later : Narrates m next rest last found) :
    Narrates m scope (.matched n token :: rest) last (faults.map (·, token.pos) ++ found)
  | skipped {scope last : Scope} {fault : SyntaxFault} {tokens : List Token} {sync : Token} {rest : List Portion}
    {found : List (SemanticFault × Position)} (later : Narrates m (.fresh scope.declared) rest last found) :
    Narrates m scope (.skipped fault tokens sync :: rest) last found
  | lost (scope : Scope) (fault : SyntaxFault) (tokens : List Token) : Narrates m scope [.lost fault tokens] scope []

/-- The portions of a run account for its input, its trace and its syntax faults, and tell its scope and its semantic
    faults. -/
theorem Halts.narrates (h : Halts m.step s run) (grounded : s.Grounded) (passed : List Token) :
    ∃ portions, m.Accounts passed s.input run.events portions ∧
      m.Narrates s.scope portions run.scope (semanticFaults run.events) := by
  induction h generalizing passed with
  | @halt s _ _ _ h =>
    cases Move.of_step h with
    | exhausted stack => exact absurd stack (stack_ne_nil grounded)
    | accept _ ended => exact ⟨[], (Accounts.nil ended).silent [_] rfl rfl, .nil _⟩
    | @abort _ below fault _ _ lost =>
      have rest : m.Accounts (passed ++ s.input.tokens) { s.input with tokens := [] } [] [] := .nil rfl
      exact ⟨_, .cons (.lost fault s.input.tokens) ((s.pop below).faultEvents fault ++ [_]) rest
        (prepend_rest (List.append_nil _).symm) (.lost (resync_none lost)) rfl rfl, .lost ..⟩
  | next h _ ih =>
    have later := grounded_step grounded h
    rw [Run.preceded, semanticFaults_append]
    cases Move.of_step h with
    | skip _ =>
      obtain ⟨portions, rest, told⟩ := ih later passed
      exact ⟨portions, rest.silent _ rfl rfl, told⟩
    | @consume n _ token _ _ _ _ tokens column observed =>
      obtain ⟨portions, rest, told⟩ := ih later (passed ++ [token])
      rw [semanticFaults_match]
      exact ⟨_, .cons (.matched n token) _ rest (prepend_rest tokens) (.matched column rest.lawful) (dealings_match ..)
         (syntaxFaults_match ..), .matched column observed told⟩
    | expand _ _ _ =>
      obtain ⟨portions, rest, told⟩ := ih later passed
      exact ⟨portions, rest.silent _ rfl rfl, told⟩
    | @resume _ _ fault _ _ _ found =>
      obtain ⟨skipped, sync, tokens, before, last⟩ := resync_some found
      obtain ⟨portions, rest, told⟩ := ih later (passed ++ (skipped ++ [sync]))
      exact ⟨_, .cons (.skipped fault skipped sync) _ rest (prepend_rest (by simp [tokens, Portion.tokens]))
        (.skipped before last rest.lawful) rfl rfl, .skipped told⟩

theorem Halts.accounts (h : Halts m.step s run) (grounded : s.Grounded) (passed : List Token) :
    ∃ portions, m.Accounts passed s.input run.events portions := by
  obtain ⟨portions, accounts, -⟩ := h.narrates grounded passed
  exact ⟨portions, accounts⟩

/-- A step that reports a syntax fault and goes on has passed all tokens through the first synchronizing one. -/
theorem resumes_behind_sync (h : m.step s = .next events later) (faulted : syntaxFaults events ≠ []) :
    ∃ skipped sync, s.input.tokens = skipped ++ sync :: later.input.tokens ∧
      (∀ token ∈ skipped, m.isSync token = false) ∧ m.isSync sync = true := by
  cases Move.of_step h with
  | skip _ => exact absurd rfl faulted
  | consume _ _ _ _ => exact absurd (syntaxFaults_match ..) faulted
  | expand _ _ _ => exact absurd rfl faulted
  | resume _ _ found => exact resync_some found

/-- A stream is accepted if and only if there is no syntactic finding, and the stack never runs empty. The tokens before the
    first closing record are divided into portions, one for each match and each recovery of the trace and in their order.
    The syntactic findings are those of the recoveries: they stand at later and later tokens, only the last may stand at
    the end of the input, and there is at most one more of them than there are synchronizing tokens. -/
theorem faults_accounted (m : Machine) (stream : List Token) (known : Declarations) :
    ((m.parse stream known).outcome = .accept ↔
      Diagnostic.ofSeverity .syntactic (m.parse stream known).diagnostics = []) ∧
    (∀ s, Reaches m.step (m.initial (.ofTokens stream) known) s → s.stack ≠ []) ∧
    (∀ s events later, m.step s = .next events later → syntaxFaults events ≠ [] →
      ∃ skipped sync, s.input.tokens = skipped ++ sync :: later.input.tokens ∧
        (∀ token ∈ skipped, m.isSync token = false) ∧ m.isSync sync = true) ∧
    ∃ portions, m.Lawful portions ∧
      portions.flatMap Portion.tokens = stream.takeWhile (!·.isEof) ∧
      dealings (m.run (.ofTokens stream) known).events = portions.flatMap Portion.actions ∧
      List.Forall₂ (fun d x => d.message = x.2.message ∧ (Input.ofTokens stream).positions[x.1]? = some d.pos)
        (Diagnostic.ofSeverity .syntactic (m.parse stream known).diagnostics) (Portion.faults 0 portions) ∧
      (Portion.faults 0 portions).Pairwise (·.1 < ·.1) ∧
      (∀ x ∈ (Portion.faults 0 portions).dropLast, x.1 < (stream.takeWhile (!·.isEof)).length) ∧
      (Diagnostic.ofSeverity .syntactic (m.parse stream known).diagnostics).length ≤
        (stream.takeWhile (!·.isEof)).countP m.isSync + 1 := by
  have halts := m.halts_runFrom (m.initial (.ofTokens stream) known)
  have grounded : (m.initial (.ofTokens stream) known).Grounded := grounded_entry ..
  obtain ⟨portions, accounts⟩ := halts.accounts grounded []
  have tokens : portions.flatMap Portion.tokens = stream.takeWhile (!·.isEof) := accounts.tokens
  have findings := ofSeverity_syntactic (m.run (.ofTokens stream) known).events
  have located : List.Forall₂ (fun d x => d.message = x.2.message ∧
      (Input.ofTokens stream).positions[x.1]? = some d.pos)
      (Diagnostic.ofSeverity .syntactic (m.parse stream known).diagnostics) (Portion.faults 0 portions) := by
    rw [parse, report, findings, List.forall₂_map_left_iff]
    exact accounts.faults.imp fun f x fits => ⟨congrArg SyntaxFault.message fits.1, fits.2⟩
  refine ⟨?_, fun s reached => stack_ne_nil (grounded_reaches grounded reached), fun _ _ _ => resumes_behind_sync,
    portions, accounts.lawful, tokens, accounts.dealings, located, accounts.lawful.increasing 0, ?_, ?_⟩
  · rw [parse, report, findings, List.map_eq_nil_iff]
    exact (halts.accepts_iff grounded).trans ⟨And.right, fun silent => ⟨rfl, silent⟩⟩
  · have bound := accounts.lawful.before_end 0
    rwa [tokens, Nat.zero_add] at bound
  · rw [located.length_eq, ← tokens]
    exact accounts.lawful.length_faults_le 0

/-- Behind `a` the run recovers at the one `;`, and it meets a second fault at the end: there is no room for a third. -/
theorem faults_accounted_scattered : ∃ stream : List Token,
    (Diagnostic.ofSeverity .syntactic ((ofGrammar .scattered {}).parse stream .empty).diagnostics).length = 2 ∧
    stream.countP (ofGrammar .scattered {}).isSync = 1 ∧
    (∀ s, Reaches (ofGrammar .scattered {}).step ((ofGrammar .scattered {}).initial (.ofTokens stream) .empty) s →
      s.stack ≠ []) ∧
    ∃ portions, (ofGrammar .scattered {}).Lawful portions ∧ portions.flatMap Portion.tokens = stream := by
  let stream : List Token := [⟨.keyword, "a", .start⟩, ⟨.keyword, ";", .start⟩, ⟨.keyword, "b", .start⟩]
  obtain ⟨-, full, -, portions, lawful, tokens, -⟩ := faults_accounted (ofGrammar .scattered {}) stream .empty
  exact ⟨stream, by decide +kernel, by decide +kernel, full, portions, lawful, tokens⟩

end Machine
end Lookahead
