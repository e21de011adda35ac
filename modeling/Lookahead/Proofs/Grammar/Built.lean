import Lookahead.Proofs.Grammar.Change

/-! What holds of every grammar that edits can build. Names are distinct and none of them is reserved, rules and
restart points refer to declared names only, and no body is empty. Each edit keeps this, and a refused edit changes
nothing. -/

namespace Lookahead

/-! ### Declared symbols -/

namespace Vocabulary

/-- A symbol stands for a declared name, or is one of the two marks. -/
def Declares (v : Vocabulary) : Symbol → Prop
  | .terminal i => i < v.terminals.length
  | .nonterminal i => i < v.nonterminals.length
  | .epsilon => True
  | .endMarker => True

instance (v : Vocabulary) (s : Symbol) : Decidable (v.Declares s) :=
  match s with
  | .terminal i => inferInstanceAs (Decidable (i < v.terminals.length))
  | .nonterminal i => inferInstanceAs (Decidable (i < v.nonterminals.length))
  | .epsilon => inferInstanceAs (Decidable True)
  | .endMarker => inferInstanceAs (Decidable True)

variable {v w : Vocabulary}

theorem Declares.mono {s : Symbol} (h : v.Declares s) (terminals : v.terminals.length ≤ w.terminals.length)
    (nonterminals : v.nonterminals.length ≤ w.nonterminals.length) : w.Declares s := by
  cases s with
  | terminal i => exact Nat.lt_of_lt_of_le h terminals
  | nonterminal i => exact Nat.lt_of_lt_of_le h nonterminals
  | epsilon => trivial
  | endMarker => trivial

/-- A name that is found stands for a declared symbol. -/
theorem declares_of_find? {name : String} {s : Symbol} (h : v.find? name = some s) : v.Declares s := by
  have bound : ∀ {names : List String} {i}, names.idxOf? name = some i → i < names.length :=
    fun found => (List.getElem?_eq_some_iff.mp (getElem?_of_idxOf? found)).1
  rcases find?_cases h with ⟨rfl, -⟩ | ⟨rfl, -⟩ | ⟨i, rfl, found⟩ | ⟨i, rfl, found⟩
  · trivial
  · trivial
  · exact bound found
  · exact bound found

end Vocabulary

/-! ### Drafts -/

/-- What every draft keeps. -/
structure Draft.WellFormed (d : Draft) : Prop where
  terminals : Proper d.terminals
  nonterminals : Proper d.nonterminals
  heads : ∀ p ∈ d.productions, p.head < d.nonterminals.length
  nonempty : ∀ p ∈ d.productions, p.body ≠ []
  bodies : ∀ p ∈ d.productions, ∀ s ∈ p.body, d.Declares s
  start : ∀ i ∈ d.start, i < d.nonterminals.length
  restarts : d.restarts.Nodup
  restartsDeclared : ∀ i ∈ d.restarts, i < d.nonterminals.length

namespace Draft.WellFormed
variable {d d' : Draft} {e : Edit} {n : Option Nat}

theorem empty : Draft.empty.WellFormed where
  terminals := ⟨List.nodup_nil, nofun⟩
  nonterminals := ⟨List.nodup_nil, nofun⟩
  heads := nofun
  nonempty := nofun
  bodies := nofun
  start := nofun
  restarts := List.nodup_nil
  restartsDeclared := nofun

/-- Whatever refers to a name still does when more names are declared. -/
theorem widen {v : Vocabulary} (wf : d.WellFormed) (terminals : Proper v.terminals) (nonterminals : Proper v.nonterminals)
    (more : d.terminals.length ≤ v.terminals.length) (more' : d.nonterminals.length ≤ v.nonterminals.length) :
    ({ d with toVocabulary := v } : Draft).WellFormed where
  terminals
  nonterminals
  heads p hp := Nat.lt_of_lt_of_le (wf.heads p hp) more'
  nonempty := wf.nonempty
  bodies p hp s hs := (wf.bodies p hp s hs).mono more more'
  start i hi := Nat.lt_of_lt_of_le (wf.start i hi) more'
  restarts := wf.restarts
  restartsDeclared i hi := Nat.lt_of_lt_of_le (wf.restartsDeclared i hi) more'

theorem change (wf : d.WellFormed) (change : d.Change e n d') : d'.WellFormed := by
  cases change with
  | terminal declared =>
    exact wf.widen (wf.terminals.declare declared) wf.nonterminals (getElem?_declare declared).1.length_le (Nat.le_refl _)
  | nonterminal declared =>
    exact wf.widen wf.terminals (wf.nonterminals.declare declared) (Nat.le_refl _) (getElem?_declare declared).1.length_le
  | @production _ _ _ symbols found _ settled =>
    refine { wf with heads := ?_, nonempty := ?_, bodies := ?_ }
    · exact List.forall_mem_append.mpr ⟨wf.heads, List.forall_mem_singleton.mpr (Vocabulary.declares_of_find? found)⟩
    · refine List.forall_mem_append.mpr ⟨wf.nonempty, List.forall_mem_singleton.mpr ?_⟩
      cases symbols <;> simp
    · refine List.forall_mem_append.mpr ⟨wf.bodies, List.forall_mem_singleton.mpr ?_⟩
      exact forall_mem_kept trivial fun s hs => Vocabulary.declares_of_find? (settled s hs)
  | start found =>
    refine { wf with start := ?_ }
    intro i hi
    cases hi
    exact Vocabulary.declares_of_find? found
  | @restart _ i found =>
    split
    · exact wf
    · rename_i fresh
      have absent : i ∉ d.restarts := by simpa using fresh
      refine { wf with restarts := ?_, restartsDeclared := ?_ }
      · rw [← List.concat_eq_append]
        exact wf.restarts.concat absent
      · exact List.forall_mem_append.mpr
          ⟨wf.restartsDeclared, List.forall_mem_singleton.mpr (Vocabulary.declares_of_find? found)⟩

/-- An edit keeps a draft well formed, whether it is admitted or refused. -/
theorem attempt (wf : d.WellFormed) (e : Edit) : (d.attempt e).WellFormed := attempt_of_change wf fun c => wf.change c

theorem foldl_attempt (wf : d.WellFormed) (edits : List Edit) : (edits.foldl Draft.attempt d).WellFormed := by
  induction edits generalizing d with
  | nil => exact wf
  | cons e rest ih => exact ih (wf.attempt e)

end Draft.WellFormed

/-! ### Grammars -/

namespace Grammar

/-- The grammar is what some edits leave, from an empty draft on; some of them may have been refused. -/
def Built (g : Grammar) : Prop := ∃ edits : List Edit, (edits.foldl Draft.attempt .empty).build = .ok g

/-- What the analysis of a grammar relies on: every symbol of a rule is declared. -/
structure Declared (g : Grammar) : Prop where
  start : g.start < g.nonterminals.length
  heads : ∀ p ∈ g.productions, p.head < g.nonterminals.length
  bodies : ∀ p ∈ g.productions, ∀ s ∈ p.body, g.Declares s

theorem Built.declared {g : Grammar} (built : g.Built) : g.Declared := by
  obtain ⟨edits, h⟩ := built
  have wf := Draft.WellFormed.empty.foldl_attempt edits
  unfold Draft.build at h
  split at h
  · cases h
  · rename_i s start
    cases h
    exact ⟨wf.start s start, wf.heads, wf.bodies⟩

/-- Names are declared once, and restart points are declared. -/
theorem Built.distinct {g : Grammar} (built : g.Built) :
    g.terminals.Nodup ∧ g.nonterminals.Nodup ∧ ∀ n ∈ g.restarts, n < g.nonterminals.length := by
  obtain ⟨edits, h⟩ := built
  have wf := Draft.WellFormed.empty.foldl_attempt edits
  unfold Draft.build at h
  split at h
  · cases h
  · cases h
    exact ⟨wf.terminals.distinct, wf.nonterminals.distinct, wf.restartsDeclared⟩

/-- A chain of edits succeeds only if its first part does. -/
theorem ok_of_bind {α β : Type} {x : Except Defect α} {f : α → Except Defect β} {b : β} (h : x >>= f = .ok b) :
    ∃ a, x = .ok a ∧ f a = .ok b := by
  cases x with
  | error e => cases h
  | ok a => exact ⟨a, rfl, h⟩

/-- Edits that are all admitted leave the same draft one by one. -/
theorem foldl_attempt_of_applyAll {d d' : Draft} {edits : List Edit} (h : d.applyAll edits = .ok d') :
    edits.foldl Draft.attempt d = d' := by
  induction edits generalizing d with
  | nil =>
    cases h
    rfl
  | cons e rest ih =>
    obtain ⟨⟨next, n⟩, admitted, later⟩ := ok_of_bind h
    rw [List.foldl_cons, Draft.attempt, admitted]
    exact ih later

theorem built_of_outline {o : Outline} {g : Grammar} (h : o.build = .ok g) : g.Built := by
  obtain ⟨d, applied, frozen⟩ := ok_of_bind h
  refine ⟨o.edits, ?_⟩
  rw [foldl_attempt_of_applyAll applied]
  exact frozen

/-- `S → A b | A S a` and `A → ε`: to the left of `S` stands what can vanish. -/
def leftRecursive : Grammar where
  terminals := ["a", "b"]
  nonterminals := ["S", "A"]
  productions := [
    ⟨0, [.nonterminal 1, .terminal 1]⟩,
    ⟨0, [.nonterminal 1, .nonterminal 0, .terminal 0]⟩,
    ⟨1, [.epsilon]⟩]
  start := 0
  restarts := []

theorem leftRecursive_built : leftRecursive.Built :=
  ⟨[.terminal "a", .terminal "b", .nonterminal "S", .nonterminal "A", .start "S", .production "S" ["A", "b"],
    .production "S" ["A", "S", "a"], .production "A" []], rfl⟩

/-- `S → ( S ) S | ε`: balanced parentheses. -/
def balanced : Grammar where
  terminals := ["(", ")"]
  nonterminals := ["S"]
  productions := [⟨0, [.terminal 0, .nonterminal 0, .terminal 1, .nonterminal 0]⟩, ⟨0, [.epsilon]⟩]
  start := 0
  restarts := []

theorem balanced_built : balanced.Built :=
  ⟨[.terminal "(", .terminal ")", .nonterminal "S", .start "S", .production "S" ["(", "S", ")", "S"],
    .production "S" []], rfl⟩

/-- `S → i S E | x` and `E → ε | e S`: an `e` can belong to any `i` before it. -/
def dangling : Grammar where
  terminals := ["i", "e", "x"]
  nonterminals := ["S", "E"]
  productions := [
    ⟨0, [.terminal 0, .nonterminal 0, .nonterminal 1]⟩,
    ⟨0, [.terminal 2]⟩,
    ⟨1, [.epsilon]⟩,
    ⟨1, [.terminal 1, .nonterminal 0]⟩]
  start := 0
  restarts := []

theorem dangling_built : dangling.Built :=
  ⟨[.terminal "i", .terminal "e", .terminal "x", .nonterminal "S", .nonterminal "E", .start "S",
    .production "S" ["i", "S", "E"], .production "S" ["x"], .production "E" [], .production "E" ["e", "S"]], rfl⟩

/-- `S → A ε a`, `A → b A | ε`, `U → b U` and `W → $ V`: the start reaches neither `U` nor `W`, `U` derives no word and `V`
    has no rule. -/
def scattered : Grammar where
  terminals := ["a", "b", ";"]
  nonterminals := ["S", "A", "U", "V", "W"]
  productions := [
    ⟨0, [.nonterminal 1, .epsilon, .terminal 0]⟩,
    ⟨1, [.terminal 1, .nonterminal 1]⟩,
    ⟨1, [.epsilon]⟩,
    ⟨2, [.terminal 1, .nonterminal 2]⟩,
    ⟨4, [.endMarker, .nonterminal 3]⟩]
  start := 0
  restarts := [2]

theorem scattered_built : scattered.Built :=
  ⟨[.terminal "a", .terminal "b", .terminal ";", .nonterminal "S", .nonterminal "A", .nonterminal "U", .nonterminal "V",
    .nonterminal "W", .start "S", .production "S" ["A", "ε", "a"], .production "A" ["b", "A"], .production "A" [],
    .production "U" ["b", "U"], .production "W" ["$", "V"], .restart "U"], rfl⟩

end Grammar
end Lookahead
