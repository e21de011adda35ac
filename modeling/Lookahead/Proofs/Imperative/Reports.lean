import Lookahead.Proofs.Imperative.Spacing
import Lookahead.Proofs.Machine.Sources
import Lookahead.Proofs.Report.Csv

/-! Reports of compilations read back. The rules of the language keep what would break a row or a line out of the tokens: no
word holds a blank, and an identifier is spelled with letters, digits and underscores. -/

namespace Lookahead
namespace Imperative

open Pattern Chunk

variable {c : Char} {chunk : Chunk} {source : String} {t : Token} {g : Grammar}

/-! ### Spellings of words -/

theorem not_blank_of_mem (word : chunk.IsWord rules) (member : c ∈ chunk.text) : CharClass.space.contains c = false := by
  obtain ⟨rest, ⟨single, -⟩ | ⟨w, listed, far, -⟩⟩ := word_cases word
  · obtain ⟨d, alone⟩ := List.length_eq_one_iff.mp single
    rw [alone, List.mem_singleton] at member
    rw [member]
    exact (word_begins word alone).1
  · have matched := Rule.matches_of_reach word.some far
    obtain ⟨k, visible, has⟩ := matched.reads_allowed (plain_word w listed) c member
    refine Bool.eq_false_iff.mpr fun space => ?_
    rw [not_contains_of_isVisible space k visible] at has
    cases has

/-- Whether a class has no character that ends a field or begins a quoted one. -/
def isBare (k : CharClass) : Bool := !k.contains ',' && !k.contains '\n' && !k.contains '"'

theorem plain_identifier : ∀ w ∈ words, w.2 = .identifier → w.1.plain isBare = true := by decide +kernel

theorem bare_of_mem (word : chunk.IsWord rules) (reading : chunk.reading = .matched (.token .identifier))
    (member : c ∈ chunk.text) : c ≠ ',' ∧ c ≠ '\n' ∧ c ≠ '"' := by
  obtain ⟨rest, ⟨-, unmatched, -⟩ | ⟨w, listed, far, kind⟩⟩ := word_cases word
  · cases reading.symm.trans unmatched
  · have identifier : w.2 = .identifier := Effect.token.inj (Reading.matched.inj (kind.symm.trans reading))
    have matched := Rule.matches_of_reach word.some far
    obtain ⟨k, bare, has⟩ := matched.reads_allowed (plain_identifier w listed identifier) c member
    simp only [isBare, Bool.and_eq_true, Bool.not_eq_true'] at bare
    obtain ⟨⟨comma, newline⟩, quote⟩ := bare
    refine ⟨?_, ?_, ?_⟩ <;> rintro rfl <;> simp_all

/-! ### Sources of tokens -/

theorem of_mem_tokens (member : t ∈ (Scan.ofText rules source).tokens) :
    (∃ chunk : Chunk, chunk.IsWord rules ∧ chunk.token? = some t) ∨ t.kind = .eof ∧ t.source = "" := by
  rcases List.mem_append.mp member with inside | closing
  · obtain ⟨chunk, here, token⟩ := List.mem_filterMap.mp inside
    have shown : chunk ∈ Chunk.shown (Scan.ofText rules source).chunks := List.mem_filter.mpr ⟨here, by rw [token]; rfl⟩
    exact .inl ⟨chunk, isWord_of_mem separates_space.inside shown, token⟩
  · cases List.mem_singleton.mp closing
    exact .inr ⟨rfl, rfl⟩

theorem newline_not_mem_source (member : t ∈ (Scan.ofText rules source).tokens) : '\n' ∉ t.source.toList := by
  rcases of_mem_tokens member with ⟨chunk, word, token⟩ | ⟨-, empty⟩
  · rw [(of_token? token).1]
    intro newline
    have blank := not_blank_of_mem word newline
    cases blank
  · rw [empty]
    decide

theorem bare_source (member : t ∈ (Scan.ofText rules source).tokens) (kind : t.kind = .identifier) : Csv.Bare t.source := by
  rcases of_mem_tokens member with ⟨chunk, word, token⟩ | ⟨closing, -⟩
  · have reading : chunk.reading = .matched (.token .identifier) := by
      unfold token? at token
      split at token
      · cases token
      · rename_i kind' reading
        cases token
        rw [reading, show kind' = .identifier from kind]
      · cases token
        cases kind
    intro c here
    rw [(of_token? token).1] at here
    exact bare_of_mem word reading here
  · cases kind.symm.trans closing

/-! ### Declared names -/

theorem plain_declared (g : Grammar) (trace : Bool) (source : String) :
    ∀ e ∈ (compileWith (machine g trace) source).declared.entries, Csv.Plain e := by
  have spelled : ∀ t ∈ (Scan.ofText rules source).tokens,
      (machine g trace).SpellsAs Csv.Bare (fun text => Csv.Bare text ∧ text ≠ "") t := by
    intro t member
    refine Machine.spellsAs_of_settings ?_ (bare_source member) ?_ ?_
    · show "CONST" ≠ "ID"
      decide
    · show Csv.Bare "ID"
      simp [Csv.Bare]
    · show ∀ text ∈ ["int", "float"], Csv.Bare text ∧ text ≠ ""
      simp [Csv.Bare]
  intro e member
  obtain ⟨name, text, same, bare⟩ := Machine.declared_spelled spelled e member
  refine ⟨name, fun type known => ?_⟩
  rw [same] at known
  cases known
  exact bare

/-- The report of tokens is read back to the tokens, whatever they hold, and so different tokens have different reports. Of
    a compilation the lines of declared names, split at their commas, tell the serial, the name, the type, the line and the
    column of each entry in order, and the table itself is read back. -/
theorem reports_read_back : (∀ ts, Csv.readTokens (Csv.tokens ts) = some ts) ∧ Function.Injective Csv.tokens ∧
    ∀ source trace, ∃ c, compile source trace = .ok c ∧
      (lines (Csv.declarations c.declared).toList).tail.map Csv.fields = c.declared.entries.map (fun e =>
        [toString e.serial, e.name, e.type.getD "", toString e.pos.line, toString e.pos.column]) ∧
      Csv.readDeclarations (Csv.declarations c.declared) = some c.declared := by
  refine ⟨Csv.readTokens_tokens, fun ts ts' same => ?_, fun source trace => ?_⟩
  · have read := Csv.readTokens_tokens ts
    rw [same, Csv.readTokens_tokens] at read
    exact (Option.some.inj read).symm
  · obtain ⟨g, result, -⟩ := grammar_isLanguage
    have plain := plain_declared g trace source
    exact ⟨_, compile_eq result source trace, Csv.fields_declarations plain, Csv.readDeclarations_declarations plain⟩

/-! ### Traces -/

theorem grammar_unbroken (result : grammar = .ok g) : g.Unbroken := by
  have evaluated : (match grammar with
      | .ok g => decide (g.terminals = outline.terminals ∧ g.nonterminals = outline.nonterminals)
      | .error _ => false) = true := by
    decide +kernel
  rw [result] at evaluated
  obtain ⟨terminals, nonterminals⟩ := of_decide_eq_true evaluated
  have unbroken : ∀ name ∈ outline.terminals ++ outline.nonterminals, '\n' ∉ name.toList := by
    simp [outline]
  rw [Grammar.Unbroken, terminals, nonterminals]
  exact unbroken

/-- Where no name, lookahead or label holds a newline, the report of steps is a grid with a line for each step under a head
    and a rule, and that of a table begins with one that has a line for each nonterminal. Its lines are cut at the bars that
    are not escaped, as many in all of them, and so the texts of the cells are read back. The traces of compilations hold no
    newline. -/
theorem grids_read_back :
    (∀ (g : Grammar) (steps : List Grid.Step), g.Unbroken → (∀ s ∈ steps, s.Unbroken) →
      (lines (Grid.stepGrid g steps).toList).length = steps.length + 2 ∧
      (∀ line ∈ lines (Grid.stepGrid g steps).toList, Grid.openBars false line = 5) ∧
      ((lines (Grid.stepGrid g steps).toList).drop 2).map Grid.cells = steps.map (·.texts g)) ∧
    (∀ (g : Grammar) (t : Table), g.Unbroken → ∃ head rule rows,
      (lines (Grid.table g t).toList).takeWhile (· ≠ []) = head :: rule :: rows ∧ rows.length = g.nonterminals.length ∧
      (∀ line ∈ head :: rule :: rows, Grid.openBars false line = g.terminals.length + 3) ∧
      Grid.cells head = "Non-Terminal" :: g.columns.map (fun column => g.name column.toSymbol) ∧
      rule = '|' :: (List.replicate (g.terminals.length + 2) ['-', '-', '-', '|']).flatten ∧
      rows.map Grid.cells = g.nonterminals.zipIdx.map fun (name, i) => Grid.rowTexts g t name i) ∧
    ∀ source, ∃ c, compile source true = .ok c ∧ c.machine.grammar.Unbroken ∧
      ∀ r ∈ c.trace, (Grid.Step.ofRow r).Unbroken := by
  refine ⟨fun _ _ => Grid.stepGrid_shows, fun _ t names => Grid.table_shows names t, fun source => ?_⟩
  obtain ⟨g, result, -⟩ := grammar_isLanguage
  have names := grammar_unbroken result
  refine ⟨_, compile_eq result source true, names, ?_⟩
  exact Machine.unbroken_trace (m := machine g true) names fun t => newline_not_mem_source

/-- A grammar whose names hold bars and backslashes. -/
def barred : Grammar := ⟨⟨["|", "a\\"], ["\\|S"]⟩, [⟨0, [.terminal 0]⟩], 0, []⟩

def barredStep : Grid.Step := ⟨[.nonterminal 0, .endMarker], "|", some 0, .matched (.terminal 1)⟩

theorem grids_read_back_barred : barred.Unbroken ∧ barredStep.Unbroken ∧
    ((lines (Grid.stepGrid barred [barredStep]).toList).drop 2).map Grid.cells =
      [["$ \\|S", "|", "\\|S → |", "Match 'a\\'"]] ∧
    ∃ head rule line, (lines (Grid.table barred ⟨[⟨0, .terminal 0, 0⟩], []⟩).toList).takeWhile (· ≠ []) = [head, rule, line] ∧
      Grid.cells head = ["Non-Terminal", "|", "a\\", "$"] ∧ Grid.cells line = ["\\|S", "0", "", ""] := by
  have names : barred.Unbroken := by simp [barred, Grammar.Unbroken]
  have step : barredStep.Unbroken := ⟨by simp [barredStep], nofun⟩
  obtain ⟨-, -, steps⟩ := grids_read_back.1 barred [barredStep] names (by simpa using step)
  obtain ⟨head, rule, rows, grid, count, -, titles, -, shown⟩ :=
    grids_read_back.2.1 barred ⟨[⟨0, .terminal 0, 0⟩], []⟩ names
  obtain ⟨line, rfl⟩ := List.length_eq_one_iff.mp count
  exact ⟨names, step, steps, head, rule, line, grid, titles, (List.cons.inj shown).1⟩

end Imperative
end Lookahead
