import Lookahead.Imperative.Compile
import Lookahead.Proofs.Imperative.Grammar
import Lookahead.Proofs.Machine.Trail
import Lookahead.Proofs.Scan.Chunks

/-! What a compilation finds. Unmatched characters come first, each in its place, and what the parser finds comes behind
them; the table has no conflicts to warn of. The token of an unmatched character stands for no terminal, so that no source
with one is accepted, and the others are accepted if and only if the grammar derives them. -/

namespace Lookahead

/-! ### The tokens of chunks -/

namespace Chunk
variable {rules : List Rule} {pos : Position} {text : List Char} {chunks : List Chunk}

theorem token?_of_unmatched {chunk : Chunk} (unmatched : chunk.reading = .unmatched) :
    chunk.token? = some ⟨.invalid, String.ofList chunk.text, chunk.pos⟩ := by rw [token?, unmatched]

/-- A token has the kind that some rule gives it, or it is an unmatched character. -/
theorem Tile.kind_of_token? (h : Tile rules pos text chunks) {chunk : Chunk} {t : Token} (member : chunk ∈ chunks)
    (token : chunk.token? = some t) :
    (∃ effect, chunk.reading = .matched effect ∧ ∃ r ∈ rules, r.effect = .token t.kind) ∨
      chunk.reading = .unmatched ∧ t.kind = .invalid := by
  unfold token? at token
  split at token
  · cases token
  · rename_i matched
    cases token
    exact .inl ⟨_, matched, h.effect_mem member matched⟩
  · cases token
    exact .inr ⟨‹_›, rfl⟩

/-- Where no rule makes invalid tokens, those are the unmatched characters. -/
theorem Tile.filter_invalid (h : Tile rules pos text chunks) (valid : ∀ r ∈ rules, r.effect ≠ .token .invalid) :
    (chunks.filterMap token?).filter (·.kind = .invalid) = (chunks.filter (·.reading = .unmatched)).filterMap token? := by
  rw [List.filter_filterMap, List.filterMap_filter]
  refine List.filterMap_congr fun chunk member => ?_
  cases token : chunk.token? with
  | none => rw [ite_self, Option.filter_none]
  | some t =>
    rcases h.kind_of_token? member token with ⟨effect, matched, r, rule, same⟩ | ⟨unmatched, invalid⟩
    · have kind : t.kind ≠ .invalid := fun invalid => valid r rule (by rw [same, invalid])
      simp [matched, kind]
    · simp [unmatched, invalid]

end Chunk

/-- Tokens that stand for terminals are valid. -/
theorem Machine.Reads.valid {m : Machine} {tokens : List Token} {word : List Nat} (reads : m.Reads tokens word) :
    ∀ t ∈ tokens, t.kind ≠ .invalid := by
  intro t member invalid
  have column : m.column? t ∈ word.map fun t => some (Column.terminal t) := reads ▸ List.mem_map_of_mem member
  obtain ⟨_, -, same⟩ := List.mem_map.mp column
  rw [column?, invalid] at same
  cases same

namespace Imperative

/-! ### Compilations -/

/-- No rule makes invalid tokens, or tokens that close the stream. -/
theorem effect_ne : ∀ r ∈ rules, r.effect ≠ .token .eof ∧ r.effect ≠ .token .invalid := by
  have checked : rules.all (fun r => decide (r.effect ≠ .token .eof ∧ r.effect ≠ .token .invalid)) = true := by decide
  exact fun r member => of_decide_eq_true (List.all_eq_true.mp checked r member)

theorem tile_scan (source : String) : Chunk.Tile rules .start source.toList (Scan.ofText rules source).chunks :=
  Chunk.tile_cut ..

theorem not_isEof (source : String) : ∀ t ∈ (Scan.ofText rules source).chunks.filterMap Chunk.token?, (!t.isEof) = true := by
  intro t member
  obtain ⟨chunk, here, token⟩ := List.mem_filterMap.mp member
  have unclosed : t.kind ≠ .eof := by
    rcases (tile_scan source).kind_of_token? here token with ⟨-, -, r, rule, same⟩ | ⟨-, invalid⟩
    · exact fun closing => (effect_ne r rule).1 (by rw [same, closing])
    · rw [invalid]
      nofun
  rw [Token.isEof, decide_eq_false unclosed]
  rfl

/-- The closing record stands behind all tokens. -/
theorem takeWhile_tokens (source : String) : (Scan.ofText rules source).tokens.takeWhile (!·.isEof) =
    (Scan.ofText rules source).chunks.filterMap Chunk.token? := by
  rw [Scan.tokens, List.takeWhile_append_of_pos (not_isEof source)]
  exact List.append_nil _

/-- The finding that an invalid token is reported by. -/
def invalidToken (t : Token) : Diagnostic := ⟨.lexical, "Invalid character '" ++ t.source ++ "'", t.pos⟩

/-- The invalid tokens are the unmatched characters. -/
theorem filter_invalid (source : String) : (Scan.ofText rules source).tokens.filter (·.kind = .invalid) =
    ((Scan.ofText rules source).chunks.filter (·.reading = .unmatched)).filterMap Chunk.token? := by
  rw [Scan.tokens, List.filter_append, (tile_scan source).filter_invalid fun r rule => (effect_ne r rule).2]
  exact List.append_nil _

/-- Each of them is reported in its place. -/
theorem map_invalidToken (source : String) :
    ((Scan.ofText rules source).tokens.filter (·.kind = .invalid)).map invalidToken =
      (Scan.ofText rules source).unmatched.map invalidCharacter := by
  rw [filter_invalid, ← (tile_scan source).map_filterMap_unmatched? (List.Subset.refl _), List.map_map]
  rfl

theorem ofSeverity_invalidToken {k : Severity} (other : k ≠ .lexical) (ts : List Token) :
    Diagnostic.ofSeverity k (ts.map invalidToken) = [] := by
  refine List.filter_eq_nil_iff.mpr fun d member same => other ?_
  obtain ⟨t, -, rfl⟩ := List.mem_map.mp member
  exact (of_decide_eq_true same).symm

theorem compile_eq {g : Grammar} (result : grammar = .ok g) (source : String) (trace : Bool) :
    compile source trace = .ok (compileWith (machine g trace) source) := by
  unfold compile
  split
  · rename_i defect
    cases result.symm.trans defect
  · rename_i same
    cases result.symm.trans same
    rfl

section Language
variable {g : Grammar} (language : IsLanguage g) (trace : Bool) (source : String)
include language

/-- The table has no conflicts, so that nothing stands between the invalid tokens and what the parser finds. -/
theorem diagnostics_compileWith : (compileWith (machine g trace) source).diagnostics =
    ((Scan.ofText rules source).tokens.filter (·.kind = .invalid)).map invalidToken ++
      ((machine g trace).parse (Scan.ofText rules source).tokens .empty).diagnostics := by
  have calm : (machine g trace).table.conflicts = [] := List.isEmpty_iff.mp language.ll1
  rw [compileWith, calm, List.map_nil, List.append_nil, map_invalidToken]

/-- What is found beyond invalid tokens is found by the parser. -/
theorem ofSeverity_compileWith {k : Severity} (other : k ≠ .lexical) :
    Diagnostic.ofSeverity k (compileWith (machine g trace) source).diagnostics =
      Diagnostic.ofSeverity k ((machine g trace).parse (Scan.ofText rules source).tokens .empty).diagnostics := by
  rw [diagnostics_compileWith language, Diagnostic.ofSeverity_append, ofSeverity_invalidToken other, List.nil_append]

theorem accepts_compileWith : (compileWith (machine g trace) source).outcome = .accept ↔
    ∃ word, (machine g trace).Reads ((Scan.ofText rules source).chunks.filterMap Chunk.token?) word ∧
      g.Derives [.nonterminal g.start] (word.map .terminal) := by
  have accepts := Machine.accepts_iff_derives language.predictive { settings with trace } (Scan.ofText rules source).tokens
    .empty
  rw [takeWhile_tokens] at accepts
  exact accepts

theorem silent_compileWith : (compileWith (machine g trace) source).outcome = .accept ↔
    Diagnostic.ofSeverity .syntactic (compileWith (machine g trace) source).diagnostics = [] := by
  rw [ofSeverity_compileWith language trace source (by simp)]
  exact Machine.accepts_iff_silent

/-- A source with an invalid token is not accepted. -/
theorem valid_compileWith (accepted : (compileWith (machine g trace) source).outcome = .accept) :
    (Scan.ofText rules source).tokens.filter (·.kind = .invalid) = [] := by
  obtain ⟨word, reads, -⟩ := (accepts_compileWith language trace source).mp accepted
  -- It stands for no terminal, and all tokens of an accepted source do.
  rw [Scan.tokens, List.filter_append, List.filter_eq_nil_iff.mpr fun t here => by simpa using reads.valid t here]
  rfl

theorem severity_compileWith : ∀ d ∈ (compileWith (machine g trace) source).diagnostics, d.isError = true := by
  intro d member
  rw [diagnostics_compileWith language] at member
  rcases List.mem_append.mp member with lexical | parsed
  · obtain ⟨t, -, rfl⟩ := List.mem_map.mp lexical
    rfl
  · rcases severity_of_mem parsed with same | same <;> rw [Diagnostic.isError, same] <;> rfl

theorem succeeded_compileWith : (compileWith (machine g trace) source).succeeded = true ↔
    (compileWith (machine g trace) source).diagnostics = [] := by
  constructor
  · intro succeeded
    obtain ⟨-, clean⟩ := Bool.and_eq_true_iff.mp succeeded
    rw [Bool.not_eq_true', Diagnostic.hasErrors, List.any_eq_false] at clean
    refine List.eq_nil_iff_forall_not_mem.mpr fun d member => ?_
    exact clean d member (severity_compileWith language trace source d member)
  · intro clean
    have accepted := (silent_compileWith language trace source).mpr (by rw [clean]; rfl)
    rw [Compilation.succeeded, accepted, clean]
    rfl

end Language

/-- Every source compiles: the grammar has no defect. What is found are the invalid tokens in order, which are the characters
    that no rule matches, and then what the parser finds, which is no warning. The source is accepted if and only if it has no
    invalid token and the grammar derives its tokens from `program`; that is, if and only if nothing syntactic is found. -/
theorem compile_accounts (source : String) (trace : Bool) : ∃ g c chunks,
    grammar = .ok g ∧ g.name (.nonterminal g.start) = "program" ∧ compile source trace = .ok c ∧
    c.machine = machine g trace ∧ Chunk.Tile rules .start source.toList chunks ∧
    c.tokens = chunks.filterMap Chunk.token? ++ [.closing (Position.start.after source.toList)] ∧
    let invalid := c.tokens.filter (·.kind = .invalid)
    invalid = (chunks.filter (·.reading = .unmatched)).map (fun chunk => ⟨.invalid, String.ofList chunk.text, chunk.pos⟩) ∧
    c.diagnostics = invalid.map (fun t => ⟨.lexical, "Invalid character '" ++ t.source ++ "'", t.pos⟩) ++
      (c.machine.parse c.tokens .empty).diagnostics ∧
    (∀ d ∈ (c.machine.parse c.tokens .empty).diagnostics, d.severity = .syntactic ∨ d.severity = .semantic) ∧
    (c.outcome = .accept ↔ invalid = [] ∧ ∃ word, c.machine.Reads (chunks.filterMap Chunk.token?) word ∧
      g.Derives [.nonterminal g.start] (word.map .terminal)) ∧
    (c.outcome = .accept ↔ Diagnostic.ofSeverity .syntactic c.diagnostics = []) ∧
    (invalid ≠ [] → c.outcome = .reject ∧ Diagnostic.ofSeverity .syntactic c.diagnostics ≠ []) ∧
    (c.succeeded = true ↔ c.diagnostics = []) := by
  obtain ⟨g, result, language⟩ := grammar_isLanguage
  have derivable := accepts_compileWith language trace source
  have silent := silent_compileWith language trace source
  have valid := valid_compileWith language trace source
  have characters : (Scan.ofText rules source).tokens.filter (·.kind = .invalid) =
      ((Scan.ofText rules source).chunks.filter (·.reading = .unmatched)).map
        fun chunk => ⟨.invalid, String.ofList chunk.text, chunk.pos⟩ := by
    rw [filter_invalid, List.filterMap_eq_map_iff_forall_eq_some]
    exact fun chunk member => Chunk.token?_of_unmatched (of_decide_eq_true (List.mem_filter.mp member).2)
  refine ⟨g, compileWith (machine g trace) source, (Scan.ofText rules source).chunks, result, language.start,
    compile_eq result source trace, rfl, tile_scan source, rfl, characters, diagnostics_compileWith language trace source,
    fun d => severity_of_mem, ?_, silent, ?_, succeeded_compileWith language trace source⟩
  · exact ⟨fun accepted => ⟨valid accepted, derivable.mp accepted⟩, fun h => derivable.mpr h.2⟩
  · intro some
    have rejected : (compileWith (machine g trace) source).outcome ≠ .accept := fun accepted => some (valid accepted)
    refine ⟨?_, fun quiet => rejected (silent.mpr quiet)⟩
    cases outcome : (compileWith (machine g trace) source).outcome with
    | accept => exact absurd outcome rejected
    | reject => rfl

/-- No rule matches a number sign. -/
theorem compile_accounts_numberSign : ∃ c later, compile "int main ( ) \x7b # \x7d" true = .ok c ∧ c.outcome = .reject ∧
    c.diagnostics = ⟨.lexical, "Invalid character '#'", ⟨1, 16⟩⟩ :: later ∧
    Diagnostic.ofSeverity .syntactic c.diagnostics ≠ [] := by
  obtain ⟨g, c, chunks, result, -, compiled, -, -, -, -, found, -, -, -, forced, -⟩ :=
    compile_accounts "int main ( ) \x7b # \x7d" true
  have tokens : c.tokens = (Scan.ofText rules "int main ( ) \x7b # \x7d").tokens := by
    rw [Except.ok.inj (compiled.symm.trans (compile_eq result _ _))]
    rfl
  have invalid : c.tokens.filter (·.kind = .invalid) = [⟨.invalid, "#", ⟨1, 16⟩⟩] := by
    rw [tokens]
    decide +kernel
  rw [invalid] at found forced
  obtain ⟨rejected, syntactic⟩ := forced (List.cons_ne_nil _ _)
  exact ⟨c, _, compiled, rejected, found, syntactic⟩

end Imperative
end Lookahead
