import Lookahead.Proofs.Grammar.Edits
import Lookahead.Proofs.Machine.Portions
import Lookahead.Proofs.Report.Grid

/-! What a run shows of its tokens. A step leaves some last part of the input, and so each text of the trace is the source of
a token or made of names and such sources. A name is declared for the source of an identifier under that of a type keyword,
and so the table holds no other spellings. -/

namespace Lookahead

/-! ### Spellings -/

namespace Scope
variable {name type : String → Prop} {role : Role} {s : Scope} {t : Token}

/-- Declared names are spelled in one way, and their types, as that of the declaration being read, in another. -/
structure Spelled (name type : String → Prop) (s : Scope) : Prop where
  declaring : ∀ text, s.declaring = some text → type text
  declared : ∀ e ∈ s.declared.entries, name e.name ∧ ∃ text, e.type = some text ∧ type text

theorem Spelled.fresh (spelled : s.Spelled name type) : (Scope.fresh s.declared).Spelled name type :=
  ⟨nofun, spelled.declared⟩

theorem Spelled.resolve {settings : Settings} (spelled : s.Spelled name type) : (s.resolve settings t).1.Spelled name type := by
  unfold Scope.resolve
  split <;> exact ⟨spelled.declaring, spelled.declared⟩

theorem Spelled.declare {text : String} (spelled : s.Spelled name type) (known : type text) (source : name t.source) :
    (s.declare text t).1.Spelled name type := by
  unfold Scope.declare Declarations.insert
  split
  · rename_i inserted
    split at inserted
    · cases inserted
    · cases inserted
      refine ⟨spelled.declaring, fun e member => ?_⟩
      rcases List.mem_append.mp member with old | new
      · exact spelled.declared e old
      · cases List.mem_singleton.mp new
        exact ⟨source, text, rfl, known⟩
  · exact ⟨spelled.declaring, spelled.declared⟩

theorem Spelled.identifier {settings : Settings} (spelled : s.Spelled name type) (source : name t.source) :
    (s.identifier settings t).1.Spelled name type := by
  unfold Scope.identifier
  split
  · rename_i text known
    split
    · exact spelled.resolve
    · exact spelled.declare (spelled.declaring text known) source
  · exact spelled.resolve

/-- The type in force is the one before, if it is not the source of a type keyword. -/
theorem eq_or_of_nextDeclaring {source text : String} {declaring : Option String}
    (next : nextDeclaring role source declaring = some text) :
    declaring = some text ∨ role.isTypeKeyword = true ∧ source = text := by
  unfold nextDeclaring at next
  split at next
  · cases next
  · split at next
    · rename_i opens
      exact .inr ⟨opens, Option.some.inj next⟩
    · exact .inl next

theorem Spelled.observe (spelled : s.Spelled name type) (settings : Settings)
    (identifier : role.isIdentifier = true → name t.source)
    (keyword : role.isIdentifier = false → role.isConstant = false → role.isTypeKeyword = true → type t.source) :
    (s.observe settings role t).1.Spelled name type := by
  unfold Scope.observe
  split
  · rename_i names
    exact spelled.identifier (identifier names)
  · rename_i names
    split
    · exact spelled
    · rename_i constants
      refine ⟨fun text known => ?_, spelled.declared⟩
      rcases eq_or_of_nextDeclaring known with same | ⟨opens, rfl⟩
      · exact spelled.declaring text same
      · exact keyword (Bool.eq_false_iff.mpr names) (Bool.eq_false_iff.mpr constants) opens

end Scope

namespace Machine
variable {m : Machine} {s t later : State} {events : List Event} {run : Run} {fault : SyntaxFault} {r : Row}

/-! ### Unread tokens -/

theorem input_suffix_of_step (h : m.step s = .next events later) : later.input.tokens <:+ s.input.tokens := by
  cases Move.of_step h with
  | skip _ => exact List.suffix_rfl
  | consume _ tokens _ _ =>
    rw [tokens]
    exact List.suffix_cons ..
  | expand _ _ _ => exact List.suffix_rfl
  | resume _ _ found =>
    obtain ⟨skipped, sync, tokens, -, -⟩ := resync_some found
    rw [tokens]
    exact (List.suffix_cons sync _).trans (List.suffix_append ..)

theorem input_suffix_of_reaches (h : Reaches m.step s t) : t.input.tokens <:+ s.input.tokens := by
  induction h with
  | refl => exact List.suffix_rfl
  | tail _ next ih =>
    obtain ⟨events, next⟩ := next
    exact (input_suffix_of_step next).trans ih

/-! ### Texts of the trace -/

/-- Neither the names of the grammar nor the sources of the unread tokens hold a newline. -/
structure Unbroken (m : Machine) (s : State) : Prop where
  names : m.grammar.Unbroken
  sources : ∀ t ∈ s.input.tokens, '\n' ∉ t.source.toList

theorem Unbroken.of_suffix (unbroken : m.Unbroken s) (left : later.input.tokens <:+ s.input.tokens) : m.Unbroken later :=
  ⟨unbroken.names, fun t member => unbroken.sources t (left.subset member)⟩

theorem Unbroken.pop (unbroken : m.Unbroken s) (below : List Symbol) : m.Unbroken (s.pop below) :=
  unbroken.of_suffix List.suffix_rfl

theorem newline_not_mem_text {i : Input} (sources : ∀ t ∈ i.tokens, '\n' ∉ t.source.toList) : '\n' ∉ i.text.toList := by
  unfold Input.text
  cases tokens : i.tokens with
  | nil => simp [endMarkerName]
  | cons t rest => exact sources t (tokens ▸ List.mem_cons_self)

theorem newline_not_mem_expected (names : m.grammar.Unbroken) (n : Nat) : '\n' ∉ (m.expected n).toList := by
  unfold expected
  split
  · exact Grid.newline_not_mem_name names _
  · rw [String.toList_intercalate, List.map_map]
    refine newline_not_mem_intercalate (by simp) fun text member => ?_
    obtain ⟨c, -, rfl⟩ := List.mem_map.mp member
    exact Grid.newline_not_mem_name names _

theorem Unbroken.message {top : Symbol} (unbroken : m.Unbroken s) (refused : m.Refuses s top fault) :
    '\n' ∉ fault.message.toList := by
  have name := Grid.newline_not_mem_name unbroken.names
  have source {token : Token} {rest : List Token} (tokens : s.input.tokens = token :: rest) : '\n' ∉ token.source.toList :=
    unbroken.sources token (tokens ▸ List.mem_cons_self)
  have quoted {before text after : String} (left : '\n' ∉ before.toList) (between : '\n' ∉ text.toList)
      (right : '\n' ∉ after.toList) : '\n' ∉ (before ++ text ++ after).toList :=
    newline_not_mem_append (newline_not_mem_append left between) right
  cases refused with
  | trailing tokens => exact quoted (by decide) (source tokens) (by decide)
  | ended _ => exact quoted (by decide) (name _) (by decide)
  | mismatch tokens _ => exact quoted (quoted (by decide) (name _) (by decide)) (source tokens) (by decide)
  | cycle _ => exact quoted (by decide) (name _) (by decide)
  | unpredictedEnd _ _ => exact quoted (by decide) (newline_not_mem_expected unbroken.names _) (by decide)
  | unpredicted _ tokens => exact quoted (quoted (by decide) (source tokens) (by decide)) (name _) (by decide)

theorem Unbroken.of_row (unbroken : m.Unbroken s) {action : Action} (label : '\n' ∉ action.label.toList)
    (member : Event.row r = s.row action) : (Grid.Step.ofRow r).Unbroken := by
  cases member
  refine ⟨newline_not_mem_text unbroken.sources, fun text told => ?_⟩
  cases action <;> cases told <;> exact label

theorem Unbroken.faultEvents {top : Symbol} (unbroken : m.Unbroken s) (refused : m.Refuses s top fault)
    (member : Event.row r ∈ s.faultEvents fault) : (Grid.Step.ofRow r).Unbroken := by
  simp only [State.faultEvents, List.mem_cons, List.not_mem_nil, or_false, reduceCtorEq, false_or] at member
  rcases member with error | panic
  · exact unbroken.of_row (by simpa [Action.label] using unbroken.message refused) error
  · exact unbroken.of_row (by simp [Action.label]) panic

/-- The rows of a step. -/
theorem Unbroken.of_step (unbroken : m.Unbroken s) (member : .row r ∈ (m.step s).events) :
    (Grid.Step.ofRow r).Unbroken := by
  cases turn : m.step s with
  | halt events outcome scope =>
    rw [turn] at member
    cases Move.of_step turn with
    | exhausted _ => cases member
    | @accept below _ _ =>
      exact (unbroken.pop below).of_row (by simp [Action.label]) (List.mem_singleton.mp member)
    | @abort _ below _ _ refused _ =>
      rcases List.mem_append.mp member with reported | last
      · exact (unbroken.pop below).faultEvents refused reported
      · have ended : m.Unbroken { s.pop below with input := { s.input with tokens := [] } } :=
          unbroken.of_suffix List.nil_suffix
        exact ended.of_row (by simp [Action.label]) (List.mem_singleton.mp last)
  | next events later =>
    have next := unbroken.of_suffix (input_suffix_of_step turn)
    rw [turn] at member
    cases Move.of_step turn with
    | skip _ => cases member
    | @consume _ below _ _ _ _ _ _ _ _ =>
      rcases List.mem_cons.mp member with matched | other
      · exact (unbroken.pop below).of_row (by simp [Action.label]) matched
      · simp at other
    | expand _ _ _ => exact next.of_row (by simp [Action.label]) (List.mem_singleton.mp member)
    | @resume _ below _ _ _ refused _ =>
      rcases List.mem_append.mp member with reported | last
      · exact (unbroken.pop below).faultEvents refused reported
      · exact next.of_row (by simp [Action.label]) (List.mem_singleton.mp last)

theorem Unbroken.of_run (unbroken : m.Unbroken s) (h : Halts m.step s run) (member : .row r ∈ run.events) :
    (Grid.Step.ofRow r).Unbroken := by
  obtain ⟨t, reached, reported⟩ := h.mem_events member
  exact (unbroken.of_suffix (input_suffix_of_reaches reached)).of_step reported

/-- Where neither names nor sources hold a newline, no text of the trace does. -/
theorem unbroken_trace {stream : List Token} {known : Declarations} (names : m.grammar.Unbroken)
    (sources : ∀ t ∈ stream, '\n' ∉ t.source.toList) :
    ∀ r ∈ (m.parse stream known).trace, (Grid.Step.ofRow r).Unbroken := by
  have unbroken : m.Unbroken (m.initial (.ofTokens stream) known) :=
    ⟨names, fun t member => sources t ((List.takeWhile_prefix _).subset member)⟩
  intro r member
  rw [parse, report] at member
  split at member
  · obtain ⟨e, reported, shown⟩ := List.mem_filterMap.mp member
    cases e with
    | fault f pos => cases shown
    | row _ =>
      cases shown
      rcases List.mem_append.mp reported with first | later
      · exact unbroken.of_row (by simp [Action.label]) (List.mem_singleton.mp first)
      · exact unbroken.of_run (m.halts_runFrom _) later
  · cases member

/-! ### Declared names -/

section Declared
variable {name type : String → Prop} {known : Declarations} {scope last : Scope} {portions : List Portion}
  {found : List (SemanticFault × Position)} {token : Token}

/-- Where a token is matched as an identifier its source is the spelling of a name, and where it opens a declaration that of
    a type. -/
def SpellsAs (m : Machine) (name type : String → Prop) (token : Token) : Prop :=
  ∀ n, m.column? token = some (.terminal n) → ((m.role n).isIdentifier = true → name token.source) ∧
    ((m.role n).isIdentifier = false → (m.role n).isConstant = false → (m.role n).isTypeKeyword = true → type token.source)

/-- It is enough that identifiers are spelled as names, and the terminals of the settings as names and types. -/
theorem spellsAs_of_settings (apart : m.settings.constant ≠ m.settings.identifier)
    (identifiers : token.kind = .identifier → name token.source) (own : name m.settings.identifier)
    (keywords : ∀ text ∈ m.settings.typeKeywords, type text) : m.SpellsAs name type token := by
  intro n column
  have named {text : String} (same : (m.grammar.terminal? text).map Column.terminal = some (.terminal n)) :
      m.role n = m.settings.role text := by
    obtain ⟨i, listed, column⟩ := Option.map_eq_some_iff.mp same
    cases column
    rw [role, Vocabulary.name_of_terminal? listed]
  have constant (same : (m.grammar.terminal? m.settings.constant).map Column.terminal = some (.terminal n)) :
      (m.role n).isIdentifier = false ∧ (m.role n).isConstant = true := by
    rw [named same]
    exact ⟨decide_eq_false apart, decide_eq_true rfl⟩
  have word (same : (m.grammar.terminal? token.source).map Column.terminal = some (.terminal n)) :
      ((m.role n).isIdentifier = true → name token.source) ∧ ((m.role n).isTypeKeyword = true → type token.source) := by
    rw [named same]
    refine ⟨fun identifier => ?_, fun keyword => keywords _ (List.contains_iff_mem.mp keyword)⟩
    rw [of_decide_eq_true identifier]
    exact own
  unfold column? at column
  split at column
  · cases column
  · rename_i kind
    refine ⟨fun _ => identifiers kind, fun other => ?_⟩
    rw [named column] at other
    exact absurd rfl (of_decide_eq_false other)
  · obtain ⟨other, literal⟩ := constant column
    simp [other, literal]
  · obtain ⟨other, literal⟩ := constant column
    simp [other, literal]
  · cases column
  · exact ⟨(word column).1, fun _ _ => (word column).2⟩
  · exact ⟨(word column).1, fun _ _ => (word column).2⟩
  · exact ⟨(word column).1, fun _ _ => (word column).2⟩

theorem Narrates.spelled (h : m.Narrates scope portions last found) (spelled : scope.Spelled name type)
    (tokens : ∀ t ∈ portions.flatMap Portion.tokens, m.SpellsAs name type t) : last.Spelled name type := by
  induction h with
  | nil => exact spelled
  | matched column observed _ ih =>
    rw [List.flatMap_cons] at tokens
    have here := tokens _ (List.mem_append_left _ (List.mem_singleton_self _)) _ column
    refine ih ?_ fun t member => tokens t (List.mem_append_right _ member)
    have next := spelled.observe m.settings here.1 here.2
    rwa [observed] at next
  | skipped _ ih =>
    rw [List.flatMap_cons] at tokens
    exact ih spelled.fresh fun t member => tokens t (List.mem_append_right _ member)
  | lost => exact spelled

/-- The names and types of the table are spelled as the tokens are that declare them. -/
theorem declared_spelled {stream : List Token} (tokens : ∀ t ∈ stream, m.SpellsAs name type t) :
    ∀ e ∈ (m.parse stream .empty).declared.entries, name e.name ∧ ∃ text, e.type = some text ∧ type text := by
  obtain ⟨portions, accounts, told⟩ := (m.halts_runFrom (m.initial (.ofTokens stream) .empty)).narrates (grounded_entry ..) []
  refine (told.spelled ⟨nofun, nofun⟩ fun t member => ?_).declared
  rw [accounts.tokens] at member
  exact tokens t ((List.takeWhile_prefix _).subset member)

end Declared

end Machine
end Lookahead
