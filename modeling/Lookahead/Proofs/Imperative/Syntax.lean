import Lookahead.Proofs.Grammar.Interpretation
import Lookahead.Proofs.Imperative.Grammar
import Lookahead.Proofs.Machine.Observation
import Mathlib.Tactic.FinCases

/-! Programs of the language and the words they are written in. What the grammar derives is the text of a program. -/

namespace Lookahead
namespace Imperative

/-! ### Words -/

/-- What stands for a value: an identifier, or an integer or float literal. -/
inductive Atom where
  | name (t : Token)
  | literal (t : Token)
  deriving DecidableEq, Repr

namespace Atom

def token : Atom → Token
  | name t => t
  | literal t => t

/-- The terminal that an atom's token stands for. -/
def terminal : Atom → String
  | name _ => settings.identifier
  | literal _ => settings.constant

end Atom

/-- A word of a program: a keyword, an operator or a mark, which all tokens of it share, or an atom. -/
inductive Word where
  | fixed (text : String)
  | atom (a : Atom)
  deriving DecidableEq, Repr

/-- Whether a token is what a word stands for. -/
def Word.Fits (m : Machine) : Word → Token → Prop
  | fixed text, t => m.terminalName? t = some text ∧ text ≠ settings.identifier ∧ text ≠ settings.constant
  | atom a, t => m.terminalName? t = some a.terminal ∧ t = a.token

/-- Whether tokens are those of words, in order. -/
def Spells (m : Machine) : List Word → List Token → Prop := List.Forall₂ (Word.Fits m)

/-! ### Programs -/

/-- One of some texts. -/
abbrev Choice (texts : List String) := { text : String // text ∈ texts }

/-- How far an expression reaches before it needs parentheses. -/
inductive Rank where
  | factor
  | term
  | sum
  deriving DecidableEq, Repr

/-- Expressions. Operators of one rank group from the left. -/
inductive Expr : Rank → Type
  | atom (a : Atom) : Expr .factor
  | group (e : Expr .sum) : Expr .factor
  | factor (e : Expr .factor) : Expr .term
  | product (left : Expr .term) (op : Choice ["*", "/"]) (right : Expr .factor) : Expr .term
  | term (e : Expr .term) : Expr .sum
  | sum (left : Expr .sum) (op : Choice ["+", "-"]) (right : Expr .term) : Expr .sum

def Expr.words {r : Rank} : Expr r → List Word
  | atom a => [.atom a]
  | group e => .fixed "(" :: (e.words ++ [.fixed ")"])
  | factor e => e.words
  | product left op right => left.words ++ .fixed op :: right.words
  | term e => e.words
  | sum left op right => left.words ++ .fixed op :: right.words

/-- A name to be declared, with the value it starts with. -/
structure Declarator where
  name : Token
  initial : Option (Expr .sum)

def initialWords : Option (Expr .sum) → List Word
  | none => []
  | some e => .fixed "=" :: e.words

def Declarator.words (x : Declarator) : List Word := .atom (.name x.name) :: initialWords x.initial

/-- Further declarators, a comma before each. -/
def otherWords (xs : List Declarator) : List Word := xs.flatMap fun x => .fixed "," :: x.words

/-- A statement that holds no others. -/
inductive Statement where
  | declare (type : Choice ["int", "float"]) (first : Declarator) (others : List Declarator)
  | assign (target : Token) (value : Expr .sum)
  | stepBefore (op : Choice ["++", "--"]) (target : Token)
  | stepBehind (target : Token) (op : Choice ["++", "--"])

def Statement.words : Statement → List Word
  | declare type first others => .fixed type :: (first.words ++ otherWords others ++ [.fixed ";"])
  | assign target value => .atom (.name target) :: .fixed "=" :: (value.words ++ [.fixed ";"])
  | stepBefore op target => [.fixed op, .atom (.name target), .fixed ";"]
  | stepBehind target op => [.atom (.name target), .fixed op, .fixed ";"]

/-- What a loop compares before each round. -/
structure Condition where
  left : Expr .sum
  op : Choice ["<", ">"]
  right : Expr .sum

def Condition.words (c : Condition) : List Word := c.left.words ++ .fixed c.op :: c.right.words

/-- Statements one after another, some of them loops over further ones. -/
inductive Block where
  | done
  | simple (s : Statement) (next : Block)
  | loop (c : Condition) (body next : Block)

namespace Block

def words : Block → List Word
  | done => []
  | simple s next => s.words ++ next.words
  | loop c body next =>
    .fixed "while" :: .fixed "(" :: (c.words ++ .fixed ")" :: .fixed "\x7b" :: (body.words ++ .fixed "\x7d" :: next.words))

/-- A whole program: the head, and the statements between braces. -/
def program (b : Block) : List Word :=
  [.fixed "int", .fixed "main", .fixed "(", .fixed ")", .fixed "\x7b"] ++ b.words ++ [.fixed "\x7d"]

end Block

/-! ### What symbols stand for -/

section Sense
variable {m : Machine}

/-- Tokens of something that is written in words. -/
def Writes {α : Type} (m : Machine) (words : α → List Word) (tokens : List Token) : Prop :=
  ∃ x, Spells m (words x) tokens

/-- Tokens that make another such thing of one that stands before them. -/
def Extends {α : Type} (m : Machine) (words : α → List Word) (tokens : List Token) : Prop :=
  ∀ before, Writes m words before → Writes m words (before ++ tokens)

/-- Tokens that make a block of one that stands behind them. -/
def Precedes (m : Machine) (tokens : List Token) : Prop :=
  ∀ after, Writes m Block.words after → Writes m Block.words (tokens ++ after)

/-- The tokens that a symbol of the grammar stands for. A tail is told by what it makes of what is before it, and a
    statement by what it makes of the statements behind it. -/
def sense (m : Machine) : String → List Token → Prop
  | "program" => Writes m Block.program
  | "stmts" => Writes m Block.words
  | "stmt" => Precedes m
  | "decl" => Precedes m
  | "expr_stmt" => Precedes m
  | "while_stmt" => Precedes m
  | "type" => Writes m fun c : Choice ["int", "float"] => [.fixed c]
  | "id_list" => Writes m fun xs : Declarator × List Declarator => xs.1.words ++ otherWords xs.2
  | "id_tail" => Writes m otherWords
  | "init_opt" => Writes m initialWords
  | "expr_stmt_tail" => fun tokens => ∀ t before, Spells m [.atom (.name t)] before → Precedes m (before ++ tokens)
  | "cond" => Writes m Condition.words
  | "rel_op" => Writes m fun c : Choice ["<", ">"] => [.fixed c]
  | "unary_op" => Writes m fun c : Choice ["++", "--"] => [.fixed c]
  | "add_op" => Writes m fun c : Choice ["+", "-"] => [.fixed c]
  | "mul_op" => Writes m fun c : Choice ["*", "/"] => [.fixed c]
  | "expr" => Writes m fun e : Expr .sum => e.words
  | "expr_tail" => Extends m fun e : Expr .sum => e.words
  | "term" => Writes m fun e : Expr .term => e.words
  | "term_tail" => Extends m fun e : Expr .term => e.words
  | "factor" => Writes m fun e : Expr .factor => e.words
  | "ε" => fun tokens => tokens = []
  | "ID" => Writes m fun t => [.atom (.name t)]
  | "CONST" => Writes m fun t => [.atom (.literal t)]
  | text => Spells m [.fixed text]

variable {tokens first second : List Token} {a b : List Word} {text : String}

theorem Spells.append (left : Spells m a first) (right : Spells m b second) : Spells m (a ++ b) (first ++ second) :=
  List.rel_append left right

/-! Expressions. -/

theorem sense_factor_name (h : Composed (sense m) ["ID"] tokens) : sense m "factor" tokens := by
  obtain ⟨t, written⟩ := Composed.singleton_iff.mp h
  exact ⟨.atom (.name t), written⟩

theorem sense_factor_literal (h : Composed (sense m) ["CONST"] tokens) : sense m "factor" tokens := by
  obtain ⟨t, written⟩ := Composed.singleton_iff.mp h
  exact ⟨.atom (.literal t), written⟩

theorem sense_factor_group (h : Composed (sense m) ["(", "expr", ")"] tokens) : sense m "factor" tokens := by
  obtain _ | ⟨left, _ | ⟨⟨e, inner⟩, _ | ⟨right, ⟨⟩⟩⟩⟩ := h
  exact ⟨.group e, by simpa [Expr.words] using left.append (inner.append right)⟩

theorem sense_term (h : Composed (sense m) ["factor", "term_tail"] tokens) : sense m "term" tokens := by
  obtain _ | ⟨⟨e, written⟩, _ | ⟨tail, ⟨⟩⟩⟩ := h
  rw [List.append_nil]
  exact tail _ ⟨.factor e, written⟩

theorem sense_term_tail (h : Composed (sense m) ["mul_op", "factor", "term_tail"] tokens) : sense m "term_tail" tokens := by
  obtain _ | ⟨⟨op, operator⟩, _ | ⟨⟨right, written⟩, _ | ⟨tail, ⟨⟩⟩⟩⟩ := h
  rintro before ⟨left, start⟩
  have further := tail _ ⟨.product left op right, start.append (operator.append written)⟩
  simpa using further

theorem sense_expr (h : Composed (sense m) ["term", "expr_tail"] tokens) : sense m "expr" tokens := by
  obtain _ | ⟨⟨e, written⟩, _ | ⟨tail, ⟨⟩⟩⟩ := h
  rw [List.append_nil]
  exact tail _ ⟨.term e, written⟩

theorem sense_expr_tail (h : Composed (sense m) ["add_op", "term", "expr_tail"] tokens) : sense m "expr_tail" tokens := by
  obtain _ | ⟨⟨op, operator⟩, _ | ⟨⟨right, written⟩, _ | ⟨tail, ⟨⟩⟩⟩⟩ := h
  rintro before ⟨left, start⟩
  have further := tail _ ⟨.sum left op right, start.append (operator.append written)⟩
  simpa using further

theorem sense_cond (h : Composed (sense m) ["expr", "rel_op", "expr"] tokens) : sense m "cond" tokens := by
  obtain _ | ⟨⟨left, first⟩, _ | ⟨⟨op, operator⟩, _ | ⟨⟨right, second⟩, ⟨⟩⟩⟩⟩ := h
  exact ⟨⟨left, op, right⟩, by simpa [Condition.words] using first.append (operator.append second)⟩

/-! Statements. -/

theorem sense_init_opt (h : Composed (sense m) ["=", "expr"] tokens) : sense m "init_opt" tokens := by
  obtain _ | ⟨equals, _ | ⟨⟨e, written⟩, ⟨⟩⟩⟩ := h
  exact ⟨some e, by simpa [initialWords] using equals.append written⟩

theorem sense_id_list (h : Composed (sense m) ["ID", "init_opt", "id_tail"] tokens) : sense m "id_list" tokens := by
  obtain _ | ⟨⟨t, name⟩, _ | ⟨⟨e, initial⟩, _ | ⟨⟨xs, others⟩, ⟨⟩⟩⟩⟩ := h
  exact ⟨⟨⟨t, e⟩, xs⟩, by simpa [Declarator.words] using name.append (initial.append others)⟩

theorem sense_id_tail (h : Composed (sense m) [",", "ID", "init_opt", "id_tail"] tokens) : sense m "id_tail" tokens := by
  obtain _ | ⟨comma, _ | ⟨⟨t, name⟩, _ | ⟨⟨e, initial⟩, _ | ⟨⟨xs, others⟩, ⟨⟩⟩⟩⟩⟩ := h
  refine ⟨⟨t, e⟩ :: xs, ?_⟩
  simpa [otherWords, Declarator.words] using comma.append (name.append (initial.append others))

theorem sense_decl (h : Composed (sense m) ["type", "id_list", ";"] tokens) : sense m "decl" tokens := by
  obtain _ | ⟨⟨type, keyword⟩, _ | ⟨⟨⟨x, xs⟩, names⟩, _ | ⟨stop, ⟨⟩⟩⟩⟩ := h
  rintro after ⟨b, behind⟩
  refine ⟨.simple (.declare type x xs) b, ?_⟩
  simpa [Block.words, Statement.words] using keyword.append (names.append (stop.append behind))

theorem sense_assign (h : Composed (sense m) ["=", "expr", ";"] tokens) : sense m "expr_stmt_tail" tokens := by
  obtain _ | ⟨equals, _ | ⟨⟨e, value⟩, _ | ⟨stop, ⟨⟩⟩⟩⟩ := h
  rintro t before target after ⟨b, behind⟩
  refine ⟨.simple (.assign t e) b, ?_⟩
  simpa [Block.words, Statement.words] using target.append (equals.append (value.append (stop.append behind)))

theorem sense_step_behind (fixed : sense m text = Spells m [.fixed text]) (listed : text ∈ ["++", "--"])
    (h : Composed (sense m) [text, ";"] tokens) : sense m "expr_stmt_tail" tokens := by
  obtain _ | ⟨operator, _ | ⟨stop, ⟨⟩⟩⟩ := h
  rw [fixed] at operator
  rintro t before target after ⟨b, behind⟩
  refine ⟨.simple (.stepBehind t ⟨text, listed⟩) b, ?_⟩
  simpa [Block.words, Statement.words] using target.append (operator.append (stop.append behind))

theorem sense_expr_stmt (h : Composed (sense m) ["ID", "expr_stmt_tail"] tokens) : sense m "expr_stmt" tokens := by
  obtain _ | ⟨⟨t, target⟩, _ | ⟨tail, ⟨⟩⟩⟩ := h
  rw [List.append_nil]
  exact tail t _ target

theorem sense_step_before (h : Composed (sense m) ["unary_op", "ID", ";"] tokens) : sense m "expr_stmt" tokens := by
  obtain _ | ⟨⟨op, operator⟩, _ | ⟨⟨t, name⟩, _ | ⟨stop, ⟨⟩⟩⟩⟩ := h
  rintro after ⟨b, behind⟩
  refine ⟨.simple (.stepBefore op t) b, ?_⟩
  simpa [Block.words, Statement.words] using operator.append (name.append (stop.append behind))

theorem sense_while (h : Composed (sense m) ["while", "(", "cond", ")", "\x7b", "stmts", "\x7d"] tokens) :
    sense m "while_stmt" tokens := by
  obtain _ | ⟨head, _ | ⟨left, _ | ⟨⟨c, condition⟩, _ | ⟨right, _ | ⟨first, _ | ⟨⟨b, body⟩, _ | ⟨last, ⟨⟩⟩⟩⟩⟩⟩⟩⟩ := h
  rintro after ⟨next, behind⟩
  refine ⟨.loop c b next, ?_⟩
  simpa [Block.words] using
    head.append (left.append (condition.append (right.append (first.append (body.append (last.append behind))))))

theorem sense_stmts (h : Composed (sense m) ["stmt", "stmts"] tokens) : sense m "stmts" tokens := by
  obtain _ | ⟨first, _ | ⟨rest, ⟨⟩⟩⟩ := h
  rw [List.append_nil]
  exact first _ rest

theorem sense_program (h : Composed (sense m) ["int", "main", "(", ")", "\x7b", "stmts", "\x7d"] tokens) :
    sense m "program" tokens := by
  obtain _ | ⟨type, _ | ⟨main, _ | ⟨left, _ | ⟨right, _ | ⟨first, _ | ⟨⟨b, body⟩, _ | ⟨last, ⟨⟩⟩⟩⟩⟩⟩⟩⟩ := h
  exact ⟨b, by simpa [Block.program] using
    type.append (main.append (left.append (right.append (first.append (body.append last)))))⟩

/-! Alternatives of one symbol or none. -/

theorem sense_unit {x : String} (h : Composed (sense m) [x] tokens) : sense m x tokens := Composed.singleton_iff.mp h

theorem writes_choice {texts : List String} (listed : text ∈ texts) (h : Spells m [.fixed text] tokens) :
    Writes m (fun c : Choice texts => [.fixed c]) tokens :=
  ⟨⟨text, listed⟩, h⟩

theorem writes_nil {α : Type} {words : α → List Word} {x : α} (blank : words x = []) (h : Composed (sense m) ["ε"] tokens) :
    Writes m words tokens := by
  obtain rfl : tokens = [] := sense_unit h
  exact ⟨x, blank ▸ .nil⟩

theorem extends_nil {α : Type} {words : α → List Word} (h : Composed (sense m) ["ε"] tokens) : Extends m words tokens := by
  obtain rfl : tokens = [] := sense_unit h
  intro before written
  rwa [List.append_nil]

/-- Each production stands for nothing but what its head does. -/
theorem sense_of_composed : ∀ p ∈ outline.productions, ∀ tokens, Composed (sense m) p.2 tokens → sense m p.1 tokens := by
  -- One argument for each production, in the order of the outline.
  simp only [outline, List.forall_mem_cons]
  refine ⟨fun _ => sense_program, fun _ => sense_stmts, fun _ => writes_nil (x := Block.done) rfl, fun _ => sense_unit,
    fun _ => sense_unit, fun _ => sense_unit, fun _ => sense_decl, fun _ h => writes_choice (by decide) (sense_unit h),
    fun _ h => writes_choice (by decide) (sense_unit h), fun _ => sense_id_list, fun _ => sense_id_tail,
    fun _ => writes_nil (x := []) rfl, fun _ => sense_init_opt, fun _ => writes_nil (x := none) rfl, fun _ => sense_expr_stmt,
    fun _ => sense_step_before, fun _ => sense_assign, fun _ => sense_step_behind rfl (by decide),
    fun _ => sense_step_behind rfl (by decide), fun _ => sense_while, fun _ => sense_cond,
    fun _ h => writes_choice (by decide) (sense_unit h), fun _ h => writes_choice (by decide) (sense_unit h),
    fun _ => sense_expr, fun _ => sense_expr_tail, fun _ => extends_nil, fun _ => sense_term, fun _ => sense_term_tail,
    fun _ => extends_nil, fun _ => sense_factor_name, fun _ => sense_factor_literal, fun _ => sense_factor_group,
    fun _ h => writes_choice (by decide) (sense_unit h), fun _ h => writes_choice (by decide) (sense_unit h),
    fun _ h => writes_choice (by decide) (sense_unit h), fun _ h => writes_choice (by decide) (sense_unit h),
    fun _ h => writes_choice (by decide) (sense_unit h), fun _ h => writes_choice (by decide) (sense_unit h), nofun⟩

/-- A terminal stands for each of its tokens. -/
theorem sense_of_terminalName? {t : Token} (listed : text ∈ outline.terminals) (named : m.terminalName? t = some text) :
    sense m text [t] := by
  by_cases identifier : text = "ID"
  · subst identifier
    exact ⟨t, .cons ⟨named, rfl⟩ .nil⟩
  by_cases constant : text = "CONST"
  · subst constant
    exact ⟨t, .cons ⟨named, rfl⟩ .nil⟩
  have written : Spells m [.fixed text] [t] := .cons ⟨named, identifier, constant⟩ .nil
  fin_cases listed <;> first | exact written | contradiction

/-- The tokens that a machine reads are each what their terminal stands for. -/
theorem sense_of_reads (language : IsLanguage m.grammar) {word : List Nat} (reads : m.Reads tokens word) :
    List.Forall₂ (fun c t => sense m (m.grammar.name c.toSymbol) [t]) (word.map Column.terminal) tokens := by
  induction tokens generalizing word with
  | nil =>
    rw [List.map_eq_nil_iff.mp reads.symm]
    exact .nil
  | cons t rest ih =>
    obtain _ | ⟨i, word⟩ := word
    · cases reads
    obtain ⟨column, later⟩ := List.cons.inj reads
    have named : m.terminalName? t = some (m.grammar.name (.terminal i)) := by rw [Machine.terminalName?, column]
    have listed := (Machine.of_terminalName? named).1
    rw [language.terminals] at listed
    exact .cons (sense_of_terminalName? listed named) (ih later)

/-- What the grammar derives is the text of a program. -/
theorem program_of_derives (language : IsLanguage m.grammar) {word : List Nat} (reads : m.Reads tokens word)
    (derived : m.grammar.Derives [.nonterminal m.grammar.start] (word.map .terminal)) :
    Writes m Block.program tokens := by
  rw [← Grammar.map_terminal] at derived
  obtain ⟨ids, yields⟩ := Grammar.Yields.of_derives derived
  have bodies : ∀ p ∈ m.grammar.productions, ∀ items, Composed (fun s => sense m (m.grammar.name s)) p.body items →
      sense m (m.grammar.name (.nonterminal p.head)) items := by
    intro p member items body
    have listed : (m.grammar.name (.nonterminal p.head), p.body.map m.grammar.name) ∈ outline.productions :=
      language.productions ▸ List.mem_map_of_mem member
    exact sense_of_composed _ listed items (body.map m.grammar.name)
  have whole := sense_unit <| Composed.map m.grammar.name <|
    Grammar.composed_of_yields rfl bodies yields (sense_of_reads language reads)
  rw [language.start] at whole
  exact whole

end Sense

end Imperative
end Lookahead
