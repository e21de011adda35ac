import Lookahead.Proofs.Grammar.Built
import Mathlib.Logic.Relation

/-! Derivations of a grammar. A form is a sequence of symbols without `ε`, and a step puts the body of a production,
with `ε` left out, in the place of its head. A derivation of a sequence of columns can be done from the left, and then
the productions it applies tell it. -/

namespace Lookahead

/-! ### Forms -/

/-- A sequence with `ε` left out. -/
def erased (form : List Symbol) : List Symbol := form.filter (· ≠ .epsilon)

@[simp] theorem erased_nil : erased [] = [] := rfl

@[simp] theorem erased_cons_epsilon (rest : List Symbol) : erased (.epsilon :: rest) = erased rest := rfl

@[simp] theorem erased_cons_terminal (t : Nat) (rest : List Symbol) :
    erased (.terminal t :: rest) = .terminal t :: erased rest := rfl

@[simp] theorem erased_cons_nonterminal (n : Nat) (rest : List Symbol) :
    erased (.nonterminal n :: rest) = .nonterminal n :: erased rest := rfl

@[simp] theorem erased_cons_endMarker (rest : List Symbol) :
    erased (.endMarker :: rest) = .endMarker :: erased rest := rfl

@[simp] theorem erased_append (a b : List Symbol) : erased (a ++ b) = erased a ++ erased b := List.filter_append ..

theorem mem_erased {form : List Symbol} {s : Symbol} : s ∈ erased form ↔ s ∈ form ∧ s ≠ .epsilon := by
  simp [erased, List.mem_filter]

namespace Grammar

/-! ### Derivations -/

/-- One step of a derivation. -/
inductive Produces (g : Grammar) : List Symbol → List Symbol → Prop
  | rewrite (before after : List Symbol) {p : Production} (member : p ∈ g.productions) :
    Produces g (before ++ .nonterminal p.head :: after) (before ++ (erased p.body ++ after))

/-- Any number of steps. -/
def Derives (g : Grammar) : List Symbol → List Symbol → Prop := Relation.ReflTransGen g.Produces

variable {g : Grammar} {a b c d : List Symbol}

theorem Produces.append_left (before : List Symbol) (h : g.Produces a b) : g.Produces (before ++ a) (before ++ b) := by
  cases h with
  | rewrite x y member => simpa only [List.append_assoc] using Produces.rewrite (before ++ x) y member

theorem Produces.append_right (after : List Symbol) (h : g.Produces a b) : g.Produces (a ++ after) (b ++ after) := by
  cases h with
  | rewrite x y member =>
    simpa only [List.append_assoc, List.cons_append] using Produces.rewrite x (y ++ after) member

namespace Derives

theorem refl (a : List Symbol) : g.Derives a a := Relation.ReflTransGen.refl

theorem trans (first : g.Derives a b) (second : g.Derives b c) : g.Derives a c :=
  Relation.ReflTransGen.trans first second

theorem append_left (before : List Symbol) (h : g.Derives a b) : g.Derives (before ++ a) (before ++ b) :=
  Relation.ReflTransGen.lift (before ++ ·) (fun _ _ => Produces.append_left before) _ _ h

theorem append_right (after : List Symbol) (h : g.Derives a b) : g.Derives (a ++ after) (b ++ after) :=
  Relation.ReflTransGen.lift (· ++ after) (fun _ _ => Produces.append_right after) _ _ h

theorem append (left : g.Derives a b) (right : g.Derives c d) : g.Derives (a ++ c) (b ++ d) :=
  (left.append_right c).trans (right.append_left b)

theorem of_production {p : Production} (member : p ∈ g.productions) :
    g.Derives [.nonterminal p.head] (erased p.body) := by
  have step := Produces.rewrite [] [] member
  rw [List.nil_append, List.nil_append, List.append_nil] at step
  exact Relation.ReflTransGen.single step

theorem declares (declared : g.Declared) (h : g.Derives a b) (known : ∀ s ∈ a, g.Declares s) :
    ∀ s ∈ b, g.Declares s := by
  induction h with
  | refl => exact known
  | tail _ step ih =>
    cases step with
    | rewrite x y member =>
      intro s hs
      simp only [List.mem_append] at hs
      rcases hs with hs | hs | hs
      · exact ih s (List.mem_append_left _ hs)
      · exact declared.bodies _ member s (mem_erased.mp hs).1
      · exact ih s (List.mem_append_right _ (List.mem_cons_of_mem _ hs))

end Derives

/-! ### Derivations from the left -/

/-- A derivation that rewrites the first nonterminal in each step, by the productions of the given numbers. -/
inductive LeftDerives (g : Grammar) : List Symbol → List Nat → List Symbol → Prop
  | refl (form : List Symbol) : LeftDerives g form [] form
  | step (done : List Column) (rest : List Symbol) {id : Nat} {p : Production} {ids : List Nat} {target : List Symbol}
    (found : g.production? id = some p)
    (later : LeftDerives g (done.map Column.toSymbol ++ (erased p.body ++ rest)) ids target) :
    LeftDerives g (done.map Column.toSymbol ++ .nonterminal p.head :: rest) (id :: ids) target

/-- The first nonterminal of a form, and what stands before and behind it, are told by the form. -/
theorem first_nonterminal_unique {done done' : List Column} {n n' : Nat} {rest rest' : List Symbol}
    (h : done.map Column.toSymbol ++ .nonterminal n :: rest = done'.map Column.toSymbol ++ .nonterminal n' :: rest') :
    done.map Column.toSymbol = done'.map Column.toSymbol ∧ n = n' ∧ rest = rest' := by
  induction done generalizing done' with
  | nil =>
    cases done' with
    | nil =>
      cases h
      exact ⟨rfl, rfl, rfl⟩
    | cons c done' => cases c <;> cases h
  | cons c done ih =>
    cases done' with
    | nil => cases c <;> cases h
    | cons c' done' =>
      obtain ⟨same, later⟩ := List.cons.inj h
      obtain ⟨before, head, behind⟩ := ih later
      exact ⟨congrArg₂ List.cons same before, head, behind⟩

namespace LeftDerives
variable {ids : List Nat}

theorem concat {done : List Column} {rest : List Symbol} {id : Nat} {p : Production} (found : g.production? id = some p)
    (h : g.LeftDerives a ids (done.map Column.toSymbol ++ .nonterminal p.head :: rest)) :
    g.LeftDerives a (ids ++ [id]) (done.map Column.toSymbol ++ (erased p.body ++ rest)) := by
  generalize ends : done.map Column.toSymbol ++ .nonterminal p.head :: rest = target at h
  induction h with
  | refl form =>
    subst ends
    exact .step done rest found (.refl _)
  | step before behind found' _ ih => exact .step before behind found' (ih ends)

/-- The productions tell the form that a derivation from the left ends in. -/
theorem unique (h : g.LeftDerives a ids b) (h' : g.LeftDerives a ids c) : b = c := by
  induction h with
  | refl form =>
    cases h'
    rfl
  | step done rest found _ ih =>
    generalize begins : done.map Column.toSymbol ++ _ = form at h'
    cases h' with
    | step done' rest' found' later' =>
      cases found.symm.trans found'
      obtain ⟨before, -, rfl⟩ := first_nonterminal_unique begins
      rw [← before] at later'
      exact ih later'

theorem derives (h : g.LeftDerives a ids b) : g.Derives a b := by
  induction h with
  | refl form => exact .refl form
  | step done rest found _ ih =>
    have step := Produces.rewrite (done.map Column.toSymbol) rest (List.mem_of_getElem? found)
    exact Relation.ReflTransGen.head step ih

end LeftDerives

/-- Reading a form from the left: a column stands for itself, and a nonterminal for what the body of the production of
    the next number stands for. -/
inductive Yields (g : Grammar) : List Symbol → List Nat → List Column → Prop
  | nil : Yields g [] [] []
  | terminal (t : Nat) {rest : List Symbol} {ids : List Nat} {word : List Column} (later : Yields g rest ids word) :
    Yields g (.terminal t :: rest) ids (.terminal t :: word)
  | endMarker {rest : List Symbol} {ids : List Nat} {word : List Column} (later : Yields g rest ids word) :
    Yields g (.endMarker :: rest) ids (.endMarker :: word)
  | expand {n id : Nat} {p : Production} {rest : List Symbol} {ids : List Nat} {word : List Column}
    (found : g.production? id = some p) (head : p.head = n) (later : Yields g (erased p.body ++ rest) ids word) :
    Yields g (.nonterminal n :: rest) (id :: ids) word

namespace Yields
variable {ids : List Nat} {word : List Column}

theorem column (x : Column) {rest : List Symbol} (h : g.Yields rest ids word) :
    g.Yields (x.toSymbol :: rest) ids (x :: word) := by
  cases x with
  | terminal t => exact h.terminal t
  | endMarker => exact h.endMarker

theorem of_columns (word : List Column) : g.Yields (word.map Column.toSymbol) [] word := by
  induction word with
  | nil => exact .nil
  | cons x rest ih => exact ih.column x

theorem column_inv {x : Column} {rest : List Symbol} (h : g.Yields (x.toSymbol :: rest) ids word) :
    ∃ later, word = x :: later ∧ g.Yields rest ids later := by
  cases x with
  | terminal t => cases h with | terminal _ later => exact ⟨_, rfl, later⟩
  | endMarker => cases h with | endMarker later => exact ⟨_, rfl, later⟩

theorem append {left right : List Nat} {first second : List Column} (h₁ : g.Yields a left first)
    (h₂ : g.Yields b right second) : g.Yields (a ++ b) (left ++ right) (first ++ second) := by
  induction h₁ with
  | nil => exact h₂
  | terminal t _ ih => exact ih.terminal t
  | endMarker _ ih => exact ih.endMarker
  | expand found head _ ih =>
    rw [List.append_assoc] at ih
    exact .expand found head ih

theorem append_inv (h : g.Yields (a ++ b) ids word) :
    ∃ left right first second, ids = left ++ right ∧ word = first ++ second ∧ g.Yields a left first ∧
      g.Yields b right second := by
  generalize form : a ++ b = whole at h
  induction h generalizing a with
  | nil =>
    obtain ⟨rfl, rfl⟩ := List.append_eq_nil_iff.mp form
    exact ⟨[], [], [], [], rfl, rfl, .nil, .nil⟩
  | terminal t later ih =>
    cases a with
    | nil => subst form; exact ⟨[], _, [], _, rfl, rfl, .nil, later.terminal t⟩
    | cons s rest =>
      cases form
      obtain ⟨left, right, first, second, rfl, rfl, h₁, h₂⟩ := ih rfl
      exact ⟨left, right, .terminal t :: first, second, rfl, rfl, h₁.terminal t, h₂⟩
  | endMarker later ih =>
    cases a with
    | nil => subst form; exact ⟨[], _, [], _, rfl, rfl, .nil, later.endMarker⟩
    | cons s rest =>
      cases form
      obtain ⟨left, right, first, second, rfl, rfl, h₁, h₂⟩ := ih rfl
      exact ⟨left, right, .endMarker :: first, second, rfl, rfl, h₁.endMarker, h₂⟩
  | @expand n id p _ _ _ found head later ih =>
    cases a with
    | nil => subst form; exact ⟨[], _, [], _, rfl, rfl, .nil, .expand found head later⟩
    | cons s rest =>
      cases form
      -- The body takes the head's place in front of what is left of the first form.
      obtain ⟨left, right, first, second, rfl, rfl, h₁, h₂⟩ := ih (List.append_assoc _ rest b)
      exact ⟨id :: left, right, first, second, rfl, rfl, .expand found head h₁, h₂⟩

theorem derives (h : g.Yields a ids word) : g.Derives a (word.map Column.toSymbol) := by
  induction h with
  | nil => exact .refl _
  | terminal t _ ih => exact ih.append_left [.terminal t]
  | endMarker _ ih => exact ih.append_left [.endMarker]
  | @expand n id p rest ids word found head _ ih =>
    subst head
    exact ((Derives.of_production (List.mem_of_getElem? found)).append_right rest).trans ih

theorem leftDerives (done : List Column) (h : g.Yields a ids word) :
    g.LeftDerives (done.map Column.toSymbol ++ a) ids ((done ++ word).map Column.toSymbol) := by
  induction h generalizing done with
  | nil =>
    rw [List.append_nil, List.append_nil]
    exact .refl _
  | @terminal t rest _ word _ ih =>
    have later := ih (done ++ [.terminal t])
    rwa [List.map_append, List.append_assoc, List.append_assoc] at later
  | @endMarker rest _ word _ ih =>
    have later := ih (done ++ [.endMarker])
    rwa [List.map_append, List.append_assoc, List.append_assoc] at later
  | expand found head _ ih =>
    subst head
    exact .step done _ found (ih done)

theorem expand_behind (done : List Column) {rest : List Symbol} {id : Nat} {p : Production}
    (found : g.production? id = some p)
    (later : g.Yields (done.map Column.toSymbol ++ (erased p.body ++ rest)) ids word) :
    g.Yields (done.map Column.toSymbol ++ .nonterminal p.head :: rest) (id :: ids) word := by
  induction done generalizing word with
  | nil => exact .expand found rfl later
  | cons x done ih =>
    obtain ⟨word', rfl, later'⟩ := column_inv later
    exact (ih later').column x

/-- A derivation from the left that ends in columns is a reading of the form it starts from. -/
theorem of_leftDerives (h : g.LeftDerives a ids (word.map Column.toSymbol)) : g.Yields a ids word := by
  generalize ends : word.map Column.toSymbol = target at h
  induction h with
  | refl form =>
    subst ends
    exact of_columns word
  | step done rest found _ ih => exact expand_behind done found (ih ends)

theorem iff_leftDerives : g.Yields a ids word ↔ g.LeftDerives a ids (word.map Column.toSymbol) :=
  ⟨leftDerives [], of_leftDerives⟩

/-- A step that comes first can be put off until its nonterminal is the first one. -/
theorem of_produces (step : g.Produces a b) (h : g.Yields b ids word) : ∃ ids', g.Yields a ids' word := by
  cases step with
  | rewrite before after member =>
    obtain ⟨id, found⟩ := List.mem_iff_getElem?.mp member
    obtain ⟨left, right, first, second, rfl, rfl, h₁, h₂⟩ := append_inv h
    exact ⟨left ++ id :: right, h₁.append (.expand found rfl h₂)⟩

/-- What a form derives it derives from the left. -/
theorem of_derives (h : g.Derives a (word.map Column.toSymbol)) : ∃ ids, g.Yields a ids word := by
  induction h using Relation.ReflTransGen.head_induction_on with
  | refl => exact ⟨[], of_columns word⟩
  | head step _ ih =>
    obtain ⟨ids, later⟩ := ih
    exact of_produces step later

end Yields

theorem map_terminal (word : List Nat) : (word.map Column.terminal).map Column.toSymbol = word.map .terminal :=
  List.map_map ..

/-- A word that can be derived can be derived from the left. -/
theorem derives_iff_leftDerives {word : List Nat} :
    g.Derives a (word.map .terminal) ↔ ∃ ids, g.LeftDerives a ids (word.map .terminal) := by
  simp only [← map_terminal, ← Yields.iff_leftDerives]
  exact ⟨Yields.of_derives, fun ⟨_, h⟩ => h.derives⟩

end Grammar
end Lookahead
