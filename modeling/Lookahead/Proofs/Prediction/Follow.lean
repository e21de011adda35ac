import Lookahead.Prediction.Follow
import Lookahead.Proofs.Prediction.First

/-! The solved FOLLOW sets are those of the derivations. What a pass adds can stand behind its nonterminal, by induction
over the passes. The last pass adds nothing, so that FOLLOW covers what stands behind the nonterminals of a body, and
with each step of a derivation what stands behind those of the derived form. -/

namespace Lookahead

/-! ### What stands behind a nonterminal -/

namespace Grammar
variable {g : Grammar} {m n : Nat} {x : Symbol}

/-- A nonterminal derives a form in which a symbol stands right after another nonterminal. -/
def Beside (g : Grammar) (n : Nat) (x : Symbol) : Prop :=
  ∃ m < g.nonterminals.length, ∃ before after,
    g.Derives [.nonterminal m] (before ++ .nonterminal n :: x :: after)

/-- The start derives a form that ends in a nonterminal. -/
def Ends (g : Grammar) (n : Nat) : Prop := ∃ before, g.Derives [.nonterminal g.start] (before ++ [.nonterminal n])

/-- What a symbol says as a member of FOLLOW of a nonterminal: a terminal can stand right after it, and `$` too, or the
    input can end there. -/
def Follows (g : Grammar) (n : Nat) : Symbol → Prop
  | .terminal t => g.Beside n (.terminal t)
  | .endMarker => g.Ends n ∨ g.Beside n .endMarker
  | .epsilon => False
  | .nonterminal _ => False

section Bodies
variable {p : Production} {before after : List Symbol}

theorem derives_body (member : p ∈ g.productions) (body : p.body = before ++ .nonterminal n :: after) :
    g.Derives [.nonterminal p.head] (erased before ++ .nonterminal n :: erased after) := by
  have step := Derives.of_production member
  rwa [body, erased_append, erased_cons_nonterminal] at step

theorem Begins.follows (declared : g.Declared) (member : p ∈ g.productions)
    (body : p.body = before ++ .nonterminal n :: after) (begins : g.Begins (erased after) x) (visible : x ≠ .epsilon) :
    g.Follows n x := by
  have beside : ∀ {x rest}, g.Derives (erased after) (x :: rest) → g.Beside n x := fun {x rest} h =>
    ⟨p.head, declared.heads p member, erased before, rest,
      (derives_body member body).trans ((h.append_left [.nonterminal n]).append_left (erased before))⟩
  cases x with
  | terminal t =>
    obtain ⟨rest, h⟩ := begins
    exact beside h
  | endMarker =>
    obtain ⟨rest, h⟩ := begins
    exact Or.inr (beside h)
  | epsilon => exact absurd rfl visible
  | nonterminal m => exact begins

/-- What follows a head follows the last symbol of its body. -/
theorem Follows.of_head (member : p ∈ g.productions) (body : p.body = before ++ .nonterminal n :: after)
    (vanishes : g.Derives (erased after) []) (follows : g.Follows p.head x) : g.Follows n x := by
  have last : g.Derives [.nonterminal p.head] (erased before ++ [.nonterminal n]) :=
    (derives_body member body).trans ((vanishes.append_left [.nonterminal n]).append_left (erased before))
  have beside : ∀ {x}, g.Beside p.head x → g.Beside n x := by
    rintro x ⟨m, bound, left, right, h⟩
    refine ⟨m, bound, left ++ erased before, right, ?_⟩
    have later := h.trans ((last.append_right (x :: right)).append_left left)
    simpa only [List.append_assoc, List.cons_append, List.nil_append] using later
  cases x with
  | terminal t => exact beside follows
  | endMarker =>
    rcases follows with ⟨left, h⟩ | here
    · refine Or.inl ⟨left ++ erased before, ?_⟩
      have later := h.trans (last.append_left left)
      rwa [← List.append_assoc] at later
    · exact Or.inr (beside here)
  | epsilon => exact follows
  | nonterminal m => exact follows

end Bodies
end Grammar

/-! ### Forms that FOLLOW sets cover -/

/-- What stands right behind a place: it begins what comes there, or all of that vanishes and it comes last. -/
def FirstSets.Ahead (first : FirstSets) (form : List Symbol) (last : Symbol → Prop) (x : Symbol) : Prop :=
  (x ∈ first.ofSequence form ∧ x ≠ .epsilon) ∨ (.epsilon ∈ first.ofSequence form ∧ last x)

theorem FirstSets.ahead_append {first : FirstSets} {a b : List Symbol} {last : Symbol → Prop} {x : Symbol} :
    first.Ahead (a ++ b) last x ↔ first.Ahead a (first.Ahead b last) x := by
  simp only [Ahead, mem_ofSequence_append]
  by_cases here : x = .epsilon <;> simp [here, and_or_left, or_assoc, and_assoc]

namespace FollowSets
variable {g : Grammar} {first : FirstSets} {f : FollowSets} {n : Nat} {x : Symbol} {last last' : Symbol → Prop}

/-- Whatever stands behind a nonterminal of a form is in its set. -/
def Covers (first : FirstSets) (f : FollowSets) (last : Symbol → Prop) : List Symbol → Prop
  | [] => True
  | .nonterminal n :: rest => (∀ x, first.Ahead rest last x → x ∈ f.ofNonterminal n) ∧ Covers first f last rest
  | .terminal _ :: rest => Covers first f last rest
  | .epsilon :: rest => Covers first f last rest
  | .endMarker :: rest => Covers first f last rest

theorem covers_append {a b : List Symbol} :
    Covers first f last (a ++ b) ↔ Covers first f (first.Ahead b last) a ∧ Covers first f last b := by
  induction a with
  | nil => simp [Covers]
  | cons s rest ih => cases s <;> simp [Covers, ih, FirstSets.ahead_append, and_assoc]

theorem covers_erased {a : List Symbol} : Covers first f last (erased a) ↔ Covers first f last a := by
  induction a with
  | nil => rfl
  | cons s rest ih => cases s <;> simp [Covers, ih, FirstSets.Ahead, FirstSets.mem_ofSequence_erased]

theorem Covers.mono {a : List Symbol} (covers : Covers first f last a) (fewer : ∀ x, last' x → last x) :
    Covers first f last' a := by
  induction a with
  | nil => trivial
  | cons s rest ih =>
    cases s with
    | nonterminal n =>
      refine ⟨fun x ahead => covers.1 x ?_, ih covers.2⟩
      rcases ahead with here | ⟨vanishes, after⟩
      · exact Or.inl here
      · exact Or.inr ⟨vanishes, fewer x after⟩
    | terminal t => exact ih covers
    | epsilon => exact ih covers
    | endMarker => exact ih covers

/-- The sets cover every body where FOLLOW of its head may come last. -/
def Closed (g : Grammar) (first : FirstSets) (f : FollowSets) : Prop :=
  ∀ p ∈ g.productions, Covers first f (· ∈ f.ofNonterminal p.head) p.body

/-- A step keeps a form covered. The body takes the place of its head, and what was behind the head is in its set. -/
theorem Covers.of_produces {a b : List Symbol} (closed : Closed g first f) (firstClosed : FirstSets.Closed g first)
    (covers : Covers first f last a) (step : g.Produces a b) : Covers first f last b := by
  cases step with
  | @rewrite before after p member =>
    obtain ⟨left, behind, right⟩ := covers_append.mp covers
    refine covers_append.mpr ⟨left.mono fun x ahead => ?_, covers_append.mpr ⟨?_, right⟩⟩
    · have inside : ∀ y, y ∈ first.ofSequence (erased p.body ++ after) →
          y ∈ first.ofSequence (.nonterminal p.head :: after) :=
        fun y => firstClosed.of_produces (.rewrite [] after member)
      rcases ahead with ⟨here, visible⟩ | ⟨vanishes, after⟩
      · exact Or.inl ⟨inside x here, visible⟩
      · exact Or.inr ⟨inside _ vanishes, after⟩
    · exact covers_erased.mpr ((closed p member).mono behind)

theorem Covers.of_derives {a b : List Symbol} (closed : Closed g first f) (firstClosed : FirstSets.Closed g first)
    (covers : Covers first f last a) (h : g.Derives a b) : Covers first f last b := by
  induction h with
  | refl => exact covers
  | tail _ step ih => exact ih.of_produces closed firstClosed step

/-! ### Passes -/

theorem mem_additions {head : Nat} {rest : List Symbol} :
    x ∈ additions first f head rest ↔ first.Ahead rest (· ∈ f.ofNonterminal head) x := by
  simp only [additions, FirstSets.Ahead]
  split
  · rename_i vanishes
    simp [vanishes]
  · rename_i visible
    constructor
    · intro member
      exact Or.inl ⟨member, fun same => visible (same ▸ member)⟩
    · rintro (⟨member, -⟩ | ⟨vanishes, -⟩)
      · exact member
      · exact absurd vanishes visible

theorem mem_extend {m : Nat} {set : SymbolSet} : x ∈ (f.extend m set).ofNonterminal n ↔
    x ∈ f.ofNonterminal n ∨ (m = n ∧ n < f.sets.length ∧ x ∈ set) := SymbolSet.mem_getD_modify

/-- A nonterminal of a body, with the head of the body and what comes behind the nonterminal. -/
structure Occurrence where
  head : Nat
  nonterminal : Nat
  rest : List Symbol

/-- The nonterminals of a body from left to right. -/
def occurrencesIn (head : Nat) : List Symbol → List Occurrence
  | [] => []
  | .nonterminal n :: rest => ⟨head, n, rest⟩ :: occurrencesIn head rest
  | .terminal _ :: rest => occurrencesIn head rest
  | .epsilon :: rest => occurrencesIn head rest
  | .endMarker :: rest => occurrencesIn head rest

/-- All nonterminals of bodies, in the order in which a pass comes to them. -/
def occurrences (g : Grammar) : List Occurrence := g.productions.flatMap fun p => occurrencesIn p.head p.body

theorem mem_occurrencesIn {head : Nat} {body : List Symbol} {o : Occurrence} : o ∈ occurrencesIn head body ↔
    o.head = head ∧ ∃ before, body = before ++ .nonterminal o.nonterminal :: o.rest := by
  induction body with
  | nil => simp [occurrencesIn]
  | cons s rest ih =>
    obtain ⟨_, n, after⟩ := o
    cases s <;> simp only [occurrencesIn, ih, List.cons_eq_append_iff, List.mem_cons, Occurrence.mk.injEq]
    all_goals grind

theorem mem_occurrences {o : Occurrence} : o ∈ occurrences g ↔
    ∃ p ∈ g.productions, o.head = p.head ∧ ∃ before, p.body = before ++ .nonterminal o.nonterminal :: o.rest := by
  simp only [occurrences, List.mem_flatMap, mem_occurrencesIn]

/-- What a pass does at a nonterminal of a body. -/
def note (first : FirstSets) (f : FollowSets) (o : Occurrence) : FollowSets :=
  f.extend o.nonterminal (additions first f o.head o.rest)

theorem passBody_eq {head : Nat} {body : List Symbol} :
    passBody first head body f = (occurrencesIn head body).foldl (note first) f := by
  induction body generalizing f with
  | nil => rfl
  | cons s rest ih => cases s <;> exact ih

theorem pass_eq : pass g first f = (occurrences g).foldl (note first) f := by
  rw [occurrences, List.foldl_flatMap]
  simp only [pass, passBody_eq]

theorem note_grows (f : FollowSets) (o : Occurrence) :
    note first f o = f ∨ SymbolSet.total f.sets < SymbolSet.total (note first f o).sets := by
  rcases SymbolSet.modify_grows f.sets o.nonterminal (additions first f o.head o.rest) with same | more
  · exact Or.inl (by rw [note, extend, same])
  · exact Or.inr more

/-! ### Every member stands behind its nonterminal -/

/-- Each set holds only what can follow its nonterminal. -/
def Sound (g : Grammar) (f : FollowSets) : Prop := ∀ n, ∀ x ∈ f.ofNonterminal n, g.Follows n x

namespace Sound

theorem note (declared : g.Declared) (firstSound : FirstSets.Sound g first) (sound : Sound g f) {o : Occurrence}
    (member : o ∈ occurrences g) : Sound g (note first f o) := by
  obtain ⟨p, hp, head, before, body⟩ := mem_occurrences.mp member
  intro n x hx
  rcases mem_extend.mp hx with old | ⟨rfl, -, new⟩
  · exact sound n x old
  rcases mem_additions.mp new with ⟨here, visible⟩ | ⟨vanishes, after⟩
  · exact (firstSound.ofSequence here).follows declared hp body visible
  · exact .of_head hp body (firstSound.ofSequence vanishes) (head ▸ sound o.head x after)

theorem initial : Sound g (FollowSets.initial g) := by
  intro n x hx
  rcases mem_extend.mp hx with old | ⟨rfl, -, new⟩
  · have empty : FollowSets.ofNonterminal ⟨g.nonterminals.map fun _ => .empty⟩ n = .empty := by
      simp only [ofNonterminal, List.getD_eq_getElem?_getD, List.getElem?_map]
      cases g.nonterminals[n]? <;> rfl
    rw [empty] at old
    exact absurd old SymbolSet.not_mem_empty
  · rw [SymbolSet.mem_singleton.mp new]
    exact Or.inl ⟨[], .refl _⟩

theorem solve (declared : g.Declared) (firstSound : FirstSets.Sound g first) : Sound g (FollowSets.solve g first) := by
  refine stabilize_keeps (Sound g) (fun f sound => ?_) _ initial
  rw [pass_eq]
  exact foldl_keeps (fun _ _ member sound => sound.note declared firstSound member) sound

end Sound

/-! ### A pass over the solved sets adds nothing -/

/-- The symbols that FOLLOW sets are made of. -/
def stock (g : Grammar) : List Symbol := (List.range g.terminals.length).map .terminal ++ [.endMarker]

theorem mem_stock_of_additions (firstFits : FirstSets.Fits g first) (within : SymbolSet.Within (stock g) f.sets) {head : Nat}
    {rest : List Symbol} (member : x ∈ additions first f head rest) : x ∈ stock g := by
  rcases mem_additions.mp member with ⟨here, visible⟩ | ⟨-, after⟩
  · have inside := firstFits.ofSequence here
    simpa [FirstSets.stock, stock, visible] using inside
  · exact within.mem_stock after

theorem within_note (firstFits : FirstSets.Fits g first) (within : SymbolSet.Within (stock g) f.sets) (o : Occurrence) :
    SymbolSet.Within (stock g) (note first f o).sets :=
  within.modify fun _ => mem_stock_of_additions firstFits within

theorem within_initial (g : Grammar) : SymbolSet.Within (stock g) (initial g).sets := by
  refine SymbolSet.Within.modify ?_ ?_
  · intro set member
    obtain ⟨_, -, rfl⟩ := List.mem_map.mp member
    exact ⟨SymbolSet.increasing_empty, fun _ h => nomatch h⟩
  · intro s hs
    rw [SymbolSet.mem_singleton.mp hs]
    simp [stock]

theorem within_solve (firstFits : FirstSets.Fits g first) : SymbolSet.Within (stock g) (solve g first).sets := by
  let kept (f : FollowSets) : Prop := SymbolSet.Within (stock g) f.sets
  have keeps : ∀ f, ∀ o ∈ occurrences g, kept f → kept (note first f o) := fun _ o _ within => within_note firstFits within o
  refine stabilize_keeps kept (fun f within => ?_) _ (within_initial g)
  rw [pass_eq]
  exact foldl_keeps keeps within

/-- FOLLOW holds declared columns only. -/
theorem declares_of_mem {c : Column} (member : c.toSymbol ∈ (solve g (.solve g)).ofNonterminal n) : g.Declares c.toSymbol := by
  have inside := (within_solve .solve).mem_stock member
  cases c with
  | terminal t => simpa [stock, Column.toSymbol, Vocabulary.Declares] using inside
  | endMarker => trivial

/-- What every pass keeps: one set for each nonterminal, with elements from the stock, and `$` behind the start. -/
structure Fits (g : Grammar) (f : FollowSets) : Prop where
  length : f.sets.length = g.nonterminals.length
  within : SymbolSet.Within (stock g) f.sets
  start : .endMarker ∈ f.ofNonterminal g.start

namespace Fits

theorem note (firstFits : FirstSets.Fits g first) (fits : Fits g f) (o : Occurrence) : Fits g (note first f o) where
  length := (List.length_modify ..).trans fits.length
  within := within_note firstFits fits.within o
  start := mem_extend.mpr (Or.inl fits.start)

theorem pass (firstFits : FirstSets.Fits g first) (fits : Fits g f) : Fits g (FollowSets.pass g first f) := by
  rw [pass_eq]
  exact foldl_keeps (fun _ o _ fits => fits.note firstFits o) fits

theorem initial (declared : g.Declared) : Fits g (FollowSets.initial g) where
  length := by simp [FollowSets.initial, extend]
  within := within_initial g
  start := by
    refine mem_extend.mpr (Or.inr ⟨rfl, ?_, SymbolSet.mem_singleton.mpr rfl⟩)
    rw [List.length_map]
    exact declared.start

theorem solve (declared : g.Declared) (firstFits : FirstSets.Fits g first) : Fits g (FollowSets.solve g first) :=
  stabilize_keeps (Fits g) (fun _ fits => fits.pass firstFits) _ (initial declared)

theorem total_lt (fits : Fits g f) : SymbolSet.total f.sets < bound g := by
  have most := fits.within.total_le
  have size : (stock g).length = g.terminals.length + 1 := by simp [stock]
  rw [fits.length, size] at most
  exact Nat.lt_succ_of_le most

end Fits

theorem Fits.ext {g' : Grammar} {f' : FollowSets} (fits : Fits g f) (fits' : Fits g' f')
    (nonterminals : g.nonterminals.length = g'.nonterminals.length)
    (same : ∀ i x, x ∈ f.ofNonterminal i ↔ x ∈ f'.ofNonterminal i) : f = f' :=
  congrArg FollowSets.mk
    (fits.within.ext fits'.within (by rw [fits.length, fits'.length, nonterminals]) fun i _ => same i)

theorem pass_solve (declared : g.Declared) (firstFits : FirstSets.Fits g first) :
    pass g first (solve g first) = solve g first := by
  refine stabilize_fixed (Fits g) (fun f => SymbolSet.total f.sets) (fun _ fits => fits.pass firstFits) (fun f => ?_)
    (fun f fits => Nat.le_of_lt_succ fits.total_lt) _ (Fits.initial declared) (Nat.lt_add_left _ (Nat.lt_succ_self _))
  rw [pass_eq]
  exact foldl_grows note_grows _ f

theorem mem_solve_of_ahead (declared : g.Declared) (firstFits : FirstSets.Fits g first) {o : Occurrence}
    (member : o ∈ occurrences g)
    (ahead : first.Ahead o.rest (· ∈ (solve g first).ofNonterminal o.head) x) :
    x ∈ (solve g first).ofNonterminal o.nonterminal := by
  have fixed := pass_solve declared firstFits
  rw [pass_eq] at fixed
  have same := foldl_fixed note_grows fixed o member
  obtain ⟨p, hp, -, before, body⟩ := mem_occurrences.mp member
  have known : o.nonterminal < (solve g first).sets.length := by
    rw [(Fits.solve declared firstFits).length]
    exact declared.bodies p hp (.nonterminal o.nonterminal) (by simp [body])
  have added : x ∈ (note first (solve g first) o).ofNonterminal o.nonterminal :=
    mem_extend.mpr (Or.inr ⟨rfl, known, mem_additions.mpr ahead⟩)
  rwa [same] at added

theorem closed_solve (declared : g.Declared) (firstFits : FirstSets.Fits g first) :
    Closed g first (solve g first) := by
  intro p hp
  -- Every end piece of the body is covered, from the shortest on.
  suffices pieces : ∀ rest before, p.body = before ++ rest →
      Covers first (solve g first) (· ∈ (solve g first).ofNonterminal p.head) rest from pieces p.body [] rfl
  intro rest
  induction rest with
  | nil => exact fun _ _ => trivial
  | cons s rest ih =>
    intro before body
    have later := ih (before ++ [s]) (by rw [body, List.append_assoc, List.singleton_append])
    cases s with
    | nonterminal n =>
      have member : (⟨p.head, n, rest⟩ : Occurrence) ∈ occurrences g :=
        mem_occurrences.mpr ⟨p, hp, rfl, before, body⟩
      exact ⟨fun x ahead => mem_solve_of_ahead declared firstFits member ahead, later⟩
    | terminal t => exact later
    | epsilon => exact later
    | endMarker => exact later

/-! ### Whatever stands behind a nonterminal is in its set -/

theorem mem_solve_of_covers (declared : g.Declared) {form before after : List Symbol} {c : Column}
    (covers : Covers (.solve g) (solve g (.solve g)) (fun _ => False) form) (known : ∀ s ∈ form, g.Declares s)
    (h : g.Derives form (before ++ .nonterminal n :: c.toSymbol :: after)) :
    c.toSymbol ∈ (solve g (.solve g)).ofNonterminal n := by
  have covered := covers.of_derives (closed_solve declared .solve) (FirstSets.closed_solve declared) h
  have here : g.Declares c.toSymbol := h.declares declared known _ (by simp)
  exact (covers_append.mp covered).2.1 _ (Or.inl ⟨FirstSets.Fits.solve.mem_column here, c.toSymbol_ne_epsilon⟩)

theorem covers_single (n : Nat) : Covers first f (fun _ => False) [.nonterminal n] := by
  refine ⟨fun x ahead => ?_, trivial⟩
  rcases ahead with ⟨here, visible⟩ | ⟨-, none⟩
  · exact absurd (FirstSets.mem_ofSequence_nil.mp here) visible
  · exact none.elim

theorem covers_pair {c : Column} (member : c.toSymbol ∈ f.ofNonterminal n) :
    Covers first f (fun _ => False) [.nonterminal n, c.toSymbol] := by
  refine ⟨fun x ahead => ?_, by cases c <;> trivial⟩
  rcases ahead with ⟨here, -⟩ | ⟨-, none⟩
  · cases c with
    | terminal t =>
      have inside := FirstSets.mem_ofSequence_singleton.mp here
      simp only [Column.toSymbol, FirstSets.ofSymbol] at inside
      split at inside
      · rwa [SymbolSet.mem_singleton.mp inside]
      · exact absurd inside SymbolSet.not_mem_empty
    | endMarker => rwa [SymbolSet.mem_singleton.mp (FirstSets.mem_ofSequence_singleton.mp here)]
  · exact none.elim

theorem mem_solve_of_beside (declared : g.Declared) {c : Column} (h : g.Beside n c.toSymbol) :
    c.toSymbol ∈ (solve g (.solve g)).ofNonterminal n := by
  obtain ⟨m, bound, before, after, h⟩ := h
  refine mem_solve_of_covers declared (covers_single m) ?_ h
  intro s hs
  rw [List.mem_singleton.mp hs]
  exact bound

/-- Behind the whole input comes its end, which the set of the start was given first. -/
theorem mem_solve_of_derives_start (declared : g.Declared) {before after : List Symbol} {c : Column}
    (h : g.Derives [.nonterminal g.start, .endMarker] (before ++ .nonterminal n :: c.toSymbol :: after)) :
    c.toSymbol ∈ (solve g (.solve g)).ofNonterminal n := by
  refine mem_solve_of_covers declared (covers_pair (c := .endMarker) (Fits.solve declared .solve).start) ?_ h
  intro s hs
  rcases List.mem_cons.mp hs with rfl | last
  · exact declared.start
  · rw [List.mem_singleton.mp last]
    trivial

theorem mem_solve (declared : g.Declared) : x ∈ (solve g (.solve g)).ofNonterminal n ↔ g.Follows n x := by
  refine ⟨Sound.solve declared .solve n x, fun follows => ?_⟩
  cases x with
  | terminal t => exact mem_solve_of_beside declared (c := .terminal t) follows
  | endMarker =>
    rcases follows with ⟨before, h⟩ | beside
    · have ended := h.append_right [.endMarker]
      rw [List.append_assoc] at ended
      exact mem_solve_of_derives_start declared (c := .endMarker) ended
    · exact mem_solve_of_beside declared (c := .endMarker) beside
  | epsilon => exact follows.elim
  | nonterminal m => exact follows.elim

/-- What follows a nonterminal that the start reaches follows it in a form derived from the whole input. -/
theorem derives_start_of_follows {c : Column}
    (reached : ∀ m < g.nonterminals.length, ∃ before after,
      g.Derives [.nonterminal g.start] (before ++ .nonterminal m :: after))
    (follows : g.Follows n c.toSymbol) :
    ∃ before after, g.Derives [.nonterminal g.start, .endMarker] (before ++ .nonterminal n :: c.toSymbol :: after) := by
  have beside : ∀ {x}, g.Beside n x → ∃ before after,
      g.Derives [.nonterminal g.start, .endMarker] (before ++ .nonterminal n :: x :: after) := by
    rintro x ⟨m, bound, before, after, h⟩
    obtain ⟨left, right, start⟩ := reached m bound
    refine ⟨left ++ before, after ++ (right ++ [.endMarker]), ?_⟩
    have whole := (start.trans ((h.append_right right).append_left left)).append_right [.endMarker]
    simpa only [List.append_assoc, List.cons_append, List.nil_append] using whole
  cases c with
  | terminal t => exact beside follows
  | endMarker =>
    rcases follows with ⟨before, h⟩ | here
    · refine ⟨before, [], ?_⟩
      have ended := h.append_right [.endMarker]
      rwa [List.append_assoc] at ended
    · exact beside here

end FollowSets

/-- The solved FOLLOW sets are exact. Where the start reaches every nonterminal they hold what can stand right after one
    in a form derived from the whole input. -/
theorem Sets.mem_follow_iff {g : Grammar} (built : g.Built) :
    (∀ n x, x ∈ (Sets.solve g).follow.ofNonterminal n ↔ g.Follows n x) ∧
    ((∀ m < g.nonterminals.length, ∃ before after,
        g.Derives [.nonterminal g.start] (before ++ .nonterminal m :: after)) →
      ∀ n (c : Column), c.toSymbol ∈ (Sets.solve g).follow.ofNonterminal n ↔ ∃ before after,
        g.Derives [.nonterminal g.start, .endMarker] (before ++ .nonterminal n :: c.toSymbol :: after)) := by
  refine ⟨fun n x => FollowSets.mem_solve built.declared, fun reached n c => ⟨fun member => ?_, ?_⟩⟩
  · exact FollowSets.derives_start_of_follows reached ((FollowSets.mem_solve built.declared).mp member)
  · rintro ⟨before, after, h⟩
    exact FollowSets.mem_solve_of_derives_start built.declared h

/-- Both nonterminals are reached, `a` and the end of input can stand behind `S`, and only `b` behind `A`. -/
theorem Sets.mem_follow_leftRecursive :
    Grammar.leftRecursive.Built ∧ Grammar.leftRecursive.Follows 0 (.terminal 0) ∧
      ¬Grammar.leftRecursive.Follows 1 .endMarker ∧
      ∃ before after, Grammar.leftRecursive.Derives [.nonterminal 0, .endMarker]
        (before ++ .nonterminal 1 :: .terminal 1 :: after) := by
  have solved := Sets.mem_follow_iff Grammar.leftRecursive_built
  refine ⟨Grammar.leftRecursive_built, (solved.1 0 (.terminal 0)).mp (by decide +kernel), ?_, ?_⟩
  · exact fun follows => absurd ((solved.1 1 .endMarker).mpr follows) (by decide +kernel)
  · refine (solved.2 ?_ 1 (.terminal 1)).mp (by decide +kernel)
    intro m bound
    have step := Grammar.Derives.of_production (g := Grammar.leftRecursive)
      (p := ⟨0, [.nonterminal 1, .terminal 1]⟩) (by decide)
    match m, bound with
    | 0, _ => exact ⟨[], [], .refl _⟩
    | 1, _ => exact ⟨[], [.terminal 1], step⟩

end Lookahead
