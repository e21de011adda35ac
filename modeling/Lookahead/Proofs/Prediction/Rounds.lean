import Lookahead.Proofs.Prediction.Follow

/-! The loops that solve the sets. A loop goes through the productions round after round for as long as some set grew in the
round, and sets only ever grow. All of them together can hold a fixed number of symbols, so that a loop ends with a round in
which each single write changes nothing, and no order of the writes makes them change anything. -/

namespace Lookahead

/-! ### Loops -/

/-- A round is repeated for as long as it reports a change: from `a` it takes some number of rounds to come to `b`. -/
inductive Loops {α : Type} (round : α → α × Bool) : α → Nat → α → Prop
  | last {a b : α} (calm : round a = (b, false)) : Loops round a 1 b
  | again {a b c : α} {n : Nat} (changed : round a = (b, true)) (later : Loops round b n c) : Loops round a (n + 1) c

/-- Writes one after another, and whether any of them has something grow. -/
def noting {α β : Type} (write : α → β → α) (grows : α → β → Bool) (writes : List β) (a : α) : α × Bool :=
  writes.foldl (fun (a, grown) b => (write a b, grown || grows a b)) (a, false)

namespace Loops
variable {α : Type} {round : α → α × Bool} {a b c : α} {m n : Nat}

theorem unique (h : Loops round a m b) (other : Loops round a n c) : m = n ∧ b = c := by
  induction h generalizing n with
  | last calm =>
    cases other with
    | last calm' =>
      cases calm.symm.trans calm'
      exact ⟨rfl, rfl⟩
    | again changed _ => cases calm.symm.trans changed
  | again changed _ ih =>
    cases other with
    | last calm => cases changed.symm.trans calm
    | again changed' later =>
      cases changed.symm.trans changed'
      obtain ⟨rfl, rfl⟩ := ih later
      exact ⟨rfl, rfl⟩

/-- Rounds that add something unless they report no change come to an end before the bound does, where stabilizing ends. -/
theorem of_stabilize [DecidableEq α] {pass : α → α} (told : ∀ a, round a = (pass a, decide (pass a ≠ a)))
    (kept : α → Prop) (size : α → Nat) {limit : Nat} (keeps : ∀ a, kept a → kept (pass a))
    (grows : ∀ a, pass a = a ∨ size a < size (pass a)) (bounded : ∀ a, kept a → size a ≤ limit) (bound : Nat) {a : α}
    (start : kept a) (enough : limit < size a + bound) : ∃ n ≤ bound, Loops round a n (stabilize pass bound a) := by
  induction bound generalizing a with
  | zero =>
    have := bounded a start
    omega
  | succ bound ih =>
    unfold stabilize
    split
    · rename_i same
      refine ⟨1, Nat.succ_le_succ (Nat.zero_le bound), .last ?_⟩
      rw [told a, same]
      simp
    · rename_i changed
      have more := (grows a).resolve_left changed
      obtain ⟨n, few, later⟩ := ih (keeps a start) (by omega)
      refine ⟨n + 1, Nat.succ_le_succ few, .again ?_ later⟩
      rw [told a, decide_eq_true changed]

end Loops

section Noting
variable {α β : Type} {write : α → β → α} {grows : α → β → Bool} {writes : List β} {a : α}

theorem foldl_of_fixed (fixed : ∀ b ∈ writes, write a b = a) : writes.foldl write a = a := by
  let kept (here : α) : Prop := here = a
  have keeps : ∀ here, ∀ b ∈ writes, kept here → kept (write here b) := fun _ b member same => same ▸ fixed b member
  exact foldl_keeps keeps rfl

/-- Where writes only add, something has grown in the end if and only if one of them has something grow. -/
theorem noting_eq [DecidableEq α] {size : α → Nat} (adds : ∀ a b, write a b = a ∨ size a < size (write a b))
    (told : ∀ a b, grows a b = decide (write a b ≠ a)) (writes : List β) (a : α) :
    noting write grows writes a = (writes.foldl write a, decide (writes.foldl write a ≠ a)) := by
  suffices ∀ grown, writes.foldl (fun (a, grown) b => (write a b, grown || grows a b)) (a, grown) =
      (writes.foldl write a, grown || decide (writes.foldl write a ≠ a)) from this false
  induction writes generalizing a with
  | nil => simp
  | cons b rest ih =>
    intro grown
    rw [List.foldl_cons, List.foldl_cons, ih, told, Bool.or_assoc]
    rcases adds a b with same | more
    · simp [same]
    · -- What the first write adds the later ones do not take back.
      have least : size (write a b) ≤ size (rest.foldl write (write a b)) := by
        rcases foldl_grows adds rest (write a b) with same | later
        · exact Nat.le_of_eq (congrArg size same.symm)
        · exact Nat.le_of_lt later
      have first : write a b ≠ a := fun same => by simp [same] at more
      have last : rest.foldl write (write a b) ≠ a := fun same => by rw [same] at least; omega
      simp [first, last]

theorem noting_of_fixed (fixed : ∀ b ∈ writes, write a b = a) (calm : ∀ b ∈ writes, grows a b = false) :
    noting write grows writes a = (a, false) := by
  refine foldl_of_fixed fun b member => ?_
  simp only [fixed b member, calm b member, Bool.or_self]

end Noting

/-! ### Sets that grow -/

namespace SymbolSet
variable {sets : List SymbolSet} {set : SymbolSet} {i : Nat}

/-- A set of a row has another size after symbols were added to it if and only if the row is another. -/
theorem size_modify : (sets.getD i .empty).size ≠ ((sets.modify i (·.union set)).getD i .empty).size ↔
    sets.modify i (·.union set) ≠ sets := by
  induction sets generalizing i with
  | nil => simp
  | cons first rest ih =>
    cases i with
    | zero =>
      have grown : first.size ≠ (first.union set).size ↔ first.union set ≠ first := by
        rcases union_grows first set with same | more
        · simp [same]
        · exact ⟨fun _ same => by simp [same] at more, fun _ => Nat.ne_of_lt more⟩
      simpa using grown
    | succ i => simpa using ih

end SymbolSet

/-! ### The loop that solves FIRST -/

namespace FirstSets
variable {g : Grammar} {f : FirstSets}

/-- What a production adds: FIRST of its body to the set of its head. -/
def take (f : FirstSets) (p : Production) : FirstSets := f.extend p.head (f.ofSequence p.body)

/-- The size of the head's set is compared with what it was. -/
def takesMore (f : FirstSets) (p : Production) : Bool :=
  (f.ofSymbol (.nonterminal p.head)).size ≠ ((f.take p).ofSymbol (.nonterminal p.head)).size

/-- All productions one after another, and whether the set of any head grew. -/
def round (g : Grammar) (f : FirstSets) : FirstSets × Bool := noting take takesMore g.productions f

theorem takesMore_eq (f : FirstSets) (p : Production) : f.takesMore p = decide (f.take p ≠ f) := by
  refine decide_eq_decide.mpr (SymbolSet.size_modify.trans (not_congr ?_))
  exact ⟨fun same => by rw [take, extend, same], fun same => congrArg FirstSets.sets same⟩

theorem round_eq (g : Grammar) (f : FirstSets) : round g f = (pass g f, decide (pass g f ≠ f)) :=
  noting_eq extend_grows takesMore_eq g.productions f

theorem pass_adds (g : Grammar) (f : FirstSets) (s : Symbol) : ∀ x ∈ f.ofSymbol s, x ∈ (pass g f).ofSymbol s := by
  intro x member
  let kept (f : FirstSets) : Prop := x ∈ f.ofSymbol s
  have keeps : ∀ f, ∀ p ∈ g.productions, kept f → kept (f.take p) := by
    intro f p _ old
    cases s with
    | nonterminal i => exact SymbolSet.mem_getD_modify.mpr (Or.inl old)
    | terminal t => exact old
    | epsilon => exact old
    | endMarker => exact old
  exact foldl_keeps keeps member

/-- In the sets that are solved no production has anything to add, however they are ordered. -/
theorem round_solve {rules : List Production} (same : rules.Perm g.productions) :
    round { g with productions := rules } (solve g) = (solve g, false) := by
  have fixed : ∀ p ∈ rules, (solve g).take p = solve g := fun p member =>
    foldl_fixed extend_grows pass_solve p (same.mem_iff.mp member)
  refine noting_of_fixed fixed fun p member => ?_
  rw [takesMore_eq, fixed p member]
  simp

theorem loops_solve (g : Grammar) : ∃ n ≤ bound g, Loops (round g) (initial g) n (solve g) :=
  Loops.of_stabilize (round_eq g) (Fits g) (fun f => SymbolSet.total f.sets) (fun _ => Fits.pass)
    (fun f => foldl_grows extend_grows _ f) (fun _ fits => Nat.le_of_lt_succ fits.total_lt) _ Fits.initial
    (Nat.lt_add_left _ (Nat.lt_succ_self _))

end FirstSets

/-! ### The loop that solves FOLLOW -/

namespace FollowSets
variable {g : Grammar} {first : FirstSets} {f : FollowSets}

/-- The size of the set of a nonterminal is compared with what it was. -/
def notesMore (first : FirstSets) (f : FollowSets) (o : Occurrence) : Bool :=
  (f.ofNonterminal o.nonterminal).size ≠ ((note first f o).ofNonterminal o.nonterminal).size

/-- All nonterminals of all bodies one after another, and whether the set of any of them grew. -/
def round (g : Grammar) (first : FirstSets) (f : FollowSets) : FollowSets × Bool :=
  noting (note first) (notesMore first) (occurrences g) f

theorem notesMore_eq (f : FollowSets) (o : Occurrence) : notesMore first f o = decide (note first f o ≠ f) := by
  refine decide_eq_decide.mpr (SymbolSet.size_modify.trans (not_congr ?_))
  exact ⟨fun same => by rw [note, extend, same], fun same => congrArg FollowSets.sets same⟩

theorem round_eq (g : Grammar) (first : FirstSets) (f : FollowSets) :
    round g first f = (pass g first f, decide (pass g first f ≠ f)) := by
  rw [round, noting_eq note_grows notesMore_eq, ← pass_eq]

theorem pass_adds (g : Grammar) (first : FirstSets) (f : FollowSets) (i : Nat) :
    ∀ x ∈ f.ofNonterminal i, x ∈ (pass g first f).ofNonterminal i := by
  intro x member
  let kept (f : FollowSets) : Prop := x ∈ f.ofNonterminal i
  have keeps : ∀ f, ∀ o ∈ occurrences g, kept f → kept (note first f o) := fun _ _ _ old => mem_extend.mpr (Or.inl old)
  rw [pass_eq]
  exact foldl_keeps keeps member

theorem round_solve (declared : g.Declared) (firstFits : FirstSets.Fits g first) {rules : List Production}
    (same : rules.Perm g.productions) :
    round { g with productions := rules } first (solve g first) = (solve g first, false) := by
  have solved := pass_solve declared firstFits
  rw [pass_eq] at solved
  have fixed : ∀ o ∈ occurrences { g with productions := rules }, note first (solve g first) o = solve g first := by
    intro o member
    exact foldl_fixed note_grows solved o ((same.flatMap_right _).mem_iff.mp member)
  refine noting_of_fixed fixed fun o member => ?_
  rw [notesMore_eq, fixed o member]
  simp

theorem loops_solve (declared : g.Declared) (firstFits : FirstSets.Fits g first) :
    ∃ n ≤ bound g, Loops (round g first) (initial g) n (solve g first) := by
  refine Loops.of_stabilize (round_eq g first) (Fits g) (fun f => SymbolSet.total f.sets)
    (fun _ fits => fits.pass firstFits) (fun f => ?_) (fun _ fits => Nat.le_of_lt_succ fits.total_lt) _
    (Fits.initial declared) (Nat.lt_add_left _ (Nat.lt_succ_self _))
  rw [pass_eq]
  exact foldl_grows note_grows _ f

end FollowSets

/-- The loops that solve the sets end, and within their bounds: there is one number of rounds after which each of them stops,
    and one pair of sets that they leave. A round takes nothing out of a set. Once a loop has stopped, a round over the
    productions in any order changes nothing and reports no change. -/
theorem Sets.loops_end {g : Grammar} (built : g.Built) :
    (∃ n ≤ g.nonterminals.length * (g.terminals.length + 2) + 1, ∀ k f,
      Loops (FirstSets.round g) (.initial g) k f ↔ k = n ∧ f = (Sets.solve g).first) ∧
    (∃ n ≤ g.nonterminals.length * (g.terminals.length + 1) + 1, ∀ k f,
      Loops (FollowSets.round g (Sets.solve g).first) (.initial g) k f ↔ k = n ∧ f = (Sets.solve g).follow) ∧
    (∀ f s, ∀ x ∈ f.ofSymbol s, x ∈ (FirstSets.round g f).1.ofSymbol s) ∧
    (∀ first f i, ∀ x ∈ f.ofNonterminal i, x ∈ (FollowSets.round g first f).1.ofNonterminal i) ∧
    ∀ rules, rules.Perm g.productions →
      FirstSets.round { g with productions := rules } (Sets.solve g).first = ((Sets.solve g).first, false) ∧
      FollowSets.round { g with productions := rules } (Sets.solve g).first (Sets.solve g).follow =
        ((Sets.solve g).follow, false) := by
  refine ⟨?_, ?_, fun f s => ?_, fun first f i => ?_, fun rules same => ⟨?_, ?_⟩⟩
  · obtain ⟨n, few, loops⟩ := FirstSets.loops_solve g
    refine ⟨n, few, fun k f => ⟨fun other => other.unique loops, ?_⟩⟩
    rintro ⟨rfl, rfl⟩
    exact loops
  · obtain ⟨n, few, loops⟩ := FollowSets.loops_solve built.declared (FirstSets.Fits.solve (g := g))
    refine ⟨n, few, fun k f => ⟨fun other => other.unique loops, ?_⟩⟩
    rintro ⟨rfl, rfl⟩
    exact loops
  · rw [FirstSets.round_eq]
    exact FirstSets.pass_adds g f s
  · rw [FollowSets.round_eq]
    exact FollowSets.pass_adds g first f i
  · exact FirstSets.round_solve same
  · exact FollowSets.round_solve built.declared .solve same

/-- FIRST of `S` is found in the second round, as `A` vanishes only at the end of the first, and the third changes nothing.
    With the productions in reverse it would not change anything either. -/
theorem Sets.loops_end_leftRecursive :
    let g := Grammar.leftRecursive
    g.Built ∧ g.productions.reverse.Perm g.productions ∧ Loops (FirstSets.round g) (.initial g) 3 (Sets.solve g).first ∧
      (∀ k f, Loops (FirstSets.round g) (.initial g) k f → k = 3) ∧
      (∃ n ≤ 7, Loops (FollowSets.round g (Sets.solve g).first) (.initial g) n (Sets.solve g).follow) ∧
      FirstSets.round { g with productions := g.productions.reverse } (Sets.solve g).first =
        ((Sets.solve g).first, false) := by
  intro g
  have first : FirstSets.round g (.initial g) = (⟨2, [⟨[]⟩, ⟨[.epsilon]⟩]⟩, true) := by decide +kernel
  have second : FirstSets.round g ⟨2, [⟨[]⟩, ⟨[.epsilon]⟩]⟩ = (⟨2, [⟨[.terminal 1]⟩, ⟨[.epsilon]⟩]⟩, true) := by
    decide +kernel
  have third : FirstSets.round g ⟨2, [⟨[.terminal 1]⟩, ⟨[.epsilon]⟩]⟩ = (⟨2, [⟨[.terminal 1]⟩, ⟨[.epsilon]⟩]⟩, false) := by
    decide +kernel
  have loops : Loops (FirstSets.round g) (.initial g) 3 ⟨2, [⟨[.terminal 1]⟩, ⟨[.epsilon]⟩]⟩ :=
    .again first (.again second (.last third))
  obtain ⟨⟨n, -, ends⟩, ⟨k, few, ends'⟩, -, -, calm⟩ := loops_end Grammar.leftRecursive_built
  obtain ⟨rfl, solved⟩ := (ends _ _).mp loops
  have same := g.productions.reverse_perm
  exact ⟨Grammar.leftRecursive_built, same, solved ▸ loops, fun k f other => ((ends k f).mp other).1,
    ⟨k, few, (ends' _ _).mpr ⟨rfl, rfl⟩⟩, (calm _ same).1⟩

end Lookahead
