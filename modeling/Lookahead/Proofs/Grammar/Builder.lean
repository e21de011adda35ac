import Lookahead.Grammar.Builder
import Lookahead.Proofs.Grammar.Edits

/-! Builders under edits. Whatever edits are tried, the maps of a builder are the inverses of its lists, and an edit does to the
lists what it does to a draft. So one that is refused leaves the builder as it was, and grammars are known by their lists. -/

namespace Lookahead

/-- A result of work on a state, and what is seen of it: either the same defect, and then the state is what it was, or the
    same answer, and then what is left is sound. -/
inductive Mirrors {σ τ α : Type} (view : σ → τ) (Sound : σ → Prop) (s : σ) :
    EStateM.Result Defect σ α → Except Defect (τ × α) → Prop
  | refused (defect : Defect) : Mirrors view Sound s (.error defect s) (.error defect)
  | done {s' : σ} (sound : Sound s') (a : α) : Mirrors view Sound s (.ok a s') (.ok (view s', a))

theorem Mirrors.map {σ τ α β : Type} {view : σ → τ} {Sound : σ → Prop} {s : σ} {x : EStateM Defect σ α}
    {y : Except Defect (τ × α)} (m : Mirrors view Sound s (x.run s) y) (f : α → β) :
    Mirrors view Sound s ((do return f (← x) : EStateM Defect σ β).run s) (do let (t, a) ← y; return (t, f a)) := by
  rw [EStateM.run_bind]
  generalize x.run s = result at m
  cases m with
  | refused defect => exact .refused defect
  | done sound a => exact .done sound (f a)

/-! ### Registers -/

namespace Register
variable {r s : Register} {name : String}

/-- The map gives each name the number of its place in the list, and has no other names. -/
def Inverse (r : Register) : Prop := ∀ (name : String) (i : Nat), r.numbers[name]? = some i ↔ r.names[i]? = some name

namespace Inverse

theorem empty : Register.empty.Inverse := by
  intro name i
  simp [Register.empty]

theorem nodup (inverse : r.Inverse) : r.names.Nodup := by
  refine List.nodup_iff_getElem?_ne_getElem?.mpr fun i j less bound same => ?_
  have here := List.getElem?_eq_getElem bound
  have first := (inverse _ i).mpr (same.trans here)
  rw [(inverse _ j).mpr here, Option.some.injEq] at first
  exact Nat.ne_of_gt less first

theorem idxOf? (inverse : r.Inverse) (name : String) : r.numbers[name]? = r.names.idxOf? name :=
  Option.ext fun i => (inverse name i).trans (idxOf?_eq_some inverse.nodup).symm

theorem push (inverse : r.Inverse) (fresh : r.numbers[name]? = none) :
    (⟨r.names ++ [name], r.numbers.insert name r.names.length⟩ : Register).Inverse := by
  intro other i
  show (r.numbers.insert name r.names.length)[other]? = some i ↔ (r.names ++ [name])[i]? = some other
  rw [Std.HashMap.getElem?_insert]
  by_cases same : name = other
  · subst same
    rw [if_pos (beq_self_eq_true name)]
    rcases Nat.lt_or_ge i r.names.length with old | new
    · rw [List.getElem?_append_left old, ← inverse, fresh]
      simp [Nat.ne_of_gt old]
    · rw [List.getElem?_append_right new, List.getElem?_singleton]
      simp
      omega
  · rw [if_neg (by simpa using same), inverse]
    rcases Nat.lt_or_ge i r.names.length with old | new
    · rw [List.getElem?_append_left old]
    · rw [List.getElem?_append_right new, List.getElem?_singleton, List.getElem?_eq_none new]
      simp [same]

/-- A name keeps its number in a longer list. -/
theorem of_prefix (inverse : r.Inverse) (inverse' : s.Inverse) (more : r.names <+: s.names) {i : Nat}
    (known : r.numbers[name]? = some i) : s.numbers[name]? = some i := by
  obtain ⟨rest, same⟩ := more
  have here := (inverse name i).mp known
  rw [inverse', ← same, List.getElem?_append_left (List.getElem?_eq_some_iff.mp here).1, here]

/-- Equal lists have equal maps. -/
theorem beq_iff (inverse : r.Inverse) (inverse' : s.Inverse) : (r == s) = true ↔ r.names = s.names := by
  show (r.names == s.names && r.numbers == s.numbers) = true ↔ _
  rw [Bool.and_eq_true, beq_iff_eq, Std.HashMap.beq_iff_equiv, and_iff_left_iff_imp]
  intro same
  exact .of_forall_getElem?_eq fun name => by rw [inverse.idxOf?, inverse'.idxOf?, same]

end Inverse

theorem declare_run (r : Register) (name : String) : (declare name).run r =
    if Draft.isReserved name then .error (.reservedName name) r
    else match r.numbers[name]? with
      | some i => .ok i r
      | none => .ok r.names.length ⟨r.names ++ [name], r.numbers.insert name r.names.length⟩ := by
  unfold declare
  split
  · rfl
  · simp only [EStateM.run_bind, EStateM.run_get]
    cases r.numbers[name]? <;> rfl

theorem Inverse.declare (inverse : r.Inverse) (name : String) :
    Mirrors Register.names Inverse r ((declare name).run r) (Draft.declare r.names name) := by
  rw [declare_run, Draft.declare, ← inverse.idxOf?]
  split
  · exact .refused _
  · cases fresh : r.numbers[name]? with
    | some i => exact .done inverse i
    | none => exact .done (inverse.push fresh) _

end Register

/-! ### Builders -/

/-- Both maps are inverse to their lists. -/
structure Names.Sound (n : Names) : Prop where
  terminals : n.terminals.Inverse
  nonterminals : n.nonterminals.Inverse

theorem Names.Sound.find? {n : Names} (sound : n.Sound) (name : String) : n.find? name = n.vocabulary.find? name := by
  rw [Names.find?, Vocabulary.find?, sound.terminals.idxOf?, sound.nonterminals.idxOf?]
  show _ = if _ then _ else if _ then _ else match n.nonterminals.names.idxOf? name with
    | some i => some (Symbol.nonterminal i)
    | none => (n.terminals.names.idxOf? name).map Symbol.terminal
  cases n.nonterminals.names.idxOf? name <;> rfl

theorem Names.Sound.resolve {n : Names} (sound : n.Sound) (name : String) : n.resolve name = n.vocabulary.resolve name := by
  cases found : n.vocabulary.find? name <;> simp [Names.resolve, Vocabulary.resolve, sound.find?, found]

namespace Builder
variable {b : Builder}

/-- The maps of a builder are inverse to its lists. -/
def Sound (b : Builder) : Prop := b.toNames.Sound

/-- Work on a builder, and what it comes to for the draft that the builder holds. -/
def Agrees {α : Type} (b : Builder) : EStateM.Result Defect Builder α → Except Defect (Draft × α) → Prop :=
  Mirrors draft Sound b

theorem Sound.find? (sound : b.Sound) (name : String) : b.find? name = b.draft.find? name := Names.Sound.find? sound name

theorem sound_empty : empty.Sound := ⟨.empty, .empty⟩

theorem within_agrees {α : Type} {part : Builder → Register} (put : Builder → Register → Builder)
    {x : EStateM Defect Register α} {y : Except Defect (List String × α)} (drafted : List String → Draft)
    (m : Mirrors Register.names Register.Inverse (part b) (x.run (part b)) y) (same : put b (part b) = b)
    (sound : ∀ {r}, r.Inverse → (put b r).Sound) (seen : ∀ r, (put b r).draft = drafted r.names) :
    b.Agrees ((within part put x).run b) (do let (names, a) ← y; return (drafted names, a)) := by
  unfold EStateM.run at m
  simp only [EStateM.run, within]
  generalize x (part b) = result at m
  cases m with
  | refused defect =>
    show b.Agrees (.error defect (put b (part b))) (.error defect)
    rw [same]
    exact .refused defect
  | @done r inverse a =>
    show b.Agrees (.ok a (put b r)) (.ok (drafted r.names, a))
    rw [← seen]
    exact .done (sound inverse) a

/-- What is asked of a builder, which stays as it is. -/
def told {α : Type} (b : Builder) : Except Defect α → EStateM.Result Defect Builder α
  | .ok a => .ok a b
  | .error defect => .error defect b

section Told
variable {α β : Type} {x : Building α} {y : Except Defect α} {f : α → Building β}

theorem run_get_bind (f : Builder → Building α) : (get >>= f).run b = (f b).run b := rfl

theorem told_bind (tells : x.run b = b.told y) {g : α → Except Defect β} (later : ∀ a, (f a).run b = b.told (g a)) :
    (x >>= f).run b = b.told (y >>= g) := by
  rw [EStateM.run_bind, tells]
  cases y with
  | error defect => rfl
  | ok a => exact later a

theorem agrees_bind (tells : x.run b = b.told y) {g : α → Except Defect (Draft × β)}
    (later : ∀ a, b.Agrees ((f a).run b) (g a)) : b.Agrees ((x >>= f).run b) (y >>= g) := by
  rw [EStateM.run_bind, tells]
  cases y with
  | error defect => exact .refused defect
  | ok a => exact later a

end Told

theorem findNonterminal_run (sound : b.Sound) (name : String) :
    (findNonterminal name).run b = b.told (b.draft.resolveNonterminal name) := by
  unfold findNonterminal Vocabulary.resolveNonterminal
  rw [run_get_bind, sound.find?]
  cases b.draft.find? name with
  | none => rfl
  | some s => cases s <;> rfl

theorem findBody_run (sound : b.Sound) (head : String) (body : List String) :
    (findBody head body).run b = b.told (b.draft.resolveBody head body) := by
  induction body with
  | nil => rfl
  | cons name rest ih =>
    unfold findBody Draft.resolveBody
    rw [run_get_bind, sound.find?]
    cases b.draft.find? name with
    | none => rfl
    | some s => exact told_bind ih fun _ => rfl

theorem addTerminal_agrees (sound : b.Sound) (name : String) :
    b.Agrees ((addTerminal name).run b) (b.draft.addTerminal name) :=
  within_agrees (fun b terminals => { b with terminals }) (fun terminals => { b.draft with terminals })
    (sound.terminals.declare name) rfl (fun inverse => ⟨inverse, sound.nonterminals⟩) fun _ => rfl

theorem addNonterminal_agrees (sound : b.Sound) (name : String) :
    b.Agrees ((addNonterminal name).run b) (b.draft.addNonterminal name) :=
  within_agrees (fun b nonterminals => { b with nonterminals }) (fun nonterminals => { b.draft with nonterminals })
    (sound.nonterminals.declare name) rfl (fun inverse => ⟨sound.terminals, inverse⟩) fun _ => rfl

theorem addProduction_agrees (sound : b.Sound) (head : String) (body : List String) :
    b.Agrees ((addProduction head body).run b) (b.draft.addProduction head body) := by
  refine agrees_bind (findNonterminal_run sound head) fun i => agrees_bind (findBody_run sound head body) fun symbols => ?_
  generalize (if symbols.isEmpty then [Symbol.epsilon] else symbols) = stored
  let later : Builder := { b with productions := b.productions ++ [⟨i, stored⟩] }
  have number : later.productions.length - 1 = b.productions.length := by simp [later]
  show b.Agrees (.ok (later.productions.length - 1) later) (.ok (later.draft, b.productions.length))
  rw [number]
  exact .done (show later.Sound from sound) _

theorem setStart_agrees (sound : b.Sound) (name : String) :
    b.Agrees ((setStart name).run b) (do return (← b.draft.setStart name, ())) := by
  unfold setStart Draft.setStart
  rw [bind_assoc]
  exact agrees_bind (findNonterminal_run sound name) fun i => .done (show { b with start := some i }.Sound from sound) ()

theorem addRestart_agrees (sound : b.Sound) (name : String) :
    b.Agrees ((addRestart name).run b) (do return (← b.draft.addRestart name, ())) := by
  unfold addRestart Draft.addRestart
  rw [bind_assoc]
  refine agrees_bind (findNonterminal_run sound name) fun i => ?_
  rw [run_get_bind]
  show b.Agrees _ (.ok (if b.restarts.contains i then b.draft else { b.draft with restarts := b.restarts ++ [i] }, ()))
  cases b.restarts.contains i with
  | true => exact .done sound ()
  | false => exact .done (show { b with restarts := b.restarts ++ [i] }.Sound from sound) ()

/-- An edit does to the lists what it does to the draft, and one that is refused leaves the maps as they are, too. -/
theorem perform_agrees (sound : b.Sound) (e : Edit) : b.Agrees ((perform e).run b) (b.draft.apply e) := by
  cases e with
  | terminal name => exact (addTerminal_agrees sound name).map some
  | nonterminal name => exact (addNonterminal_agrees sound name).map some
  | production head body => exact (addProduction_agrees sound head body).map some
  | start name =>
    have agrees := (setStart_agrees sound name).map fun _ => (none : Option Nat)
    rwa [bind_assoc] at agrees
  | restart name =>
    have agrees := (addRestart_agrees sound name).map fun _ => (none : Option Nat)
    rwa [bind_assoc] at agrees

/-- An edit is refused for its defect and leaves the builder as it is, or it changes the draft. -/
theorem perform_cases (sound : b.Sound) (e : Edit) :
    (∃ defect, (perform e).run b = .error defect b ∧ b.draft.defect? e = some defect) ∨
    ∃ n b', (perform e).run b = .ok n b' ∧ b.draft.defect? e = none ∧ b.draft.Change e n b'.draft := by
  have agrees := perform_agrees sound e
  generalize run : (perform e).run b = result at agrees ⊢
  rcases b.draft.apply_cases e with ⟨defect, refused, because⟩ | ⟨d, n, done, none, change⟩
  · rw [refused] at agrees
    cases agrees
    exact .inl ⟨defect, rfl, because⟩
  · rw [done] at agrees
    cases agrees
    exact .inr ⟨n, _, rfl, none, change⟩

theorem after_draft (sound : b.Sound) (e : Edit) : (b.after e).Sound ∧ (b.after e).draft = b.draft.attempt e := by
  have agrees := perform_agrees sound e
  unfold after Draft.attempt
  generalize (perform e).run b = result, b.draft.apply e = drafted at agrees
  cases agrees with
  | refused _ => exact ⟨sound, rfl⟩
  | done later _ => exact ⟨later, rfl⟩

theorem foldl_after (sound : b.Sound) (edits : List Edit) :
    (edits.foldl after b).Sound ∧ (edits.foldl after b).draft = edits.foldl Draft.attempt b.draft := by
  induction edits generalizing b with
  | nil => exact ⟨sound, rfl⟩
  | cons e rest ih =>
    obtain ⟨later, draft⟩ := after_draft sound e
    rw [List.foldl_cons, List.foldl_cons, ← draft]
    exact ih later

/-! ### Finished grammars -/

theorem build_draft (b : Builder) : b.build.map StoredGrammar.grammar = b.draft.build := by
  unfold build Draft.build
  rw [show b.draft.start = b.start from rfl]
  cases b.start <;> rfl

/-- A builder whose start is set becomes a grammar, and nothing that it holds is changed. -/
theorem build_eq_ok {g : StoredGrammar} : b.build = .ok g ↔
    b.start = some g.start ∧ g.toNames = b.toNames ∧ g.productions = b.productions ∧ g.restarts = b.restarts := by
  obtain ⟨names, productions, start, restarts⟩ := g
  unfold build
  cases b.start with
  | none => simp
  | some s =>
    rw [Except.ok.injEq, StoredGrammar.mk.injEq, Option.some.injEq]
    tauto

/-- The grammars of builders are those of drafts. -/
theorem built_iff {g : Grammar} :
    g.Built ↔ ∃ edits : List Edit, ((edits.foldl after .empty).build).map StoredGrammar.grammar = .ok g := by
  refine exists_congr fun edits => ?_
  rw [build_draft, (foldl_after sound_empty edits).2]
  rfl

theorem performAll_draft (sound : b.Sound) (edits : List Edit) :
    (b.performAll edits).map draft = b.draft.applyAll edits := by
  induction edits generalizing b with
  | nil => rfl
  | cons e rest ih =>
    have agrees := perform_agrees sound e
    unfold performAll Draft.applyAll
    generalize (perform e).run b = result, b.draft.apply e = drafted at agrees
    cases agrees with
    | refused _ => rfl
    | done later _ => exact ih later

/-- An outline comes to the same grammar in a builder, or to the same defect. -/
theorem outline_build (o : Outline) :
    (do (← empty.performAll o.edits).build).map StoredGrammar.grammar = o.build := by
  rw [Outline.build, show Draft.empty = empty.draft from rfl, ← performAll_draft sound_empty]
  cases empty.performAll o.edits with
  | error _ => rfl
  | ok b => exact b.build_draft

end Builder

namespace StoredGrammar

/-- Equality compares the maps, too, but they are equal if the lists are. -/
theorem beq_iff {g g' : StoredGrammar} (sound : g.Sound) (sound' : g'.Sound) : (g == g') = true ↔
    g.terminals.names = g'.terminals.names ∧ g.nonterminals.names = g'.nonterminals.names ∧
      g.productions = g'.productions ∧ g.start = g'.start ∧ g.restarts = g'.restarts := by
  show (((g.terminals == g'.terminals && g.nonterminals == g'.nonterminals) && g.productions == g'.productions &&
    g.start == g'.start) && g.restarts == g'.restarts) = true ↔ _
  simp only [Bool.and_eq_true, beq_iff_eq, sound.terminals.beq_iff sound'.terminals,
    sound.nonterminals.beq_iff sound'.nonterminals, and_assoc]

end StoredGrammar

namespace Builder

/-- Whatever edits were tried, admitted and refused, the draft is well formed, and each map is the inverse of its list. The next
    edit is refused for its defect, and then leaves the builder as it was, its maps included. Otherwise what it asks for is
    there, and every name, number, rule and restart point is what it was, also through all later edits. A grammar is built once
    the start is set, and built grammars are equal, their maps included, if and only if their lists are. -/
theorem edits_only_add (edits : List Edit) :
    let b := edits.foldl after .empty
    b.draft.WellFormed ∧
    (∀ (name : String) (i : Nat), b.terminals.numbers[name]? = some i ↔ b.terminals.names[i]? = some name) ∧
    (∀ (name : String) (i : Nat), b.nonterminals.numbers[name]? = some i ↔ b.nonterminals.names[i]? = some name) ∧
    (∀ name, b.find? name = b.draft.find? name) ∧
    (∀ e, match (perform e).run b with
      | .error defect b' => b' = b ∧ b.after e = b ∧ b.draft.defect? e = some defect
      | .ok n b' => b.after e = b' ∧ b.draft.defect? e = none ∧ b'.draft.Grants e n ∧ b.draft.Extends b'.draft) ∧
    (∀ later : List Edit,
      let b' := later.foldl after b
      b.draft.Extends b'.draft ∧ (∀ s, b.draft.Declares s → b'.draft.name s = b.draft.name s) ∧
        (∀ (name : String) (i : Nat), b.terminals.numbers[name]? = some i → b'.terminals.numbers[name]? = some i) ∧
        ∀ (name : String) (i : Nat), b.nonterminals.numbers[name]? = some i → b'.nonterminals.numbers[name]? = some i) ∧
    (∀ name, (b.after (.nonterminal name)).productions = b.productions) ∧
    (∀ g : StoredGrammar, b.build = .ok g ↔
      b.start = some g.start ∧ g.toNames = b.toNames ∧ g.productions = b.productions ∧ g.restarts = b.restarts) ∧
    ∀ (others : List Edit) (g g' : StoredGrammar), b.build = .ok g → (others.foldl after .empty).build = .ok g' →
      ((g == g') = true ↔ g.terminals.names = g'.terminals.names ∧ g.nonterminals.names = g'.nonterminals.names ∧
        g.productions = g'.productions ∧ g.start = g'.start ∧ g.restarts = g'.restarts) := by
  intro b
  obtain ⟨sound, draft⟩ : b.Sound ∧ b.draft = edits.foldl Draft.attempt .empty := foldl_after sound_empty edits
  have wf : b.draft.WellFormed := by
    rw [draft]
    exact Draft.WellFormed.empty.foldl_attempt edits
  refine ⟨wf, sound.terminals, sound.nonterminals, sound.find?, fun e => ?_, fun later => ?_, fun name => ?_,
    fun g => build_eq_ok, fun others g g' built built' => ?_⟩
  · rcases perform_cases sound e with ⟨defect, refused, because⟩ | ⟨n, b', done, none, change⟩
    · rw [after, refused]
      exact ⟨rfl, rfl, because⟩
    · rw [after, done]
      exact ⟨rfl, none, change.grants, change.extended⟩
  · obtain ⟨sound', draft'⟩ := foldl_after sound later
    have more : b.draft.Extends (later.foldl after b).draft := by
      rw [draft']
      exact b.draft.extends_foldl later
    exact ⟨more, fun s => more.name, fun name i => sound.terminals.of_prefix sound'.terminals more.terminals,
      fun name i => sound.nonterminals.of_prefix sound'.nonterminals more.nonterminals⟩
  · exact (congrArg Draft.productions (after_draft sound (.nonterminal name)).2).trans (Draft.attempt_productions rfl)
  · have sound' := (foldl_after sound_empty others).1
    obtain ⟨-, names, -, -⟩ := build_eq_ok.mp built
    obtain ⟨-, names', -, -⟩ := build_eq_ok.mp built'
    exact StoredGrammar.beq_iff (names ▸ sound) (names' ▸ sound')

end Builder
end Lookahead
