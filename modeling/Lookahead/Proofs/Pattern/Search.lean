import Lookahead.Proofs.Pattern.Matches

/-! A search finds matches only, and it finds one where there is one. The ways to go on from a place are those that the
patterns come to step by step. None is lost where a place was gone through before: what was followed leads to what is
followed as well. -/

namespace Lookahead
namespace Pattern
variable {p : Pattern} {patterns later : List Pattern} {alternatives : List (List Pattern)} {before after : Option Char}
  {f g h : Frontier} {t : Thread} {n : Nat} {text word rest : List Char}

/-- The patterns of a thread, with the character that it is to read. -/
def Thread.pending (t : Thread) : List Pattern := .chars t.reads :: t.rest

/-! ### What is followed -/

/-- A property of patterns that passes to what they are replaced by at a place. -/
def Inherited (P : List Pattern → Prop) (before after : Option Char) : Prop :=
  ∀ patterns, P patterns → ∀ next ∈ successors before after patterns, P next

/-- The threads of a frontier have a property, and so has a complete match. -/
structure Frontier.All (P : List Pattern → Prop) (f : Frontier) : Prop where
  threads : ∀ t ∈ f.threads, P t.pending
  complete : f.complete = true → P []

section Inherits
variable {P : List Pattern → Prop} (inherited : Inherited P before after)
include inherited

theorem follow_all {next : Frontier → Frontier} (has : P (p :: later)) (all : f.All P)
    (goesOn : P later → ∀ g, g.All P → (next g).All P) : (follow before after p later next f).All P := by
  induction p generalizing later next f with
  | empty =>
    rw [follow]
    split
    · exact all
    · exact goesOn (inherited _ has _ (List.mem_singleton_self _)) _ ⟨all.threads, all.complete⟩
  | chars k =>
    rw [follow]
    split
    · exact all
    · refine ⟨fun t member => ?_, all.complete⟩
      rcases List.mem_append.mp member with old | new
      · exact all.threads t old
      · exact List.mem_singleton.mp new ▸ has
  | anchor a =>
    rw [follow]
    split
    · exact all
    · split
      · rename_i holds
        exact goesOn (inherited _ has _ (by rw [successors, if_pos holds]; exact List.mem_singleton_self _)) _
          ⟨all.threads, all.complete⟩
      · exact ⟨all.threads, all.complete⟩
  | seq a b iha ihb =>
    rw [follow]
    split
    · exact all
    · exact iha (inherited _ has _ (List.mem_singleton_self _)) ⟨all.threads, all.complete⟩
        fun has' g all' => ihb has' all' goesOn
  | alt a b iha ihb =>
    have first := inherited _ has _ List.mem_cons_self
    have second := inherited _ has _ (List.mem_cons_of_mem _ (List.mem_singleton_self _))
    rw [follow]
    split
    · exact all
    · exact ihb second (iha first ⟨all.threads, all.complete⟩ goesOn) goesOn
  | star greedy a ih =>
    have once := inherited _ has _ List.mem_cons_self
    have stop := inherited _ has _ (List.mem_cons_of_mem _ (List.mem_singleton_self _))
    have body : ∀ g, g.All P → (follow before after a (.star greedy a :: later) id g).All P :=
      fun g all => ih once all fun _ _ all' => all'
    rw [follow]
    split
    · exact all
    · dsimp only
      split
      · exact goesOn stop _ (body _ ⟨all.threads, all.complete⟩)
      · exact body _ (goesOn stop _ ⟨all.threads, all.complete⟩)

theorem followAll_all (has : P patterns) (all : f.All P) : (followAll before after patterns f).All P := by
  induction patterns generalizing f with
  | nil =>
    rw [followAll]
    split
    · exact all
    · exact ⟨all.threads, fun _ => has⟩
  | cons p later ih => exact follow_all inherited has all fun has' _ all' => ih has' all'

theorem frontier_all (has : ∀ patterns ∈ alternatives, P patterns) : (frontier before after alternatives).All P := by
  have start : Frontier.initial.All P := ⟨fun _ member => (List.not_mem_nil member).elim, fun done => nomatch done⟩
  unfold frontier
  generalize Frontier.initial = f at start
  induction alternatives generalizing f with
  | nil => exact start
  | cons patterns alternatives ih =>
    exact ih (fun other member => has other (List.mem_cons_of_mem _ member)) _
      (followAll_all inherited (has patterns List.mem_cons_self) start)

end Inherits

/-! ### Nothing is lost -/

/-- Patterns need not be followed any more, or the match is complete. -/
def Frontier.Covers (f : Frontier) : List Pattern → Prop
  | [] => f.complete = true
  | patterns => f.complete = true ∨ patterns ∈ f.followed

/-- Everything that patterns come to from a place is in the frontier. -/
def Frontier.Closes (f : Frontier) (before after : Option Char) (patterns : List Pattern) : Prop :=
  f.complete = true ∨ (∀ next ∈ successors before after patterns, f.Covers next) ∧
    ∀ k later, patterns = .chars k :: later → ⟨k, later⟩ ∈ f.threads

/-- What a frontier has is kept. -/
structure Frontier.Grows (f g : Frontier) : Prop where
  followed : f.followed ⊆ g.followed
  threads : f.threads ⊆ g.threads
  complete : f.complete = true → g.complete = true

/-- A frontier grows, and whatever it comes to follow is followed to its end. -/
structure Frontier.Extends (f g : Frontier) (before after : Option Char) : Prop extends f.Grows g where
  closed : ∀ patterns ∈ g.followed, patterns ∉ f.followed → g.Closes before after patterns

namespace Frontier

theorem Grows.refl (f : Frontier) : f.Grows f := ⟨fun _ => id, fun _ => id, id⟩

theorem Grows.trans (first : f.Grows g) (second : g.Grows h) : f.Grows h :=
  ⟨fun _ member => second.followed (first.followed member), fun _ member => second.threads (first.threads member),
    fun done => second.complete (first.complete done)⟩

theorem Grows.covers (grows : f.Grows g) (covers : f.Covers patterns) : g.Covers patterns := by
  cases patterns with
  | nil => exact grows.complete covers
  | cons p later => exact covers.imp grows.complete fun member => grows.followed member

theorem Grows.closes (grows : f.Grows g) (closes : f.Closes before after patterns) : g.Closes before after patterns :=
  closes.imp grows.complete fun ⟨next, reads⟩ =>
    ⟨fun other member => grows.covers (next other member), fun k later same => grows.threads (reads k later same)⟩

theorem grows_follow (f : Frontier) (patterns : List Pattern) : f.Grows (f.follow patterns) :=
  ⟨fun _ member => List.mem_cons_of_mem _ member, fun _ member => member, id⟩

theorem Extends.refl (f : Frontier) : f.Extends f before after :=
  ⟨.refl f, fun _ member absent => absurd member absent⟩

theorem Extends.trans (first : f.Extends g before after) (second : g.Extends h before after) : f.Extends h before after := by
  refine ⟨first.toGrows.trans second.toGrows, fun patterns member absent => ?_⟩
  by_cases known : patterns ∈ g.followed
  · exact second.toGrows.closes (first.closed patterns known absent)
  · exact second.closed patterns member known

/-- What is followed first is followed to its end once the frontier closes it. -/
theorem Extends.of_follow (extends' : (f.follow patterns).Extends g before after) (closes : g.Closes before after patterns) :
    f.Extends g before after := by
  refine ⟨(f.grows_follow patterns).trans extends'.toGrows, fun other member absent => ?_⟩
  by_cases same : other = patterns
  · exact same ▸ closes
  · exact extends'.closed other member fun known => (List.mem_cons.mp known).elim same absent

theorem covers_of_settled (settled : f.settled (p :: later) = true) : f.Covers (p :: later) := by
  rw [Frontier.settled, Bool.or_eq_true, List.contains_iff_mem] at settled
  exact settled

end Frontier

open Frontier

/-- What following patterns comes to: the frontier extends and covers them. -/
def Reaches (before after : Option Char) (patterns : List Pattern) (f g : Frontier) : Prop :=
  f.Extends g before after ∧ g.Covers patterns

theorem reaches_of_follow {g : Frontier} (extends' : (f.follow (p :: later)).Extends g before after)
    (next : ∀ next ∈ successors before after (p :: later), g.Covers next)
    (reads : ∀ k, p = .chars k → ⟨k, later⟩ ∈ g.threads) : Reaches before after (p :: later) f g := by
  refine ⟨extends'.of_follow (.inr ⟨next, fun k rest same => ?_⟩), .inr (extends'.followed List.mem_cons_self)⟩
  cases same
  exact reads k rfl

theorem follow_reaches {next : Frontier → Frontier} (goesOn : ∀ g, f.Grows g → Reaches before after later g (next g)) :
    Reaches before after (p :: later) f (follow before after p later next f) := by
  induction p generalizing later next f with
  | empty =>
    rw [follow]
    split
    · exact ⟨.refl f, covers_of_settled ‹_›⟩
    · obtain ⟨extends', covers⟩ := goesOn _ (f.grows_follow _)
      exact reaches_of_follow extends' (fun _ member => List.mem_singleton.mp member ▸ covers) (fun _ same => by cases same)
  | chars k =>
    rw [follow]
    split
    · exact ⟨.refl f, covers_of_settled ‹_›⟩
    · have extends' : (f.follow (.chars k :: later)).Extends ((f.follow (.chars k :: later)).thread ⟨k, later⟩)
          before after :=
        ⟨⟨fun _ => id, fun _ member => List.mem_append_left _ member, id⟩, fun _ member absent => absurd member absent⟩
      refine reaches_of_follow extends' (fun _ member => (List.not_mem_nil member).elim) fun _ same => ?_
      cases same
      exact List.mem_append_right _ (List.mem_singleton_self _)
  | anchor a =>
    rw [follow]
    split
    · exact ⟨.refl f, covers_of_settled ‹_›⟩
    · split
      · rename_i holds
        obtain ⟨extends', covers⟩ := goesOn _ (f.grows_follow _)
        refine reaches_of_follow extends' (fun other member => ?_) (fun _ same => by cases same)
        rw [successors, if_pos holds] at member
        exact List.mem_singleton.mp member ▸ covers
      · rename_i fails
        refine reaches_of_follow (.refl _) (fun other member => ?_) (fun _ same => by cases same)
        rw [successors, if_neg fails] at member
        cases member
  | seq a b iha ihb =>
    rw [follow]
    split
    · exact ⟨.refl f, covers_of_settled ‹_›⟩
    · have second : ∀ g, (f.follow (.seq a b :: later)).Grows g →
          Reaches before after (b :: later) g (follow before after b later next g) :=
        fun g grows => ihb fun g' grows' => goesOn g' ((f.grows_follow _).trans (grows.trans grows'))
      obtain ⟨extends', covers⟩ := iha second
      exact reaches_of_follow extends' (fun _ member => List.mem_singleton.mp member ▸ covers) (fun _ same => by cases same)
  | alt a b iha ihb =>
    rw [follow]
    split
    · exact ⟨.refl f, covers_of_settled ‹_›⟩
    · obtain ⟨first, covers⟩ := iha (f := f.follow _) fun g grows => goesOn g ((f.grows_follow _).trans grows)
      obtain ⟨second, covers'⟩ := ihb fun g grows => goesOn g ((f.grows_follow _).trans (first.toGrows.trans grows))
      refine reaches_of_follow (first.trans second) (fun other member => ?_) (fun _ same => by cases same)
      rcases List.mem_cons.mp member with rfl | member
      · exact second.toGrows.covers covers
      · exact List.mem_singleton.mp member ▸ covers'
  | star greedy a ih =>
    rw [follow]
    split
    · exact ⟨.refl f, covers_of_settled ‹_›⟩
    · -- Behind the body the repetition comes up again, which was followed already.
      have body : ∀ g, (f.follow (.star greedy a :: later)).Grows g →
          Reaches before after (a :: .star greedy a :: later) g (follow before after a (.star greedy a :: later) id g) :=
        fun g grows => ih fun g' grows' => ⟨.refl g', .inr ((grows.trans grows').followed List.mem_cons_self)⟩
      dsimp only
      split
      · obtain ⟨first, covers⟩ := body _ (.refl _)
        obtain ⟨second, covers'⟩ := goesOn _ ((f.grows_follow _).trans first.toGrows)
        refine reaches_of_follow (first.trans second) (fun other member => ?_) (fun _ same => by cases same)
        rcases List.mem_cons.mp member with rfl | member
        · exact second.toGrows.covers covers
        · exact List.mem_singleton.mp member ▸ covers'
      · obtain ⟨first, covers⟩ := goesOn _ (f.grows_follow _)
        obtain ⟨second, covers'⟩ := body _ first.toGrows
        refine reaches_of_follow (first.trans second) (fun other member => ?_) (fun _ same => by cases same)
        rcases List.mem_cons.mp member with rfl | member
        · exact covers'
        · exact List.mem_singleton.mp member ▸ second.toGrows.covers covers

theorem followAll_reaches (before after : Option Char) (f : Frontier) (patterns : List Pattern) :
    Reaches before after patterns f (followAll before after patterns f) := by
  induction patterns generalizing f with
  | nil =>
    rw [followAll]
    split
    · exact ⟨.refl f, ‹_›⟩
    · exact ⟨⟨⟨fun _ => id, fun _ => id, fun _ => rfl⟩, fun _ member absent => absurd member absent⟩, rfl⟩
  | cons p later ih => exact follow_reaches fun g _ => ih g

theorem frontier_reaches (before after : Option Char) (alternatives : List (List Pattern)) :
    Frontier.initial.Extends (frontier before after alternatives) before after ∧
      ∀ patterns ∈ alternatives, (frontier before after alternatives).Covers patterns := by
  unfold frontier
  generalize Frontier.initial = f
  induction alternatives generalizing f with
  | nil => exact ⟨.refl f, fun _ member => (List.not_mem_nil member).elim⟩
  | cons patterns alternatives ih =>
    obtain ⟨first, covers⟩ := followAll_reaches before after f patterns
    obtain ⟨second, others⟩ := ih (followAll before after patterns f)
    refine ⟨first.trans second, fun other member => ?_⟩
    rcases List.mem_cons.mp member with rfl | member
    · exact second.toGrows.covers covers
    · exact others other member

/-! ### The match at a place -/

/-- What patterns spell of a text is a match of some alternative. Alternatives pass this on to their threads. -/
def Leads (before : Option Char) (alternatives : List (List Pattern)) (text : List Char) (patterns : List Pattern) : Prop :=
  ∀ word rest, text = word ++ rest → Spells patterns before word rest →
    ∃ patterns ∈ alternatives, Spells patterns before word rest

theorem leads_frontier (before : Option Char) (alternatives : List (List Pattern)) (text : List Char) :
    (frontier before text.head? alternatives).All (Leads before alternatives text) := by
  refine frontier_all (fun patterns leads next step word rest split spelled => ?_) fun patterns member word rest _ h =>
    ⟨patterns, member, h⟩
  exact leads word rest split (.skip (split ▸ step) spelled)

theorem spells_of_complete (text : List Char) (complete : (frontier before text.head? alternatives).complete = true) :
    ∃ patterns ∈ alternatives, ∃ word rest, text = word ++ rest ∧ word.length = 0 ∧ Spells patterns before word rest := by
  obtain ⟨patterns, member, spelled⟩ := (leads_frontier before alternatives text).complete complete [] text rfl .done
  exact ⟨patterns, member, [], text, rfl, rfl, spelled⟩

/-- A match that is found is a match of some alternative. -/
theorem matchLength_matches (found : matchLength before alternatives text = some n) : ∃ patterns ∈ alternatives,
    ∃ word rest, text = word ++ rest ∧ word.length = n ∧ Spells patterns before word rest := by
  induction text generalizing before alternatives n with
  | nil =>
    rw [matchLength] at found
    split at found
    · cases found
      exact spells_of_complete [] ‹_›
    · cases found
  | cons c text ih =>
    rw [matchLength] at found
    split at found
    · rename_i k longer
      cases found
      split at longer
      · cases longer
      · obtain ⟨_, member, word, rest, rfl, rfl, spelled⟩ := ih longer
        obtain ⟨t, reading, rfl⟩ := List.mem_map.mp member
        obtain ⟨thread, reads⟩ := List.mem_filter.mp reading
        obtain ⟨patterns, member, spelled⟩ :=
          (leads_frontier before alternatives (c :: (word ++ rest))).threads t thread (c :: word) rest rfl (.read reads spelled)
        exact ⟨patterns, member, c :: word, rest, rfl, rfl, spelled⟩
    · split at found
      · cases found
        exact spells_of_complete (c :: text) ‹_›
      · cases found

/-- A frontier takes up whatever is spelled by patterns that it covers. -/
theorem spelled_of_covers (closed : ∀ patterns ∈ f.followed, f.Closes before (word ++ rest).head? patterns)
    (covers : f.Covers patterns) (spelled : Spells patterns before word rest) : f.complete = true ∨
    ∃ c word', word = c :: word' ∧ ∃ patterns ∈ advance f.threads c, Spells patterns (some c) word' rest := by
  induction spelled with
  | done => exact .inl covers
  | @read k c later _ word _ has behind _ =>
    rcases covers with done | member
    · exact .inl done
    · refine (closed _ member).imp_right fun ⟨_, reads⟩ => ⟨c, word, rfl, later, ?_, behind⟩
      exact List.mem_map.mpr ⟨_, List.mem_filter.mpr ⟨reads k later rfl, has⟩, rfl⟩
  | @skip patterns next _ _ _ step _ ih =>
    cases patterns with
    | nil => cases step
    | cons p later =>
      rcases covers with done | member
      · exact .inl done
      · rcases closed _ member with done | ⟨next, _⟩
        · exact .inl done
        · exact ih closed (next _ step)

theorem isSome_of_complete (text : List Char) (complete : (frontier before text.head? alternatives).complete = true) :
    (matchLength before alternatives text).isSome = true := by
  cases text with
  | nil => rw [matchLength]; exact (if_pos complete).symm ▸ rfl
  | cons c text =>
    rw [matchLength]
    split
    · rfl
    · exact (if_pos complete).symm ▸ rfl

/-- Where some alternative has a match, a match is found. -/
theorem matchLength_isSome (member : patterns ∈ alternatives) (spelled : Spells patterns before word rest) :
    (matchLength before alternatives (word ++ rest)).isSome = true := by
  induction word generalizing before alternatives patterns with
  | nil =>
    obtain ⟨extends', covers⟩ := frontier_reaches before rest.head? alternatives
    have closed := fun patterns member => extends'.closed patterns member List.not_mem_nil
    rcases spelled_of_covers closed (covers patterns member) spelled with done | ⟨_, _, same, _⟩
    · exact isSome_of_complete _ done
    · cases same
  | cons c word ih =>
    obtain ⟨extends', covers⟩ := frontier_reaches before (some c) alternatives
    have closed := fun patterns member => extends'.closed patterns member List.not_mem_nil
    rcases spelled_of_covers closed (covers patterns member) spelled with done | ⟨_, _, same, later, thread, behind⟩
    · exact isSome_of_complete (c :: (word ++ rest)) done
    · cases same
      have longer := ih thread behind
      have some : (frontier before (.some c) alternatives).threads.isEmpty = false := by
        cases none : (frontier before (.some c) alternatives).threads with
        | nil => rw [none] at thread; cases thread
        | cons => rfl
      rw [List.cons_append, matchLength]
      simp only [some, Bool.false_eq_true, if_false]
      split
      · rfl
      · rename_i nothing
        rw [nothing] at longer
        cases longer

/-- A match of a pattern is found at a place if and only if there is one. -/
theorem matchLength_isSome_iff : (matchLength before [[p]] text).isSome = true ↔
    ∃ word rest, text = word ++ rest ∧ p.Matches before word rest := by
  constructor
  · intro found
    obtain ⟨n, found⟩ := Option.isSome_iff_exists.mp found
    obtain ⟨patterns, member, word, rest, split, -, spelled⟩ := matchLength_matches found
    obtain rfl := List.mem_singleton.mp member
    exact ⟨word, rest, split, spells_iff.mp spelled⟩
  · rintro ⟨word, rest, rfl, matched⟩
    exact matchLength_isSome (List.mem_singleton_self _) (spells_iff.mpr matched)

/-- The length that is found is that of a match. -/
theorem matches_of_matchLength (found : matchLength before [[p]] text = some n) :
    ∃ word rest, text = word ++ rest ∧ word.length = n ∧ p.Matches before word rest := by
  obtain ⟨patterns, member, word, rest, split, length, spelled⟩ := matchLength_matches found
  obtain rfl := List.mem_singleton.mp member
  exact ⟨word, rest, split, length, spells_iff.mp spelled⟩

/-! ### The match in a text -/

/-- The first place of a text where a pattern matches. -/
structure Leftmost (p : Pattern) (before : Option Char) (text skipped word rest : List Char) : Prop where
  split : text = skipped ++ (word ++ rest)
  here : p.Matches (behind before skipped) word rest
  nowhere : ∀ s u v, text = s ++ (u ++ v) → s.length < skipped.length → ¬p.Matches (behind before s) u v

theorem leftmost_of_matchLength (found : matchLength before [[p]] text = some n) :
    ∃ skipped word rest, Leftmost p before text skipped word rest ∧ n = skipped.length + word.length := by
  obtain ⟨word, rest, split, rfl, matched⟩ := matches_of_matchLength found
  exact ⟨[], word, rest, ⟨split, matched, fun _ _ _ _ less => absurd less (Nat.not_lt_zero _)⟩, (Nat.zero_add _).symm⟩

/-- The end that is found is that of a leftmost match. -/
theorem leftmost_of_findEnd (found : findEnd p before text = some n) :
    ∃ skipped word rest, Leftmost p before text skipped word rest ∧ n = skipped.length + word.length := by
  induction text generalizing before n with
  | nil =>
    rw [findEnd] at found
    split at found
    · cases found
      exact leftmost_of_matchLength ‹_›
    · split at found <;> cases found
  | cons c text ih =>
    rw [findEnd] at found
    split at found
    · cases found
      exact leftmost_of_matchLength ‹_›
    · rename_i nothing
      split at found
      · cases found
      · obtain ⟨m, later, rfl⟩ := Option.map_eq_some_iff.mp found
        obtain ⟨skipped, word, rest, ⟨rfl, here, nowhere⟩, rfl⟩ := ih later
        have before' : ∀ s u v, c :: (skipped ++ (word ++ rest)) = s ++ (u ++ v) → s.length < (c :: skipped).length →
            ¬p.Matches (behind before s) u v := by
          intro s u v split less matched
          cases s with
          | nil =>
            rw [behind_nil] at matched
            have found := matchLength_isSome_iff.mpr ⟨u, v, split, matched⟩
            rw [nothing] at found
            cases found
          | cons d s =>
            obtain ⟨rfl, same⟩ := List.cons.inj split
            exact nowhere s u v same (Nat.lt_of_succ_lt_succ less) matched
        exact ⟨c :: skipped, word, rest, ⟨rfl, here, before'⟩, by rw [List.length_cons]; omega⟩

/-- Nothing is skipped if and only if there is a match where the search begins. -/
theorem Leftmost.skipped_eq_nil_iff {skipped : List Char} (found : Leftmost p before text skipped word rest) :
    skipped = [] ↔ ∃ u v, text = u ++ v ∧ p.Matches before u v := by
  constructor
  · rintro rfl
    exact ⟨word, rest, found.split, found.here⟩
  · rintro ⟨u, v, split, matched⟩
    cases skipped with
    | nil => rfl
    | cons c skipped => exact absurd matched (found.nowhere [] u v split (Nat.succ_pos _))

/-- A pattern behind the start of the text is found there only. -/
theorem Leftmost.anchored {skipped : List Char} (found : Leftmost (.seq (.anchor .textStart) p) none text skipped word rest) :
    skipped = [] ∧ p.Matches none word rest := by
  have start : skipped = [] := (behind_eq_none.mp (found.here.eq_none_of_startsText rfl)).2
  have here := found.here
  rw [start, behind_nil] at here
  cases here with
  | seq first second =>
    cases first
    exact ⟨start, second⟩

end Pattern
end Lookahead
