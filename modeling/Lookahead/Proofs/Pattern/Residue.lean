import Lookahead.Proofs.Pattern.Search

/-! What is left of alternatives after a word. A plain pattern asks nothing of the places between characters, so that a
search sees of a text only what its threads read. Nothing that stands behind a match has a part in it, and nothing counts
behind a character that no thread is left to read. -/

namespace Lookahead

namespace CharClass
variable {k : CharClass} {low high n : Nat} {c : Char}

/-- Whether a class is seen to lie between two code points. -/
def within (low high : Nat) : CharClass → Bool
  | none => true
  | range first last => low ≤ first && last ≤ high
  | caseless _ _ => false
  | union a b => a.within low high && b.within low high
  | inter a b => a.within low high || b.within low high
  | diff a _ => a.within low high
  | compl _ => false

theorem bounds_of_within (inside : k.within low high = true) (has : k.covers n = true) : low ≤ n ∧ n ≤ high := by
  induction k with
  | none => cases has
  | range first last =>
    simp only [within, covers, Bool.and_eq_true, decide_eq_true_eq] at inside has
    omega
  | caseless => cases inside
  | union a b iha ihb =>
    obtain ⟨left, right⟩ := Bool.and_eq_true_iff.mp inside
    exact (Bool.or_eq_true_iff.mp has).elim (iha left) (ihb right)
  | inter a b iha ihb =>
    obtain ⟨left, right⟩ := Bool.and_eq_true_iff.mp has
    exact (Bool.or_eq_true_iff.mp inside).elim (iha · left) (ihb · right)
  | diff a b iha _ => exact iha inside (Bool.and_eq_true_iff.mp has).1
  | compl => cases inside

end CharClass

namespace Pattern
variable {p : Pattern} {patterns later : List Pattern} {alternatives : List (List Pattern)}
  {before after before' after' : Option Char} {allowed : CharClass → Bool} {c : Char} {word rest : List Char}

/-- Whether a pattern has no anchors and reads characters of allowed classes only. -/
def plain (allowed : CharClass → Bool) : Pattern → Bool
  | empty => true
  | chars k => allowed k
  | anchor _ => false
  | seq a b => a.plain allowed && b.plain allowed
  | alt a b => a.plain allowed && b.plain allowed
  | star _ a => a.plain allowed

/-- All patterns of all alternatives are plain. -/
def AllPlain (allowed : CharClass → Bool) (alternatives : List (List Pattern)) : Prop :=
  ∀ patterns ∈ alternatives, ∀ p ∈ patterns, p.plain allowed = true

theorem allPlain_single (plain : p.plain allowed = true) : AllPlain allowed [[p]] := by
  intro patterns member q here
  cases List.mem_singleton.mp member
  cases List.mem_singleton.mp here
  exact plain

/-- A plain pattern matches words of characters in allowed classes. -/
theorem Matches.reads_allowed (h : p.Matches before word rest) (plain : p.plain allowed = true) :
    ∀ c ∈ word, ∃ k, allowed k = true ∧ k.contains c = true := by
  induction h with
  | empty => nofun
  | chars has =>
    intro c member
    obtain rfl := List.mem_singleton.mp member
    exact ⟨_, plain, has⟩
  | anchor _ => cases plain
  | seq _ _ first second =>
    obtain ⟨left, right⟩ := Bool.and_eq_true_iff.mp plain
    intro c member
    exact (List.mem_append.mp member).elim (first left c) (second right c)
  | left _ ih => exact ih (Bool.and_eq_true_iff.mp plain).1
  | right _ ih => exact ih (Bool.and_eq_true_iff.mp plain).2
  | stop => nofun
  | again _ _ once more =>
    intro c member
    exact (List.mem_append.mp member).elim (once plain c) (more plain c)

/-! ### The places between characters do not tell -/

theorem follow_surroundings (plain : p.plain allowed = true) {next next' : Frontier → Frontier}
    (same : ∀ f, next f = next' f) : follow before after p later next f = follow before' after' p later next' f := by
  induction p generalizing later next next' f with
  | empty => simp only [follow, same]
  | chars => simp only [follow]
  | anchor => cases plain
  | seq a b iha ihb =>
    obtain ⟨first, second⟩ := Bool.and_eq_true_iff.mp plain
    simp only [follow]
    rw [iha first fun f => ihb second same]
  | alt a b iha ihb =>
    obtain ⟨first, second⟩ := Bool.and_eq_true_iff.mp plain
    simp only [follow]
    rw [ihb second same, iha first same]
  | star greedy a ih =>
    have body : ∀ f, follow before after a (.star greedy a :: later) id f =
        follow before' after' a (.star greedy a :: later) id f := fun f => ih plain fun _ => rfl
    simp only [follow, same, body]

theorem followAll_surroundings (plain : ∀ p ∈ patterns, p.plain allowed = true) (f : Frontier) :
    followAll before after patterns f = followAll before' after' patterns f := by
  induction patterns generalizing f with
  | nil => rfl
  | cons p later ih =>
    exact follow_surroundings (plain p List.mem_cons_self) (ih fun q member => plain q (List.mem_cons_of_mem _ member))

theorem frontier_surroundings (plain : AllPlain allowed alternatives) :
    frontier before after alternatives = frontier before' after' alternatives := by
  unfold frontier
  generalize Frontier.initial = f
  induction alternatives generalizing f with
  | nil => rfl
  | cons patterns alternatives ih =>
    rw [List.foldl_cons, List.foldl_cons, followAll_surroundings (plain patterns List.mem_cons_self)]
    exact ih (fun other member => plain other (List.mem_cons_of_mem _ member)) _

/-! ### What is left to match -/

/-- What is left of alternatives once a word is read. -/
def residue (alternatives : List (List Pattern)) (word : List Char) : List (List Pattern) :=
  word.foldl (fun alternatives c => advance (frontier none none alternatives).threads c) alternatives

theorem residue_append (alternatives : List (List Pattern)) (u v : List Char) :
    residue alternatives (u ++ v) = residue (residue alternatives u) v := List.foldl_append

@[simp] theorem residue_nil (word : List Char) : residue [] word = [] := by
  induction word with
  | nil => rfl
  | cons c word ih => exact ih

/-- Where nothing is left after a word, nothing is left after a longer one. -/
theorem residue_append_eq_nil {u : List Char} (spent : residue alternatives u = []) (v : List Char) :
    residue alternatives (u ++ v) = [] := by
  rw [residue_append, spent, residue_nil]

theorem threads_plain (plain : AllPlain allowed alternatives) :
    ∀ t ∈ (frontier before after alternatives).threads, ∀ p ∈ t.pending, p.plain allowed = true := by
  refine (frontier_all (P := fun patterns => ∀ p ∈ patterns, p.plain allowed = true) ?_ plain).threads
  intro patterns plain next step
  unfold successors at step
  split at step
  · cases step
  · obtain rfl := List.mem_singleton.mp step
    exact fun q member => plain q (List.mem_cons_of_mem _ member)
  · cases step
  · cases plain _ List.mem_cons_self
  · obtain rfl := List.mem_singleton.mp step
    obtain ⟨both, others⟩ := List.forall_mem_cons.mp plain
    obtain ⟨first, second⟩ := Bool.and_eq_true_iff.mp both
    exact List.forall_mem_cons.mpr ⟨first, List.forall_mem_cons.mpr ⟨second, others⟩⟩
  · obtain ⟨both, others⟩ := List.forall_mem_cons.mp plain
    obtain ⟨first, second⟩ := Bool.and_eq_true_iff.mp both
    rcases List.mem_cons.mp step with rfl | step
    · exact List.forall_mem_cons.mpr ⟨first, others⟩
    · obtain rfl := List.mem_singleton.mp step
      exact List.forall_mem_cons.mpr ⟨second, others⟩
  · obtain ⟨body, others⟩ := List.forall_mem_cons.mp plain
    rcases List.mem_cons.mp step with rfl | step
    · exact List.forall_mem_cons.mpr ⟨body, plain⟩
    · obtain rfl := List.mem_singleton.mp step
      exact others

theorem residue_plain (plain : AllPlain allowed alternatives) (word : List Char) :
    AllPlain allowed (residue alternatives word) := by
  induction word generalizing alternatives with
  | nil => exact plain
  | cons c word ih =>
    refine ih fun patterns member p here => ?_
    obtain ⟨t, reading, rfl⟩ := List.mem_map.mp member
    exact threads_plain plain t (List.mem_filter.mp reading).1 p (List.mem_cons_of_mem _ here)

/-- No thread is left by a character that is in none of the allowed classes. -/
theorem residue_concat_eq_nil (plain : AllPlain allowed alternatives)
    (unread : ∀ k, allowed k = true → k.contains c = false) (word : List Char) :
    residue alternatives (word ++ [c]) = [] := by
  rw [residue_append]
  refine List.map_eq_nil_iff.mpr (List.filter_eq_nil_iff.mpr fun t member reads => ?_)
  rw [unread t.reads (threads_plain (residue_plain plain word) t member _ List.mem_cons_self)] at reads
  cases reads

/-! ### The match at the head of a text -/

@[simp] theorem matchLength_nil_alternatives (before : Option Char) (text : List Char) :
    matchLength before [] text = none := by
  cases text <;> rfl

theorem matchLength_cons (plain : AllPlain allowed alternatives) (before : Option Char) (c : Char) (text : List Char) :
    matchLength before alternatives (c :: text) =
      ((matchLength (some c) (residue alternatives [c]) text).map (· + 1)).or (matchLength before alternatives []) := by
  have here : residue alternatives [c] = advance (frontier before (some c) alternatives).threads c := by
    rw [frontier_surroundings plain]
    rfl
  have ended : frontier before none alternatives = frontier before (some c) alternatives := frontier_surroundings plain
  simp only [matchLength, here, ended]
  cases none : (frontier before (some c) alternatives).threads with
  | nil => simp [advance]
  | cons t threads =>
    simp only [List.isEmpty_cons, Bool.false_eq_true, if_false]
    cases matchLength (some c) (advance (t :: threads) c) text <;> rfl

/-- What stands behind a match has no part in it. -/
theorem matchLength_of_append (plain : AllPlain allowed alternatives)
    (inside : ∀ n, matchLength before alternatives (word ++ rest) = some n → n ≤ word.length) :
    matchLength before alternatives word = matchLength before alternatives (word ++ rest) := by
  induction word generalizing before alternatives with
  | nil =>
    cases rest with
    | nil => rfl
    | cons c rest =>
      rw [List.nil_append, matchLength_cons plain] at inside ⊢
      cases longer : matchLength (some c) (residue alternatives [c]) rest with
      | none => rfl
      | some n =>
        rw [longer] at inside
        exact absurd (inside (n + 1) rfl) (Nat.not_succ_le_zero n)
  | cons c word ih =>
    rw [List.cons_append, matchLength_cons plain] at inside
    rw [List.cons_append, matchLength_cons plain, matchLength_cons plain, ih (residue_plain plain [c]) fun n longer => ?_]
    rw [longer] at inside
    exact Nat.le_of_succ_le_succ (inside (n + 1) rfl)

/-- Nothing counts behind a character that no thread is left to read. -/
theorem matchLength_append_cons (plain : AllPlain allowed alternatives) (spent : residue alternatives (word ++ [c]) = [])
    (before : Option Char) (rest : List Char) :
    matchLength before alternatives (word ++ c :: rest) = matchLength before alternatives word := by
  induction word generalizing before alternatives with
  | nil =>
    rw [List.nil_append, matchLength_cons plain, show residue alternatives [c] = [] from spent,
      matchLength_nil_alternatives]
    rfl
  | cons d word ih =>
    rw [List.cons_append, matchLength_cons plain, matchLength_cons plain, ih (residue_plain plain [d]) spent]

end Pattern
end Lookahead
