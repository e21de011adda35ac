import Lookahead.Pattern.Search

/-! What patterns mean. A pattern matches words in their surroundings, the character before a word and the text behind it,
piece by piece as it is built. The same words are spelled by going through the patterns to match one step at a time, where a
step reads a character or replaces the first pattern by its parts. -/

namespace Lookahead
namespace Pattern
variable {p a b : Pattern} {patterns later : List Pattern} {before : Option Char} {c : Char} {u v word rest : List Char}

/-- The character that stands before what follows a word. -/
def behind (before : Option Char) (word : List Char) : Option Char := word.foldl (fun _ c => some c) before

@[simp] theorem behind_nil (before : Option Char) : behind before [] = before := rfl

@[simp] theorem behind_cons (before : Option Char) (c : Char) (word : List Char) :
    behind before (c :: word) = behind (some c) word := rfl

theorem behind_append (before : Option Char) (u v : List Char) : behind before (u ++ v) = behind (behind before u) v :=
  List.foldl_append

theorem behind_some (c : Char) (word : List Char) : behind (some c) word ≠ none := by
  induction word generalizing c with
  | nil => exact Option.some_ne_none c
  | cons d word ih => exact ih d

theorem behind_eq_none : behind before word = none ↔ before = none ∧ word = [] := by
  cases word with
  | nil => simp
  | cons c word => simp [behind_some]

/-- A pattern matches a word that stands behind a character, if any, and before the rest of the text. -/
inductive Matches : Pattern → Option Char → List Char → List Char → Prop
  | empty {before : Option Char} {rest : List Char} : Matches .empty before [] rest
  | chars {k : CharClass} {c : Char} {before : Option Char} {rest : List Char} (has : k.contains c = true) :
    Matches (.chars k) before [c] rest
  | anchor {a : Anchor} {before : Option Char} {rest : List Char} (holds : a.holds before rest.head? = true) :
    Matches (.anchor a) before [] rest
  | seq {a b : Pattern} {before : Option Char} {u v rest : List Char} (first : Matches a before u (v ++ rest))
    (second : Matches b (behind before u) v rest) : Matches (.seq a b) before (u ++ v) rest
  | left {a b : Pattern} {before : Option Char} {word rest : List Char} (first : Matches a before word rest) :
    Matches (.alt a b) before word rest
  | right {a b : Pattern} {before : Option Char} {word rest : List Char} (second : Matches b before word rest) :
    Matches (.alt a b) before word rest
  | stop {greedy : Bool} {a : Pattern} {before : Option Char} {rest : List Char} : Matches (.star greedy a) before [] rest
  | again {greedy : Bool} {a : Pattern} {before : Option Char} {u v rest : List Char}
    (once : Matches a before u (v ++ rest)) (more : Matches (.star greedy a) (behind before u) v rest) :
    Matches (.star greedy a) before (u ++ v) rest

/-- Patterns match a word one after another. -/
def MatchesAll : List Pattern → Option Char → List Char → List Char → Prop
  | [], _, word, _ => word = []
  | p :: later, before, word, rest =>
    ∃ u v, word = u ++ v ∧ p.Matches before u (v ++ rest) ∧ MatchesAll later (behind before u) v rest

/-! ### One step at a time -/

/-- What patterns to match are replaced by at a place where no character is read. -/
def successors (before after : Option Char) : List Pattern → List (List Pattern)
  | [] => []
  | .empty :: later => [later]
  | .chars _ :: _ => []
  | .anchor a :: later => if a.holds before after then [later] else []
  | .seq a b :: later => [a :: b :: later]
  | .alt a b :: later => [a :: later, b :: later]
  | .star greedy a :: later => [a :: .star greedy a :: later, later]

/-- Patterns are gone through step by step as a word is read. -/
inductive Spells : List Pattern → Option Char → List Char → List Char → Prop
  | done {before : Option Char} {rest : List Char} : Spells [] before [] rest
  | read {k : CharClass} {c : Char} {later : List Pattern} {before : Option Char} {word rest : List Char}
    (has : k.contains c = true) (behind : Spells later (some c) word rest) :
    Spells (.chars k :: later) before (c :: word) rest
  | skip {patterns next : List Pattern} {before : Option Char} {word rest : List Char}
    (step : next ∈ successors before (word ++ rest).head? patterns) (behind : Spells next before word rest) :
    Spells patterns before word rest

theorem Matches.spells (h : p.Matches before u (v ++ rest)) (behind : Spells later (behind before u) v rest) :
    Spells (p :: later) before (u ++ v) rest := by
  generalize surroundings : v ++ rest = rest' at h
  induction h generalizing v later with
  | empty => exact .skip (List.mem_singleton_self _) behind
  | chars has => exact .read has behind
  | anchor holds =>
    subst surroundings
    exact .skip (by rw [successors, List.nil_append, if_pos holds]; exact List.mem_singleton_self _) behind
  | @seq _ _ _ u w _ _ _ first second =>
    subst surroundings
    rw [behind_append] at behind
    rw [List.append_assoc]
    exact .skip (List.mem_singleton_self _) (first (second behind rfl) (List.append_assoc ..))
  | left _ ih => exact .skip List.mem_cons_self (ih behind surroundings)
  | right _ ih => exact .skip (List.mem_cons_of_mem _ (List.mem_singleton_self _)) (ih behind surroundings)
  | stop => exact .skip (List.mem_cons_of_mem _ (List.mem_singleton_self _)) behind
  | again _ _ once more =>
    subst surroundings
    rw [behind_append] at behind
    rw [List.append_assoc]
    exact .skip List.mem_cons_self (once (more behind rfl) (List.append_assoc ..))

theorem matchesAll_of_successor {next : List Pattern} (step : next ∈ successors before (word ++ rest).head? patterns)
    (h : MatchesAll next before word rest) : MatchesAll patterns before word rest := by
  unfold successors at step
  split at step
  · cases step
  · obtain rfl := List.mem_singleton.mp step
    exact ⟨[], word, rfl, .empty, h⟩
  · cases step
  · split at step
    · rename_i holds
      obtain rfl := List.mem_singleton.mp step
      exact ⟨[], word, rfl, .anchor holds, h⟩
    · cases step
  · obtain rfl := List.mem_singleton.mp step
    obtain ⟨u, _, rfl, first, v, w, rfl, second, behind⟩ := h
    refine ⟨u ++ v, w, (List.append_assoc ..).symm, .seq ?_ second, behind_append .. ▸ behind⟩
    rwa [List.append_assoc] at first
  · rcases List.mem_cons.mp step with rfl | step
    · obtain ⟨u, v, rfl, first, behind⟩ := h
      exact ⟨u, v, rfl, .left first, behind⟩
    · obtain rfl := List.mem_singleton.mp step
      obtain ⟨u, v, rfl, second, behind⟩ := h
      exact ⟨u, v, rfl, .right second, behind⟩
  · rcases List.mem_cons.mp step with rfl | step
    · obtain ⟨u, _, rfl, once, v, w, rfl, more, behind⟩ := h
      refine ⟨u ++ v, w, (List.append_assoc ..).symm, .again ?_ more, behind_append .. ▸ behind⟩
      rwa [List.append_assoc] at once
    · obtain rfl := List.mem_singleton.mp step
      exact ⟨[], word, rfl, .stop, h⟩

theorem Spells.matchesAll (h : Spells patterns before word rest) : MatchesAll patterns before word rest := by
  induction h with
  | done => rfl
  | @read _ c _ _ word _ has _ ih => exact ⟨[c], word, rfl, .chars has, ih⟩
  | skip step _ ih => exact matchesAll_of_successor step ih

/-- A pattern matches the words that it spells. -/
theorem spells_iff : Spells [p] before word rest ↔ p.Matches before word rest := by
  constructor
  · intro h
    obtain ⟨u, _, rfl, found, rfl⟩ := h.matchesAll
    rwa [List.append_nil]
  · intro h
    have spelled : Spells [p] before (word ++ []) rest := h.spells .done
    rwa [List.append_nil] at spelled

/-! ### Properties of matches -/

/-- A pattern that begins with the start of the text matches nowhere else. -/
theorem Matches.eq_none_of_startsText (h : p.Matches before word rest) (starts : p.startsText = true) : before = none := by
  induction h with
  | empty => cases starts
  | chars => cases starts
  | anchor holds =>
    obtain rfl := of_decide_eq_true starts
    exact Option.isNone_iff_eq_none.mp holds
  | seq first _ ih ih' =>
    rw [startsText, Bool.or_eq_true, Bool.and_eq_true, decide_eq_true_eq] at starts
    rcases starts with starts | ⟨rfl, starts⟩
    · exact ih starts
    · cases first
      exact ih' starts
  | left _ ih => exact ih (Bool.and_eq_true_iff.mp starts).1
  | right _ ih => exact ih (Bool.and_eq_true_iff.mp starts).2
  | stop => cases starts
  | again => cases starts

end Pattern
end Lookahead
