import Lookahead.Proofs.Imperative.Compile
import Lookahead.Proofs.Machine.Noninterference
import Lookahead.Proofs.Scan.Places
import Lookahead.Proofs.Scan.Separation

/-! Sources written anew. A single space sets the words of the language apart: no word holds a blank, a space ends whatever
could still become a longer word or a comment, and a slash that begins a comment is no word of its own. So a source can be
written with single spaces between its words, and nothing but places changes. -/

namespace Lookahead
namespace Imperative

open Pattern Chunk

variable {p : Pattern} {w : Pattern × TokenKind} {c : Char} {text : List Char} {chunk : Chunk}

/-! ### The patterns of the rules -/

/-- The patterns and kinds of words, in the order of their rules. -/
def words : List (Pattern × TokenKind) :=
  keywords.map (literal ·, .keyword) ++ operators.map (literal ·, .operator) ++ punctuation.map (literal ·, .punctuation) ++
    [(float, .float), (digits, .integer), (identifier, .identifier)]

theorem rules_eq : rules = [.ofPattern blank .skip, .ofPattern lineComment .skip, .ofPattern blockComment .skip] ++
    words.map fun w => .ofPattern w.1 (.token w.2) := rfl

theorem rules_cases {r : Rule} (member : r ∈ rules) : r = .ofPattern blank .skip ∨
    (∃ p ∈ [lineComment, blockComment], r = .ofPattern p .skip) ∨ ∃ w ∈ words, r = .ofPattern w.1 (.token w.2) := by
  rw [rules_eq] at member
  rcases List.mem_append.mp member with skipped | word
  · rcases List.mem_cons.mp skipped with same | comment
    · exact .inl same
    · obtain ⟨p, known, rfl⟩ := List.mem_map.mp (show r ∈ [lineComment, blockComment].map (.ofPattern · .skip) from comment)
      exact .inr (.inl ⟨p, known, rfl⟩)
  · obtain ⟨w, known, rfl⟩ := List.mem_map.mp word
    exact .inr (.inr ⟨w, known, rfl⟩)

/-- Whether the characters of a class can be seen. -/
def isVisible (k : CharClass) : Bool := k.within 0x21 0x7E

theorem plain_word : ∀ w ∈ words, w.1.plain isVisible = true := by decide +kernel

theorem plain_blank : blank.plain (· = .space) = true := by decide +kernel

theorem plain_comment : ∀ p ∈ [lineComment, blockComment], p.plain (fun _ => true) = true := by decide +kernel

theorem not_contains_of_isVisible (space : CharClass.space.contains c = true) (k : CharClass)
    (visible : isVisible k = true) : k.contains c = false := by
  refine Bool.eq_false_iff.mpr fun has => ?_
  have bounds := CharClass.bounds_of_within visible has
  simp only [CharClass.contains, CharClass.space, CharClass.ofRanges, CharClass.covers, Bool.or_eq_true, Bool.and_eq_true,
    decide_eq_true_eq] at space
  omega

/-! ### What a blank and what a slash leave -/

theorem residue_word (member : w ∈ words) (space : CharClass.space.contains c = true) (word : List Char) :
    residue [[w.1]] (word ++ [c]) = [] :=
  residue_concat_eq_nil (allPlain_single (plain_word w member)) (not_contains_of_isVisible space) word

theorem residue_blank (other : CharClass.space.contains c = false) (word : List Char) :
    residue [[blank]] (word ++ [c]) = [] := by
  refine residue_concat_eq_nil (allPlain_single plain_blank) (fun k same => ?_) word
  rwa [of_decide_eq_true same]

theorem residue_comment (member : p ∈ [lineComment, blockComment]) (other : c ≠ '/') : residue [[p]] [c] = [] := by
  have begins : ∀ p ∈ [lineComment, blockComment], ∀ t ∈ (frontier none none [[p]]).threads, t.reads = .single '/' := by
    decide +kernel
  refine List.map_eq_nil_iff.mpr (List.filter_eq_nil_iff.mpr fun t thread has => other ?_)
  rw [begins p member t thread] at has
  simp only [CharClass.contains, CharClass.single, CharClass.covers, Bool.and_eq_true, decide_eq_true_eq] at has
  exact Char.toNat_inj.mp (Nat.le_antisymm has.2 has.1)

theorem matchLength_nil_word : ∀ w ∈ words, matchLength none [[w.1]] [] = none := by decide +kernel

/-- No word begins with a blank. -/
theorem reach_word_of_blank (member : w ∈ words) (space : CharClass.space.contains c = true) (text : List Char) :
    (Rule.ofPattern w.1 (.token w.2)).reach (c :: text) = 0 := by
  have stops := matchLength_append_cons (allPlain_single (plain_word w member)) (residue_word member space []) none text
  rw [List.nil_append, matchLength_nil_word w member] at stops
  rw [Rule.reach_ofPattern, stops]
  rfl

/-- The only word that begins with a slash is the slash. -/
theorem reach_word_of_slash (member : w ∈ words) (text : List Char) :
    (Rule.ofPattern w.1 (.token w.2)).reach ('/' :: text) ≤ 1 := by
  have left : ∀ w ∈ words, residue [[w.1]] ['/'] = [] ∨ residue [[w.1]] ['/'] = [[]] := by decide +kernel
  have whole : matchLength (some '/') [[]] text = some 0 := by cases text <;> rfl
  rw [Rule.reach_ofPattern, matchLength_cons (allPlain_single (plain_word w member)), matchLength_nil_word w member]
  rcases left w member with none | done
  · rw [none, matchLength_nil_alternatives]
    exact Nat.zero_le 1
  · rw [done, whole]
    exact Nat.le_refl 1

theorem reach_blank_pos (space : CharClass.space.contains c = true) (text : List Char) :
    0 < (Rule.ofPattern blank .skip).reach (c :: text) := by
  let more : Pattern := .star true (.chars .space)
  have left : residue [[blank]] [c] = [[more]] := by
    have threads : (frontier none none [[blank]]).threads = [⟨.space, [more]⟩] := by decide +kernel
    simp [residue, advance, threads, space]
  have goesOn : (matchLength (some c) [[more]] text).isSome = true := by
    have plain : AllPlain (fun _ => true) [[more]] := allPlain_single rfl
    have here : frontier (some c) text.head? [[more]] = frontier none none [[more]] := frontier_surroundings plain
    refine isSome_of_complete text ?_
    rw [here]
    decide +kernel
  obtain ⟨n, longer⟩ := Option.isSome_iff_exists.mp goesOn
  rw [Rule.reach_ofPattern, matchLength_cons (allPlain_single plain_blank), left, longer]
  exact Nat.succ_pos n

/-! ### The words of a text -/

theorem word_cases (word : chunk.IsWord rules) : ∃ rest,
    (chunk.text.length = 1 ∧ chunk.reading = .unmatched ∧ ∀ r ∈ rules, r.reach (chunk.text ++ rest) = 0) ∨
      ∃ w ∈ words, (Rule.ofPattern w.1 (.token w.2)).reach (chunk.text ++ rest) = chunk.text.length ∧
        chunk.reading = .matched (.token w.2) := by
  obtain ⟨some, handed, rest, next⟩ := word
  refine ⟨rest, ?_⟩
  unfold Chunk.next at next
  split at next
  · rename_i n effect found
    obtain ⟨length, reading⟩ := Prod.mk.inj next
    obtain ⟨-, before, r, after, split, far, same, -⟩ := Rule.leads_of_longest found
    have kept : r.effect ≠ .skip := by
      rintro skip
      rw [token?, ← reading, ← same, skip] at handed
      cases handed
    rcases rules_cases (show r ∈ rules by rw [split]; simp) with rfl | ⟨p, -, rfl⟩ | ⟨w, member, rfl⟩
    · exact absurd rfl kept
    · exact absurd rfl kept
    · exact .inr ⟨w, member, far.trans length, by rw [← reading, ← same]; rfl⟩
  · rename_i none
    obtain ⟨length, reading⟩ := Prod.mk.inj next
    exact .inl ⟨length.symm, reading.symm, Rule.reach_eq_zero_of_longest none⟩

theorem word_begins (word : chunk.IsWord rules) (split : chunk.text = c :: text) :
    CharClass.space.contains c = false ∧ (c = '/' → text = []) := by
  obtain ⟨rest, ⟨single, -, nowhere⟩ | ⟨w, member, far, -⟩⟩ := word_cases word
  · rw [split, List.length_cons] at single
    rw [split] at nowhere
    refine ⟨Bool.eq_false_iff.mpr fun blank => ?_, fun _ => List.length_eq_zero_iff.mp (Nat.succ_inj.mp single)⟩
    exact absurd (nowhere _ (by rw [rules_eq]; simp)) (Nat.ne_of_gt (reach_blank_pos blank (text ++ rest)))
  · rw [split, List.cons_append, List.length_cons] at far
    refine ⟨Bool.eq_false_iff.mpr fun blank => ?_, ?_⟩
    · rw [reach_word_of_blank member blank] at far
      cases far
    · rintro rfl
      have short := reach_word_of_slash member (text ++ rest)
      rw [far] at short
      exact List.length_eq_zero_iff.mp (Nat.le_zero.mp (Nat.le_of_succ_le_succ short))

/-- A space sets words apart. -/
theorem separates_space : Separates rules ' ' where
  inside := by
    intro r member ahead n found
    rcases rules_cases member with rfl | ⟨p, -, rfl⟩ | ⟨w, -, rfl⟩ <;> exact Rule.inside_ofPattern found
  bounded := by
    intro r member
    rcases rules_cases member with rfl | ⟨p, known, rfl⟩ | ⟨w, known, rfl⟩
    · exact Rule.bounded_ofPattern plain_blank _
    · exact Rule.bounded_ofPattern (plain_comment p known) _
    · exact Rule.bounded_ofPattern (plain_word w known) _
  skipped := by decide +kernel
  apart := by
    intro chunk word c text split r member
    obtain ⟨visible, slash⟩ := word_begins word split
    rcases rules_cases member with rfl | ⟨p, known, rfl⟩ | ⟨w, known, rfl⟩
    · exact ⟨Rule.stopsAt_ofPattern plain_blank _ (residue_append_eq_nil (residue_blank visible []) _),
        Rule.stopsAt_ofPattern plain_blank _ (residue_blank visible [' '])⟩
    · have space : residue [[p]] [' '] = [] := residue_comment known (by decide)
      refine ⟨Rule.stopsAt_ofPattern (plain_comment p known) _ ?_,
        Rule.stopsAt_ofPattern (plain_comment p known) _ (residue_append_eq_nil space [c])⟩
      by_cases begins : c = '/'
      · have ends : ∀ p ∈ [lineComment, blockComment], residue [[p]] ['/', ' '] = [] := by decide +kernel
        rw [begins, slash begins]
        exact ends p known
      · exact residue_append_eq_nil (residue_comment known begins) (text ++ [' '])
    · exact ⟨Rule.stopsAt_ofPattern (plain_word w known) _ (residue_word known rfl (c :: text)),
        Rule.stopsAt_ofPattern (plain_word w known) _ (residue_append_eq_nil (residue_word known rfl []) [c])⟩

/-! ### Sources with single spaces -/

/-- A source written anew: the sources of its tokens but the closing record, with single spaces in between. -/
def respaced (source : String) : String :=
  " ".intercalate (((Scan.ofText rules source).tokens.filter (!·.isEof)).map (·.source))

theorem filter_tokens (source : String) : (Scan.ofText rules source).tokens.filter (!·.isEof) =
    (Scan.ofText rules source).chunks.filterMap token? := by
  rw [Scan.tokens, List.filter_append, List.filter_eq_self.mpr (not_isEof source)]
  exact List.append_nil _

theorem sources_eq (chunks : List Chunk) :
    (chunks.filterMap token?).map (·.source.toList) = (shown chunks).map Chunk.text := by
  induction chunks with
  | nil => rfl
  | cons chunk chunks ih =>
    cases token : chunk.token? with
    | none => simpa [shown, token] using ih
    | some t => simpa [shown, token, (of_token? token).1] using ih

theorem toList_respaced (source : String) : (respaced source).toList =
    [' '].intercalate ((shown (Scan.ofText rules source).chunks).map Chunk.text) := by
  rw [respaced, String.toList_intercalate, filter_tokens, List.map_map, ← sources_eq]
  rfl

theorem lexemes_respaced (source : String) : (Scan.ofText rules (respaced source)).tokens.map (fun t => (t.kind, t.source)) =
    (Scan.ofText rules source).tokens.map fun t => (t.kind, t.source) := by
  have rewritten := separates_space.lexemes_rewritten source.toList .start .start
  rw [Scan.tokens, Scan.tokens, List.map_append, List.map_append, List.map_filterMap, List.map_filterMap]
  refine congrArg (· ++ [(TokenKind.eof, "")]) ?_
  rw [Scan.ofText, toList_respaced]
  exact rewritten

/-- A source written anew with single spaces has the same words: the same tokens but for their places. So it is compiled
    with the same outcome and the same trace. -/
theorem compile_respaced (source : String) (trace : Bool) :
    (Scan.ofText rules (respaced source)).tokens.map (fun t => (t.kind, t.source)) =
      (Scan.ofText rules source).tokens.map (fun t => (t.kind, t.source)) ∧
    ∃ c c', compile source trace = .ok c ∧ compile (respaced source) trace = .ok c' ∧
      c'.outcome = c.outcome ∧ c'.trace = c.trace := by
  obtain ⟨g, result, -⟩ := grammar_isLanguage
  have unplaced : List.Forall₂ (fun a b : Token => a.kind = b.kind ∧ a.source = b.source)
      (Scan.ofText rules (respaced source)).tokens (Scan.ofText rules source).tokens := by
    have same := lexemes_respaced source
    rw [← List.forall₂_eq_eq_eq, List.forall₂_map_left_iff, List.forall₂_map_right_iff] at same
    exact same.imp fun _ _ here => Prod.mk.inj here
  -- Of tokens the parser sees the kind and the source only.
  have alike := Machine.sameToken_of_unplaced (m := machine g trace) unplaced
  have agree : (machine g trace).settings.SameSyntax (machine g trace).settings := ⟨rfl, rfl, rfl, rfl⟩
  obtain ⟨outcome, -, told⟩ := Machine.run_alike agree (i := .ofTokens (Scan.ofText rules (respaced source)).tokens)
    (j := .ofTokens (Scan.ofText rules source).tokens) alike .empty .empty
  obtain ⟨rows, -⟩ := told True.intro
  refine ⟨lexemes_respaced source, _, _, compile_eq result source trace, compile_eq result (respaced source) trace,
    outcome, ?_⟩
  simp only [compileWith, Machine.parse, Machine.report, rows]
  rfl

example : respaced "x++/*y*/1.5.z//w" = "x ++ 1.5 . z" := by decide +kernel

end Imperative
end Lookahead
