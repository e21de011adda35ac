import Lookahead.Proofs.Pattern.Residue
import Lookahead.Proofs.Scan.Pulls

/-! Words that stand apart. A chunk is cut off in the same way wherever it stands as long as no rule looks beyond it. If a
character keeps the rules from that and is skipped itself, the words of a text can be written with that character in
between, and are cut as before. -/

namespace Lookahead

namespace Rule
variable {rules : List Rule} {r : Rule} {p : Pattern} {effect : Effect} {text text' word : List Char} {c : Char} {n : Nat}

/-- What stands behind a word does not tell if the match ends within the word. -/
def Bounded (r : Rule) : Prop := ∀ word rest, r.reach (word ++ rest) ≤ word.length → r.reach word = r.reach (word ++ rest)

/-- A character behind a word ends all that could begin with the word. -/
def StopsAt (r : Rule) (word : List Char) (c : Char) : Prop := ∀ rest, r.reach (word ++ c :: rest) = r.reach word

theorem longest_congr (same : ∀ r ∈ rules, r.reach text = r.reach text') : longest rules text = longest rules text' := by
  induction rules using List.reverseRecOn with
  | nil => rfl
  | append_singleton rules r ih =>
    rw [longest_concat, longest_concat, ih fun q member => same q (List.mem_append_left _ member), better_eq, better_eq,
      same r (List.mem_append_right _ (List.mem_singleton_self r))]

theorem reach_le_length (inside : ∀ ahead n, r.find ahead = some n → n ≤ ahead.length) (text : List Char) :
    r.reach text ≤ text.length := by
  unfold reach
  cases found : r.find text with
  | none => exact Nat.zero_le _
  | some n => exact inside text n found

theorem reach_ofPattern (p : Pattern) (effect : Effect) (text : List Char) :
    (ofPattern p effect).reach text = (Pattern.matchLength none [[p]] text).getD 0 := rfl

theorem inside_ofPattern {ahead : List Char} (found : (ofPattern p effect).find ahead = some n) : n ≤ ahead.length := by
  obtain ⟨word, rest, rfl, rfl, -⟩ := Pattern.matches_of_matchLength found
  rw [List.length_append]
  exact Nat.le_add_right ..

/-- A rule that takes a word in full matches it. -/
theorem matches_of_reach (some : word ≠ []) (far : (ofPattern p effect).reach (word ++ text) = word.length) :
    p.Matches none word text := by
  rw [reach_ofPattern] at far
  cases found : Pattern.matchLength none [[p]] (word ++ text) with
  | none =>
    rw [found] at far
    exact absurd (List.length_eq_zero_iff.mp far.symm) some
  | some n =>
    rw [found] at far
    obtain ⟨taken, behind, split, length, matched⟩ := Pattern.matches_of_matchLength found
    obtain ⟨rfl, rfl⟩ := List.append_inj split (far.symm.trans length.symm)
    exact matched

section Plain
variable {allowed : CharClass → Bool} (plain : p.plain allowed = true) (effect : Effect)
include plain

theorem bounded_ofPattern : (ofPattern p effect).Bounded := by
  intro word rest inside
  have within : ∀ n, Pattern.matchLength none [[p]] (word ++ rest) = some n → n ≤ word.length := by
    intro n found
    rwa [reach_ofPattern, found] at inside
  rw [reach_ofPattern, reach_ofPattern, Pattern.matchLength_of_append (Pattern.allPlain_single plain) within]

theorem stopsAt_ofPattern (spent : Pattern.residue [[p]] (word ++ [c]) = []) : (ofPattern p effect).StopsAt word c := by
  intro rest
  rw [reach_ofPattern, reach_ofPattern, Pattern.matchLength_append_cons (Pattern.allPlain_single plain) spent]

end Plain
end Rule

namespace Chunk
variable {rules : List Rule} {gap c : Char} {text text' word rest : List Char} {reading : Reading} {chunk : Chunk} {n : Nat}
  {words : List Chunk} {pos : Position}

/-! ### Where a chunk ends -/

theorem next_congr (same : ∀ r ∈ rules, r.reach text = r.reach text') : next rules text = next rules text' := by
  rw [next, next, Rule.longest_congr same]

theorem reach_le_next (rules : List Rule) (text : List Char) : ∀ r ∈ rules, r.reach text ≤ (next rules text).1 := by
  intro r member
  have bound := Rule.reach_le_longest rules text r member
  unfold next
  split
  · rename_i found
    rwa [found] at bound
  · rename_i none
    rw [none] at bound
    exact Nat.le_succ_of_le bound

/-- A word that a text begins with as one chunk is one chunk where it stands alone. -/
theorem next_of_append (bounded : ∀ r ∈ rules, r.Bounded) (cut : next rules (word ++ rest) = (word.length, reading)) :
    next rules word = (word.length, reading) := by
  rw [← cut]
  refine next_congr fun r member => bounded r member word rest ?_
  have bound := reach_le_next rules (word ++ rest) r member
  rwa [cut] at bound

theorem cut_of_next (some : word ≠ []) (next : next rules (word ++ rest) = (word.length, reading)) (pos : Position) :
    cut rules pos (word ++ rest) = ⟨word, pos, reading⟩ :: cut rules (pos.after word) rest := by
  cases word with
  | nil => exact absurd rfl some
  | cons c word =>
    rw [List.cons_append] at next ⊢
    rw [cut, next]
    simp

/-! ### Words -/

/-- The kind and the source of a chunk's token. -/
def lexeme? (chunk : Chunk) : Option (TokenKind × String) := chunk.token?.map fun t => (t.kind, t.source)

theorem lexeme?_replaced (pos : Position) (chunk : Chunk) : lexeme? ⟨chunk.text, pos, chunk.reading⟩ = chunk.lexeme? := by
  obtain ⟨text, _, reading⟩ := chunk
  rcases reading with (_ | kind) | _ <;> rfl

/-- A chunk that is handed out as a token and that some text begins with. -/
structure IsWord (rules : List Rule) (chunk : Chunk) : Prop where
  some : chunk.text ≠ []
  handed : chunk.token?.isSome = true
  next : ∃ rest, next rules (chunk.text ++ rest) = (chunk.text.length, chunk.reading)

theorem next_bounds (inside : ∀ r ∈ rules, ∀ ahead n, r.find ahead = some n → n ≤ ahead.length)
    (cut : next rules (c :: rest) = (n, reading)) : 0 < n ∧ n ≤ (c :: rest).length := by
  unfold next at cut
  split at cut
  · rename_i found
    cases cut
    obtain ⟨nonempty, before, r, after, rfl, rfl, -⟩ := Rule.leads_of_longest found
    exact ⟨nonempty, Rule.reach_le_length (inside r (by simp)) _⟩
  · cases cut
    exact ⟨Nat.zero_lt_one, Nat.succ_pos _⟩

theorem isWord_of_mem (inside : ∀ r ∈ rules, ∀ ahead n, r.find ahead = some n → n ≤ ahead.length)
    (member : chunk ∈ shown (cut rules pos text)) : chunk.IsWord rules := by
  obtain ⟨member, handed⟩ := List.mem_filter.mp member
  fun_induction cut rules pos text with
  | case1 => cases member
  | case2 pos c rest n reading found taken ih =>
    rcases List.mem_cons.mp member with rfl | later
    · obtain ⟨some, bound⟩ := next_bounds inside found
      have split : taken ++ rest.drop (n - 1) = c :: rest := by simp only [taken, List.cons_append, List.take_append_drop]
      have length : taken.length = n := by
        rw [List.length_cons] at bound
        simp only [taken, List.length_cons, List.length_take]
        omega
      refine ⟨List.cons_ne_nil _ _, handed, rest.drop (n - 1), ?_⟩
      rw [split, length]
      exact found
    · exact ih (List.mem_filter.mpr ⟨later, handed⟩) later

/-- A character sets words apart: no rule looks beyond it, at the end of a word or before one, and it is skipped. -/
structure Separates (rules : List Rule) (gap : Char) : Prop where
  inside : ∀ r ∈ rules, ∀ ahead n, r.find ahead = some n → n ≤ ahead.length
  bounded : ∀ r ∈ rules, r.Bounded
  skipped : next rules [gap] = (1, .matched .skip)
  apart : ∀ chunk : Chunk, chunk.IsWord rules → ∀ c word, chunk.text = c :: word →
    ∀ r ∈ rules, r.StopsAt (c :: word) gap ∧ r.StopsAt [gap] c

namespace Separates
variable (separates : Separates rules gap)
include separates

theorem cut_gap (word : chunk.IsWord rules) (rest : List Char) (pos : Position) :
    cut rules pos (gap :: (chunk.text ++ rest)) =
      ⟨[gap], pos, .matched .skip⟩ :: cut rules (pos.advance gap) (chunk.text ++ rest) := by
  cases split : chunk.text with
  | nil => exact absurd split word.some
  | cons c text =>
    refine cut_of_next (List.cons_ne_nil gap []) ?_ pos
    refine (next_congr fun r member => ?_).trans separates.skipped
    exact (separates.apart chunk word c text split r member).2 (text ++ rest)

theorem cut_word (word : chunk.IsWord rules) (rest : List Char) (pos : Position) :
    cut rules pos (chunk.text ++ gap :: rest) =
      ⟨chunk.text, pos, chunk.reading⟩ :: cut rules (pos.after chunk.text) (gap :: rest) := by
  obtain ⟨_, next⟩ := word.next
  refine cut_of_next word.some ?_ pos
  refine (next_congr fun r member => ?_).trans (next_of_append separates.bounded next)
  cases split : chunk.text with
  | nil => exact absurd split word.some
  | cons c text => exact (separates.apart chunk word c text split r member).1 rest

theorem cut_last (word : chunk.IsWord rules) (pos : Position) :
    cut rules pos chunk.text = [⟨chunk.text, pos, chunk.reading⟩] := by
  obtain ⟨_, next⟩ := word.next
  have alone : Chunk.next rules (chunk.text ++ []) = (chunk.text.length, chunk.reading) :=
    (List.append_nil _).symm ▸ next_of_append separates.bounded next
  have only := cut_of_next word.some alone pos
  rwa [List.append_nil, cut] at only

/-- Words that are written with the character in between are read as they were. -/
theorem lexemes_join (each : ∀ w ∈ words, w.IsWord rules) (pos : Position) :
    (cut rules pos ([gap].intercalate (words.map Chunk.text))).filterMap lexeme? = words.filterMap lexeme? := by
  induction words generalizing pos with
  | nil => rw [List.map_nil, List.intercalate_nil, cut]
  | cons first words ih =>
    obtain ⟨word, others⟩ := List.forall_mem_cons.mp each
    cases words with
    | nil =>
      rw [List.map_cons, List.map_nil, List.intercalate_singleton, separates.cut_last word, List.filterMap_cons,
        List.filterMap_cons, lexeme?_replaced]
    | cons second words =>
      have later := ih others ((pos.after first.text).advance gap)
      obtain ⟨rest, split⟩ : ∃ rest, [gap].intercalate ((second :: words).map Chunk.text) = second.text ++ rest := by
        cases words with
        | nil => exact ⟨[], by simp⟩
        | cons third words => exact ⟨_, List.intercalate_cons_cons.trans (List.append_assoc ..)⟩
      rw [split] at later
      have joined : [gap].intercalate ((first :: second :: words).map Chunk.text) =
          first.text ++ gap :: (second.text ++ rest) := by
        rw [List.map_cons, List.map_cons, List.intercalate_cons_cons, ← List.map_cons, split, List.append_assoc]
        rfl
      rw [joined, separates.cut_word word, separates.cut_gap (others second List.mem_cons_self), List.filterMap_cons,
        List.filterMap_cons, List.filterMap_cons, lexeme?_replaced, later]
      rfl

/-- The words of a text, written anew with the character in between, are read as they were. -/
theorem lexemes_rewritten (text : List Char) (pos pos' : Position) :
    (cut rules pos' ([gap].intercalate ((shown (cut rules pos text)).map Chunk.text))).filterMap lexeme? =
      (cut rules pos text).filterMap lexeme? := by
  have same : ∀ chunks : List Chunk, chunks.filterMap lexeme? = (chunks.filterMap token?).map fun t => (t.kind, t.source) :=
    fun chunks => List.map_filterMap.symm
  rw [separates.lexemes_join (fun w member => isWord_of_mem separates.inside member), same, same, filterMap_token_shown]

end Separates
end Chunk
end Lookahead
