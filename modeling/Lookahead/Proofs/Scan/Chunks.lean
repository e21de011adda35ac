import Lookahead.Scan
import Mathlib.Data.List.Basic
import Mathlib.Data.List.Induction

/-! What the chunks of a text are. They make up the text one after another. Where some rule matches, a chunk is what the
first of the longest matches takes; where none does, it is one character. -/

namespace Lookahead

/-! ### The longest match -/

namespace Rule
variable {rules : List Rule} {text : List Char} {n : Nat} {effect : Effect}

/-- How far the match of a rule reaches into a text. Where it has none that is nowhere. -/
def reach (r : Rule) (text : List Char) : Nat := (r.find text).getD 0

/-- Some rule reaches as far as any and farther than those before it. -/
structure Leads (rules : List Rule) (text : List Char) (n : Nat) (effect : Effect) : Prop where
  nonempty : 0 < n
  first : ∃ before r after, rules = before ++ r :: after ∧ r.reach text = n ∧ r.effect = effect ∧
    (∀ q ∈ before, q.reach text < n) ∧ ∀ q ∈ after, q.reach text ≤ n

theorem better_eq (text : List Char) (best : Option (Nat × Effect)) (r : Rule) : better text best r =
    if (best.map (·.1)).getD 0 < r.reach text then some (r.reach text, r.effect) else best := by
  unfold better reach
  cases r.find text with
  | none => rfl
  | some n => rfl

theorem longest_concat (rules : List Rule) (r : Rule) (text : List Char) :
    longest (rules ++ [r]) text = better text (longest rules text) r := by
  rw [longest, List.foldl_append]
  rfl

theorem reach_le_longest (rules : List Rule) (text : List Char) :
    ∀ r ∈ rules, r.reach text ≤ ((longest rules text).map (·.1)).getD 0 := by
  induction rules using List.reverseRecOn with
  | nil => exact fun _ member => nomatch member
  | append_singleton rules r ih =>
    rw [longest_concat, better_eq]
    intro q member
    rcases List.mem_append.mp member with old | new
    · have before := ih q old
      split
      · exact Nat.le_of_lt (Nat.lt_of_le_of_lt before ‹_›)
      · exact before
    · rw [List.mem_singleton.mp new]
      split
      · exact Nat.le_refl _
      · exact Nat.le_of_not_lt ‹_›

theorem leads_of_longest (h : longest rules text = some (n, effect)) : Leads rules text n effect := by
  induction rules using List.reverseRecOn with
  | nil => cases h
  | append_singleton rules r ih =>
    have before := reach_le_longest rules text
    rw [longest_concat, better_eq] at h
    split at h
    · rename_i longer
      cases h
      refine ⟨Nat.zero_lt_of_lt longer, rules, r, [], rfl, rfl, rfl, fun q member => ?_, fun _ member => nomatch member⟩
      exact Nat.lt_of_le_of_lt (before q member) longer
    · rename_i shorter
      obtain ⟨nonempty, others, q, after, rfl, far, same, less, most⟩ := ih h
      rw [h] at shorter
      refine ⟨nonempty, others, q, after ++ [r], by simp, far, same, less, fun other member => ?_⟩
      rcases List.mem_append.mp member with old | new
      · exact most other old
      · rw [List.mem_singleton.mp new]
        exact Nat.le_of_not_lt shorter

theorem reach_eq_zero_of_longest (h : longest rules text = none) : ∀ r ∈ rules, r.reach text = 0 := by
  intro r member
  have bound := reach_le_longest rules text r member
  rw [h] at bound
  exact Nat.le_zero.mp bound

end Rule

/-! ### The chunks of a text -/

/-- The token of a character that no rule matches. -/
def Unmatched.token (u : Unmatched) : Token := ⟨.invalid, String.singleton u.character, u.pos⟩

namespace Chunk
variable {rules : List Rule} {pos : Position} {text : List Char} {chunks : List Chunk}

/-- Chunks make up a text that starts at a place: each is what the leading match takes, or one character where no rule
    reaches anywhere. -/
inductive Tile (rules : List Rule) : Position → List Char → List Chunk → Prop
  | done (pos : Position) : Tile rules pos [] []
  | matched {pos : Position} {text : List Char} {n : Nat} {effect : Effect} {chunks : List Chunk} (some : text ≠ [])
    (leads : Rule.Leads rules text n effect) (later : Tile rules (pos.after (text.take n)) (text.drop n) chunks) :
    Tile rules pos text (⟨text.take n, pos, .matched effect⟩ :: chunks)
  | unmatched {pos : Position} {c : Char} {rest : List Char} {chunks : List Chunk}
    (nowhere : ∀ r ∈ rules, r.reach (c :: rest) = 0) (later : Tile rules (pos.advance c) rest chunks) :
    Tile rules pos (c :: rest) (⟨[c], pos, .unmatched⟩ :: chunks)

theorem tile_cut (rules : List Rule) (pos : Position) (text : List Char) : Tile rules pos text (cut rules pos text) := by
  fun_induction cut rules pos text with
  | case1 => exact .done _
  | case2 pos c rest n reading next taken ih =>
    unfold Chunk.next at next
    split at next
    · rename_i effect found
      cases next
      have leads := Rule.leads_of_longest found
      obtain ⟨k, rfl⟩ : ∃ k, n = k + 1 := Nat.exists_eq_succ_of_ne_zero (Nat.ne_of_gt leads.nonempty)
      exact .matched (List.cons_ne_nil c rest) leads ih
    · rename_i found
      cases next
      exact .unmatched (Rule.reach_eq_zero_of_longest found) ih

namespace Tile

theorem flatMap_text (h : Tile rules pos text chunks) : chunks.flatMap Chunk.text = text := by
  induction h with
  | done => rfl
  | matched _ _ _ ih => rw [List.flatMap_cons, ih, List.take_append_drop]
  | unmatched _ _ ih => rw [List.flatMap_cons, ih, List.singleton_append]

/-- A chunk that was read by a rule has the effect of one of the rules. -/
theorem effect_mem (h : Tile rules pos text chunks) {chunk : Chunk} {effect : Effect} (member : chunk ∈ chunks)
    (reading : chunk.reading = .matched effect) : ∃ r ∈ rules, r.effect = effect := by
  induction h with
  | done => cases member
  | matched _ leads _ ih =>
    rcases List.mem_cons.mp member with rfl | later
    · cases reading
      obtain ⟨-, before, r, after, rfl, -, same, -⟩ := leads
      exact ⟨r, by simp, same⟩
    · exact ih later
  | unmatched _ _ ih =>
    rcases List.mem_cons.mp member with rfl | later
    · cases reading
    · exact ih later

/-- What is noted for a chunk is the character of its token, and nothing where a rule matches. -/
theorem map_unmatched? (h : Tile rules pos text chunks) {chunk : Chunk} (member : chunk ∈ chunks) :
    chunk.unmatched?.map Unmatched.token = if chunk.reading = .unmatched then chunk.token? else none := by
  induction h with
  | done => cases member
  | matched _ _ _ ih =>
    rcases List.mem_cons.mp member with rfl | later
    · rfl
    · exact ih later
  | @unmatched pos c _ _ _ _ ih =>
    rcases List.mem_cons.mp member with rfl | later
    · show some (⟨.invalid, String.singleton c, pos⟩ : Token) = some ⟨.invalid, String.ofList [c], pos⟩
      rw [String.singleton_eq_ofList]
    · exact ih later

/-- The characters that are noted are those of the unmatched chunks, each in the place of its token. -/
theorem map_filterMap_unmatched? (h : Tile rules pos text chunks) {some : List Chunk} (among : some ⊆ chunks) :
    (some.filterMap Chunk.unmatched?).map Unmatched.token =
      (some.filter (·.reading = .unmatched)).filterMap Chunk.token? := by
  rw [List.map_filterMap, List.filterMap_filter]
  refine List.filterMap_congr fun chunk member => ?_
  rw [h.map_unmatched? (among member)]
  exact if_congr (decide_eq_true_iff).symm rfl rfl

end Tile
end Chunk
end Lookahead
