import Lookahead.Proofs.Scan.Pulls
import Mathlib.Data.List.DropRight

/-! Where tokens stand. The place of a token tells how many newlines stand before it in the whole text and how many
characters since the last of them, however many tokens were asked for before, and no two tokens stand in one place. -/

namespace Lookahead

namespace Position
variable {p q r : Position}

/-- The place behind a text counts its newlines and the characters since the last one. -/
def behind (text : List Char) : Position := ⟨1 + text.count '\n', 1 + (text.rtakeWhile (· ≠ '\n')).length⟩

theorem start_after (text : List Char) : start.after text = behind text := by
  induction text using List.reverseRecOn with
  | nil => rfl
  | append_singleton text c ih =>
    rw [after_append, ih, after_cons, after_nil, advance]
    by_cases newline : c = '\n'
    · simp [behind, newline, List.count_append, Nat.add_assoc]
    · simp [behind, newline, List.count_append, Nat.add_assoc]

example : start.after "a\nbε".toList = ⟨2, 3⟩ := by rw [start_after]; decide

/-- An earlier line, or an earlier column of the same line. -/
def Precedes (p q : Position) : Prop := p.line < q.line ∨ p.line = q.line ∧ p.column < q.column

theorem Precedes.trans (first : p.Precedes q) (second : q.Precedes r) : p.Precedes r := by
  unfold Precedes at *
  omega

theorem precedes_advance (p : Position) (c : Char) : p.Precedes (p.advance c) := by
  unfold advance
  split
  · exact .inl (Nat.lt_succ_self p.line)
  · exact .inr ⟨rfl, Nat.lt_succ_self p.column⟩

theorem precedes_after (p : Position) {text : List Char} (some : text ≠ []) : p.Precedes (p.after text) := by
  induction text generalizing p with
  | nil => exact absurd rfl some
  | cons c rest ih =>
    rw [after_cons]
    cases rest with
    | nil => exact precedes_advance p c
    | cons d rest => exact (precedes_advance p c).trans (ih _ (List.cons_ne_nil d rest))

end Position

namespace Chunk
variable {rules : List Rule} {pos : Position} {text : List Char} {chunk : Chunk} {before after chunks : List Chunk}

theorem Tile.first (h : Tile rules pos text (chunk :: chunks)) :
    chunk.pos = pos ∧ chunk.text ≠ [] ∧ Tile rules (pos.after chunk.text) (chunks.flatMap Chunk.text) chunks := by
  have later : Tile rules (pos.after chunk.text) (chunks.flatMap Chunk.text) chunks := by
    have dropped : Tile rules (pos.after ([chunk].flatMap Chunk.text)) (chunks.flatMap Chunk.text) chunks := Tile.drop h
    rwa [List.flatMap_singleton] at dropped
  cases h with
  | matched some leads _ => exact ⟨rfl, by simp [some, Nat.ne_of_gt leads.nonempty], later⟩
  | unmatched _ _ => exact ⟨rfl, List.cons_ne_nil _ _, later⟩

theorem Tile.placed (h : Tile rules pos text (before ++ chunk :: after)) :
    chunk.pos = pos.after (before.flatMap Chunk.text) := h.drop.first.1

/-- The places of chunks and the place behind them, in order. -/
def places (stop : Position) (chunks : List Chunk) : List Position := chunks.map (·.pos) ++ [stop]

theorem Tile.pairwise_places (h : Tile rules pos text chunks) :
    (places (pos.after text) chunks).Pairwise Position.Precedes ∧
      ∀ p ∈ places (pos.after text) chunks, p = pos ∨ pos.Precedes p := by
  induction chunks generalizing pos text with
  | nil =>
    cases h
    simp [places]
  | cons chunk chunks ih =>
    obtain ⟨here, some, later⟩ := h.first
    obtain ⟨increasing, bound⟩ := ih later
    have stop : (pos.after chunk.text).after (chunks.flatMap Chunk.text) = pos.after text := by
      rw [← Position.after_append, ← List.flatMap_cons, h.flatMap_text]
    rw [stop] at increasing bound
    -- What comes behind the first chunk stands where it ends or later.
    have behind : ∀ p ∈ places (pos.after text) chunks, pos.Precedes p := by
      intro p member
      rcases bound p member with rfl | more
      · exact pos.precedes_after some
      · exact (pos.precedes_after some).trans more
    have split : places (pos.after text) (chunk :: chunks) = pos :: places (pos.after text) chunks := by
      rw [places, List.map_cons, here, List.cons_append]
      rfl
    rw [split]
    refine ⟨List.pairwise_cons.mpr ⟨behind, increasing⟩, fun p member => ?_⟩
    rcases List.mem_cons.mp member with rfl | more
    · exact .inl rfl
    · exact .inr (behind p more)

theorem of_token? {t : Token} (token : chunk.token? = some t) : t.source.toList = chunk.text ∧ t.pos = chunk.pos := by
  unfold token? at token
  split at token
  · cases token
  · cases token
    exact ⟨String.toList_ofList, rfl⟩
  · cases token
    exact ⟨String.toList_ofList, rfl⟩

theorem sublist_places (stop : Position) (chunks : List Chunk) :
    ((chunks.filterMap token? ++ [Token.closing stop]).map (·.pos)).Sublist (places stop chunks) := by
  rw [List.map_append, places]
  refine List.Sublist.append ?_ (List.Sublist.refl _)
  induction chunks with
  | nil => exact .slnil
  | cons chunk chunks ih =>
    rw [List.filterMap_cons]
    split
    · exact ih.cons _
    · rename_i t token
      rw [List.map_cons, (of_token? token).2]
      exact ih.cons_cons _

/-- The tokens of a scan stand one behind another, and the closing record behind all of them. -/
theorem Tile.pairwise_tokens (h : Tile rules pos text chunks) :
    ((chunks.filterMap token? ++ [Token.closing (pos.after text)]).map (·.pos)).Pairwise Position.Precedes :=
  h.pairwise_places.1.sublist (sublist_places _ chunks)

/-- Before the chunk of a token come as many chunks that are shown as there are tokens before it. -/
theorem exists_of_getElem? {k : Nat} {t : Token} (handed : (chunks.filterMap token?)[k]? = some t) :
    ∃ before chunk after, chunks = before ++ chunk :: after ∧ (shown before).length = k ∧ chunk.token? = some t := by
  induction chunks generalizing k with
  | nil => cases handed
  | cons first chunks ih =>
    cases token : first.token? with
    | none =>
      rw [List.filterMap_cons_none token] at handed
      obtain ⟨before, chunk, after, rfl, rank, found⟩ := ih handed
      exact ⟨first :: before, chunk, after, rfl, by simpa [shown, token] using rank, found⟩
    | some s =>
      rw [List.filterMap_cons_some token] at handed
      cases k with
      | zero => exact ⟨[], first, chunks, rfl, rfl, token.trans handed⟩
      | succ k =>
        obtain ⟨before, chunk, after, rfl, rank, found⟩ := ih handed
        exact ⟨first :: before, chunk, after, rfl, by simpa [shown, token] using rank, found⟩

theorem map_token?_shown (chunks : List Chunk) : (shown chunks).map token? = (chunks.filterMap token?).map some := by
  rw [List.map_filterMap_some_eq_filter_map_isSome, List.filter_map]
  rfl

theorem length_shown (chunks : List Chunk) : (shown chunks).length = (chunks.filterMap token?).length := by
  rw [shown, List.length_filterMap_eq_countP, List.countP_eq_length_filter]

/-- The token of a chunk stands behind those of the chunks before it. -/
theorem getElem?_tokens {t : Token} (token : chunk.token? = some t) (stop : Position) :
    ((before ++ chunk :: after).filterMap token? ++ [.closing stop])[(shown before).length]? = some t := by
  rw [length_shown, List.filterMap_append, List.filterMap_cons_some token, List.append_assoc, List.cons_append,
    List.getElem?_append_right (Nat.le_refl _), Nat.sub_self, List.getElem?_cons_zero]

/-- Every chunk that is not skipped has a token. -/
theorem exists_token (kept : chunk.reading ≠ .matched .skip) :
    ∃ t, chunk.token? = some t ∧ (chunk.reading = .unmatched → t.kind = .invalid) := by
  unfold token?
  split
  · exact absurd ‹_› kept
  · rename_i matched
    exact ⟨_, rfl, fun unmatched => nomatch matched.symm.trans unmatched⟩
  · exact ⟨_, rfl, fun _ => rfl⟩

end Chunk

namespace Scanner

/-- Every chunk that is not skipped is handed out as a token, when those before it were asked for, and the closing record when
    all of them were. A token stands behind the newlines and characters of all chunks before its own, and the closing record
    behind the whole text. Places increase from token to token, and what is noted by then are the tokens of the unmatched
    characters, each in its place. -/
theorem pulled_placed (rules : List Rule) (text : String) :
    let scan := Scan.ofText rules text
    let scanner := Scanner.ofText rules text
    scan.chunks.flatMap Chunk.text = text.toList ∧
    (∀ k, (scanner.pulled k).next.1 = scan.tokens[k]?) ∧
    (∀ before chunk after, scan.chunks = before ++ chunk :: after → chunk.reading ≠ .matched .skip →
      ∃ t, (scanner.pulled (Chunk.shown before).length).next.1 = some t ∧ (chunk.reading = .unmatched → t.kind = .invalid) ∧
        t.source.toList = chunk.text ∧ t.pos = .behind (before.flatMap Chunk.text)) ∧
    (scanner.pulled (Chunk.shown scan.chunks).length).next.1 = some (.closing (.behind text.toList)) ∧
    (∀ k t, (scanner.pulled k).next.1 = some t →
      (∃ before chunk after, scan.chunks = before ++ chunk :: after ∧ (Chunk.shown before).length = k ∧
        chunk.token? = some t ∧ t.source.toList = chunk.text ∧ t.pos = .behind (before.flatMap Chunk.text)) ∨
      k = (Chunk.shown scan.chunks).length ∧ t = .closing (.behind text.toList)) ∧
    (∀ j k s t, j < k → (scanner.pulled j).next.1 = some s → (scanner.pulled k).next.1 = some t →
      s.pos.Precedes t.pos) ∧
    (∀ k, (scanner.pulled k).unmatched.map Unmatched.token =
      (((Chunk.shown scan.chunks).take k).filter (·.reading = .unmatched)).filterMap Chunk.token?) ∧
    ∀ k, ∀ u ∈ (scanner.pulled k).unmatched, ∃ j < k, (scanner.pulled j).next.1 = some u.token := by
  have tiled : Chunk.Tile rules .start text.toList (Scan.ofText rules text).chunks := Chunk.tile_cut ..
  have handed := fun k => (pulled_ofText rules text k).1
  have stop : (Scan.ofText rules text).stop = .behind text.toList := Position.start_after text.toList
  have noted : ∀ k, ((ofText rules text).pulled k).unmatched.map Unmatched.token =
      (((Chunk.shown (Scan.ofText rules text).chunks).take k).filter (·.reading = .unmatched)).filterMap Chunk.token? := by
    intro k
    rw [(pulled_ofText rules text k).2]
    exact tiled.map_filterMap_unmatched? (List.Subset.trans (List.take_subset _ _) (List.filter_subset_self _))
  have placed : ∀ {before chunk after t}, (Scan.ofText rules text).chunks = before ++ chunk :: after →
      chunk.token? = some t → t.source.toList = chunk.text ∧ t.pos = .behind (before.flatMap Chunk.text) := by
    intro before chunk after t split token
    obtain ⟨source, pos⟩ := Chunk.of_token? token
    rw [split] at tiled
    exact ⟨source, by rw [pos, tiled.placed, Position.start_after]⟩
  refine ⟨tiled.flatMap_text, handed, fun before chunk after split kept => ?_, ?_, fun k t here => ?_,
    fun j k s t less here later => ?_, noted, fun k u member => ?_⟩
  · obtain ⟨t, token, invalid⟩ := Chunk.exists_token kept
    refine ⟨t, ?_, invalid, placed split token⟩
    rw [handed, Scan.tokens, split]
    exact Chunk.getElem?_tokens token _
  · rw [handed, Scan.tokens, Chunk.length_shown, List.getElem?_append_right (Nat.le_refl _), Nat.sub_self, stop]
    rfl
  · rw [handed, Scan.tokens] at here
    rcases Nat.lt_or_ge k ((Scan.ofText rules text).chunks.filterMap Chunk.token?).length with inside | last
    · rw [List.getElem?_append_left inside] at here
      obtain ⟨before, chunk, after, split, rank, token⟩ := Chunk.exists_of_getElem? here
      exact .inl ⟨before, chunk, after, split, rank, token, placed split token⟩
    · rw [List.getElem?_append_right last, List.getElem?_singleton] at here
      split at here
      · cases here
        exact .inr ⟨by rw [Chunk.length_shown]; omega, by rw [stop]⟩
      · cases here
  · rw [handed] at here later
    have increasing := List.pairwise_iff_getElem.mp (List.pairwise_map.mp tiled.pairwise_tokens)
    obtain ⟨inside, rfl⟩ := List.getElem?_eq_some_iff.mp here
    obtain ⟨inside', rfl⟩ := List.getElem?_eq_some_iff.mp later
    exact increasing j k inside inside' less
  · have listed : u.token ∈ ((ofText rules text).pulled k).unmatched.map Unmatched.token := List.mem_map_of_mem member
    rw [noted] at listed
    obtain ⟨chunk, unmatched, token⟩ := List.mem_filterMap.mp listed
    -- The first chunks that are shown are those of the first tokens.
    have among : some u.token ∈ (((Scan.ofText rules text).chunks.filterMap Chunk.token?).take k).map some := by
      rw [List.map_take, ← Chunk.map_token?_shown, ← List.map_take, ← token]
      exact List.mem_map_of_mem (List.mem_of_mem_filter unmatched)
    obtain ⟨j, less, here⟩ := List.mem_take_iff_getElem.mp ((List.mem_map_of_injective (fun _ _ => Option.some.inj)).mp among)
    refine ⟨j, by omega, ?_⟩
    rw [handed, Scan.tokens, List.getElem?_append_left (by omega), ← here]
    exact List.getElem?_eq_getElem _

/-- Two characters are unmatched, the first of them a newline. -/
theorem pulled_placed_signs :
    ((ofText signs "= \nε").pulled 1).next.1 = some ⟨.invalid, "\n", ⟨1, 3⟩⟩ ∧
    ((ofText signs "= \nε").pulled 2).next.1 = some ⟨.invalid, "ε", ⟨2, 1⟩⟩ ∧
    ((ofText signs "= \nε").pulled 3).next.1 = some (.closing ⟨2, 2⟩) ∧
    ((ofText signs "= \nε").pulled 3).unmatched.map Unmatched.token = [⟨.invalid, "\n", ⟨1, 3⟩⟩, ⟨.invalid, "ε", ⟨2, 1⟩⟩] := by
  obtain ⟨-, handed, -, -, -, -, noted, -⟩ := pulled_placed signs "= \nε"
  refine ⟨?_, ?_, ?_, ?_⟩
  · rw [handed]; decide +kernel
  · rw [handed]; decide +kernel
  · rw [handed]; decide +kernel
  · rw [noted]; decide +kernel

end Scanner
end Lookahead
