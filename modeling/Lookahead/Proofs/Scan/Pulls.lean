import Lookahead.Scanner
import Lookahead.Proofs.Scan.Chunks

/-! Tokens that are asked for one by one. A scanner hands out the tokens of the chunks in order, then the closing record,
then nothing, and at any time it knows the unmatched characters of the chunks it has come past. -/

namespace Lookahead

namespace Chunk
variable {rules : List Rule} {pos : Position} {text : List Char} {before after chunks : List Chunk} {chunk : Chunk}

/-- A chunk is what the first of the rules that reach farthest takes of the text ahead. Where none reaches anywhere it is
    one character. -/
inductive Munches (rules : List Rule) (ahead : List Char) : Chunk → Prop
  | matched {text : List Char} {effect : Effect} (pos : Position) (leads : Rule.Leads rules ahead text.length effect) :
    Munches rules ahead ⟨text, pos, .matched effect⟩
  | unmatched (c : Char) (pos : Position) (nowhere : ∀ r ∈ rules, r.reach ahead = 0) :
    Munches rules ahead ⟨[c], pos, .unmatched⟩

theorem Tile.drop (h : Tile rules pos text (before ++ after)) :
    Tile rules (pos.after (before.flatMap Chunk.text)) (after.flatMap Chunk.text) after := by
  induction before generalizing pos text with
  | nil =>
    rw [List.nil_append] at h
    rw [h.flatMap_text]
    exact h
  | cons first before ih =>
    rw [List.flatMap_cons, Position.after_append]
    cases h with
    | matched _ _ later => exact ih later
    | unmatched _ later => exact ih later

theorem Tile.head (inside : ∀ r ∈ rules, ∀ ahead n, r.find ahead = some n → n ≤ ahead.length)
    (h : Tile rules pos text (chunk :: chunks)) :
    chunk.text ≠ [] ∧ chunk.pos = pos ∧ chunk.Munches rules text := by
  cases h with
  | @matched _ _ n effect _ some leads _ =>
    obtain ⟨nonempty, before, r, after, rfl, far, same, less, most⟩ := leads
    have within : n ≤ text.length := by
      cases found : r.find text with
      | none => simp [Rule.reach, found] at far; omega
      | some k =>
        obtain rfl : k = n := by simpa [Rule.reach, found] using far
        exact inside r (by simp) text k found
    have length : (text.take n).length = n := by rw [List.length_take, Nat.min_eq_left within]
    refine ⟨?_, rfl, .matched pos ?_⟩
    · rw [← List.length_pos_iff, length]
      exact nonempty
    · rw [length]
      exact ⟨nonempty, before, r, after, rfl, far, same, less, most⟩
  | unmatched nowhere _ => exact ⟨List.cons_ne_nil _ _, rfl, .unmatched _ pos nowhere⟩

theorem unmatched?_of_skipped (skipped : chunk.token? = none) : chunk.unmatched? = none := by
  obtain ⟨text, pos, reading⟩ := chunk
  cases reading with
  | matched effect => rfl
  | unmatched => cases skipped

/-- The chunks that a token is handed out for. -/
def shown (chunks : List Chunk) : List Chunk := chunks.filter (·.token?.isSome)

theorem filterMap_token_shown (chunks : List Chunk) : (shown chunks).filterMap Chunk.token? = chunks.filterMap Chunk.token? := by
  induction chunks with
  | nil => rfl
  | cons chunk rest ih =>
    cases token : chunk.token? with
    | none => simpa [shown, token] using ih
    | some t => simpa [shown, token] using ih

end Chunk

namespace Scanner
variable {s : Scanner} {chunk : Chunk} {later : List Chunk} {c : Char} {rest : List Char}

/-- The chunks ahead that a token is handed out for. -/
def shown (s : Scanner) : List Chunk := Chunk.shown (Chunk.cut s.rules s.pos s.ahead)

/-- The place where the text ends. -/
def stop (s : Scanner) : Position := s.pos.after s.ahead

theorem cut_read (ahead : s.ahead = c :: rest) : Chunk.cut s.rules s.pos s.ahead =
    (s.read c rest).1 :: Chunk.cut (s.read c rest).2.rules (s.read c rest).2.pos (s.read c rest).2.ahead := by
  rw [ahead, Chunk.cut]
  rfl

theorem stop_read (ahead : s.ahead = c :: rest) : (s.read c rest).2.stop = s.stop := by
  simp only [stop, read, ahead, ← Position.after_append, List.cons_append, List.take_append_drop]

/-- What a scanner hands out first, and what it comes to by that. -/
theorem next_open (s : Scanner) (closed : s.closed = false) :
    (s.shown = [] → s.next.1 = some (.closing s.stop) ∧ s.next.2.closed = true ∧ s.next.2.unmatched = s.unmatched) ∧
    ∀ chunk later, s.shown = chunk :: later → s.next.1 = chunk.token? ∧ s.next.2.closed = false ∧
      s.next.2.shown = later ∧ s.next.2.stop = s.stop ∧
      s.next.2.unmatched = s.unmatched ++ chunk.unmatched?.toList := by
  fun_induction next s with
  | case1 s done => rw [done] at closed; cases closed
  | case2 s _ text => simp [shown, Chunk.shown, text, Chunk.cut, stop]
  | case3 s _ c rest text t found =>
    have visible : s.shown = (s.read c rest).1 :: (s.read c rest).2.shown := by
      simp only [shown, cut_read text, Chunk.shown, List.filter_cons, found, Option.isSome_some, if_true]
    refine ⟨fun none => absurd (visible.symm.trans none) (List.cons_ne_nil _ _), fun chunk later split => ?_⟩
    obtain ⟨rfl, rfl⟩ := List.cons.inj (visible.symm.trans split)
    exact ⟨found.symm, closed, rfl, stop_read text, rfl⟩
  | case4 s _ c rest text skipped ih =>
    have visible : s.shown = (s.read c rest).2.shown := by
      simp only [shown, cut_read text, Chunk.shown, List.filter_cons, skipped, Option.isSome_none, Bool.false_eq_true,
        if_false]
    have same : (s.read c rest).2.unmatched = s.unmatched := by
      have none := Chunk.unmatched?_of_skipped skipped
      simp only [read] at none ⊢
      rw [none, Option.toList_none, List.append_nil]
    rw [visible, ← stop_read text, ← same]
    exact ih closed

theorem pulled_closed (closed : s.closed = true) (k : Nat) : s.pulled k = s ∧ s.next.1 = none := by
  have still : s.next = (none, s) := by rw [next, if_pos closed]
  refine ⟨?_, by rw [still]⟩
  induction k with
  | zero => rfl
  | succ k ih => rw [pulled, still, ih]

theorem token?_of_shown (split : s.shown = chunk :: later) : ∃ t, chunk.token? = some t := by
  have member : chunk ∈ s.shown := split ▸ List.mem_cons_self
  exact Option.isSome_iff_exists.mp (List.mem_filter.mp member).2

/-- However many tokens were asked for, the next one and the characters that were unmatched by then are told by the
    chunks. -/
theorem pulled_open (closed : s.closed = false) (k : Nat) :
    (s.pulled k).next.1 = (s.shown.filterMap Chunk.token? ++ [.closing s.stop])[k]? ∧
    (s.pulled k).unmatched = s.unmatched ++ (s.shown.take k).filterMap Chunk.unmatched? := by
  induction k generalizing s with
  | zero =>
    obtain ⟨last, more⟩ := s.next_open closed
    cases split : s.shown with
    | nil => simp [pulled, last split]
    | cons chunk later =>
      obtain ⟨t, token⟩ := token?_of_shown split
      simp [pulled, more chunk later split, token]
  | succ k ih =>
    obtain ⟨last, more⟩ := s.next_open closed
    cases split : s.shown with
    | nil =>
      obtain ⟨-, done, same⟩ := last split
      obtain ⟨stays, none⟩ := pulled_closed done k
      simp [pulled, stays, none, same]
    | cons chunk later =>
      obtain ⟨-, going, rfl, ends, noted⟩ := more chunk later split
      obtain ⟨t, token⟩ := token?_of_shown split
      obtain ⟨handed, unmatched⟩ := ih going
      rw [pulled, handed, unmatched, ends, noted]
      cases found : chunk.unmatched? <;> simp [token, found]

/-- A whole scan lists the same tokens with the same counts. -/
theorem getElem?_countUnmatched (stop : Position) (n : Nat) (chunks : List Chunk) (k : Nat) :
    (Scan.countUnmatched stop n chunks)[k]? =
      ((Chunk.shown chunks).filterMap Chunk.token? ++ [.closing stop])[k]?.map
        (·, n + (((Chunk.shown chunks).take (k + 1)).filterMap Chunk.unmatched?).length) := by
  induction chunks generalizing n k with
  | nil => cases k <;> simp [Scan.countUnmatched, Chunk.shown]
  | cons chunk rest ih =>
    cases token : chunk.token? with
    | none =>
      have same : Chunk.shown (chunk :: rest) = Chunk.shown rest := by simp [Chunk.shown, token]
      simp only [Scan.countUnmatched, token, Chunk.unmatched?_of_skipped token, Option.toList_none, List.length_nil,
        Nat.add_zero, List.map_nil, List.nil_append, same, ih]
    | some t =>
      have visible : Chunk.shown (chunk :: rest) = chunk :: Chunk.shown rest := by simp [Chunk.shown, token]
      have counted : ∀ later : List Chunk, ((chunk :: later).filterMap Chunk.unmatched?).length =
          chunk.unmatched?.toList.length + (later.filterMap Chunk.unmatched?).length := by
        intro later
        cases found : chunk.unmatched? <;> simp [found, Nat.add_comm]
      rw [Scan.countUnmatched, token, visible]
      cases k with
      | zero => simp [token, counted]
      | succ k => simp [token, counted, ih, Nat.add_assoc]

/-- The tokens of a text are handed out in order, and every unmatched character before the next one is noted. -/
theorem pulled_ofText (rules : List Rule) (text : String) (k : Nat) :
    ((ofText rules text).pulled k).next.1 = (Scan.ofText rules text).tokens[k]? ∧
    ((ofText rules text).pulled k).unmatched =
      ((Chunk.shown (Scan.ofText rules text).chunks).take k).filterMap Chunk.unmatched? := by
  rw [Scan.tokens, ← Chunk.filterMap_token_shown]
  exact pulled_open (s := ofText rules text) rfl k

/-- Pulling tokens cuts the text into chunks that make it up, each the longest match of the first rule that has one, or a
    character where there is none. The tokens of the chunks are handed out in order, then the closing record, then nothing
    for ever, and the scanner always knows the unmatched characters of the chunks that it came past. -/
theorem pulled_munches {rules : List Rule} (inside : ∀ r ∈ rules, ∀ ahead n, r.find ahead = some n → n ≤ ahead.length)
    (text : String) :
    let scan := Scan.ofText rules text
    let scanner := Scanner.ofText rules text
    scan.chunks.flatMap Chunk.text = text.toList ∧
    (∀ before chunk after, scan.chunks = before ++ chunk :: after →
      chunk.text ≠ [] ∧ chunk.pos = Position.start.after (before.flatMap Chunk.text) ∧
        chunk.Munches rules ((chunk :: after).flatMap Chunk.text)) ∧
    scan.tokens = (Chunk.shown scan.chunks).filterMap Chunk.token? ++ [.closing (Position.start.after text.toList)] ∧
    ∀ k, (scanner.pulled k).next.1 = scan.tokens[k]? ∧
      (scanner.pulled k).unmatched = ((Chunk.shown scan.chunks).take k).filterMap Chunk.unmatched? ∧
      scan.pulls[k]? = (scanner.pulled k).next.1.map (·, (scanner.pulled (k + 1)).unmatched.length) := by
  have tiled : Chunk.Tile rules .start text.toList (Scan.ofText rules text).chunks := Chunk.tile_cut ..
  have tokens : (Scan.ofText rules text).tokens =
      (Chunk.shown (Scan.ofText rules text).chunks).filterMap Chunk.token? ++ [.closing (Position.start.after text.toList)] := by
    rw [Chunk.filterMap_token_shown]
    rfl
  have pulled := pulled_ofText rules text
  refine ⟨tiled.flatMap_text, ?_, tokens, fun k => ⟨(pulled k).1, (pulled k).2, ?_⟩⟩
  · rintro before chunk after split
    rw [split] at tiled
    exact tiled.drop.head inside
  · rw [(pulled k).1, (pulled (k + 1)).2, Scan.pulls, getElem?_countUnmatched, Nat.zero_add, tokens]
    rfl

/-- Blanks, of which there may be none, are skipped. `==` is found by two rules and `=` by a third one before them. -/
def signs : List Rule :=
  [⟨fun text => some (text.takeWhile (· = ' ')).length, .skip⟩,
    ⟨fun text => if ['='] <+: text then some 1 else none, .token .punctuation⟩,
    ⟨fun text => if ['=', '='] <+: text then some 2 else none, .token .operator⟩,
    ⟨fun text => if ['=', '='] <+: text then some 2 else none, .token .keyword⟩]

theorem pulled_munches_signs : (∀ r ∈ signs, ∀ ahead n, r.find ahead = some n → n ≤ ahead.length) ∧
    ((ofText signs "== ε=").pulled 0).next.1 = some ⟨.operator, "==", ⟨1, 1⟩⟩ ∧
    ((ofText signs "== ε=").pulled 1).next.1 = some ⟨.invalid, "ε", ⟨1, 4⟩⟩ ∧
    ((ofText signs "== ε=").pulled 2).unmatched = [⟨'ε', ⟨1, 4⟩⟩] ∧
    ((ofText signs "== ε=").pulled 3).next.1 = some (.closing ⟨1, 6⟩) ∧
    ((ofText signs "== ε=").pulled 4).next.1 = none := by
  have inside : ∀ r ∈ signs, ∀ ahead n, r.find ahead = some n → n ≤ ahead.length := by
    intro r member ahead n found
    simp only [signs, List.mem_cons, List.not_mem_nil, or_false] at member
    rcases member with rfl | rfl | rfl | rfl
    · cases found
      exact (List.takeWhile_prefix _).length_le
    all_goals
      simp only [Option.ite_none_right_eq_some, Option.some.injEq] at found
      obtain ⟨begins, rfl⟩ := found
      exact begins.length_le
  obtain ⟨-, -, -, pulls⟩ := pulled_munches inside "== ε="
  refine ⟨inside, ?_, ?_, ?_, ?_, ?_⟩
  · rw [(pulls 0).1]; decide +kernel
  · rw [(pulls 1).1]; decide +kernel
  · rw [(pulls 2).2.1]; decide +kernel
  · rw [(pulls 3).1]; decide +kernel
  · rw [(pulls 4).1]; decide +kernel

end Scanner
end Lookahead
