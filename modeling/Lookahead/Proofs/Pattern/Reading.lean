import Lookahead.Pattern.Reader
import Mathlib.Data.List.TakeWhile

/-! The text of a rule's pattern. No piece of a pattern's text looks past what it takes, so that a text that is a pattern of
its own has the same pieces before the parenthesis that closes the group around it. A group around a pattern whose own groups
are all closed means that pattern. -/

namespace Lookahead

namespace Piece
variable {α β : Type} {text rest after tail : List Char} {c : Char} {p : Char → Bool}

theorem takeWhile_append_of_found (found : text.dropWhile p = c :: after) (tail : List Char) :
    (text ++ tail).takeWhile p = text.takeWhile p := by
  induction text with
  | nil => cases found
  | cons d text ih =>
    rw [List.dropWhile_cons] at found
    rw [List.cons_append, List.takeWhile_cons, List.takeWhile_cons]
    split
    · rename_i more
      rw [if_pos more] at found
      rw [ih found]
    · rfl

theorem dropWhile_append_of_found (found : text.dropWhile p = c :: after) (tail : List Char) :
    (text ++ tail).dropWhile p = c :: (after ++ tail) := by
  rw [List.dropWhile_append, found]
  rfl

theorem takeWhile_concat_of_not (text : List Char) (stops : p c = false) : (text ++ [c]).takeWhile p = text.takeWhile p := by
  rw [List.takeWhile_append]
  split
  · rename_i whole
    rw [List.takeWhile_cons, stops, if_neg Bool.false_ne_true, List.append_nil]
    exact ((List.takeWhile_prefix p).eq_of_length whole).symm
  · rfl

theorem dropWhile_concat_of_not (text : List Char) (stops : p c = false) :
    (text ++ [c]).dropWhile p = text.dropWhile p ++ [c] := by
  rw [List.dropWhile_append]
  split
  · rename_i none
    rw [List.dropWhile_cons, stops, if_neg Bool.false_ne_true, List.isEmpty_iff.mp none, List.nil_append]
  · rfl

/-! ### Readers that do not look past what they take -/

theorem bind_eq_ok {x : Except PatternError α} {f : α → Except PatternError β} {b : β} :
    x >>= f = .ok b ↔ ∃ a, x = .ok a ∧ f a = .ok b := by
  cases x with
  | error e =>
    constructor
    · intro h
      cases h
    · rintro ⟨_, h, _⟩
      cases h
  | ok a =>
    constructor
    · exact fun h => ⟨a, rfl, h⟩
    · rintro ⟨_, same, h⟩
      cases same
      exact h

/-- What is read of a text is read of it before a closing parenthesis just the same. -/
def Steady (read : List Char → Except PatternError (α × List Char)) : Prop :=
  ∀ text x rest, read text = .ok (x, rest) → rest.length ≤ text.length ∧ read (text ++ [')']) = .ok (x, rest ++ [')'])

/-- Reading on where a reader stops. -/
theorem Steady.bind_at {first : List Char → Except PatternError (α × List Char)}
    {second : α × List Char → Except PatternError (β × List Char)} {y : β} (steady : Steady first)
    (read : first text >>= second = .ok (y, rest)) (behind : ∀ x later, second (x, later) = .ok (y, rest) →
      rest.length ≤ later.length ∧ second (x, later ++ [')']) = .ok (y, rest ++ [')'])) :
    rest.length ≤ text.length ∧ first (text ++ [')']) >>= second = .ok (y, rest ++ [')']) := by
  obtain ⟨⟨x, later⟩, front, back⟩ := bind_eq_ok.mp read
  obtain ⟨shorter, same⟩ := steady text x later front
  obtain ⟨shorter', same'⟩ := behind x later back
  exact ⟨Nat.le_trans shorter' shorter, bind_eq_ok.mpr ⟨_, same, same'⟩⟩

/-- A reader that goes on where another one stops. -/
theorem Steady.bind {first : List Char → Except PatternError (α × List Char)}
    {second : α × List Char → Except PatternError (β × List Char)} (steady : Steady first)
    (behind : ∀ x, Steady fun text => second (x, text)) : Steady fun text => first text >>= second :=
  fun _ _ _ read => steady.bind_at read fun x later => behind x later _ _

theorem steady_ok (x : α) : Steady fun text => .ok (x, text) := by
  intro text y rest read
  cases read
  exact ⟨Nat.le_refl _, rfl⟩

theorem steady_error (e : PatternError) : Steady (α := α) fun _ => .error e := by
  intro text y rest read
  cases read

/-- A reader that refuses the empty text and is steady behind each character. -/
theorem Steady.of_cons {read : List Char → Except PatternError (α × List Char)} (nothing : ∃ e, read [] = .error e)
    (steady : ∀ c, Steady fun text => read (c :: text)) : Steady read := by
  intro text x rest h
  cases text with
  | nil =>
    obtain ⟨e, same⟩ := nothing
    cases same.symm.trans h
  | cons c text =>
    obtain ⟨shorter, same⟩ := steady c text x rest h
    exact ⟨Nat.le_succ_of_le shorter, same⟩

theorem steady_readHex (count : Nat) : Steady (readHex count) := by
  intro text c rest read
  unfold readHex at read
  split at read
  · rename_i inside
    split at read
    · rename_i brace after found
      obtain ⟨value, digits, same⟩ := bind_eq_ok.mp read
      cases same
      have shorter := (List.dropWhile_suffix (· ≠ '}') (l := inside)).length_le
      rw [found, List.length_cons] at shorter
      refine ⟨by rw [List.length_cons]; omega, ?_⟩
      rw [List.cons_append, readHex, dropWhile_append_of_found found, takeWhile_append_of_found found]
      exact bind_eq_ok.mpr ⟨_, digits, rfl⟩
    · cases read
  · rename_i noBrace
    split at read
    · cases read
    · rename_i long
      obtain ⟨value, digits, same⟩ := bind_eq_ok.mp read
      cases same
      have enough : count ≤ text.length := Nat.le_of_not_lt long
      have noBrace' : ∀ inside, text ++ [')'] = '{' :: inside → False := by
        intro inside same
        cases text with
        | nil => cases same
        | cons c text => exact noBrace text ((List.cons.inj same).1 ▸ rfl)
      refine ⟨by rw [List.length_drop]; omega, ?_⟩
      rw [readHex.eq_2 _ _ noBrace', if_neg (by rw [List.length_append]; omega), List.take_append_of_le_length enough,
        List.drop_append_of_le_length enough]
      exact bind_eq_ok.mpr ⟨_, digits, rfl⟩

theorem steady_readEscape : Steady readEscape := by
  refine .of_cons ⟨_, rfl⟩ fun c => ?_
  have hex : ∀ count, Steady fun text => readHex count text >>= fun r => .ok (Escape.char r.1, r.2) :=
    fun count => (steady_readHex count).bind fun c => steady_ok (Escape.char c)
  unfold readEscape
  dsimp only
  split
  any_goals exact hex _
  any_goals exact steady_ok _
  split
  · exact steady_error _
  · split
    · exact steady_ok _
    · exact steady_error _

theorem steady_readMember : Steady readMember := by
  refine .of_cons ⟨_, rfl⟩ fun c => ?_
  by_cases escape : c = '\\'
  · subst escape
    exact steady_readEscape
  · have plain : (fun text => readMember (c :: text)) = fun text => .ok (.char c, text) := by
      funext text
      rw [readMember.eq_2 _ _ escape]
    exact plain ▸ steady_ok (Escape.char c)

theorem steady_readRange : Steady readRange := by
  refine steady_readMember.bind fun low => ?_
  intro text x rest read
  dsimp only at read ⊢
  split at read
  · cases read
  · cases low with
    | char c => exact steady_ok _ _ _ _ read
    | set c => exact steady_ok _ _ _ _ read
    | anchor a => cases read
  · cases low with
    | char c => exact steady_ok _ _ _ _ read
    | set c => exact steady_ok _ _ _ _ read
    | anchor a => cases read
  · rename_i after notClosing notHyphen
    cases after with
    | nil => cases read
    | cons d after =>
      obtain ⟨shorter, same⟩ := steady_readMember.bind_at read fun high later chosen => by
        dsimp only at chosen ⊢
        split at chosen
        · split at chosen
          · rename_i ordered
            cases chosen
            exact ⟨Nat.le_refl _, if_pos ordered⟩
          · cases chosen
        · cases chosen
      have notClosing' : d ≠ ']' := fun same => notClosing after (same ▸ rfl)
      have notHyphen' : d ≠ '-' := fun same => notHyphen after (same ▸ rfl)
      refine ⟨Nat.le_succ_of_le shorter, ?_⟩
      simp only [List.cons_append, List.cons.injEq, notClosing', notHyphen', false_and, imp_self, implies_true]
      exact same
  · rename_i some notClosing notHyphen notRange
    cases text with
    | nil => exact absurd rfl some
    | cons d text =>
      have notHyphen' : d ≠ '-' := fun same => notRange text (same ▸ rfl)
      simp only [List.cons_append, List.cons.injEq, notHyphen', false_and, imp_self, implies_true]
      cases low with
      | char c => exact steady_ok _ _ _ _ read
      | set c => exact steady_ok _ _ _ _ read
      | anchor a => cases read

theorem head?_concat (text : List Char) : (text ++ [')']).head? = some '^' ↔ text.head? = some '^' := by
  cases text <;> simp

/-- A caret at the head is dropped in any text. -/
theorem drop_negation (text : List Char) :
    (if text.head? = some '^' then (text ++ [')']).drop 1 else text ++ [')']) =
      (if text.head? = some '^' then text.drop 1 else text) ++ [')'] := by
  cases text with
  | nil => rfl
  | cons c text => simp only [List.cons_append, List.head?_cons, List.drop_succ_cons, List.drop_zero, apply_ite (· ++ [')'])]

theorem length_drop_negation (text : List Char) :
    (if text.head? = some '^' then text.drop 1 else text).length ≤ text.length := by
  split
  · rw [List.length_drop]; omega
  · exact Nat.le_refl _

/-- The head of a bracket expression is found in any text. -/
theorem readOpening_concat (text : List Char) : (readOpening text).2.length ≤ text.length ∧
    readOpening (text ++ [')']) = ((readOpening text).1, (readOpening text).2 ++ [')']) := by
  have shorter := length_drop_negation text
  simp only [readOpening.eq_1, drop_negation, head?_concat]
  generalize (if text.head? = some '^' then text.drop 1 else text) = inside at shorter ⊢
  rw [takeWhile_concat_of_not inside (by decide)]
  have hyphens := (List.takeWhile_prefix (· = '-') (l := inside)).length_le
  cases inside with
  | nil => exact ⟨Nat.zero_le _, rfl⟩
  | cons d inside =>
    by_cases bracket : d = ']'
    · subst bracket
      exact ⟨Nat.le_of_succ_le shorter, rfl⟩
    · simp only [List.cons_append, List.cons.injEq, bracket, false_and, imp_self, implies_true]
      refine ⟨by rw [List.length_drop]; omega, ?_⟩
      rw [← List.cons_append, List.drop_append_of_le_length hyphens]

theorem length_le_of_readNamed? {k : CharClass} (named : readNamed? text = some (k, rest)) : rest.length ≤ text.length := by
  unfold readNamed? at named
  split at named
  · rename_i text
    dsimp only at named
    split at named
    · rename_i after found
      obtain ⟨_, -, same⟩ := Option.map_eq_some_iff.mp named
      cases same
      have shorter := (List.dropWhile_suffix (· ≠ ':') (l := if text.head? = some '^' then text.drop 1 else text)).length_le
      have shorter' := length_drop_negation text
      rw [found, List.length_cons, List.length_cons] at shorter
      rw [List.length_cons]
      omega
    · cases named
  · cases named

/-- A name between colons is found in any text or not at all. -/
theorem readNamed?_concat (text : List Char) :
    readNamed? (text ++ [')']) = (readNamed? text).map fun r => (r.1, r.2 ++ [')']) := by
  cases text with
  | nil => rfl
  | cons c text =>
    by_cases colon : c = ':'
    · subst colon
      simp only [List.cons_append, readNamed?.eq_1, drop_negation, head?_concat]
      generalize (if text.head? = some '^' then text.drop 1 else text) = inside
      cases found : inside.dropWhile (· ≠ ':') with
      | nil =>
        have none : (inside ++ [')']).dropWhile (· ≠ ':') = [] := by
          rw [List.dropWhile_append, found]
          rfl
        rw [none]
        rfl
      | cons d after =>
        rw [dropWhile_append_of_found found, takeWhile_append_of_found found]
        cases after with
        | nil => simp
        | cons e after =>
          by_cases closed : d = ':' ∧ e = ']'
          · obtain ⟨rfl, rfl⟩ := closed
            simp [Function.comp_def]
          · rw [List.cons_append]
            split
            · simp_all
            · split
              · simp_all
              · rfl
    · rw [List.cons_append, readNamed?.eq_2 _ fun _ same => colon (List.cons.inj same).1,
        readNamed?.eq_2 _ fun _ same => colon (List.cons.inj same).1]
      rfl

theorem exists_of_concat (same : text ++ [')'] = c :: rest) (other : c ≠ ')') : ∃ later, text = c :: later := by
  cases text with
  | nil => exact absurd (List.cons.inj same).1.symm other
  | cons d text => exact ⟨text, by rw [(List.cons.inj same).1]⟩

theorem readBrackets_concat {fuel more : Nat} {inner : Bracket} {outer : List Bracket} {k : CharClass}
    (read : readBrackets fuel inner outer text = .ok (k, rest)) (enough : fuel ≤ more) :
    rest.length ≤ text.length ∧ readBrackets more inner outer (text ++ [')']) = .ok (k, rest ++ [')']) := by
  induction fuel generalizing more inner outer text with
  | zero => cases read
  | succ fuel ih =>
    obtain ⟨more, rfl⟩ : ∃ n, more = n + 1 := Nat.exists_eq_succ_of_ne_zero (by omega)
    have enough' : fuel ≤ more := Nat.le_of_succ_le_succ enough
    cases text with
    | nil => cases read
    | cons c text =>
      rw [readBrackets.eq_def] at read
      dsimp only at read
      split at read
      · split at read
        · cases read
          exact ⟨Nat.le_succ _, rfl⟩
        · obtain ⟨shorter, same⟩ := ih read enough'
          exact ⟨Nat.le_succ_of_le shorter, same⟩
      · rw [List.cons_append, readBrackets.eq_5, readNamed?_concat]
        split at read
        · rename_i later named
          obtain ⟨shorter, same⟩ := ih read enough'
          rw [named]
          exact ⟨Nat.le_succ_of_le (Nat.le_trans shorter (length_le_of_readNamed? named)), same⟩
        · rename_i named
          obtain ⟨shorter', opened⟩ := readOpening_concat text
          obtain ⟨shorter, same⟩ := ih read enough'
          rw [named, opened]
          exact ⟨Nat.le_succ_of_le (Nat.le_trans shorter shorter'), same⟩
      · obtain ⟨shorter, same⟩ := ih read enough'
        exact ⟨Nat.le_succ_of_le (Nat.le_succ_of_le shorter), same⟩
      · obtain ⟨shorter, same⟩ := ih read enough'
        exact ⟨Nat.le_succ_of_le (Nat.le_succ_of_le shorter), same⟩
      · obtain ⟨shorter, same⟩ := ih read enough'
        exact ⟨Nat.le_succ_of_le (Nat.le_succ_of_le shorter), same⟩
      · rename_i notClosing notOpening notAnd notMinus notTilde
        obtain ⟨⟨k', later⟩, range, read⟩ := bind_eq_ok.mp read
        obtain ⟨shorter, same⟩ := steady_readRange _ _ _ range
        obtain ⟨shorter', same'⟩ := ih read enough'
        refine ⟨Nat.le_trans shorter' shorter, ?_⟩
        rw [List.cons_append, readBrackets.eq_9]
        · exact bind_eq_ok.mpr ⟨_, same, same'⟩
        · rintro _ rfl _
          exact notClosing rfl rfl HEq.rfl
        · rintro _ rfl _
          exact notOpening rfl rfl HEq.rfl
        · rintro later _ rfl doubled _
          obtain ⟨later, rfl⟩ := exists_of_concat doubled (by decide)
          exact notAnd later rfl rfl rfl HEq.rfl
        · rintro later _ rfl doubled _
          obtain ⟨later, rfl⟩ := exists_of_concat doubled (by decide)
          exact notMinus later rfl rfl rfl HEq.rfl
        · rintro later _ rfl doubled _
          obtain ⟨later, rfl⟩ := exists_of_concat doubled (by decide)
          exact notTilde later rfl rfl rfl HEq.rfl

theorem steady_readClass : Steady readClass := by
  intro text k rest read
  obtain ⟨shorter, opened⟩ := readOpening_concat text
  have enough : text.length ≤ (text ++ [')']).length := by rw [List.length_append]; omega
  obtain ⟨shorter', same⟩ := readBrackets_concat read enough
  refine ⟨Nat.le_trans shorter' shorter, ?_⟩
  rw [readClass, opened]
  exact same

/-! ### Groups and repetitions -/

theorem steady_readName : Steady readName := by
  intro text name rest read
  unfold readName at read
  split at read
  · rename_i c letters after taken found
    have shorter := (List.dropWhile_suffix (· ≠ '>') (l := text)).length_le
    rw [found, List.length_cons] at shorter
    split at read
    · rename_i valid
      cases read
      refine ⟨by omega, ?_⟩
      rw [readName, takeWhile_append_of_found found, dropWhile_append_of_found found, taken]
      exact if_pos valid
    · cases read
  · cases read

theorem readLazy_concat (low : Nat) (high : Option Nat) (text : List Char) : (readLazy low high text).2.length ≤ text.length ∧
    readLazy low high (text ++ [')']) = ((readLazy low high text).1, (readLazy low high text).2 ++ [')']) := by
  unfold readLazy
  split
  · exact ⟨Nat.le_succ _, rfl⟩
  · rename_i greedy
    refine ⟨Nat.le_refl _, ?_⟩
    split
    · rename_i later doubled
      obtain ⟨later, rfl⟩ := exists_of_concat doubled (by decide)
      exact (greedy later rfl).elim
    · rfl

theorem steady_readLazy (low : Nat) (high : Option Nat) : Steady fun text => .ok (readLazy low high text) := by
  intro text x rest read
  obtain ⟨shorter, same⟩ := readLazy_concat low high text
  rw [Except.ok.inj read] at shorter same
  exact ⟨shorter, congrArg Except.ok same⟩

theorem steady_readNumber : Steady readNumber := by
  intro text n rest read
  have blank : CharClass.space.contains ')' = false := by decide
  unfold readNumber at read ⊢
  dsimp only at read ⊢
  rw [dropWhile_concat_of_not text blank, takeWhile_concat_of_not _ (by decide : Char.isDigit ')' = false)]
  have shorter := (List.dropWhile_suffix CharClass.space.contains (l := text)).length_le
  generalize text.dropWhile CharClass.space.contains = inside at read shorter ⊢
  have digits := (List.takeWhile_prefix Char.isDigit (l := inside)).length_le
  rw [List.drop_append_of_le_length digits, dropWhile_concat_of_not _ blank]
  have shorter' := (List.dropWhile_suffix CharClass.space.contains (l := inside.drop (inside.takeWhile Char.isDigit).length)).length_le
  rw [List.length_drop] at shorter'
  split at read
  · cases read
  · cases read
    rename_i valid
    exact ⟨by omega, if_neg valid⟩

theorem steady_readCount : Steady readCount := by
  refine steady_readNumber.bind fun low => ?_
  intro text x rest read
  dsimp only at read ⊢
  split at read
  · obtain ⟨shorter, same⟩ := steady_readLazy low (some low) _ _ _ read
    exact ⟨Nat.le_succ_of_le shorter, same⟩
  · obtain ⟨shorter, same⟩ := steady_readLazy low none _ _ _ read
    exact ⟨Nat.le_succ_of_le (Nat.le_succ_of_le shorter), same⟩
  · rename_i text open'
    obtain ⟨shorter, same⟩ := steady_readNumber.bind_at read fun high later read => by
      dsimp only at read ⊢
      split at read
      · split at read
        · rename_i ordered
          obtain ⟨shorter, same⟩ := steady_readLazy low (some high) _ _ _ read
          refine ⟨Nat.le_succ_of_le shorter, ?_⟩
          simp only [List.cons_append, if_pos ordered]
          exact same
        · cases read
      · cases read
    refine ⟨Nat.le_succ_of_le shorter, ?_⟩
    rw [List.cons_append]
    split
    · rename_i split
      cases (List.cons.inj split).1
    · rename_i split
      obtain ⟨later, rfl⟩ := exists_of_concat (List.cons.inj split).2 (by decide)
      exact (open' later rfl).elim
    · rename_i split
      cases split
      exact same
    · rename_i split
      exact (split _ rfl).elim
  · cases read

theorem steady_readGroup : Steady readGroup := by
  have named : Steady fun text => readName text >>= fun r => .ok (Piece.group (some r.1) [], r.2) :=
    steady_readName.bind fun name => steady_ok (Piece.group (some name) [])
  intro text x rest read
  unfold readGroup at read
  split at read
  any_goals cases read
  · obtain ⟨shorter, same⟩ := named _ _ _ read
    exact ⟨by simp only [List.length_cons]; omega, same⟩
  · rename_i text notAhead notAfter
    obtain ⟨shorter, same⟩ := named _ _ _ read
    refine ⟨by simp only [List.length_cons]; omega, ?_⟩
    rw [List.cons_append, List.cons_append, readGroup.eq_6]
    · exact same
    · intro later doubled
      obtain ⟨later, rfl⟩ := exists_of_concat doubled (by decide)
      exact notAhead later rfl
    · intro later doubled
      obtain ⟨later, rfl⟩ := exists_of_concat doubled (by decide)
      exact notAfter later rfl
  · rename_i text notEqual notNot notBehind notNotBehind notNamed notBracket
    obtain ⟨flags, letters, read⟩ := bind_eq_ok.mp read
    have shorter := (List.dropWhile_suffix (fun c => decide (c ≠ ':') && decide (c ≠ ')')) (l := text)).length_le
    rw [List.cons_append, readGroup.eq_7]
    · rw [takeWhile_concat_of_not text (by decide), dropWhile_concat_of_not text (by decide)]
      split at read
      all_goals rename_i found
      · cases read
        rw [found, List.length_cons] at shorter
        refine ⟨by rw [List.length_cons]; omega, bind_eq_ok.mpr ⟨flags, letters, ?_⟩⟩
        rw [found]
        rfl
      · split at read
        · cases read
        · rename_i some
          cases read
          rw [found, List.length_cons] at shorter
          refine ⟨by rw [List.length_cons]; omega, bind_eq_ok.mpr ⟨flags, letters, ?_⟩⟩
          rw [found]
          exact if_neg some
      · cases read
    · intro later doubled
      obtain ⟨later, rfl⟩ := exists_of_concat doubled (by decide)
      exact notEqual later rfl
    · intro later doubled
      obtain ⟨later, rfl⟩ := exists_of_concat doubled (by decide)
      exact notNot later rfl
    · intro later doubled
      obtain ⟨later, rfl⟩ := exists_of_concat doubled (by decide)
      exact notBracket later rfl
    · intro later doubled
      obtain ⟨later, rfl⟩ := exists_of_concat doubled (by decide)
      exact notBracket later rfl
    · intro later doubled
      obtain ⟨after, rfl⟩ := exists_of_concat doubled (by decide)
      obtain ⟨later, rfl⟩ := exists_of_concat (List.cons.inj doubled).2 (by decide)
      exact notNamed later rfl
    · intro later doubled
      obtain ⟨later, rfl⟩ := exists_of_concat doubled (by decide)
      exact notBracket later rfl
  · rename_i noMark
    refine ⟨Nat.le_refl _, ?_⟩
    cases text with
    | nil => rfl
    | cons c text =>
      have other : c ≠ '?' := fun same => noMark text (same ▸ rfl)
      rw [List.cons_append, readGroup.eq_8]
      all_goals exact fun _ same => other (List.cons.inj same).1

/-! ### Pieces -/

theorem steady_readOne (c : Char) : Steady (readOne c) := by
  unfold readOne
  split
  any_goals exact steady_ok _
  any_goals exact steady_readLazy _ _
  · exact steady_readGroup
  · exact steady_readClass.bind fun k => steady_ok (chars k)
  · exact steady_readCount
  · refine steady_readEscape.bind fun e => ?_
    cases e with
    | char c => exact steady_ok (chars (.single c))
    | set k => exact steady_ok (fixed k)
    | anchor a => exact steady_ok (Piece.anchor a)

theorem readMany_nil (fuel : Nat) : readMany fuel [] = .ok [] := by
  cases fuel <;> rfl

theorem readMany_close (fuel : Nat) : readMany (fuel + 1) [')'] = .ok [.close] :=
  bind_eq_ok.mpr ⟨(.close, []), rfl, bind_eq_ok.mpr ⟨[], readMany_nil fuel, rfl⟩⟩

theorem readMany_concat {fuel more : Nat} {pieces : List Piece} (read : readMany fuel text = .ok pieces)
    (enough : text.length ≤ fuel) (enough' : text.length < more) :
    readMany more (text ++ [')']) = .ok (pieces ++ [.close]) := by
  induction fuel generalizing text more pieces with
  | zero =>
    obtain rfl := List.length_eq_zero_iff.mp (Nat.le_zero.mp enough)
    obtain ⟨more, rfl⟩ : ∃ n, more = n + 1 := Nat.exists_eq_succ_of_ne_zero (by omega)
    cases read
    exact readMany_close more
  | succ fuel ih =>
    obtain ⟨more, rfl⟩ : ∃ n, more = n + 1 := Nat.exists_eq_succ_of_ne_zero (by omega)
    cases text with
    | nil =>
      cases read
      exact readMany_close more
    | cons c text =>
      obtain ⟨⟨piece, later⟩, first, read⟩ := bind_eq_ok.mp read
      obtain ⟨behind, others, same⟩ := bind_eq_ok.mp read
      cases same
      obtain ⟨shorter, first'⟩ := steady_readOne c _ _ _ first
      rw [List.length_cons] at enough enough'
      have others' : readMany more (later ++ [')']) = .ok (behind ++ [.close]) := ih others (by omega) (by omega)
      exact bind_eq_ok.mpr ⟨_, first', bind_eq_ok.mpr ⟨_, others', rfl⟩⟩

/-- The pieces of a rule's text are those of its pattern between a caret, the head of a group and the end of that group. -/
theorem readAll_group {pieces : List Piece} (read : readAll text = .ok pieces) :
    readAll ("^(?:".toList ++ text ++ [')']) = .ok (.caret :: .group none [] :: pieces ++ [.close]) := by
  have inside : readMany (text.length + 3) (text ++ [')']) = .ok (pieces ++ [.close]) :=
    readMany_concat read (Nat.le_refl _) (by omega)
  have group : readOne '(' ('?' :: ':' :: (text ++ [')'])) = .ok (.group none [], text ++ [')']) := rfl
  rw [readAll, show ("^(?:".toList ++ text ++ [')']).length = text.length + 3 + 2 by simp]
  exact bind_eq_ok.mpr ⟨(.caret, _), rfl, bind_eq_ok.mpr ⟨_, bind_eq_ok.mpr ⟨_, group, bind_eq_ok.mpr ⟨_, inside, rfl⟩⟩, rfl⟩⟩

end Piece

namespace Pattern
variable {text : String} {p : Pattern} {r s : Reader} {base : Level} {piece : Piece} {pieces : List Piece}

namespace Reader

/-- What was read stands inside one more group. -/
def within (r : Reader) (base : Level) : Reader := { r with outer := r.outer ++ [base] }

theorem step_within (h : r.step piece = .ok s) (base : Level) : (r.within base).step piece = .ok (s.within base) := by
  cases piece with
  | group name changes =>
    rw [step, openGroup] at h
    split at h
    · cases h
    · rename_i fresh
      cases h
      rw [step, openGroup, within]
      dsimp only
      rw [fresh]
      rfl
  | close =>
    rw [step, closeGroup] at h
    split at h
    · cases h
    · rename_i around outer opened
      cases h
      rw [step, closeGroup, within, opened]
      rfl
  | repeated low high greedy =>
    rw [step, repeatLast] at h
    split at h
    · rename_i last items found
      split at h
      · cases h
      · rename_i small
        cases h
        rw [step, repeatLast, within]
        dsimp only
        rw [found]
        exact if_neg small
    · cases h
  | chars => cases h; rfl
  | fixed => cases h; rfl
  | dot => cases h; rfl
  | caret => cases h; rfl
  | dollar => cases h; rfl
  | anchor => cases h; rfl
  | flags => cases h; rfl
  | bar => cases h; rfl

theorem foldlM_within (h : pieces.foldlM step r = .ok s) (base : Level) :
    pieces.foldlM step (r.within base) = .ok (s.within base) := by
  induction pieces generalizing r with
  | nil => cases h; rfl
  | cons piece pieces ih =>
    obtain ⟨later, first, others⟩ := Piece.bind_eq_ok.mp h
    exact Piece.bind_eq_ok.mpr ⟨_, step_within first base, ih others⟩

/-- What was read, as the last item of the group around it. -/
def enclosed (r : Reader) (base : Level) : Reader :=
  ⟨r.level.outside, base.push (some r.level.toPattern), [], r.names⟩

theorem step_close (closed : r.outer = []) (base : Level) : (r.within base).step .close = .ok (r.enclosed base) := by
  rw [step, closeGroup, within, closed]
  rfl

end Reader

/-- What stands before the group of a rule's text. -/
def Level.anchored : Level := ⟨{}, [], [some (.anchor .textStart)]⟩

/-- A text that is a pattern of its own is matched from the start of the text on. -/
theorem readRule_of_read (h : read text.toList = .ok p) : readRule text = .ok (.seq (.anchor .textStart) p) := by
  obtain ⟨pieces, pieces', h⟩ := Piece.bind_eq_ok.mp h
  obtain ⟨r, folded, finished⟩ := Piece.bind_eq_ok.mp h
  rw [Reader.finish] at finished
  split at finished
  · rename_i closed
    cases finished
    have whole : (pieces ++ [Piece.close]).foldlM Reader.step (Reader.initial.within .anchored) =
        .ok (r.enclosed .anchored) := by
      rw [List.foldlM_append]
      exact Piece.bind_eq_ok.mpr ⟨_, Reader.foldlM_within folded .anchored,
        Piece.bind_eq_ok.mpr ⟨_, Reader.step_close (List.isEmpty_iff.mp closed) .anchored, rfl⟩⟩
    exact Piece.bind_eq_ok.mpr ⟨_, Piece.readAll_group pieces', Piece.bind_eq_ok.mpr ⟨_, whole, rfl⟩⟩
  · cases finished

end Pattern
end Lookahead
