import Mathlib.Data.List.Forall2
import Std.Data.String.ToNat
import Lookahead.Report.Reading

/-! Comma-separated rows read back. A quoted field comes back whatever it holds, as the reader is in quotes from its first
character to its last. A field without quotes comes back as long as it holds no comma, no newline and no quote. -/

namespace Lookahead
namespace Csv

/-! ### Fields -/

/-- Reading what is written behind a comma or a newline gives a field that the next comma or newline ends. -/
def Reads (written field : String) : Prop :=
  ∀ rows fields, ∃ place, place ≠ .quoted ∧
    written.toList.foldl Reader.read ⟨rows, fields, [], .opening⟩ = ⟨rows, fields, field.toList, place⟩

/-- No character of a text ends a field or begins a quoted one. -/
def Bare (text : String) : Prop := ∀ c ∈ text.toList, c ≠ ',' ∧ c ≠ '\n' ∧ c ≠ '"'

instance (text : String) : Decidable (Bare text) :=
  inferInstanceAs (Decidable (∀ c ∈ text.toList, c ≠ ',' ∧ c ≠ '\n' ∧ c ≠ '"'))

section Fields
variable {rows : List (List String)} {fields : List String} {field : List Char} {text : String} {place : Place}

theorem foldl_doubleQuotes (text : List Char) :
    (doubleQuotes text).foldl Reader.read ⟨rows, fields, field, .quoted⟩ = ⟨rows, fields, field ++ text, .quoted⟩ := by
  induction text generalizing field with
  | nil => simp [doubleQuotes]
  | cons c rest ih =>
    unfold doubleQuotes
    split <;> simp_all [Reader.read, Reader.put]

theorem reads_quoted (text : String) : Reads (quoted text) text := by
  intro rows fields
  refine ⟨.closing, nofun, ?_⟩
  simp [quoted, Reader.read, foldl_doubleQuotes]

theorem foldl_bare {text : List Char} (bare : ∀ c ∈ text, c ≠ ',' ∧ c ≠ '\n' ∧ c ≠ '"')
    (unquoted : place = .opening ∨ place = .bare) :
    ∃ later, later ≠ .quoted ∧
      text.foldl Reader.read ⟨rows, fields, field, place⟩ = ⟨rows, fields, field ++ text, later⟩ := by
  induction text generalizing field place with
  | nil =>
    rcases unquoted with rfl | rfl
    · exact ⟨.opening, nofun, by simp⟩
    · exact ⟨.bare, nofun, by simp⟩
  | cons c rest ih =>
    obtain ⟨comma, newline, quote⟩ := bare c List.mem_cons_self
    have read : Reader.read ⟨rows, fields, field, place⟩ c = ⟨rows, fields, field ++ [c], .bare⟩ := by
      rcases unquoted with rfl | rfl <;> simp [Reader.read, Reader.readBare, Reader.put, comma, newline, quote]
    obtain ⟨later, apart, reads⟩ := ih (fun d member => bare d (List.mem_cons_of_mem c member)) (.inr rfl)
    exact ⟨later, apart, by rw [List.foldl_cons, read, reads, List.append_assoc, List.singleton_append]⟩

theorem Bare.reads (bare : Bare text) : Reads text text := fun _ _ => foldl_bare bare (.inl rfl)

theorem bare_number (n : Nat) : Bare (toString n) := by
  intro c member
  have digit := isDigit_of_mem_number member
  refine ⟨?_, ?_, ?_⟩ <;> rintro rfl <;> cases digit

theorem Bare.newline_not_mem (bare : Bare text) : '\n' ∉ text.toList := fun member => (bare '\n' member).2.1 rfl

theorem read_comma {field : String} (unquoted : place ≠ .quoted) :
    Reader.read ⟨rows, fields, field.toList, place⟩ ',' = ⟨rows, fields ++ [field], [], .opening⟩ := by
  cases place <;> simp_all [Reader.read, Reader.readBare, Reader.endField]

theorem read_newline {field : String} (unquoted : place ≠ .quoted) :
    Reader.read ⟨rows, fields, field.toList, place⟩ '\n' = ⟨rows ++ [fields ++ [field]], [], [], .opening⟩ := by
  cases place <;> simp_all [Reader.read, Reader.readBare, Reader.endRow, Reader.endField]

end Fields

/-! ### Rows -/

theorem toList_row (fields : List String) : (row fields).toList = [','].intercalate (fields.map String.toList) ++ ['\n'] := by
  simp [row, String.toList_intercalate]

/-- Reading a row of fields adds them as a row. -/
theorem foldl_row {written fields : List String} (reads : List.Forall₂ Reads written fields) (some : written ≠ [])
    (rows : List (List String)) (before : List String) :
    (row written).toList.foldl Reader.read ⟨rows, before, [], .opening⟩ =
      ⟨rows ++ [before ++ fields], [], [], .opening⟩ := by
  -- The fields that were read wait before the next comma, so the induction is for any of them.
  induction reads generalizing before with
  | nil => exact absurd rfl some
  | @cons w f written fields first later ih =>
    obtain ⟨place, unquoted, read⟩ := first rows before
    cases later with
    | nil => simp [toList_row, read, read_newline unquoted]
    | cons next later =>
      have rest := fun some => ih some (before ++ [f])
      rw [toList_row, List.map_cons] at rest ⊢
      rw [List.map_cons, List.intercalate_cons_cons, List.append_assoc, List.append_assoc, List.foldl_append, read,
        List.singleton_append, List.foldl_cons, read_comma unquoted, rest (List.cons_ne_nil _ _), List.append_assoc,
        List.singleton_append]

/-- What was read before a report stays in front of its rows. -/
theorem foldl_rows {written fields : List (List String)} (reads : List.Forall₂ (List.Forall₂ Reads) written fields)
    (some : ∀ w ∈ written, w ≠ []) (before : List (List String)) :
    (written.flatMap fun w => (row w).toList).foldl Reader.read ⟨before, [], [], .opening⟩ =
      ⟨before ++ fields, [], [], .opening⟩ := by
  induction reads generalizing before with
  | nil => simp
  | @cons w f written fields first later ih =>
    rw [List.flatMap_cons, List.foldl_append, foldl_row first (some w List.mem_cons_self), List.nil_append,
      ih fun u member => some u (List.mem_cons_of_mem w member), List.append_assoc, List.singleton_append]

theorem rows_join {written fields : List (List String)} (reads : List.Forall₂ (List.Forall₂ Reads) written fields)
    (some : ∀ w ∈ written, w ≠ []) : rows (String.join (written.map row)) = fields := by
  rw [rows, String.toList_join, List.flatMap_map, Reader.start, foldl_rows reads some, List.nil_append]

/-- What each row gives back, all rows give back. -/
theorem mapM_read {α : Type} {read : List String → Option α} {write : α → List String} {xs : List α}
    (back : ∀ x ∈ xs, read (write x) = some x) : (xs.map write).mapM read = some xs := by
  induction xs with
  | nil => rfl
  | cons x xs ih =>
    rw [List.map_cons, List.mapM_cons, back x List.mem_cons_self, ih fun y member => back y (List.mem_cons_of_mem x member)]
    rfl

/-! ### Tokens -/

/-- What a row tells of a token. -/
def tokenFields (t : Token) : List String := [t.kind.label, t.source, toString t.pos.line, toString t.pos.column]

theorem bare_label (kind : TokenKind) : Bare kind.label := by
  cases kind <;> simp [Bare, TokenKind.label]

theorem readToken_tokenFields (t : Token) : readToken (tokenFields t) = some t := by
  have kind : kinds.find? (·.label = t.kind.label) = some t.kind := by cases t.kind <;> rfl
  simp [readToken, tokenFields, kind, Nat.toNat?_repr]

/-- The fields of a token's row as they are written. -/
def writtenFields (t : Token) : List String :=
  [t.kind.label, quoted t.source, toString t.pos.line, toString t.pos.column]

theorem reads_writtenFields (t : Token) : List.Forall₂ Reads (writtenFields t) (tokenFields t) :=
  .cons (bare_label _).reads (.cons (reads_quoted _) (.cons (bare_number _).reads (.cons (bare_number _).reads .nil)))

theorem tokens_eq_join (ts : List Token) :
    tokens ts = String.join ((["Token Type", "Lexeme", "Line", "Column"] :: ts.map writtenFields).map row) := by
  rw [List.map_cons, String.join_cons, List.map_map]
  rfl

theorem rows_tokens (ts : List Token) : rows (tokens ts) = ["Token Type", "Lexeme", "Line", "Column"] :: ts.map tokenFields := by
  have head : ∀ field ∈ ["Token Type", "Lexeme", "Line", "Column"], Bare field := by simp [Bare]
  have below : List.Forall₂ (List.Forall₂ Reads) (ts.map writtenFields) (ts.map tokenFields) :=
    List.forall₂_map_left_iff.mpr (List.forall₂_map_right_iff.mpr (List.forall₂_same.mpr fun t _ => reads_writtenFields t))
  rw [tokens_eq_join]
  refine rows_join (.cons (List.forall₂_same.mpr fun field member => (head field member).reads) below) ?_
  simp [writtenFields]

/-- The tokens of a report come back. -/
theorem readTokens_tokens (ts : List Token) : readTokens (tokens ts) = some ts := by
  rw [readTokens, rows_tokens, List.tail_cons]
  exact mapM_read fun t _ => readToken_tokenFields t

example : tokens [⟨.invalid, "\"", ⟨2, 7⟩⟩] = "Token Type,Lexeme,Line,Column\nERROR,\"\"\"\",2,7\n" := rfl

/-! ### Declared names -/

/-- What a row tells of a declared name. -/
def entryFields (e : Entry) : List String :=
  [toString e.serial, e.name, e.type.getD "", toString e.pos.line, toString e.pos.column]

/-- A declared name and its type can be written without quotes, and the type does not read as a missing one. -/
structure Plain (e : Entry) : Prop where
  name : Bare e.name
  type : ∀ type, e.type = some type → Bare type ∧ type ≠ ""

theorem Plain.bare_fields {e : Entry} (plain : Plain e) : ∀ field ∈ entryFields e, Bare field := by
  have type : Bare (e.type.getD "") := by
    cases known : e.type with
    | none => simp [Bare]
    | some type => exact (plain.type type known).1
  simpa [entryFields] using ⟨bare_number _, plain.name, type, bare_number _, bare_number _⟩

theorem readEntry_entryFields {e : Entry} (plain : Plain e) : readEntry (entryFields e) = some e := by
  have type : (if e.type.getD "" = "" then none else some (e.type.getD "")) = e.type := by
    cases known : e.type with
    | none => rfl
    | some type => exact if_neg (plain.type type known).2
  simp [readEntry, entryFields, Nat.toNat?_repr, type]

theorem fields_intercalate {texts : List String} (bare : ∀ text ∈ texts, Bare text) (some : texts ≠ []) :
    fields ([','].intercalate (texts.map String.toList)) = texts := by
  have comma : ∀ text ∈ texts.map String.toList, ',' ∉ text := by
    intro text member inside
    obtain ⟨text, listed, rfl⟩ := List.mem_map.mp member
    exact (bare text listed ',' inside).1 rfl
  rw [fields, List.splitOn_intercalate ',' comma (by simpa using some), List.map_map]
  simp [Function.comp_def]

theorem newline_not_mem_written {texts : List String} (bare : ∀ text ∈ texts, Bare text) :
    '\n' ∉ [','].intercalate (texts.map String.toList) := by
  refine newline_not_mem_intercalate (by decide) fun text member => ?_
  obtain ⟨field, listed, rfl⟩ := List.mem_map.mp member
  exact (bare field listed).newline_not_mem

theorem lines_join {written : List (List String)} (bare : ∀ texts ∈ written, ∀ text ∈ texts, Bare text) :
    lines (String.join (written.map row)).toList = written.map fun texts => [','].intercalate (texts.map String.toList) := by
  have flat : (String.join (written.map row)).toList =
      (written.map fun texts => [','].intercalate (texts.map String.toList)).flatMap (· ++ ['\n']) ++ [] := by
    rw [String.toList_join, List.flatMap_map, List.flatMap_map, List.append_nil]
    exact List.flatMap_congr fun texts _ => toList_row texts
  rw [flat, lines_flatMap, lines, List.append_nil]
  intro line member
  obtain ⟨texts, listed, rfl⟩ := List.mem_map.mp member
  exact newline_not_mem_written (bare texts listed)

theorem declarations_eq_join (d : Declarations) :
    declarations d = String.join ((["Serial No", "Name", "Type", "Line", "Column"] :: d.entries.map entryFields).map row) := by
  rw [List.map_cons, String.join_cons, List.map_map]
  rfl

/-- The lines of a report below its head, split at their commas. -/
theorem fields_declarations {d : Declarations} (plain : ∀ e ∈ d.entries, Plain e) :
    (lines (declarations d).toList).tail.map fields = d.entries.map entryFields := by
  have bare : ∀ texts ∈ ["Serial No", "Name", "Type", "Line", "Column"] :: d.entries.map entryFields,
      ∀ text ∈ texts, Bare text := by
    intro texts member
    rcases List.mem_cons.mp member with rfl | member
    · simp [Bare]
    · obtain ⟨e, declared, rfl⟩ := List.mem_map.mp member
      exact (plain e declared).bare_fields
  rw [declarations_eq_join, lines_join bare, List.map_cons, List.tail_cons, List.map_map, List.map_map]
  refine List.map_congr_left fun e declared => ?_
  exact fields_intercalate (plain e declared).bare_fields (List.cons_ne_nil _ _)

/-- The declared names of a report come back. -/
theorem readDeclarations_declarations {d : Declarations} (plain : ∀ e ∈ d.entries, Plain e) :
    readDeclarations (declarations d) = some d := by
  rw [readDeclarations, fields_declarations plain, mapM_read fun e declared => readEntry_entryFields (plain e declared)]
  rfl

end Csv
end Lookahead
