import Lookahead.Report.Reading

/-! Grids read back. A text is escaped character by character, so escaping goes through joining, and each bar of an escaped
text has a backslash before it. A blank stands between a text and the bar that ends its cell, and so the backslash that a
text ends with is not taken for one that escapes this bar. -/

namespace Lookahead

/-- No name that was declared holds a newline. -/
def Grammar.Unbroken (g : Grammar) : Prop := ∀ name ∈ g.terminals ++ g.nonterminals, '\n' ∉ name.toList

namespace Grid
variable {text rest : List Char} {texts : List String} {g : Grammar}

/-- Neither the lookahead of a step nor its label holds a newline. -/
structure Step.Unbroken (s : Step) : Prop where
  lookahead : '\n' ∉ s.lookahead.toList
  label : ∀ label, s.deed = .other label → '\n' ∉ label.toList

/-! ### Escaping -/

theorem escapeBars_append (left right : List Char) : escapeBars (left ++ right) = escapeBars left ++ escapeBars right := by
  induction left with
  | nil => rfl
  | cons c left ih =>
    rw [List.cons_append, escapeBars, escapeBars, ih]
    split <;> rfl

theorem escapeBars_of_not_mem (free : '|' ∉ text) : escapeBars text = text := by
  induction text with
  | nil => rfl
  | cons c rest ih =>
    have other : c ≠ '|' := fun same => free (same ▸ List.mem_cons_self)
    rw [escapeBars, if_neg other, ih fun member => free (List.mem_cons_of_mem c member)]

theorem newline_mem_escapeBars : '\n' ∈ escapeBars text ↔ '\n' ∈ text := by
  induction text with
  | nil => rfl
  | cons c rest ih =>
    unfold escapeBars
    split
    · rename_i same
      simp [same, ih]
    · simp [ih]

theorem unescapeBars_cons {c : Char} (other : rest.head? ≠ some '|') : unescapeBars (c :: rest) = c :: unescapeBars rest := by
  rw [unescapeBars]
  rintro later - rfl
  exact other rfl

/-- Escaping never begins a text with a bar. -/
theorem head_escapeBars (text : List Char) : (escapeBars text).head? ≠ some '|' := by
  cases text with
  | nil => nofun
  | cons c rest =>
    unfold escapeBars
    split <;> simp_all

theorem unescapeBars_escapeBars (text : List Char) : unescapeBars (escapeBars text) = text := by
  induction text with
  | nil => rfl
  | cons c rest ih =>
    unfold escapeBars
    split
    · rename_i same
      rw [unescapeBars, ih, same]
    · -- A backslash here is one of the text: behind it no bar can come first.
      rw [unescapeBars_cons (head_escapeBars rest), ih]

theorem escape_append (left right : String) : escape (left ++ right) = escape left ++ escape right := by
  rw [escape, escape, escape, String.toList_append, escapeBars_append, String.ofList_append]

theorem escape_of_not_mem (text : String) (free : '|' ∉ text.toList) : escape text = text := by
  rw [escape, escapeBars_of_not_mem free, String.ofList_toList]

theorem toList_escape (text : String) : (escape text).toList = escapeBars text.toList := String.toList_ofList

theorem escapeBars_intercalate {separator : List Char} (free : '|' ∉ separator) (texts : List (List Char)) :
    escapeBars (separator.intercalate texts) = separator.intercalate (texts.map escapeBars) := by
  induction texts with
  | nil => rfl
  | cons text texts ih =>
    cases texts with
    | nil => simp
    | cons next texts =>
      rw [List.intercalate_cons_cons, escapeBars_append, escapeBars_append, escapeBars_of_not_mem free, ih]
      exact List.intercalate_cons_cons.symm

theorem escape_intercalate {separator : String} (free : '|' ∉ separator.toList) (texts : List String) :
    escape (separator.intercalate texts) = separator.intercalate (texts.map escape) := by
  apply String.toList_injective
  rw [toList_escape, String.toList_intercalate, String.toList_intercalate, escapeBars_intercalate free, List.map_map,
    List.map_map]
  exact congrArg _ (List.map_congr_left fun text _ => (toList_escape text).symm)

/-! ### Lines -/

/-- A line without its newline. -/
def inside (cells : List String) : List Char := '|' :: cells.flatMap fun c => ' ' :: (c.toList ++ [' ', '|'])

theorem toList_line (cells : List String) : (line cells).toList = inside cells ++ ['\n'] := by
  simp [line, inside, String.toList_join, List.flatMap_map]

theorem newline_not_mem_inside (unbroken : ∀ c ∈ texts, '\n' ∉ c.toList) : '\n' ∉ inside texts := by
  simpa [inside] using unbroken

theorem length_pieces (b : Bool) (text : List Char) : (pieces b text).length = openBars b text + 1 := by
  induction text generalizing b with
  | nil => rfl
  | cons c rest ih =>
    rw [pieces, openBars]
    split
    · rename_i bar
      obtain ⟨rfl, rfl⟩ := bar
      rw [List.length_cons, ih, Nat.add_comm 1]
      rfl
    · rw [List.length_modifyHead, ih, Nat.zero_add]

/-- A cell is a piece, whether or not a backslash stands before it. -/
theorem pieces_cell (text rest : List Char) (b : Bool) :
    pieces b (escapeBars text ++ ' ' :: '|' :: rest) = (escapeBars text ++ [' ']) :: pieces false rest := by
  induction text generalizing b with
  | nil =>
    -- The blank comes between, so the bar is open even if the text ends with a backslash.
    simp [escapeBars, pieces]
  | cons c text ih =>
    unfold escapeBars
    split
    · simp [pieces, ih]
    · rename_i other
      simp [pieces, other, ih]

theorem pieces_inside (texts : List String) :
    pieces false (inside (texts.map escape)) = [] :: texts.map (fun t => ' ' :: (escapeBars t.toList ++ [' '])) ++ [[]] := by
  have cells : pieces false (texts.flatMap fun t => ' ' :: (escapeBars t.toList ++ [' ', '|'])) =
      texts.map (fun t => ' ' :: (escapeBars t.toList ++ [' '])) ++ [[]] := by
    induction texts with
    | nil => rfl
    | cons t texts ih =>
      have cell := pieces_cell t.toList (texts.flatMap fun t => ' ' :: (escapeBars t.toList ++ [' ', '|'])) false
      simp [pieces, cell, ih]
  simp [inside, pieces, List.flatMap_map, toList_escape, cells]

theorem openBars_inside (texts : List String) : openBars false (inside (texts.map escape)) = texts.length + 1 := by
  have length := length_pieces false (inside (texts.map escape))
  rw [pieces_inside] at length
  simpa using length.symm

theorem cellText_cell (text : String) : cellText (' ' :: (escapeBars text.toList ++ [' '])) = text := by
  simp [cellText, dropBlank, unescapeBars_escapeBars]

/-- The texts of a line come back. -/
theorem cells_inside (texts : List String) : cells (inside (texts.map escape)) = texts := by
  simp [cells, pieces_inside, Function.comp_def, cellText_cell]

/-- The line below the head, without its newline. -/
def ruleInside (width : Nat) : List Char := '|' :: (List.replicate width ['-', '-', '-', '|']).flatten

theorem toList_rule (width : Nat) : (rule width).toList = ruleInside width ++ ['\n'] := by
  simp [rule, ruleInside, String.toList_join, List.flatMap_def]

theorem openBars_ruleInside (width : Nat) : openBars false (ruleInside width) = width + 1 := by
  induction width with
  | zero => rfl
  | succ width ih =>
    have more : openBars false (ruleInside (width + 1)) = openBars false (ruleInside width) + 1 := by
      simp [ruleInside, openBars, List.replicate_succ, Nat.add_comm]
    rw [more, ih]

theorem newline_not_mem_ruleInside (width : Nat) : '\n' ∉ ruleInside width := by
  simp [ruleInside]

/-! ### Names -/

theorem newline_not_mem_number (n : Nat) : '\n' ∉ (toString n).toList := by
  intro member
  cases isDigit_of_mem_number member

theorem escape_number (n : Nat) : escape (toString n) = toString n := by
  refine escape_of_not_mem _ fun member => ?_
  cases isDigit_of_mem_number member

theorem newline_not_mem_name (unbroken : g.Unbroken) (s : Symbol) : '\n' ∉ (g.name s).toList := by
  have listed (names : List String) (declared : ∀ name ∈ names, '\n' ∉ name.toList) (i : Nat) :
      '\n' ∉ (names.getD i "<unknown>").toList := by
    rw [List.getD_eq_getElem?_getD]
    cases found : names[i]? with
    | none => simp
    | some name => exact declared name (List.mem_of_getElem? found)
  cases s with
  | terminal i => exact listed g.terminals (fun name member => unbroken name (List.mem_append_left _ member)) i
  | nonterminal i => exact listed g.nonterminals (fun name member => unbroken name (List.mem_append_right _ member)) i
  | epsilon => simp [Vocabulary.name, epsilonName]
  | endMarker => simp [Vocabulary.name, endMarkerName]

theorem newline_not_mem_names (unbroken : g.Unbroken) (symbols : List Symbol) :
    '\n' ∉ (" ".intercalate (symbols.map g.name)).toList := by
  rw [String.toList_intercalate, List.map_map]
  refine newline_not_mem_intercalate (by simp) fun text member => ?_
  obtain ⟨s, -, rfl⟩ := List.mem_map.mp member
  exact newline_not_mem_name unbroken s

theorem newline_not_mem_renderProduction (unbroken : g.Unbroken) (id : Nat) : '\n' ∉ (g.renderProduction id).toList := by
  unfold Grammar.renderProduction
  cases g.production? id with
  | none => exact newline_not_mem_append (by decide) (newline_not_mem_number id)
  | some p =>
    exact newline_not_mem_append (newline_not_mem_append (newline_not_mem_name unbroken _) (by decide))
      (newline_not_mem_names unbroken p.body)

/-! ### Texts of steps -/

theorem stepRow_eq (g : Grammar) (s : Step) : stepRow g s = line ((s.texts g).map escape) := by
  have stack : stackCell g s.stack = escape (" ".intercalate (s.stack.reverse.map g.name)) := by
    rw [escape_intercalate (by simp), List.map_map, stackCell]
    rfl
  have production : productionCell g s.production = escape ((s.production.map g.renderProduction).getD "") := by
    cases s.production with
    | none => exact (escape_of_not_mem "" (by simp)).symm
    | some id => rfl
  have deed : deedCell g s.deed = escape (s.deed.text g) := by
    cases s.deed with
    | matched column =>
      rw [deedCell, Deed.text, escape_append, escape_append, escape_of_not_mem "Match '" (by simp),
        escape_of_not_mem "'" (by simp)]
    | other label => rfl
  rw [stepRow, stack, production, deed]
  rfl

theorem Step.Unbroken.newline_not_mem {s : Step} (names : g.Unbroken) (unbroken : s.Unbroken) :
    ∀ text ∈ s.texts g, '\n' ∉ text.toList := by
  have production : '\n' ∉ ((s.production.map g.renderProduction).getD "").toList := by
    cases s.production with
    | none => simp
    | some id => exact newline_not_mem_renderProduction names id
  have deed : '\n' ∉ (s.deed.text g).toList := by
    cases known : s.deed with
    | matched column =>
      exact newline_not_mem_append (newline_not_mem_append (by decide) (newline_not_mem_name names _)) (by decide)
    | other label => exact unbroken.label label known
  intro text member
  simp only [Step.texts, List.mem_cons, List.not_mem_nil, or_false] at member
  rcases member with rfl | rfl | rfl | rfl
  · exact newline_not_mem_names names s.stack.reverse
  · exact unbroken.lookahead
  · exact production
  · exact deed

theorem newline_not_mem_escaped (unbroken : ∀ text ∈ texts, '\n' ∉ text.toList) : '\n' ∉ inside (texts.map escape) := by
  refine newline_not_mem_inside fun cell member => ?_
  obtain ⟨text, listed, rfl⟩ := List.mem_map.mp member
  rw [toList_escape, newline_mem_escapeBars]
  exact unbroken text listed

/-! ### Grids -/

/-- The lines of a grid: a head, a rule and a line for each row of texts. -/
def ruled (head : List String) (rows : List (List String)) : List (List Char) :=
  inside (head.map escape) :: ruleInside head.length :: rows.map fun texts => inside (texts.map escape)

section Ruled
variable {head : List String} {rows : List (List String)}

theorem toList_ruled (head : List String) (rows : List (List String)) :
    (line (head.map escape) ++ rule head.length ++ String.join (rows.map fun texts => line (texts.map escape))).toList =
      (ruled head rows).flatMap (· ++ ['\n']) := by
  simp [ruled, toList_line, toList_rule, String.toList_join, List.flatMap_map]

theorem forall_mem_ruled {P : List Char → Prop} (first : P (inside (head.map escape))) (second : P (ruleInside head.length))
    (below : ∀ texts ∈ rows, P (inside (texts.map escape))) : ∀ line ∈ ruled head rows, P line := by
  simpa [ruled] using ⟨first, second, below⟩

theorem newline_not_mem_ruled (unbrokenHead : ∀ text ∈ head, '\n' ∉ text.toList)
    (unbroken : ∀ texts ∈ rows, ∀ text ∈ texts, '\n' ∉ text.toList) : ∀ line ∈ ruled head rows, '\n' ∉ line :=
  forall_mem_ruled (newline_not_mem_escaped unbrokenHead) (newline_not_mem_ruleInside _)
    fun texts member => newline_not_mem_escaped (unbroken texts member)

theorem openBars_ruled (width : ∀ texts ∈ rows, texts.length = head.length) :
    ∀ line ∈ ruled head rows, openBars false line = head.length + 1 := by
  refine forall_mem_ruled (openBars_inside head) (openBars_ruleInside _) fun texts member => ?_
  rw [openBars_inside, width texts member]

theorem ruled_ne_nil : ∀ line ∈ ruled head rows, line ≠ [] :=
  forall_mem_ruled (List.cons_ne_nil _ _) (List.cons_ne_nil _ _) fun _ _ => List.cons_ne_nil _ _

theorem cells_ruled (head : List String) (rows : List (List String)) : ((ruled head rows).drop 2).map cells = rows := by
  simp [ruled, Function.comp_def, cells_inside]

end Ruled

/-! ### Reports of steps -/

def stepHead : List String := ["Stack Contents", "Current Input", "Production Used", "Action"]

/-- The lines of a report of steps. -/
theorem lines_stepGrid {steps : List Step} (names : g.Unbroken) (unbroken : ∀ s ∈ steps, s.Unbroken) :
    lines (stepGrid g steps).toList = ruled stepHead (steps.map (·.texts g)) := by
  have written : stepGrid g steps = line (stepHead.map escape) ++ rule stepHead.length ++
      String.join ((steps.map (·.texts g)).map fun texts => line (texts.map escape)) := by
    have head : stepHead.map escape = stepHead := by simp [stepHead, escape_of_not_mem]
    rw [head, List.map_map, stepGrid]
    exact congrArg (_ ++ String.join ·) (List.map_congr_left fun s _ => stepRow_eq g s)
  have apart : ∀ line ∈ ruled stepHead (steps.map (·.texts g)), '\n' ∉ line := by
    refine newline_not_mem_ruled (by simp [stepHead]) fun texts member => ?_
    obtain ⟨s, listed, rfl⟩ := List.mem_map.mp member
    exact (unbroken s listed).newline_not_mem names
  rw [written, toList_ruled, ← List.append_nil (List.flatMap ..), lines_flatMap apart, lines, List.append_nil]

/-! ### Reports of tables -/

def tableHead (g : Grammar) : List String := "Non-Terminal" :: g.columns.map fun c => g.name c.toSymbol

/-- The rows of a table's grid. -/
def tableRows (g : Grammar) (t : Table) : List (List String) := g.nonterminals.zipIdx.map fun (name, i) => rowTexts g t name i

theorem tableGrid_eq (g : Grammar) (t : Table) :
    tableGrid g t = line ((tableHead g).map escape) ++ rule (tableHead g).length ++
      String.join ((tableRows g t).map fun texts => line (texts.map escape)) := by
  have head : (tableHead g).map escape = "Non-Terminal" :: g.columns.map fun c => escape (g.name c.toSymbol) := by
    simp [tableHead, escape_of_not_mem]
  have entry (i : Nat) (column : Column) : escape (((t.get? i column).map toString).getD "") = cell t i column := by
    unfold cell
    cases t.get? i column with
    | none => exact escape_of_not_mem "" (by simp)
    | some id => exact escape_number id
  have row (name : String) (i : Nat) : (rowTexts g t name i).map escape = escape name :: g.columns.map (cell t i) := by
    simp [rowTexts, entry]
  rw [head, tableRows, List.map_map, tableGrid]
  simp [row, tableHead, Function.comp_def]

theorem newline_not_mem_tableHead (names : g.Unbroken) : ∀ text ∈ tableHead g, '\n' ∉ text.toList := by
  intro text member
  rcases List.mem_cons.mp member with rfl | member
  · simp
  · obtain ⟨column, -, rfl⟩ := List.mem_map.mp member
    exact newline_not_mem_name names column.toSymbol

theorem newline_not_mem_tableRows (names : g.Unbroken) (t : Table) :
    ∀ texts ∈ tableRows g t, ∀ text ∈ texts, '\n' ∉ text.toList := by
  intro texts member text listed
  obtain ⟨⟨name, i⟩, declared, rfl⟩ := List.mem_map.mp member
  rcases List.mem_cons.mp listed with rfl | listed
  · exact names text (List.mem_append_right _ (List.fst_mem_of_mem_zipIdx declared))
  · obtain ⟨column, -, rfl⟩ := List.mem_map.mp listed
    cases t.get? i column with
    | none => simp
    | some id => exact newline_not_mem_number id

/-- The lines of the report of a table up to the first empty one. -/
theorem takeWhile_lines_table (names : g.Unbroken) (t : Table) :
    (lines (table g t).toList).takeWhile (· ≠ []) = ruled (tableHead g) (tableRows g t) := by
  have below : ∃ rest, (conflictList g t ++ productionList g).toList = '\n' :: rest := by
    unfold conflictList productionList
    split
    · exact ⟨_, by simp; rfl⟩
    · exact ⟨_, by simp; rfl⟩
  obtain ⟨rest, below⟩ := below
  have apart := newline_not_mem_ruled (newline_not_mem_tableHead names) (newline_not_mem_tableRows names t)
  rw [table, String.append_assoc, String.toList_append, below, tableGrid_eq, toList_ruled, lines_flatMap apart,
    List.takeWhile_append_of_pos fun line member => decide_eq_true (ruled_ne_nil line member), lines, if_pos rfl,
    List.takeWhile_cons_of_neg (by simp), List.append_nil]

theorem length_tableHead (g : Grammar) : (tableHead g).length = g.terminals.length + 2 := by
  simp [tableHead, Grammar.columns]

theorem length_of_mem_tableRows {t : Table} : ∀ texts ∈ tableRows g t, texts.length = (tableHead g).length := by
  intro texts member
  obtain ⟨⟨name, i⟩, -, rfl⟩ := List.mem_map.mp member
  simp [rowTexts, tableHead]

/-! ### What the reports show -/

/-- The report of steps has a head, a rule and a line for each step. All of them have five bars, and the cells of a step's
    line are its texts. -/
theorem stepGrid_shows {steps : List Step} (names : g.Unbroken) (unbroken : ∀ s ∈ steps, s.Unbroken) :
    (lines (stepGrid g steps).toList).length = steps.length + 2 ∧
    (∀ line ∈ lines (stepGrid g steps).toList, openBars false line = 5) ∧
    ((lines (stepGrid g steps).toList).drop 2).map cells = steps.map (·.texts g) := by
  rw [lines_stepGrid names unbroken]
  refine ⟨by simp [ruled], openBars_ruled fun texts member => ?_, cells_ruled ..⟩
  obtain ⟨s, -, rfl⟩ := List.mem_map.mp member
  rfl

/-- The report of a table begins with a head, a rule and a line for each nonterminal. All of them have a bar more than there
    are cells; those of the head are the names of the columns and those of a line the entries of a row. -/
theorem table_shows (names : g.Unbroken) (t : Table) : ∃ head rule rows,
    (lines (table g t).toList).takeWhile (· ≠ []) = head :: rule :: rows ∧ rows.length = g.nonterminals.length ∧
    (∀ line ∈ head :: rule :: rows, openBars false line = g.terminals.length + 3) ∧
    cells head = "Non-Terminal" :: g.columns.map (fun column => g.name column.toSymbol) ∧
    rule = '|' :: (List.replicate (g.terminals.length + 2) ['-', '-', '-', '|']).flatten ∧
    rows.map cells = g.nonterminals.zipIdx.map fun (name, i) => rowTexts g t name i := by
  have bars := openBars_ruled (length_of_mem_tableRows (g := g) (t := t))
  have rows := cells_ruled (tableHead g) (tableRows g t)
  rw [length_tableHead] at bars
  refine ⟨_, _, _, takeWhile_lines_table names t, by simp [tableRows], bars, cells_inside _, ?_, rows⟩
  rw [ruleInside, length_tableHead]

end Grid
end Lookahead
