import Lookahead.NameTable
import Mathlib.Data.List.Induction
import Mathlib.Data.List.Nodup

/-! What a table of names tells of its past. Whatever was asked of it, it answers as the list of the declarations that were
accepted since it was cleared last: the entries are that list, numbered from one, and equal tables have equal lists. -/

namespace Lookahead
namespace NameTable

/-- A declaration as it was asked for. -/
structure Declaration where
  name : String
  type : Option String
  pos : Position
  deriving DecidableEq, Repr

variable {t u : NameTable} {list list' : List Declaration} {d : Declaration} {e : Entry} {name : String}
  {type : Option String} {pos : Position} {request : Request}

def Declaration.numbered (d : Declaration) (n : Nat) : Entry := ⟨n, d.name, d.type, d.pos⟩

def Declaration.ofEntry (e : Entry) : Declaration := ⟨e.name, e.type, e.pos⟩

/-! ### The list of declarations -/

/-- The list of accepted declarations after a request and its reply. -/
def after (list : List Declaration) : Request × Reply → List Declaration
  | (.insert name type pos, .inserted) => list ++ [⟨name, type, pos⟩]
  | (.clear, _) => []
  | _ => list

/-- The declarations that were accepted since the last clearing. -/
def accepted (transcript : List (Request × Reply)) : List Declaration := transcript.foldl after []

/-- Declarations numbered in order from one. -/
def numbered (list : List Declaration) : List Entry := (list.zipIdx 1).map fun (d, n) => d.numbered n

/-- What a list of declarations has to say to a request. -/
def told (list : List Declaration) : Request → Reply
  | .insert name _ _ =>
    match list.find? (·.name = name) with
    | some first => .refused ⟨name, first.pos⟩
    | none => .inserted
  | .clear => .cleared
  | .lookup name => .found ((numbered list).find? (·.name = name))
  | .contains name => .verdict (list.any (·.name = name))
  | .size => .count list.length
  | .isEmpty => .verdict list.isEmpty
  | .entries => .listed (numbered list)

theorem numbered_concat (list : List Declaration) (d : Declaration) :
    numbered (list ++ [d]) = numbered list ++ [d.numbered (list.length + 1)] := by
  rw [numbered, List.zipIdx_append, List.map_append, Nat.add_comm list.length]
  rfl

theorem map_numbered {α : Type} (f : Entry → α) (g : Declaration → α) (same : ∀ d n, f (d.numbered n) = g d)
    (list : List Declaration) : (numbered list).map f = list.map g := by
  induction list using List.reverseRecOn with
  | nil => rfl
  | append_singleton list d ih => rw [numbered_concat, List.map_append, List.map_append, ih, List.map_singleton, same]; rfl

theorem serials_numbered (list : List Declaration) : (numbered list).map (·.serial) = List.range' 1 list.length := by
  rw [numbered, List.map_map]
  exact List.zipIdx_map_snd 1 list

theorem declared_numbered (list : List Declaration) : (numbered list).map Declaration.ofEntry = list :=
  (map_numbered Declaration.ofEntry id (fun _ _ => rfl) list).trans list.map_id

theorem numbered_injective (same : numbered list = numbered list') : list = list' := by
  rw [← declared_numbered list, same, declared_numbered]

theorem find?_eq_numbered (list : List Declaration) (name : String) :
    list.find? (·.name = name) = ((numbered list).find? (·.name = name)).map Declaration.ofEntry := by
  conv_lhs => rw [← declared_numbered list]
  exact List.find?_map ..

theorem any_eq_numbered (list : List Declaration) (name : String) :
    list.any (·.name = name) = ((numbered list).find? (·.name = name)).isSome := by
  rw [← List.isSome_find?, find?_eq_numbered, Option.isSome_map]

/-! ### What a table keeps -/

/-- A table holds the declarations of a list under their names. -/
structure Keeps (t : NameTable) (list : List Declaration) : Prop where
  distinct : (list.map (·.name)).Nodup
  size : t.size = list.length
  found : ∀ name, t.lookup name = (numbered list).find? (·.name = name)

namespace Keeps

theorem empty : NameTable.empty.Keeps [] := by
  refine ⟨List.nodup_nil, Std.HashMap.size_empty, fun name => Std.HashMap.getElem?_empty⟩

theorem insert_known (keeps : t.Keeps list) (known : (numbered list).find? (·.name = name) = some e) :
    t.insert name type pos = (.error ⟨name, e.pos⟩, t) := by
  rw [NameTable.insert, keeps.found, known]

theorem insert_new (keeps : t.Keeps list) (new : (numbered list).find? (·.name = name) = none) (type : Option String)
    (pos : Position) :
    ∃ t', t.insert name type pos = (.ok (), t') ∧ t'.Keeps (list ++ [⟨name, type, pos⟩]) := by
  have added : t.insert name type pos = (.ok (), ⟨t.byName.insert name ⟨t.size + 1, name, type, pos⟩⟩) := by
    rw [NameTable.insert, keeps.found, new]
  have absent : name ∉ t.byName := by
    rw [Std.HashMap.mem_iff_isSome_getElem?, show t.byName[name]? = none from (keeps.found name).trans new]
    exact Bool.false_ne_true
  refine ⟨_, added, ?_, ?_, fun other => ?_⟩
  · have unknown : name ∉ list.map (·.name) := by
      rw [← map_numbered (·.name) (·.name) (fun _ _ => rfl) list]
      intro member
      obtain ⟨e, here, same⟩ := List.mem_map.mp member
      exact List.find?_eq_none.mp new e here (decide_eq_true same)
    rw [List.map_append, List.map_singleton, ← List.concat_eq_append]
    exact keeps.distinct.concat unknown
  · rw [List.length_append, List.length_singleton, ← keeps.size]
    exact Std.HashMap.size_insert.trans (if_neg absent)
  · rw [numbered_concat, List.find?_append, ← keeps.found, ← keeps.size]
    show (t.byName.insert name _)[other]? = _
    rw [Std.HashMap.getElem?_insert]
    by_cases same : name = other
    · subst same
      rw [show t.lookup name = none from (keeps.found name).trans new]
      simp [Declaration.numbered]
    · simp [same, Declaration.numbered, lookup]

theorem isEmpty_eq (keeps : t.Keeps list) : t.isEmpty = list.isEmpty := by
  rw [isEmpty, Std.HashMap.isEmpty_eq_size_eq_zero, show t.byName.size = list.length from keeps.size]
  cases list <;> rfl

theorem nodup_names (keeps : t.Keeps list) : ((numbered list).map (·.name)).Nodup := by
  rw [map_numbered (·.name) (·.name) (fun _ _ => rfl)]
  exact keeps.distinct

theorem find?_eq_some_iff (keeps : t.Keeps list) :
    (numbered list).find? (·.name = name) = some e ↔ e ∈ numbered list ∧ e.name = name := by
  constructor
  · intro found
    exact ⟨List.mem_of_find?_eq_some found, by simpa using List.find?_some found⟩
  · rintro ⟨member, rfl⟩
    cases found : (numbered list).find? (·.name = e.name) with
    | none => simpa using List.find?_eq_none.mp found e member
    | some other =>
      have named : other.name = e.name := by simpa using List.find?_some found
      rw [List.inj_on_of_nodup_map keeps.nodup_names (List.mem_of_find?_eq_some found) member named]

theorem find?_of_getElem? (keeps : t.Keeps list) {n : Nat} (here : list[n]? = some d) :
    (numbered list).find? (·.name = d.name) = some (d.numbered (n + 1)) := by
  refine keeps.find?_eq_some_iff.mpr ⟨List.mem_of_getElem? (i := n) ?_, rfl⟩
  rw [numbered, List.getElem?_map, List.getElem?_zipIdx, here, Nat.add_comm 1 n]
  rfl

theorem find?_of_absent (absent : ∀ d ∈ list, d.name ≠ name) : (numbered list).find? (·.name = name) = none := by
  have none : list.find? (·.name = name) = none :=
    List.find?_eq_none.mpr fun d member same => absent d member (of_decide_eq_true same)
  rw [find?_eq_numbered] at none
  exact Option.map_eq_none_iff.mp none

theorem mem_toList (keeps : t.Keeps list) : (name, e) ∈ t.byName.toList ↔ e ∈ numbered list ∧ e.name = name := by
  rw [Std.HashMap.mem_toList_iff_getElem?_eq_some, show t.byName[name]? = _ from keeps.found name]
  exact keeps.find?_eq_some_iff

/-- The entries that are stored are those of the list, in whatever order. -/
theorem perm_numbered (keeps : t.Keeps list) : (t.byName.toList.map (·.2)).Perm (numbered list) := by
  have distinct : (t.byName.toList.map (·.2)).Nodup := by
    refine List.pairwise_map.mpr (Std.HashMap.distinct_keys_toList.imp_of_mem fun {a b} here there apart same => ?_)
    have named := (keeps.mem_toList.mp here).2
    rw [same, (keeps.mem_toList.mp there).2] at named
    simp [named] at apart
  refine (List.perm_ext_iff_of_nodup distinct (.of_map _ keeps.nodup_names)).mpr fun e => ?_
  constructor
  · intro member
    obtain ⟨⟨name, _⟩, stored, rfl⟩ := List.mem_map.mp member
    exact (keeps.mem_toList.mp stored).1
  · intro member
    exact List.mem_map.mpr ⟨(e.name, e), keeps.mem_toList.mpr ⟨member, rfl⟩, rfl⟩

/-- Sorting by the serial numbers brings the list back. -/
theorem entries_eq (keeps : t.Keeps list) : t.entries = numbered list := by
  have increasing : (numbered list).Pairwise (·.serial < ·.serial) := by
    rw [← List.pairwise_map, serials_numbered]
    exact List.pairwise_lt_range'
  have perm : t.entries.Perm (numbered list) := (List.mergeSort_perm ..).trans keeps.perm_numbered
  have sorted : t.entries.Pairwise (·.serial ≤ ·.serial) := by
    have sorts : t.entries.Pairwise fun a b => decide (a.serial ≤ b.serial) = true :=
      List.pairwise_mergeSort (fun a b c => by simpa using Nat.le_trans) (fun a b => by simpa using Nat.le_total _ _) _
    exact sorts.imp of_decide_eq_true
  refine List.Perm.eq_of_pairwise (fun a b here there le ge => ?_) sorted (increasing.imp Nat.le_of_lt) perm
  refine List.inj_on_of_nodup_map (f := (·.serial)) ?_ (perm.mem_iff.mp here) there (Nat.le_antisymm le ge)
  rw [serials_numbered]
  exact List.nodup_range'

theorem beq_iff (keeps : t.Keeps list) (keeps' : u.Keeps list') : (t == u) = true ↔ list = list' := by
  have extensional : (t == u) = true ↔ t.byName.Equiv u.byName := Std.HashMap.beq_iff_equiv
  rw [extensional]
  constructor
  · intro same
    have kept : u.Keeps list :=
      ⟨keeps.distinct, same.size_eq.symm.trans keeps.size, fun name => same.getElem?_eq.symm.trans (keeps.found name)⟩
    exact numbered_injective (kept.entries_eq.symm.trans keeps'.entries_eq)
  · rintro rfl
    exact .of_forall_getElem?_eq fun name => (keeps.found name).trans (keeps'.found name).symm

/-! ### Requests -/

/-- A table that keeps a list answers as the list tells, and keeps the list that comes of the answer. -/
theorem answer (keeps : t.Keeps list) (request : Request) :
    (t.answer request).1 = told list request ∧ (t.answer request).2.Keeps (after list (request, told list request)) := by
  cases request with
  | insert name type pos =>
    rw [told, find?_eq_numbered]
    cases found : (numbered list).find? (·.name = name) with
    | none =>
      obtain ⟨t', added, kept⟩ := keeps.insert_new found type pos
      rw [NameTable.answer, added]
      exact ⟨rfl, kept⟩
    | some e =>
      rw [NameTable.answer, keeps.insert_known found]
      exact ⟨rfl, keeps⟩
  | clear => exact ⟨rfl, .empty⟩
  | lookup name => exact ⟨congrArg Reply.found (keeps.found name), keeps⟩
  | contains name =>
    refine ⟨congrArg Reply.verdict ?_, keeps⟩
    rw [NameTable.contains, keeps.found, any_eq_numbered]
  | size => exact ⟨congrArg Reply.count keeps.size, keeps⟩
  | isEmpty => exact ⟨congrArg Reply.verdict keeps.isEmpty_eq, keeps⟩
  | entries => exact ⟨congrArg Reply.listed keeps.entries_eq, keeps⟩

/-- So do all replies to a sequence of requests. -/
theorem serve (keeps : t.Keeps list) (requests : List Request) :
    (t.serve requests).2.Keeps ((t.serve requests).1.foldl after list) ∧
    (t.serve requests).1.map (·.1) = requests ∧
    ∀ before request reply later, (t.serve requests).1 = before ++ (request, reply) :: later →
      reply = told (before.foldl after list) request := by
  induction requests generalizing t list with
  | nil => exact ⟨keeps, rfl, fun before _ _ _ split => by simp [NameTable.serve] at split⟩
  | cons request requests ih =>
    obtain ⟨replied, kept⟩ := keeps.answer request
    obtain ⟨last, asked, replies⟩ := ih kept
    have first : (t.serve (request :: requests)).1 =
      (request, told list request) :: ((t.answer request).2.serve requests).1 := by rw [← replied]; rfl
    rw [first]
    refine ⟨last, congrArg (request :: ·) asked, fun before asked reply later split => ?_⟩
    cases before with
    | nil =>
      cases split
      rfl
    | cons step before =>
      obtain ⟨rfl, others⟩ := List.cons.inj split
      exact replies before asked reply later others

end Keeps

/-- Whatever is asked of a table that is empty at first, it replies as the list of the declarations accepted since the last
    clearing tells at the time. Its entries are that list, numbered in order from one. A declared name is refused with the
    place of its declaration, which leaves the table as it is, and is found with its number, type and place; any other name
    can be declared. Tables are equal if and only if their lists are. -/
theorem serve_as_listed (requests : List Request) :
    let (transcript, table) := empty.serve requests
    let list := accepted transcript
    transcript.map (·.1) = requests ∧
    (∀ before request reply later, transcript = before ++ (request, reply) :: later →
      reply = told (accepted before) request) ∧
    table.entries = numbered list ∧ table.size = list.length ∧ (list.map (·.name)).Nodup ∧
    (∀ (n : Nat) (d : Declaration), list[n]? = some d → table.lookup d.name = some (d.numbered (n + 1)) ∧
      ∀ type pos, table.insert d.name type pos = (.error ⟨d.name, d.pos⟩, table)) ∧
    (∀ name, (∀ d ∈ list, d.name ≠ name) → table.lookup name = none ∧
      ∀ type pos, (table.insert name type pos).1 = .ok ()) ∧
    ∀ others, (table == (empty.serve others).2) = true ↔ list = accepted (empty.serve others).1 := by
  obtain ⟨keeps, asked, replies⟩ := Keeps.empty.serve requests
  refine ⟨asked, replies, keeps.entries_eq, keeps.size, keeps.distinct, fun n d here => ?_, fun name absent => ?_,
    fun others => keeps.beq_iff (Keeps.empty.serve others).1⟩
  · have found := keeps.find?_of_getElem? here
    exact ⟨(keeps.found d.name).trans found, fun type pos => keeps.insert_known found⟩
  · have none := Keeps.find?_of_absent absent
    refine ⟨(keeps.found name).trans none, fun type pos => ?_⟩
    obtain ⟨_, added, -⟩ := keeps.insert_new none type pos
    rw [added]

/-! ### Tables as lists -/

namespace Keeps
variable (keeps : t.Keeps list)
include keeps

theorem lookup_declarations (name : String) : t.declarations.lookup name = t.lookup name := by
  rw [declarations, Declarations.lookup, keeps.entries_eq, keeps.found]

theorem size_declarations : t.declarations.size = t.size := by
  rw [declarations, Declarations.size, keeps.entries_eq, keeps.size, numbered, List.length_map, List.length_zipIdx]

theorem insert_declarations (name : String) (type : Option String) (pos : Position) :
    t.declarations.insert name type pos =
      match t.insert name type pos with
      | (.ok (), t) => .ok t.declarations
      | (.error refused, _) => .error refused := by
  rw [Declarations.insert, keeps.lookup_declarations, keeps.size_declarations, keeps.found]
  cases found : (numbered list).find? (·.name = name) with
  | some e => rw [keeps.insert_known found]
  | none =>
    obtain ⟨later, added, kept⟩ := keeps.insert_new found type pos
    rw [added]
    simp only [declarations, keeps.entries_eq, kept.entries_eq, numbered_concat, keeps.size]
    rfl

end Keeps

/-- A table can be read as the list of its entries: names are found in it and added to it alike. -/
theorem declarations_serve (requests : List Request) :
    let table := (empty.serve requests).2
    table.declarations.size = table.size ∧ (∀ name, table.declarations.lookup name = table.lookup name) ∧
    ∀ name type pos, table.declarations.insert name type pos =
      match table.insert name type pos with
      | (.ok (), table) => .ok table.declarations
      | (.error refused, _) => .error refused := by
  obtain ⟨keeps, -⟩ := Keeps.empty.serve requests
  exact ⟨keeps.size_declarations, keeps.lookup_declarations, keeps.insert_declarations⟩

end NameTable
end Lookahead
