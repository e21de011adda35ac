import Lookahead.Prediction.Stabilize

/-! Passes that only ever add. Where each write of a pass leaves a value as it is or makes it larger, a pass that changes
nothing consists of writes that change nothing, and repeated passes come to such a pass before the bound runs out. -/

namespace Lookahead

section Writes
variable {α β : Type} {size : α → Nat} {write : α → β → α}

theorem foldl_grows (grows : ∀ a b, write a b = a ∨ size a < size (write a b)) (writes : List β) (a : α) :
    writes.foldl write a = a ∨ size a < size (writes.foldl write a) := by
  induction writes generalizing a with
  | nil => exact Or.inl rfl
  | cons b rest ih =>
    rw [List.foldl_cons]
    rcases grows a b with same | more
    · rw [same]
      exact ih a
    · rcases ih (write a b) with same | later
      · exact Or.inr (by rw [same]; exact more)
      · exact Or.inr (Nat.lt_trans more later)

/-- Writes that change nothing together change nothing one by one: what one added no other could take back. -/
theorem foldl_fixed (grows : ∀ a b, write a b = a ∨ size a < size (write a b)) {writes : List β} {a : α}
    (fixed : writes.foldl write a = a) : ∀ b ∈ writes, write a b = a := by
  induction writes with
  | nil => exact fun _ h => nomatch h
  | cons b rest ih =>
    rw [List.foldl_cons] at fixed
    have first : write a b = a := by
      rcases grows a b with same | more
      · exact same
      · rcases foldl_grows grows rest (write a b) with same | later
        · exact same.symm.trans fixed
        · rw [fixed] at later
          exact absurd more (Nat.lt_asymm later)
    rw [first] at fixed
    intro c hc
    rcases List.mem_cons.mp hc with rfl | later
    · exact first
    · exact ih fixed c later

theorem foldl_keeps {kept : α → Prop} {writes : List β} (keeps : ∀ a, ∀ b ∈ writes, kept a → kept (write a b)) {a : α}
    (start : kept a) : kept (writes.foldl write a) := by
  induction writes generalizing a with
  | nil => exact start
  | cons b rest ih =>
    exact ih (fun a c hc => keeps a c (List.mem_cons_of_mem _ hc)) (keeps a b List.mem_cons_self start)

end Writes

section Passes
variable {α : Type} [DecidableEq α] {pass : α → α} (kept : α → Prop)

theorem stabilize_keeps (keeps : ∀ a, kept a → kept (pass a)) (bound : Nat) {a : α} (start : kept a) :
    kept (stabilize pass bound a) := by
  induction bound generalizing a with
  | zero => exact start
  | succ bound ih =>
    unfold stabilize
    split
    · exact start
    · exact ih (keeps a start)

/-- Passes that add something until they change nothing stop before the bound does, if what they keep has no more
    than the bound. -/
theorem stabilize_fixed (size : α → Nat) {limit : Nat} (keeps : ∀ a, kept a → kept (pass a))
    (grows : ∀ a, pass a = a ∨ size a < size (pass a)) (bounded : ∀ a, kept a → size a ≤ limit) (bound : Nat) {a : α}
    (start : kept a) (enough : limit < size a + bound) : pass (stabilize pass bound a) = stabilize pass bound a := by
  induction bound generalizing a with
  | zero =>
    have := bounded a start
    omega
  | succ bound ih =>
    unfold stabilize
    split
    · assumption
    · rename_i changed
      have more := (grows a).resolve_left changed
      exact ih (keeps a start) (by omega)

end Passes
end Lookahead
