import Lookahead.Proofs.Machine.Step

/-! Two machines side by side. Where steps from related states both end with the same outcome or both go on to related
states, so do whole runs, and what the runs report is related as what the steps report. -/

namespace Lookahead

section Relations
variable (reports : List Event → List Event → Prop) (scopes : Scope → Scope → Prop) (states : State → State → Prop)

/-- Two turns that halt with the same outcome, or go on to related states. -/
inductive Turn.Paired : Turn → Turn → Prop
  | halt {a b : List Event} {x y : Scope} (outcome : Outcome) (reported : reports a b) (kept : scopes x y) :
    Paired (.halt a outcome x) (.halt b outcome y)
  | next {a b : List Event} {s t : State} (reported : reports a b) (going : states s t) : Paired (.next a s) (.next b t)

namespace Machine

/-- Two machines that go from related states to related states, with reports that stay related when they are joined. -/
structure Lockstep (m m' : Machine) : Prop where
  joined : ∀ {a b c d : List Event}, reports a b → reports c d → reports (a ++ c) (b ++ d)
  steps : ∀ {s t : State}, states s t → (m.step s).Paired reports scopes states (m'.step t)

end Machine
end Relations

namespace Machine
variable {m m' : Machine} {reports : List Event → List Event → Prop} {scopes : Scope → Scope → Prop}
  {states : State → State → Prop} {s t : State}

theorem Lockstep.runFrom (lockstep : Lockstep reports scopes states m m') (start : states s t) :
    (m.runFrom s).outcome = (m'.runFrom t).outcome ∧ reports (m.runFrom s).events (m'.runFrom t).events ∧
      scopes (m.runFrom s).scope (m'.runFrom t).scope := by
  have halts := m.halts_runFrom s
  generalize m.runFrom s = run at halts ⊢
  induction halts generalizing t with
  | halt h =>
    have paired := lockstep.steps start
    rw [h] at paired
    generalize turn : m'.step t = other at paired
    cases paired with
    | halt _ reported kept =>
      rw [runFrom_halt turn]
      exact ⟨rfl, reported, kept⟩
  | next h _ ih =>
    have paired := lockstep.steps start
    rw [h] at paired
    generalize turn : m'.step t = other at paired
    cases paired with
    | next reported going =>
      obtain ⟨outcome, later, kept⟩ := ih going
      rw [runFrom_next turn]
      exact ⟨outcome, lockstep.joined reported later, kept⟩

end Machine
end Lookahead
