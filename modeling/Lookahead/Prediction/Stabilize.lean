/-! Repeating a pass until it changes nothing. -/

namespace Lookahead

/-- Repeats `pass` until it changes nothing, at most `bound` times. -/
def stabilize {α : Type} [DecidableEq α] (pass : α → α) : Nat → α → α
  | 0, a => a
  | bound + 1, a => if pass a = a then a else stabilize pass bound (pass a)

end Lookahead
