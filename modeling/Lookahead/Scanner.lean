import Lookahead.Scan

/-! Scanning on demand: tokens are handed out one at a time, and the text behind them is left unread until it is asked for. -/

namespace Lookahead

/-- A scan under way: the text ahead and its place, the characters that no rule matched so far, and whether the closing
    record was handed out. -/
structure Scanner where
  rules : List Rule
  ahead : List Char
  pos : Position
  unmatched : List Unmatched
  closed : Bool

namespace Scanner

/-- Ready to scan a text. -/
def ofText (rules : List Rule) (text : String) : Scanner := ⟨rules, text.toList, .start, [], false⟩

/-- Takes the next chunk off a text that is not empty. -/
def read (s : Scanner) (c : Char) (rest : List Char) : Chunk × Scanner :=
  let (n, reading) := Chunk.next s.rules (c :: rest)
  let chunk : Chunk := ⟨c :: rest.take (n - 1), s.pos, reading⟩
  (chunk, { s with
    ahead := rest.drop (n - 1)
    pos := s.pos.after chunk.text
    unmatched := s.unmatched ++ chunk.unmatched?.toList })

/-- Hands out the next token and passes over what is skipped before it. Behind the text comes the closing record, and
    then nothing more. -/
def next (s : Scanner) : Option Token × Scanner :=
  if s.closed then (none, s)
  else match _text : s.ahead with
    | [] => (some (.closing s.pos), { s with closed := true })
    | c :: rest =>
      match (s.read c rest).1.token? with
      | some t => (some t, (s.read c rest).2)
      | none => (s.read c rest).2.next
termination_by s.ahead.length
decreasing_by simp only [read, _text, List.length_drop, List.length_cons]; omega

/-- The scanner after it was asked for a number of tokens. -/
def pulled (s : Scanner) : Nat → Scanner
  | 0 => s
  | k + 1 => s.next.2.pulled k

end Scanner
end Lookahead
