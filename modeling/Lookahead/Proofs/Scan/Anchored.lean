import Lookahead.Proofs.Pattern.Reading
import Lookahead.Proofs.Pattern.Search
import Lookahead.Proofs.Scan.Pulls

/-! What the chunks of a scanner with rules from texts hold. A rule takes the text up to the end of the leftmost match. If
its text is a pattern of its own, that match starts at the head, so that the chunk is in full a match of the pattern. A text
that closes the group around it can let the match start later, and does so if and only if nothing is matched at the head. -/

namespace Lookahead
open Pattern (Leftmost)

namespace Rule
variable {text : String} {effect : Effect} {r : Rule} {rules : List Rule} {ahead : List Char} {n : Nat}

theorem leftmost_of_find (accepted : ofText text effect = .ok r) (found : r.find ahead = some n) :
    r.effect = effect ∧ ∃ p skipped word rest, Pattern.readRule text = .ok p ∧
      Leftmost p none ahead skipped word rest ∧ n = skipped.length + word.length := by
  obtain ⟨p, read, same⟩ := Piece.bind_eq_ok.mp accepted
  cases same
  obtain ⟨skipped, word, rest, leftmost, ends⟩ := Pattern.leftmost_of_findEnd found
  exact ⟨rfl, p, skipped, word, rest, read, leftmost, ends⟩

theorem exists_of_mapM {sources : List (String × Effect)} (accepted : sources.mapM (fun s => ofText s.1 s.2) = .ok rules)
    (member : r ∈ rules) : ∃ s ∈ sources, ofText s.1 s.2 = .ok r := by
  induction sources generalizing rules with
  | nil =>
    cases accepted
    cases member
  | cons s sources ih =>
    rw [List.mapM_cons] at accepted
    obtain ⟨first, here, accepted⟩ := Piece.bind_eq_ok.mp accepted
    obtain ⟨others, later, same⟩ := Piece.bind_eq_ok.mp accepted
    cases same
    rcases List.mem_cons.mp member with rfl | member
    · exact ⟨s, List.mem_cons_self, here⟩
    · obtain ⟨s', member', found⟩ := ih later member
      exact ⟨s', List.mem_cons_of_mem _ member', found⟩

end Rule

namespace Scan
variable {sources : List (String × Effect)} {rules : List Rule} {before after : List Chunk} {chunk : Chunk} {effect : Effect}

/-- A chunk that a rule takes ends with the leftmost match of what the rule's text means, as a group behind the start of the
    text. It begins with that match if and only if there is any match at its head. If the rule's text is a pattern of its
    own, it does, and the chunk is in full a match of that pattern. -/
theorem taken_in_full_iff (accepted : sources.mapM (fun s => Rule.ofText s.1 s.2) = .ok rules) (input : String)
    (split : (Scan.ofText rules input).chunks = before ++ chunk :: after) (reading : chunk.reading = .matched effect) :
    ∃ text p skipped word, (text, effect) ∈ sources ∧ Pattern.readRule text = .ok p ∧ chunk.text = skipped ++ word ∧
      Leftmost p none (chunk.text ++ after.flatMap Chunk.text) skipped word (after.flatMap Chunk.text) ∧
      (skipped = [] ↔ ∃ u v, chunk.text ++ after.flatMap Chunk.text = u ++ v ∧ p.Matches none u v) ∧
      ∀ q, Pattern.read text.toList = .ok q → skipped = [] ∧ q.Matches none chunk.text (after.flatMap Chunk.text) := by
  have inside : ∀ r ∈ rules, ∀ ahead n, r.find ahead = some n → n ≤ ahead.length := by
    intro r member ahead n found
    obtain ⟨s, -, made⟩ := Rule.exists_of_mapM accepted member
    obtain ⟨-, p, skipped, word, rest, -, leftmost, rfl⟩ := Rule.leftmost_of_find made found
    rw [leftmost.split, List.length_append, List.length_append]
    omega
  have tiled : Chunk.Tile rules .start input.toList (before ++ chunk :: after) := split ▸ Chunk.tile_cut ..
  obtain ⟨some, -, munches⟩ := tiled.drop.head inside
  rw [List.flatMap_cons] at munches
  generalize after.flatMap Chunk.text = ahead at munches ⊢
  cases munches with
  | unmatched c pos nowhere => cases reading
  | @matched taken _ pos leads =>
    cases reading
    obtain ⟨nonempty, others, r, later, rfl, far, same, -, -⟩ := leads
    have found : r.find (taken ++ ahead) = .some taken.length := by
      cases found : r.find (taken ++ ahead) with
      | none => simp [Rule.reach, found] at far; omega
      | some n => simpa [Rule.reach, found] using far
    obtain ⟨⟨text, effect⟩, member, made⟩ := Rule.exists_of_mapM accepted (r := r) (by simp)
    obtain ⟨same', p, skipped, word, rest, read, leftmost, ends⟩ := Rule.leftmost_of_find made found
    obtain rfl : effect = _ := same'.symm.trans same
    have pieces : taken ++ ahead = (skipped ++ word) ++ rest := by rw [leftmost.split, List.append_assoc]
    obtain ⟨rfl, rfl⟩ := List.append_inj pieces (by rw [ends, List.length_append])
    refine ⟨text, p, skipped, word, member, read, rfl, leftmost, leftmost.skipped_eq_nil_iff, fun q own => ?_⟩
    cases read.symm.trans (Pattern.readRule_of_read own)
    obtain ⟨rfl, matched⟩ := leftmost.anchored
    exact ⟨rfl, matched⟩

/-- `a)|(?:b` is no pattern, but a rule can be made of it. Its second alternative is not held to the head, so that the rule
    takes `xxb` for a token although nothing is matched where the token begins. -/
theorem takes_unmatched_text : Pattern.read "a)|(?:b".toList = .error .unopenedGroup ∧
    ∃ r p, Rule.ofText "a)|(?:b" (.token .identifier) = .ok r ∧ Pattern.readRule "a)|(?:b" = .ok p ∧
      (Scan.ofText [r] "xxb").tokens = [⟨.identifier, "xxb", ⟨1, 1⟩⟩, .closing ⟨1, 4⟩] ∧
      ¬∃ u v, "xxb".toList = u ++ v ∧ p.Matches none u v := by
  refine ⟨by decide +kernel, _, _, rfl, rfl, by decide +kernel, ?_⟩
  rw [← Pattern.matchLength_isSome_iff]
  decide +kernel

/-- An `a`, or some times `b`. -/
def lettered : Pattern := .alt (.chars (.single 'a')) (.many1 true (.chars (.single 'b')))

/-- Both alternatives of `a|b+` are held to the head, so that a token is in full a match. -/
theorem taken_in_full_lettered :
    let rules := [⟨(Pattern.seq (.anchor .textStart) lettered).findEnd none, .token .identifier⟩]
    [("a|b+", .token .identifier)].mapM (fun s => Rule.ofText s.1 s.2) = .ok rules ∧
    (Scan.ofText rules "xbba").tokens =
      [⟨.invalid, "x", ⟨1, 1⟩⟩, ⟨.identifier, "bb", ⟨1, 2⟩⟩, ⟨.identifier, "a", ⟨1, 4⟩⟩, .closing ⟨1, 5⟩] ∧
    Pattern.read "a|b+".toList = .ok lettered ∧ lettered.Matches none ['b', 'b'] ['a'] := by
  intro rules
  have accepted : [("a|b+", .token .identifier)].mapM (fun s => Rule.ofText s.1 s.2) = .ok rules := rfl
  have split : (Scan.ofText rules "xbba").chunks = [⟨['x'], ⟨1, 1⟩, .unmatched⟩] ++
      ⟨['b', 'b'], ⟨1, 2⟩, .matched (.token .identifier)⟩ :: [⟨['a'], ⟨1, 4⟩, .matched (.token .identifier)⟩] := by
    decide +kernel
  obtain ⟨text, p, skipped, word, member, -, -, -, -, full⟩ := taken_in_full_iff accepted "xbba" split rfl
  cases List.mem_singleton.mp member
  exact ⟨accepted, by decide +kernel, rfl, (full lettered rfl).2⟩

end Scan
end Lookahead
