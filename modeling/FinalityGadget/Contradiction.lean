import FinalityGadget.Header

/-!
# Contradicting headers

Two headers of one generator contradict each other if no honest forging history holds both. The
headers are put in the order in which they claim to have been forged; the later one must acknowledge
the earlier one and must not claim a lower prevoted height.
-/

namespace FinalityGadget

namespace Contradiction

inductive Kind
  /-- Both headers claim the same prevoted height, but the later one is not higher. -/
  | forkChoiceRuleViolation
  /-- The later header skips the earlier one in its forging history. -/
  | chainDisjoint
  /-- The later header claims a lower prevoted height. -/
  | lowerChainBranch
deriving DecidableEq, Repr

end Contradiction

/-- Two headers of a generator that contradict each other. -/
structure Contradiction where
  kind : Contradiction.Kind
  generator : Address
  earlier : BlockId
  later : BlockId
deriving DecidableEq

namespace Contradiction

def message (c : Contradiction) : String :=
  let generator := c.generator.display
  let earlier := c.earlier.display
  let later := c.later.display
  match c.kind with
  | .forkChoiceRuleViolation =>
    s!"Generator {generator} forged {later} without switching chains after {earlier}."
  | .chainDisjoint => s!"Generator {generator} forged {later} on a chain disjoint from {earlier}."
  | .lowerChainBranch =>
    s!"Generator {generator} forged {later} on a lower chain branch than {earlier}."

end Contradiction

namespace Header

/-- Orders headers by what they claim to have been forged after; heights and ids break ties. -/
def compareForged (a b : Header) : Ordering :=
  (compare a.previouslyForged b.previouslyForged).then <|
    (compare a.prevoted b.prevoted).then <| (compare a.height b.height).then (compare a.id b.id)

/-- How a header contradicts one that was forged before it. -/
def conflict? (earlier later : Header) : Option Contradiction.Kind :=
  if earlier.prevoted = later.prevoted ∧ later.height ≤ earlier.height then
    some .forkChoiceRuleViolation
  else if later.previouslyForged < earlier.height then some .chainDisjoint
  else if later.prevoted < earlier.prevoted then some .lowerChainBranch
  else none

/-- The contradiction between two headers, if there is one. -/
def contradiction? (a b : Header) : Option Contradiction :=
  if a.generator ≠ b.generator ∨ a.id = b.id then none
  else
    let (earlier, later) := if compareForged a b = .gt then (b, a) else (a, b)
    (conflict? earlier later).map fun kind => ⟨kind, a.generator, earlier.id, later.id⟩

end Header

end FinalityGadget
