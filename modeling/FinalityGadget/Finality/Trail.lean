import FinalityGadget.Window

/-!
# Forging histories

A header names the height of the block that its generator forged before it, that block names the one
before, and so on. A generator may only precommit heights above the point where this history leaves
the chain, so that it earns nothing for a branch it has abandoned.
-/

namespace FinalityGadget

/-- Where a forging history leads within the heights that are looked at. -/
inductive Trail
  /-- No header is retained at a height that the history names. -/
  | missing (height : Height)
  /-- The header at a height that the history names is of another generator, or names no lower
  height. -/
  | broken (height : Height)
  /-- The history stays on the chain. -/
  | complete
deriving DecidableEq, Repr

namespace Trail

/-- Goes down from a height to `lowest` and looks at the headers that the history names; `named` is
the height named last. -/
def scan (headers : Window) (generator : Address) (lowest : Nat) :
    (height : Nat) → (named : Height) → Trail
  | 0, _ => .complete
  | height + 1, named =>
    if height + 1 < lowest then .complete
    else if named.toNat = height + 1 then
      match headers.get? named with
      | none => .missing named
      | some previous =>
        if previous.generator ≠ generator ∨ named ≤ previous.previouslyForged then .broken named
        else scan headers generator lowest height previous.previouslyForged
    else scan headers generator lowest height named

end Trail

namespace Header

/-- The lowest height looked at for a header that may vote for `reach` heights below its own. -/
def lowestNamed (header : Header) (reach : Word) : Height := max (header.height.below reach) 1

/-- The history of a header among the retained headers. -/
def trail (header : Header) (reach : Word) (headers : Window) : Trail :=
  Trail.scan headers header.generator (header.lowestNamed reach).toNat
    (max header.previouslyForged (header.height.below reach)).toNat header.previouslyForged

/-- The lowest height that a header may precommit, given its history. -/
def precommitFloor? (header : Header) (reach : Word) : Trail → Option Height
  | .missing _ => some header.height
  | .broken height => height.next?
  | .complete => some (header.lowestNamed reach)

end Header

end FinalityGadget
