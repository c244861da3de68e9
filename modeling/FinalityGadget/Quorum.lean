import FinalityGadget.Codec

/-!
# Quorums

A quorum of `n` validators is `ceil(2n / 3)` of them, computed with saturating words.
-/

namespace FinalityGadget

/-- The number of votes that meets a quorum. -/
structure Quorum where
  votes : Word
deriving DecidableEq, Repr

namespace Quorum

def ofValidators (n : Word) : Quorum := ⟨Word.satAdd (Word.satMul n 2) 2 / 3⟩

def isMet (q : Quorum) (amount : Word) : Bool := q.votes ≤ amount

def format : Format Quorum := .via .word votes mk

end Quorum

end FinalityGadget
