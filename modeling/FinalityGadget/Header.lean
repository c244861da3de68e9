import FinalityGadget.Codec
import FinalityGadget.Height

/-!
# Block headers

A header names its generator, the block before it, and two claims about finality: the height of
the last block that its generator forged, and the highest height with a prevote quorum that the
generator saw.
-/

namespace FinalityGadget

/-- The address of an account. -/
abbrev Address := Bytes 20

/-- The content hash of a block. Ids are ordered lexicographically. -/
abbrev BlockId := Bytes 32

def Address.label (a : Address) : String := s!"Address({a.display})"

def BlockId.label (id : BlockId) : String := s!"BlockId({id.display})"

structure Header where
  height : Height
  id : BlockId
  previous : BlockId
  generator : Address
  /-- The Unix time, in seconds, at which the block was forged. -/
  timestamp : Word
  reward : Word
  /-- The claimed height of the generator's last block, 0 if there is none. -/
  previouslyForged : Height
  /-- The claimed highest height with a prevote quorum. -/
  prevoted : Height
deriving DecidableEq

namespace Header

/-- The two claims of a header, as a record of their own. -/
def claimsFormat : Format (Height × Height) := .pair .word .word

def format : Format Header :=
  .via
    (.pair .word <| .pair (.bytes 32) <| .pair (.bytes 32) <| .pair (.bytes 20) <|
      .pair .word <| .pair .word claimsFormat)
    (fun h => (h.height, h.id, h.previous, h.generator, h.timestamp, h.reward, h.previouslyForged,
      h.prevoted))
    (fun (height, id, previous, generator, timestamp, reward, previouslyForged, prevoted) =>
      { height, id, previous, generator, timestamp, reward, previouslyForged, prevoted })

end Header

end FinalityGadget
