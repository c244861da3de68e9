import FinalityGadget.Json.Typed
import FinalityGadget.Quorum
import FinalityGadget.Validator

/-!
# Records as JSON

The JSON forms of headers, validators and quorums. Addresses and ids are arrays of byte values.
-/

namespace FinalityGadget

namespace Header

def toJson (h : Header) : Json :=
  .ofFields [
    ("height", .ofWord h.height),
    ("id", .ofBytes h.id),
    ("previous_block_id", .ofBytes h.previous),
    ("generator_address", .ofBytes h.generator),
    ("timestamp", .ofWord h.timestamp),
    ("reward", .ofWord h.reward),
    ("asset", .ofFields [
      ("max_height_previously_forged", .ofWord h.previouslyForged),
      ("max_height_prevoted", .ofWord h.prevoted)])]

def claimsReader : Json.RecordReader (Height × Height) :=
  (Json.RecordReader.pure Prod.mk)
    |>.field "max_height_previously_forged" Json.readWord
    |>.field "max_height_prevoted" Json.readWord

def reader : Json.RecordReader Header :=
  (Json.RecordReader.pure fun height id previous generator timestamp reward claims =>
      { height, id, previous, generator, timestamp, reward
        previouslyForged := claims.1, prevoted := claims.2 })
    |>.field "height" Json.readWord
    |>.field "id" (Json.readBytes 32)
    |>.field "previous_block_id" (Json.readBytes 32)
    |>.field "generator_address" (Json.readBytes 20)
    |>.field "timestamp" Json.readWord
    |>.field "reward" Json.readWord
    |>.field "asset" (claimsReader.read "BftHeaderAsset")

def ofJson : Json → Except Json.ReadError Header := reader.read "BlockHeader"

end Header

namespace Validator

def toJson (v : Validator) : Json :=
  .ofFields [
    ("address", .ofBytes v.address),
    ("is_consensus_participant", .bool v.participates),
    ("min_active_height", .ofWord v.activeFrom)]

def reader : Json.RecordReader Validator :=
  (Json.RecordReader.pure Validator.mk)
    |>.field "address" (Json.readBytes 20)
    |>.field "is_consensus_participant" Json.readBool
    |>.field "min_active_height" Json.readWord

def listOfJson : Json → Except Json.ReadError (List Validator) :=
  Json.readList (reader.read "Validator")

end Validator

def Quorum.toJson (q : Quorum) : Json := .ofFields [("votes", .ofWord q.votes)]

end FinalityGadget
