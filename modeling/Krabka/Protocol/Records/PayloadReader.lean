import Krabka.Protocol.Records.Carriers

/-!
# `Protocol.Records.PayloadReader` — the readers of a records field

The records field of a request is read by `from_bytes`, and that of a response by `from_fetch_bytes`, which takes
a last batch that is cut off for the end of the field. Both run the same loop over the batches. `RecordsCodec` is
what the generated messages ask of a payload, and `recordsPayload` is the payload that they are generated with.
-/

namespace Krabka.Protocol.Records

open ByteStream

/-- The loop of `from_bytes` and of `from_fetch_bytes`, which stops at a batch that is cut off. Every batch
    takes its header, so there are fewer than `fuel` of them. -/
def ownedBatches [CrcFast] (codecs : Compression.Codecs) (lenient : Bool) :
    Nat → Bytes → Except RecordsError (List RecordBatch)
  | 0, _ => .ok []
  | fuel + 1, cur =>
      if cur.isEmpty then .ok []
      else
        match decodeBatch codecs cur with
        | (.ok b, rest) => (b :: ·) <$> ownedBatches codecs lenient fuel rest
        | (.error (.headerTooShort n), _) => if lenient then .ok [] else .error (.headerTooShort n)
        | (.error (.bodyTooShort n), _) => if lenient then .ok [] else .error (.bodyTooShort n)
        | (.error e, _) => .error e

/-- `RecordsPayload::from_bytes`. -/
def fromBytes [CrcFast] (codecs : Compression.Codecs) (bytes : Bytes) : Except RecordsError RecordsPayload :=
  if looksLikeV2 bytes then RecordsPayload.v2 <$> ownedBatches codecs false bytes.length bytes
  else .ok (.legacy bytes)

/-- `RecordsPayload::from_fetch_bytes`. -/
def fromFetchBytes [CrcFast] (codecs : Compression.Codecs) (bytes : Bytes) : Except RecordsError RecordsPayload :=
  if looksLikeV2 bytes then RecordsPayload.v2 <$> ownedBatches codecs true bytes.length bytes
  else .ok (.legacy bytes)

/-- What the generated code asks of a records payload. -/
structure RecordsCodec (ρ : Type) extends Carrier ρ where
  /-- `from_bytes` or, for a response, `from_fetch_bytes`. -/
  fromBytes : Bool → Bytes → Except ProtocolError ρ
  default : ρ
  eq : ρ → ρ → Bool

/-- `RecordsPayload`, as the generated code uses it. -/
def recordsPayload [CrcFast] (codecs : Compression.Codecs) : RecordsCodec RecordsPayload where
  toCarrier := RecordsPayload.carrier codecs
  fromBytes lenient bytes :=
    (if lenient then fromFetchBytes codecs bytes else fromBytes codecs bytes).mapError (·.protocol)
  default := .v2 []
  eq a b := a = b

end Krabka.Protocol.Records
