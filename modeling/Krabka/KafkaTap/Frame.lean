import Krabka.Lib.Collections
import Krabka.Protocol.Primitives

/-!
# `KafkaTap.Frame` — wire framing, and request and response correlation

What the tap reads of a frame without its schema: the fixed prefix of a request, the correlation id of a
response, the map from correlation ids to the requests that wait for an answer, and the captured frame
with its line in the spool.
-/

namespace Krabka.KafkaTap

open ByteStream Collections Protocol

structure ApiKey where
  get : Int16
  deriving DecidableEq, Repr

structure ApiVersion where
  get : Int16
  deriving DecidableEq, Repr

structure RequestPrefix where
  apiKey : ApiKey
  apiVersion : ApiVersion
  correlationId : Int32
  deriving DecidableEq, Repr

/-- The fixed request-header prefix that every request type has. -/
def parseRequestPrefix : Bytes → Option RequestPrefix
  | k0 :: k1 :: v0 :: v1 :: c0 :: c1 :: c2 :: c3 :: _ =>
      some
        { apiKey := ⟨i16OfBE [k0, k1]⟩
          apiVersion := ⟨i16OfBE [v0, v1]⟩
          correlationId := i32OfBE [c0, c1, c2, c3] }
  | _ => none

/-- Every response body starts with the correlation id, before any tagged header. -/
def readCorrelationId : Bytes → Option Int32
  | c0 :: c1 :: c2 :: c3 :: _ => some (i32OfBE [c0, c1, c2, c3])
  | _ => none

/-- The requests that wait for their response, by correlation id. -/
structure Pending where
  map : HashMap Int32 (ApiKey × ApiVersion)

namespace Pending

def default : Pending := ⟨∅⟩

def record (p : Pending) (correlationId : Int32) (apiKey : ApiKey) (apiVersion : ApiVersion) : Pending :=
  ⟨p.map.insert correlationId (apiKey, apiVersion)⟩

/-- `HashMap::remove`: the entry, and the map without it. -/
def take (p : Pending) (correlationId : Int32) : Option (ApiKey × ApiVersion) × Pending :=
  (p.map[correlationId]?, ⟨p.map.erase correlationId⟩)

end Pending

/-- One captured frame, emitted by the relay to the recorder spool. -/
structure CapturedFrame where
  apiKey : ApiKey
  version : ApiVersion
  isRequest : Bool
  body : Bytes
  deriving DecidableEq, Repr

end Krabka.KafkaTap
