import Krabka.Protocol.PrivateMessages

/-!
# `Protocol.KraftMessages` — the generated messages of KRaft's control records

`LeaderChangeMessage`, `SnapshotHeaderRecord`, `SnapshotFooterRecord`, `KRaftVersionRecord` and `VotersRecord`
of the generated code, and the `FeatureLevelRecord` of the metadata log. All are flexible from version 0 and
know no tag, and every version in range has every field but one: a voter of a leader change names its
directory from version 1. As in `PrivateMessages`, each has its writer, its length function and its reader,
the lengths that must fit the wire, and the proof that the three agree.
-/

namespace Krabka.Protocol

open ByteStream Reader Output

/-- `encode` of a generated message, behind its version check. -/
def checkRangeEncode (text : String) (version min max : Int16) (x : Encode) : Encode :=
  if min ≤ version ∧ version ≤ max then x else fail (.schemaMismatch text)

/-- `decode` of a generated message, behind its version check. -/
def checkRangeDecode {α : Type} (text : String) (version min max : Int16) (d : Decode α) : Decode α :=
  if min ≤ version ∧ version ≤ max then d else throw (.schemaMismatch text)

/-- In range, the check lets a codec through in both directions. -/
theorem exact_checkRange {α : Type} {text : String} {version min max : Int16} {x : Encode} {n : Nat}
    {d : Decode α} {a : α} (hversion : min ≤ version ∧ version ≤ max) (h : Exact x n d a) :
    Exact (checkRangeEncode text version min max x) n (checkRangeDecode text version min max d) a := by
  unfold checkRangeEncode checkRangeDecode
  rw [if_pos hversion, if_pos hversion]
  exact h

/-! ## Snapshots

The two records around a snapshot. -/

structure SnapshotHeaderRecord where
  version : Int16 := 0
  lastContainedLogTimestamp : Int64 := 0
  unknownTaggedFields : UnknownTaggedFields := []
deriving DecidableEq

namespace SnapshotHeaderRecord

def minVersion : Int16 := 0
def maxVersion : Int16 := 0

def encode (m : SnapshotHeaderRecord) (version : Int16) : Encode :=
  checkRangeEncode "SnapshotHeaderRecord version out of range" version minVersion maxVersion do
    put (putI16 m.version)
    put (putI64 m.lastContainedLogTimestamp)
    writeUnknownTaggedFields m.unknownTaggedFields

def encodedLen (m : SnapshotHeaderRecord) (_version : Int16) : Nat :=
  2 + 8 + unknownTaggedFieldsLen m.unknownTaggedFields

def decode (version : Int16) : Decode SnapshotHeaderRecord :=
  checkRangeDecode "SnapshotHeaderRecord version out of range" version minVersion maxVersion do
    let recordVersion ← getI16
    let lastContainedLogTimestamp ← getI64
    let unknown ← readUnknownTaggedFields
    return ⟨recordVersion, lastContainedLogTimestamp, unknown⟩

def Fits (m : SnapshotHeaderRecord) : Prop := m.unknownTaggedFields.Fits

/-- A snapshot header is written in its announced length and read back. -/
theorem exact {m : SnapshotHeaderRecord} (h : m.Fits) {version : Int16}
    (hversion : minVersion ≤ version ∧ version ≤ maxVersion) :
    Exact (m.encode version) (m.encodedLen version) (decode version) m := by
  refine exact_checkRange hversion (Exact.len ((exact_putI16 m.version).bind
    ((exact_putI64 m.lastContainedLogTimestamp).bind ((exact_unknown h).bind_nil (Reads.pure m)))) ?_)
  unfold encodedLen
  omega

end SnapshotHeaderRecord

structure SnapshotFooterRecord where
  version : Int16 := 0
  unknownTaggedFields : UnknownTaggedFields := []
deriving DecidableEq

namespace SnapshotFooterRecord

def minVersion : Int16 := 0
def maxVersion : Int16 := 0

def encode (m : SnapshotFooterRecord) (version : Int16) : Encode :=
  checkRangeEncode "SnapshotFooterRecord version out of range" version minVersion maxVersion do
    put (putI16 m.version)
    writeUnknownTaggedFields m.unknownTaggedFields

def encodedLen (m : SnapshotFooterRecord) (_version : Int16) : Nat :=
  2 + unknownTaggedFieldsLen m.unknownTaggedFields

def decode (version : Int16) : Decode SnapshotFooterRecord :=
  checkRangeDecode "SnapshotFooterRecord version out of range" version minVersion maxVersion do
    let recordVersion ← getI16
    let unknown ← readUnknownTaggedFields
    return ⟨recordVersion, unknown⟩

def Fits (m : SnapshotFooterRecord) : Prop := m.unknownTaggedFields.Fits

/-- A snapshot footer is written in its announced length and read back. -/
theorem exact {m : SnapshotFooterRecord} (h : m.Fits) {version : Int16}
    (hversion : minVersion ≤ version ∧ version ≤ maxVersion) :
    Exact (m.encode version) (m.encodedLen version) (decode version) m :=
  exact_checkRange hversion ((exact_putI16 m.version).bind ((exact_unknown h).bind_nil (Reads.pure m)))

end SnapshotFooterRecord

/-! ## Versions

The record that finalizes `kraft.version`. -/

structure KRaftVersionRecord where
  version : Int16 := 0
  kRaftVersion : Int16 := 0
  unknownTaggedFields : UnknownTaggedFields := []
deriving DecidableEq

namespace KRaftVersionRecord

def minVersion : Int16 := 0
def maxVersion : Int16 := 0

def encode (m : KRaftVersionRecord) (version : Int16) : Encode :=
  checkRangeEncode "KRaftVersionRecord version out of range" version minVersion maxVersion do
    put (putI16 m.version)
    put (putI16 m.kRaftVersion)
    writeUnknownTaggedFields m.unknownTaggedFields

def encodedLen (m : KRaftVersionRecord) (_version : Int16) : Nat :=
  2 + 2 + unknownTaggedFieldsLen m.unknownTaggedFields

def decode (version : Int16) : Decode KRaftVersionRecord :=
  checkRangeDecode "KRaftVersionRecord version out of range" version minVersion maxVersion do
    let recordVersion ← getI16
    let kRaftVersion ← getI16
    let unknown ← readUnknownTaggedFields
    return ⟨recordVersion, kRaftVersion, unknown⟩

def Fits (m : KRaftVersionRecord) : Prop := m.unknownTaggedFields.Fits

/-- A version record is written in its announced length and read back. -/
theorem exact {m : KRaftVersionRecord} (h : m.Fits) {version : Int16}
    (hversion : minVersion ≤ version ∧ version ≤ maxVersion) :
    Exact (m.encode version) (m.encodedLen version) (decode version) m := by
  refine exact_checkRange hversion (Exact.len ((exact_putI16 m.version).bind
    ((exact_putI16 m.kRaftVersion).bind ((exact_unknown h).bind_nil (Reads.pure m)))) ?_)
  unfold encodedLen
  omega

end KRaftVersionRecord

/-! ## Leader changes

A voter has a directory from version 1. At version 0 it is left out, so it must be the zero one to come back.
-/

namespace LeaderChange

structure Voter where
  voterId : Int32 := 0
  voterDirectoryId : Uuid := .zero
  unknownTaggedFields : UnknownTaggedFields := []
deriving DecidableEq

namespace Voter

def putDirectory (v : Voter) (version : Int16) : Encode :=
  if 1 ≤ version then put (putUuid v.voterDirectoryId) else pure ()

def encode (v : Voter) (version : Int16) : Encode := do
  put (putI32 v.voterId)
  v.putDirectory version
  writeUnknownTaggedFields v.unknownTaggedFields

def encodedLen (v : Voter) (version : Int16) : Nat :=
  4 + (if 1 ≤ version then 16 else 0) + unknownTaggedFieldsLen v.unknownTaggedFields

def decode (version : Int16) : Decode Voter := do
  let voterId ← getI32
  let voterDirectoryId ← fieldIf (1 ≤ version) getUuid .zero
  let unknown ← readUnknownTaggedFields
  return ⟨voterId, voterDirectoryId, unknown⟩

/-- A version without directories carries a voter that names none. -/
structure Fits (v : Voter) (version : Int16) : Prop where
  directory : ¬1 ≤ version → v.voterDirectoryId = .zero
  unknown : v.unknownTaggedFields.Fits

/-- A voter of a leader change. Its directory is on the wire from version 1 on. -/
theorem exact {v : Voter} {version : Int16} (h : v.Fits version) :
    Exact (v.encode version) (v.encodedLen version) (decode version) v := by
  have hdirectory : Exact (v.putDirectory version) (if 1 ≤ version then 16 else 0)
      (fieldIf (1 ≤ version) getUuid .zero) v.voterDirectoryId := by
    unfold putDirectory
    by_cases hversion : 1 ≤ version
    · rw [if_pos hversion, if_pos hversion, fieldIf_pos hversion]
      exact exact_putUuid v.voterDirectoryId
    · rw [if_neg hversion, if_neg hversion, fieldIf_neg hversion, h.directory hversion]
      exact Exact.pure _
  refine Exact.len ((exact_putI32 v.voterId).bind (hdirectory.bind
    ((exact_unknown h.unknown).bind_nil (Reads.pure v)))) ?_
  unfold encodedLen
  omega

/-- A voter takes at least one byte, so a count cannot be larger than what is left. -/
theorem one_le_encodedLen (v : Voter) (version : Int16) : 1 ≤ v.encodedLen version := by
  unfold encodedLen
  omega

end Voter

end LeaderChange

structure LeaderChangeMessage where
  version : Int16 := 0
  leaderId : Int32 := 0
  voters : List LeaderChange.Voter := []
  grantingVoters : List LeaderChange.Voter := []
  unknownTaggedFields : UnknownTaggedFields := []
deriving DecidableEq

namespace LeaderChangeMessage

open LeaderChange

def minVersion : Int16 := 0
def maxVersion : Int16 := 1

def encode (m : LeaderChangeMessage) (version : Int16) : Encode :=
  checkRangeEncode "LeaderChangeMessage version out of range" version minVersion maxVersion do
    put (putI16 m.version)
    put (putI32 m.leaderId)
    encodeArray true (fun v => v.encode version) m.voters
    encodeArray true (fun v => v.encode version) m.grantingVoters
    writeUnknownTaggedFields m.unknownTaggedFields

def encodedLen (m : LeaderChangeMessage) (version : Int16) : Nat :=
  2 + 4 + arrayLen true (fun v => v.encodedLen version) m.voters +
    arrayLen true (fun v => v.encodedLen version) m.grantingVoters +
    unknownTaggedFieldsLen m.unknownTaggedFields

def decode (version : Int16) : Decode LeaderChangeMessage :=
  checkRangeDecode "LeaderChangeMessage version out of range" version minVersion maxVersion do
    let recordVersion ← getI16
    let leaderId ← getI32
    let voters ← getArray true (Voter.decode version)
    let grantingVoters ← getArray true (Voter.decode version)
    let unknown ← readUnknownTaggedFields
    return ⟨recordVersion, leaderId, voters, grantingVoters, unknown⟩

structure Fits (m : LeaderChangeMessage) (version : Int16) : Prop where
  voterCount : CompactFits m.voters.length
  voters : ∀ v ∈ m.voters, v.Fits version
  grantingCount : CompactFits m.grantingVoters.length
  grantingVoters : ∀ v ∈ m.grantingVoters, v.Fits version
  unknown : m.unknownTaggedFields.Fits

/-- A leader change is written in its announced length and read back, whatever voters it lists. -/
theorem exact {m : LeaderChangeMessage} {version : Int16} (h : m.Fits version)
    (hversion : minVersion ≤ version ∧ version ≤ maxVersion) :
    Exact (m.encode version) (m.encodedLen version) (decode version) m := by
  have hvoters := exact_structs h.voterCount (fun v hv => Voter.exact (h.voters v hv))
    fun v _ => v.one_le_encodedLen version
  have hgranting := exact_structs h.grantingCount (fun v hv => Voter.exact (h.grantingVoters v hv))
    fun v _ => v.one_le_encodedLen version
  refine exact_checkRange hversion (Exact.len ((exact_putI16 m.version).bind ((exact_putI32 m.leaderId).bind
    (hvoters.bind (hgranting.bind ((exact_unknown h.unknown).bind_nil (Reads.pure m)))))) ?_)
  unfold encodedLen
  omega

end LeaderChangeMessage

/-! ## Voter sets

Endpoints and features of a voter, then the voter, then the set. -/

namespace Voters

structure Endpoint where
  name : String := ""
  host : String := ""
  port : UInt16 := 0
  unknownTaggedFields : UnknownTaggedFields := []
deriving DecidableEq

namespace Endpoint

def encode (e : Endpoint) (_version : Int16) : Encode := do
  putCompactString e.name
  putCompactString e.host
  put (putU16 e.port)
  writeUnknownTaggedFields e.unknownTaggedFields

def encodedLen (e : Endpoint) (_version : Int16) : Nat :=
  compactStringLen e.name + compactStringLen e.host + 2 + unknownTaggedFieldsLen e.unknownTaggedFields

def decode (_version : Int16) : Decode Endpoint := do
  let name ← getCompactStringOwned
  let host ← getCompactStringOwned
  let port ← getU16
  let unknown ← readUnknownTaggedFields
  return ⟨name, host, port, unknown⟩

structure Fits (e : Endpoint) : Prop where
  name : CompactFits e.name.utf8ByteSize
  host : CompactFits e.host.utf8ByteSize
  unknown : e.unknownTaggedFields.Fits

/-- An endpoint of a voter. -/
theorem exact {e : Endpoint} (h : e.Fits) (version : Int16) :
    Exact (e.encode version) (e.encodedLen version) (decode version) e := by
  refine Exact.len ((exact_putCompactString h.name).bind ((exact_putCompactString h.host).bind
    ((exact_putU16 e.port).bind ((exact_unknown h.unknown).bind_nil (Reads.pure e))))) ?_
  unfold encodedLen
  omega

end Endpoint

structure KRaftVersionFeature where
  minSupportedVersion : Int16 := 0
  maxSupportedVersion : Int16 := 0
  unknownTaggedFields : UnknownTaggedFields := []
deriving DecidableEq

namespace KRaftVersionFeature

def encode (f : KRaftVersionFeature) (_version : Int16) : Encode := do
  put (putI16 f.minSupportedVersion)
  put (putI16 f.maxSupportedVersion)
  writeUnknownTaggedFields f.unknownTaggedFields

def encodedLen (f : KRaftVersionFeature) (_version : Int16) : Nat :=
  2 + 2 + unknownTaggedFieldsLen f.unknownTaggedFields

def decode (_version : Int16) : Decode KRaftVersionFeature := do
  let minSupportedVersion ← getI16
  let maxSupportedVersion ← getI16
  let unknown ← readUnknownTaggedFields
  return ⟨minSupportedVersion, maxSupportedVersion, unknown⟩

def Fits (f : KRaftVersionFeature) : Prop := f.unknownTaggedFields.Fits

/-- The range of `kraft.version` that a voter supports. -/
theorem exact {f : KRaftVersionFeature} (h : f.Fits) (version : Int16) :
    Exact (f.encode version) (f.encodedLen version) (decode version) f := by
  refine Exact.len ((exact_putI16 f.minSupportedVersion).bind ((exact_putI16 f.maxSupportedVersion).bind
    ((exact_unknown h).bind_nil (Reads.pure f)))) ?_
  unfold encodedLen
  omega

end KRaftVersionFeature

structure Voter where
  voterId : Int32 := 0
  voterDirectoryId : Uuid := .zero
  endpoints : List Endpoint := []
  kRaftVersionFeature : KRaftVersionFeature := {}
  unknownTaggedFields : UnknownTaggedFields := []
deriving DecidableEq

namespace Voter

def encode (v : Voter) (version : Int16) : Encode := do
  put (putI32 v.voterId)
  put (putUuid v.voterDirectoryId)
  encodeArray true (fun e => e.encode version) v.endpoints
  v.kRaftVersionFeature.encode version
  writeUnknownTaggedFields v.unknownTaggedFields

def encodedLen (v : Voter) (version : Int16) : Nat :=
  4 + 16 + arrayLen true (fun e => e.encodedLen version) v.endpoints +
    v.kRaftVersionFeature.encodedLen version + unknownTaggedFieldsLen v.unknownTaggedFields

def decode (version : Int16) : Decode Voter := do
  let voterId ← getI32
  let voterDirectoryId ← getUuid
  let endpoints ← getArray true (Endpoint.decode version)
  let kRaftVersionFeature ← KRaftVersionFeature.decode version
  let unknown ← readUnknownTaggedFields
  return ⟨voterId, voterDirectoryId, endpoints, kRaftVersionFeature, unknown⟩

structure Fits (v : Voter) : Prop where
  endpointCount : CompactFits v.endpoints.length
  endpoints : ∀ e ∈ v.endpoints, e.Fits
  feature : v.kRaftVersionFeature.Fits
  unknown : v.unknownTaggedFields.Fits

/-- A voter of a voters record, with its endpoints. -/
theorem exact {v : Voter} (h : v.Fits) (version : Int16) :
    Exact (v.encode version) (v.encodedLen version) (decode version) v := by
  have hexact := fun e he => Endpoint.exact (h.endpoints e he) version
  have hendpoints := exact_structs h.endpointCount hexact fun e _ => by
    have := one_le_unknownTaggedFieldsLen e.unknownTaggedFields
    show 1 ≤ e.encodedLen version
    unfold Endpoint.encodedLen
    omega
  refine Exact.len ((exact_putI32 v.voterId).bind ((exact_putUuid v.voterDirectoryId).bind (hendpoints.bind
    ((KRaftVersionFeature.exact h.feature version).bind
    ((exact_unknown h.unknown).bind_nil (Reads.pure v)))))) ?_
  unfold encodedLen
  omega

end Voter

end Voters

structure VotersRecord where
  version : Int16 := 0
  voters : List Voters.Voter := []
  unknownTaggedFields : UnknownTaggedFields := []
deriving DecidableEq

namespace VotersRecord

open Voters

def minVersion : Int16 := 0
def maxVersion : Int16 := 0

def encode (m : VotersRecord) (version : Int16) : Encode :=
  checkRangeEncode "VotersRecord version out of range" version minVersion maxVersion do
    put (putI16 m.version)
    encodeArray true (fun v => v.encode version) m.voters
    writeUnknownTaggedFields m.unknownTaggedFields

def encodedLen (m : VotersRecord) (version : Int16) : Nat :=
  2 + arrayLen true (fun v => v.encodedLen version) m.voters + unknownTaggedFieldsLen m.unknownTaggedFields

def decode (version : Int16) : Decode VotersRecord :=
  checkRangeDecode "VotersRecord version out of range" version minVersion maxVersion do
    let recordVersion ← getI16
    let voters ← getArray true (Voter.decode version)
    let unknown ← readUnknownTaggedFields
    return ⟨recordVersion, voters, unknown⟩

structure Fits (m : VotersRecord) : Prop where
  count : CompactFits m.voters.length
  voters : ∀ v ∈ m.voters, v.Fits
  unknown : m.unknownTaggedFields.Fits

/-- A voters record is written in its announced length and read back. -/
theorem exact {m : VotersRecord} (h : m.Fits) {version : Int16}
    (hversion : minVersion ≤ version ∧ version ≤ maxVersion) :
    Exact (m.encode version) (m.encodedLen version) (decode version) m := by
  have hvoters := exact_structs h.count (fun v hv => Voter.exact (h.voters v hv) version) fun v _ => by
    show 1 ≤ v.encodedLen version
    unfold Voter.encodedLen
    omega
  refine exact_checkRange hversion (Exact.len ((exact_putI16 m.version).bind (hvoters.bind
    ((exact_unknown h.unknown).bind_nil (Reads.pure m)))) ?_)
  unfold encodedLen
  omega

end VotersRecord

/-! ## Feature levels

The one message of the metadata log that a bootstrap needs. -/

structure FeatureLevelRecord where
  name : String := ""
  featureLevel : Int16 := 0
  unknownTaggedFields : UnknownTaggedFields := []
deriving DecidableEq

namespace FeatureLevelRecord

def minVersion : Int16 := 0
def maxVersion : Int16 := 0

def encode (m : FeatureLevelRecord) (version : Int16) : Encode :=
  checkRangeEncode "FeatureLevelRecord version out of range" version minVersion maxVersion do
    putCompactString m.name
    put (putI16 m.featureLevel)
    writeUnknownTaggedFields m.unknownTaggedFields

def encodedLen (m : FeatureLevelRecord) (_version : Int16) : Nat :=
  compactStringLen m.name + 2 + unknownTaggedFieldsLen m.unknownTaggedFields

def decode (version : Int16) : Decode FeatureLevelRecord :=
  checkRangeDecode "FeatureLevelRecord version out of range" version minVersion maxVersion do
    let name ← getCompactStringOwned
    let featureLevel ← getI16
    let unknown ← readUnknownTaggedFields
    return ⟨name, featureLevel, unknown⟩

structure Fits (m : FeatureLevelRecord) : Prop where
  name : CompactFits m.name.utf8ByteSize
  unknown : m.unknownTaggedFields.Fits

/-- A feature level record is written in its announced length and read back. -/
theorem exact {m : FeatureLevelRecord} (h : m.Fits) {version : Int16}
    (hversion : minVersion ≤ version ∧ version ≤ maxVersion) :
    Exact (m.encode version) (m.encodedLen version) (decode version) m := by
  refine exact_checkRange hversion (Exact.len ((exact_putCompactString h.name).bind
    ((exact_putI16 m.featureLevel).bind ((exact_unknown h.unknown).bind_nil (Reads.pure m)))) ?_)
  unfold encodedLen
  omega

end FeatureLevelRecord

end Krabka.Protocol
