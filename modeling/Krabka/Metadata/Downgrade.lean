import Krabka.Metadata.SnapshotAdmission

/-!
# `Metadata.Downgrade` — what a lower `metadata.version` makes the controller remove

`metadata_version_downgrade_records` lists the removals that bring an image down to a target level, one
group of records for each gated feature. `downgradeRecords_eq_nil` says when the list is empty: the image
holds nothing that the function looks for.
-/

namespace Krabka.Metadata

open Collections

/-- Level at which SCRAM credentials became part of the records. -/
def scramMinLevel : Int16 := 11

/-- Level at which delegation tokens became part of the records. -/
def delegationTokenMinLevel : Int16 := 14

/-- Level at which the host of an ACL may be a CIDR block (KIP-1276). -/
def cidrAclMinLevel : Int16 := 32

/-- `is_cidr_acl_host`. -/
def isCidrAclHost (host : String) : Bool := host.toList.contains '/'

namespace MetadataImage

variable (ω : MapOrder) (img : MetadataImage) (target : Int16)

/-! ## The removals

Each group lists what one feature has left in the image, in the order of the source, and is empty when the
target level still has the feature. -/

/-- The order of the removed CIDR entries: resource name, principal, host. -/
def cidrOrder (a b : AclEntry) : Prop :=
  toLex (a.resourceName, toLex (a.principal, a.host)) ≤ toLex (b.resourceName, toLex (b.principal, b.host))

instance : DecidableRel cidrOrder := fun a b => inferInstanceAs (Decidable
  (toLex (a.resourceName, toLex (a.principal, a.host)) ≤ toLex (b.resourceName, toLex (b.principal, b.host))))

def cidrAclRemovals : List MetadataRecord :=
  if target < cidrAclMinLevel then
    (((img.allAcls ω).filter (fun acl => isCidrAclHost acl.host)).insertionSort cidrOrder).map
      (fun acl => .v1DeleteAccessControlEntry {
        resourceType := some acl.resourceType
        resourceName := some acl.resourceName
        patternType := some acl.patternType
        principal := some acl.principal
        host := some acl.host
        operation := some acl.operation
        permissionType := some acl.permissionType })
  else []

def scramRemovals : List MetadataRecord :=
  if target < scramMinLevel then
    (ω.iter .scramCredentials img.scramCredentials).map
      (fun e => .v1DeleteScramCredential { user := e.1.1, mechanism := e.1.2 })
  else []

def tokenRemovals : List MetadataRecord :=
  if target < delegationTokenMinLevel then
    (ω.iter .delegationTokens img.delegationTokens).map
      (fun e => .v1DeleteDelegationToken { tokenId := e.1 })
  else []

/-- A registration without the fields that the target level does not have. -/
def projectBroker (broker : BrokerRegistrationRecord) : BrokerRegistrationRecord :=
  { broker with
    logDirs := if target < directoryAssignmentMinLevel then [] else broker.logDirs
    cordonedLogDirs := if target < cordonedLogDirsMinLevel then none else broker.cordonedLogDirs }

def brokerProjections : List MetadataRecord :=
  (ω.iter .brokers img.brokers).filterMap (fun e =>
    if projectBroker target e.2 ≠ e.2 then some (.v1BrokerRegistration (projectBroker target e.2)) else none)

/-- The replicas of a partition that have a directory, each put back to `MIGRATING`. -/
def directoryResets (partition : PartitionRecord) : List MetadataRecord :=
  ((partition.replicas.zip partition.directories).filter (fun e => e.2 ≠ migrating)).map
    (fun e => .v1PartitionDirAssignment {
      topic := partition.topic
      partition := partition.partition
      replica := e.1
      directory := migrating })

/-- The removals that materialize the image at `target`. -/
def metadataVersionDowngradeRecords : List MetadataRecord :=
  cidrAclRemovals ω img target ++ scramRemovals ω img target ++ tokenRemovals ω img target ++
    brokerProjections ω img target ++
    -- below `3.7-IV2` a partition record carries no directories
    (if target < directoryAssignmentMinLevel then (img.partitionRecords ω).flatMap directoryResets else [])

/-! ## Nothing to remove

`Materialized` says that the image holds nothing of the features above the target level, and that is what an
empty list comes to. -/

/-- The image holds nothing above the target level, as far as the removals look. -/
structure Materialized (img : MetadataImage) (target : Int16) : Prop where
  acls : target < cidrAclMinLevel → ∀ e, img.acls.Holds e → isCidrAclHost e.host = false
  scramCredentials : target < scramMinLevel → img.scramCredentials = ∅
  delegationTokens : target < delegationTokenMinLevel → img.delegationTokens = ∅
  brokers : ∀ nodeId : NodeId, ∀ b ∈ img.brokers[nodeId]?, projectBroker target b = b
  directories : target < directoryAssignmentMinLevel → ∀ topic idx, ∀ p ∈ img.partition topic idx,
    ∀ e ∈ p.replicas.zip p.directories, e.2 = migrating

variable {ω img target}

/-- A listing of a map is empty when the map is. -/
theorem map_iter_eq_nil {K V α : Type} [Ord K] [Std.TransOrd K] [Std.LawfulEqOrd K] {s : MapSite}
    {m : HashMap K V} {f : K × V → α} : (ω.iter s m).map f = [] ↔ m = ∅ := by
  rw [List.map_eq_nil_iff]
  constructor
  · intro h
    refine map_ext (fun k => ?_)
    rw [get_empty]
    cases hk : m[k]? with
    | none => rfl
    | some v =>
        have hmem := (mem_iter ω s).mpr hk
        rw [h] at hmem
        cases hmem
  · rintro rfl
    refine List.eq_nil_iff_forall_not_mem.mpr (fun e he => ?_)
    have hget := (mem_iter ω s).mp he
    rw [get_empty] at hget
    cases hget

theorem cidrAclRemovals_eq_nil (hw : img.WellFormed) : cidrAclRemovals ω img target = [] ↔
    (target < cidrAclMinLevel → ∀ e, img.acls.Holds e → isCidrAclHost e.host = false) := by
  unfold cidrAclRemovals allAcls
  rw [ite_eq_right_iff]
  refine imp_congr_right (fun _ => ?_)
  have hsorted : ∀ l : List AclEntry, l.insertionSort cidrOrder = [] ↔ l = [] :=
    fun l => by rw [← List.length_eq_zero_iff, List.length_insertionSort, List.length_eq_zero_iff]
  rw [List.map_eq_nil_iff, hsorted, List.filter_eq_nil_iff]
  simp only [AclIndex.mem_iter_iff hw.acls, Bool.not_eq_true]

theorem brokerProjections_eq_nil : brokerProjections ω img target = [] ↔
    ∀ nodeId : NodeId, ∀ b ∈ img.brokers[nodeId]?, projectBroker target b = b := by
  unfold brokerProjections
  rw [List.filterMap_eq_nil_iff]
  constructor
  · intro h nodeId b hb
    have hnone := h (nodeId, b) ((mem_iter ω _).mpr hb)
    by_contra hne
    rw [if_pos hne] at hnone
    cases hnone
  · rintro h ⟨nodeId, b⟩ he
    exact if_neg (not_not_intro (h nodeId b ((mem_iter ω _).mp he)))

theorem directoryResets_eq_nil {p : PartitionRecord} :
    directoryResets p = [] ↔ ∀ e ∈ p.replicas.zip p.directories, e.2 = migrating := by
  unfold directoryResets
  rw [List.map_eq_nil_iff, List.filter_eq_nil_iff]
  exact forall₂_congr (fun e _ => by simp)

theorem directoryResets_partitions :
    (img.partitionRecords ω).flatMap directoryResets = [] ↔
      ∀ topic idx, ∀ p ∈ img.partition topic idx, ∀ e ∈ p.replicas.zip p.directories, e.2 = migrating := by
  rw [List.flatMap_eq_nil_iff]
  simp only [directoryResets_eq_nil]
  constructor
  · intro h topic idx p hp
    exact h p (List.mem_map.mpr ⟨(topic, idx, p), (mem_iter2 ω _).mpr hp, rfl⟩)
  · intro h p hp
    obtain ⟨⟨topic, idx, p⟩, he, rfl⟩ := List.mem_map.mp hp
    exact h topic idx p ((mem_iter2 ω _).mp he)

/-- **The list is empty when the image holds nothing that it removes.** -/
theorem downgradeRecords_eq_nil (hw : img.WellFormed) :
    metadataVersionDowngradeRecords ω img target = [] ↔ Materialized img target := by
  unfold metadataVersionDowngradeRecords scramRemovals tokenRemovals
  simp only [List.append_eq_nil_iff, ite_eq_right_iff, map_iter_eq_nil, cidrAclRemovals_eq_nil hw,
    brokerProjections_eq_nil, directoryResets_partitions]
  constructor
  · rintro ⟨⟨⟨⟨hacls, hscram⟩, htokens⟩, hbrokers⟩, hdirectories⟩
    exact ⟨hacls, hscram, htokens, hbrokers, hdirectories⟩
  · rintro ⟨hacls, hscram, htokens, hbrokers, hdirectories⟩
    exact ⟨⟨⟨⟨hacls, hscram⟩, htokens⟩, hbrokers⟩, hdirectories⟩

end MetadataImage

end Krabka.Metadata
