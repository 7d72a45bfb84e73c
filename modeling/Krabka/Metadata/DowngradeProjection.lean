import Krabka.Metadata.DirAssignment
import Krabka.Metadata.Downgrade
import Krabka.Metadata.Kraft.LogPath

/-!
# `Metadata.DowngradeProjection` — what the downgrade records do to an image

The records of `metadata_version_downgrade_records` are ordinary deletions, registrations and directory
assignments. `Projected` says what an image is once they are applied: each gated feature is gone when the
target is below its level, and nothing else is touched. Each record sets what it is about to one value and
leaves the rest alone, so the order in which they are applied does not matter (`projected_foldl`).
-/

namespace Krabka.Metadata

open Collections Transition
open Kraft (exactFilter exactFilter_matches)

namespace MetadataImage

/-- `min_required_metadata_version`: the floor of a downgrade. -/
def minRequiredMetadataVersion (ω : MapOrder) (img : MetadataImage) : Int16 :=
  let floor := metadataVersionMin
  let floor := if !img.scramCredentials.isEmpty then max floor scramMinLevel else floor
  let floor := if !img.delegationTokens.isEmpty then max floor delegationTokenMinLevel else floor
  if (img.allAcls ω).any (fun acl => isCidrAclHost acl.host) then max floor cidrAclMinLevel else floor

variable {ω : MapOrder} {img : MetadataImage} {target : Int16}

/-- A bound holds of two levels where it holds of both. -/
theorem max_le_iff_of_int16 {a b target : Int16} : max a b ≤ target ↔ a ≤ target ∧ b ≤ target := by
  show (if a ≤ b then b else a) ≤ target ↔ _
  split
  · rename_i h
    exact ⟨fun hb => ⟨Int16.le_trans h hb, hb⟩, fun h => h.2⟩
  · rename_i h
    exact ⟨fun ha => ⟨ha, Int16.le_trans (Int16.le_of_lt (Int16.not_le.mp h)) ha⟩, fun h => h.1⟩

theorem ite_max_le {c : Prop} [Decidable c] {a b target : Int16} :
    (if c then max a b else a) ≤ target ↔ a ≤ target ∧ (c → b ≤ target) := by
  by_cases hc : c
  · rw [if_pos hc, max_le_iff_of_int16]
    exact and_congr_right fun _ => ⟨fun h _ => h, fun h => h hc⟩
  · rw [if_neg hc]
    exact ⟨fun h => ⟨h, fun hc' => absurd hc' hc⟩, fun h => h.1⟩

/-- The floor is at most the target when no feature above the target is there. -/
theorem minRequired_le_iff (hw : img.WellFormed) :
    minRequiredMetadataVersion ω img ≤ target ↔
      metadataVersionMin ≤ target ∧ (target < scramMinLevel → img.scramCredentials = ∅) ∧
        (target < delegationTokenMinLevel → img.delegationTokens = ∅) ∧
        (target < cidrAclMinLevel → ∀ e, img.acls.Holds e → isCidrAclHost e.host = false) := by
  have hempty : ∀ {K V : Type} [Ord K] [Std.TransOrd K] [Std.LawfulEqOrd K] (m : HashMap K V)
      (level : Int16), ((!m.isEmpty) = true → level ≤ target) ↔ (target < level → m = ∅) := by
    intro K V _ _ _ m level
    rw [Bool.not_eq_true', ← Std.ExtTreeMap.isEmpty_iff, ← Int16.not_le]
    cases m.isEmpty <;> simp
  have hany : ((img.allAcls ω).any (fun acl => isCidrAclHost acl.host) = true → cidrAclMinLevel ≤ target) ↔
      (target < cidrAclMinLevel → ∀ e, img.acls.Holds e → isCidrAclHost e.host = false) := by
    rw [List.any_eq_true, ← Int16.not_le]
    simp only [allAcls, AclIndex.mem_iter_iff hw.acls]
    constructor
    · intro h hlt e he
      by_contra hc
      exact hlt (h ⟨e, he, by simpa using hc⟩)
    · rintro h ⟨e, he, hcidr⟩
      by_contra hlt
      rw [h hlt e he] at hcidr
      cases hcidr
  unfold minRequiredMetadataVersion
  simp only [ite_max_le]
  rw [hempty, hempty, hany, and_assoc, and_assoc]

/-! ## The records of a downgrade

Which records a downgrade can emit, and under which level. -/

/-- A record of the downgrade of `img` to `target`, by the feature that it removes. -/
inductive Removes (img : MetadataImage) (target : Int16) : MetadataRecord → Prop where
  | acl {e : AclEntry} : target < cidrAclMinLevel → img.acls.Holds e → isCidrAclHost e.host = true →
      Removes img target (.v1DeleteAccessControlEntry (exactFilter e))
  | scram {key : String × SaslMechanism} {cred : ScramCredential} : target < scramMinLevel →
      img.scramCredentials[key]? = some cred → Removes img target (.v1DeleteScramCredential ⟨key.1, key.2⟩)
  | token {id : String} {tok : DelegationToken} : target < delegationTokenMinLevel →
      img.delegationTokens[id]? = some tok → Removes img target (.v1DeleteDelegationToken ⟨id⟩)
  | broker {id : NodeId} {b : BrokerRegistrationRecord} : img.brokers[id]? = some b →
      projectBroker target b ≠ b → Removes img target (.v1BrokerRegistration (projectBroker target b))
  | directory {topic : String} {idx : Int32} {p : PartitionRecord} {i : Nat} {replica : NodeId}
      {directory : Uuid} : target < directoryAssignmentMinLevel → img.partition topic idx = some p →
      p.replicas[i]? = some replica → p.directories[i]? = some directory → directory ≠ migrating →
      Removes img target (.v1PartitionDirAssignment ⟨p.topic, p.partition, replica, migrating⟩)

theorem mem_ite_nil {α : Type} {c : Prop} [Decidable c] {l : List α} {a : α} :
    a ∈ (if c then l else []) ↔ c ∧ a ∈ l := by
  by_cases hc : c <;> simp [hc]

/-- The resets of a partition are those of its assigned directories. -/
theorem mem_directoryResets {p : PartitionRecord} {r : MetadataRecord} :
    r ∈ directoryResets p ↔ ∃ (i : Nat) (replica : NodeId) (directory : Uuid), p.replicas[i]? = some replica ∧
      p.directories[i]? = some directory ∧ directory ≠ migrating ∧
      r = .v1PartitionDirAssignment ⟨p.topic, p.partition, replica, migrating⟩ := by
  unfold directoryResets
  rw [List.mem_map]
  constructor
  · rintro ⟨⟨replica, directory⟩, he, rfl⟩
    obtain ⟨hmem, hne⟩ := List.mem_filter.mp he
    obtain ⟨i, hi⟩ := List.mem_iff_getElem?.mp hmem
    obtain ⟨hreplica, hdirectory⟩ := List.getElem?_zip_eq_some.mp hi
    exact ⟨i, replica, directory, hreplica, hdirectory, by simpa using hne, rfl⟩
  · rintro ⟨i, replica, directory, hreplica, hdirectory, hne, rfl⟩
    refine ⟨(replica, directory), List.mem_filter.mpr ⟨?_, by simpa using hne⟩, rfl⟩
    exact List.mem_iff_getElem?.mpr ⟨i, List.getElem?_zip_eq_some.mpr ⟨hreplica, hdirectory⟩⟩

/-- The list holds exactly those records. -/
theorem mem_downgradeRecords (hw : img.WellFormed) {r : MetadataRecord} :
    r ∈ metadataVersionDowngradeRecords ω img target ↔ Removes img target r := by
  unfold metadataVersionDowngradeRecords cidrAclRemovals scramRemovals tokenRemovals brokerProjections
  simp only [List.mem_append, mem_ite_nil, List.mem_map, List.mem_flatMap, List.mem_filterMap,
    List.mem_insertionSort, List.mem_filter, mem_directoryResets]
  constructor
  · rintro ((((⟨hlt, e, ⟨he, hcidr⟩, rfl⟩ | ⟨hlt, ⟨key, cred⟩, he, rfl⟩) | ⟨hlt, ⟨id, tok⟩, he, rfl⟩) |
      ⟨⟨id, b⟩, he, hr⟩) | ⟨hlt, p, hp, i, replica, directory, hreplica, hdirectory, hne, rfl⟩)
    · exact .acl hlt ((AclIndex.mem_iter_iff hw.acls ω).mp he) hcidr
    · exact .scram hlt ((mem_iter ω _).mp he)
    · exact .token hlt ((mem_iter ω _).mp he)
    · split at hr
      · rename_i hne
        cases hr
        exact .broker ((mem_iter ω _).mp he) hne
      · cases hr
    · obtain ⟨⟨topic, idx, p'⟩, he, rfl⟩ := List.mem_map.mp hp
      exact .directory hlt ((mem_iter2 ω _).mp he) hreplica hdirectory hne
  · rintro h
    cases h with
    | acl hlt he hcidr =>
        rename_i e
        exact Or.inl (Or.inl (Or.inl (Or.inl
          ⟨hlt, e, ⟨(AclIndex.mem_iter_iff hw.acls ω).mpr he, hcidr⟩, rfl⟩)))
    | scram hlt hget =>
        exact Or.inl (Or.inl (Or.inl (Or.inr ⟨hlt, _, (mem_iter ω _).mpr hget, rfl⟩)))
    | token hlt hget =>
        exact Or.inl (Or.inl (Or.inr ⟨hlt, _, (mem_iter ω _).mpr hget, rfl⟩))
    | broker hget hne =>
        exact Or.inl (Or.inr ⟨_, (mem_iter ω _).mpr hget, if_pos hne⟩)
    | directory hlt hp hreplica hdirectory hne =>
        rename_i topic idx p i replica directory
        exact Or.inr ⟨hlt, p, List.mem_map.mpr ⟨(topic, idx, p), (mem_iter2 ω _).mpr hp, rfl⟩, i, replica,
          directory, hreplica, hdirectory, hne, rfl⟩

/-! ## The projected image

What is gone, and that everything else is there. -/

/-- A partition without directories for its replicas. -/
structure WithoutDirectories (p q : PartitionRecord) : Prop where
  rest : q = { p with directories := q.directories }
  replicas : ∀ i, i < p.replicas.length → q.directoryAt i = migrating
  others : ∀ i, p.replicas.length ≤ i → q.directoryAt i = p.directoryAt i

/-- `img'` is `img` without what `target` gates, each feature on its own level. -/
structure Projected (target : Int16) (img img' : MetadataImage) : Prop where
  clusterId : img'.clusterId = img.clusterId
  tables : ∀ t : Table, t ∉ [.acls, .scramCredentials, .delegationTokens, .brokers, .partitions] →
    t.get img' = t.get img
  acls : ∀ e, img'.acls.Holds e ↔
    img.acls.Holds e ∧ ¬(target < cidrAclMinLevel ∧ isCidrAclHost e.host = true)
  scramCredentials : img'.scramCredentials = if target < scramMinLevel then ∅ else img.scramCredentials
  delegationTokens :
    img'.delegationTokens = if target < delegationTokenMinLevel then ∅ else img.delegationTokens
  brokers : ∀ id : NodeId, img'.brokers[id]? = img.brokers[id]?.map (projectBroker target)
  partitions : directoryAssignmentMinLevel ≤ target → img'.partitions = img.partitions
  partitionKeys : ∀ topic, topic ∈ img'.partitions ↔ topic ∈ img.partitions
  directories : target < directoryAssignmentMinLevel → ∀ topic idx,
    Option.Rel WithoutDirectories (img.partition topic idx) (img'.partition topic idx)

/-! ## One feature at a time

Each kind of record touches one table, so each table follows from the records of its kind. -/

section
variable {rs : List MetadataRecord}

/-- The removals touch no other table. -/
theorem frame_of_removes {r : MetadataRecord} (hr : Removes img target r) {t : Table}
    (ht : t ∉ [.acls, .scramCredentials, .delegationTokens, .brokers, .partitions]) :
    t ∉ r.kind.writes := by
  cases hr <;> simp only [MetadataRecord.kind, RecordKind.writes] <;> intro hmem <;>
    cases List.mem_singleton.mp hmem <;> exact ht (by decide)

/-- The entries that are removed are those of address ranges, below their level. -/
theorem removes_acl_iff {e : AclEntry} :
    Removes img target (.v1DeleteAccessControlEntry (exactFilter e)) ↔
      target < cidrAclMinLevel ∧ img.acls.Holds e ∧ isCidrAclHost e.host = true := by
  refine ⟨fun h => ?_, fun h => .acl h.1 h.2.1 h.2.2⟩
  generalize hf : exactFilter e = f at h
  cases h with
  | acl hlt he hcidr =>
      have hsame := exactFilter_matches.mp (hf ▸ exactFilter_matches.mpr rfl)
      exact ⟨hlt, hsame ▸ he, hsame ▸ hcidr⟩

/-- The removals take out just those entries. -/
theorem acls_foldl (hw : img.WellFormed) (hrs : ∀ r, r ∈ rs ↔ Removes img target r) (e : AclEntry) :
    (rs.foldl apply img).acls.Holds e ↔
      img.acls.Holds e ∧ ¬(target < cidrAclMinLevel ∧ isCidrAclHost e.host = true) := by
  have hremove : ∀ (s : MetadataImage) (f : AclEntryFilter), s.WellFormed →
      ((s.acls.removeMatching f).Holds e ↔ s.acls.Holds e ∧ f.matches e = false) :=
    fun s f hs => AclIndex.holds_removeMatching hs.acls
  -- each record either removes `e` or leaves it alone
  obtain ⟨hset, hkeep⟩ := @observe_foldl_of_sets MetadataImage MetadataRecord apply Prop WellFormed
    (fun s => s.acls.Holds e) (fun r => r = .v1DeleteAccessControlEntry (exactFilter e)) False rs
    (fun r _ s h => h.step r)
    (by
      rintro r _ s hs rfl
      refine propext ((hremove s _ hs).trans ?_)
      simp [exactFilter_matches.mpr (rfl : e = e)])
    (by
      intro r hr s hs hne
      cases (hrs r).mp hr with
      | acl hlt he hcidr =>
          rename_i acl
          have hno : (exactFilter acl).matches e = false := by
            refine Bool.eq_false_iff.mpr fun hmatch => hne ?_
            rw [exactFilter_matches.mp hmatch]
          exact propext ((hremove s _ hs).trans (and_iff_left hno))
      | scram | token | broker => rfl
      | directory =>
          exact congrArg (AclIndex.Holds · e)
            (apply_partitionDirAssignment_frame s _ (t := .acls) (by decide)))
    img hw
  by_cases hmem : .v1DeleteAccessControlEntry (exactFilter e) ∈ rs
  · obtain ⟨hlt, -, hcidr⟩ := removes_acl_iff.mp ((hrs _).mp hmem)
    rw [hset ⟨_, hmem, rfl⟩]
    exact iff_of_false id fun h => h.2 ⟨hlt, hcidr⟩
  · rw [hkeep (by rintro r hr rfl; exact hmem hr)]
    refine ⟨fun he => ⟨he, fun hgated => hmem ?_⟩, fun h => h.1⟩
    exact (hrs _).mpr (.acl hgated.1 he hgated.2)

/-- A table that the deletions empty below a level. `delete` is the deletion of one key; no other record
    touches the table, and where there are deletions, every key has its own. -/
theorem emptied_foldl {K V : Type} [Ord K] [Std.TransOrd K] [Std.LawfulEqOrd K] [DecidableEq K]
    {table : MetadataImage → HashMap K V} (delete : K → MetadataRecord) {gated : Prop} [Decidable gated]
    (hdelete : ∀ s key, table (apply s (delete key)) = (table s).erase key)
    (hframe : ∀ r ∈ rs, (∃ key, r = delete key) ∨ ∀ s, table (apply s r) = table s)
    (hgated : ∀ key, delete key ∈ rs → gated)
    (hall : gated → ∀ (key : K) v, (table img)[key]? = some v → delete key ∈ rs) :
    table (rs.foldl apply img) = if gated then ∅ else table img := by
  refine map_ext fun key => ?_
  obtain ⟨hset, hkeep⟩ := @observe_foldl_of_sets MetadataImage MetadataRecord apply (Option V)
    (fun _ => True) (fun s => (table s)[key]?) (fun r => r = delete key) none rs
    (fun _ _ _ _ => trivial)
    (by
      rintro r _ s _ rfl
      rw [hdelete, get_erase, if_pos rfl])
    (by
      intro r hr s _ hne
      rcases hframe r hr with ⟨key', rfl⟩ | hr
      · rw [hdelete, get_erase, if_neg fun hkey => hne (by rw [hkey])]
      · rw [hr])
    img trivial
  by_cases hmem : delete key ∈ rs
  · rw [hset ⟨_, hmem, rfl⟩, if_pos (hgated key hmem), get_empty]
  · rw [hkeep (by rintro r hr rfl; exact hmem hr)]
    split
    · rename_i hlt
      cases hget : (table img)[key]? with
      | none => exact (get_empty key).symm
      | some v => exact absurd (hall hlt key v hget) hmem
    · rfl

/-- Below their level no credential is left. -/
theorem scramCredentials_foldl (hrs : ∀ r, r ∈ rs ↔ Removes img target r) :
    (rs.foldl apply img).scramCredentials =
      if target < scramMinLevel then ∅ else img.scramCredentials := by
  refine emptied_foldl (fun key => .v1DeleteScramCredential ⟨key.1, key.2⟩)
    (fun _ _ => rfl) (fun r hr => ?_) (fun key hmem => ?_)
    (fun hlt _ _ hget => (hrs _).mpr (.scram hlt hget))
  · cases (hrs r).mp hr with
    | scram hlt hget => exact Or.inl ⟨_, rfl⟩
    | acl | token | broker => exact Or.inr fun _ => rfl
    | directory =>
        exact Or.inr fun s =>
          apply_partitionDirAssignment_frame s _ (t := .scramCredentials) (by decide)
  · have hremoves := (hrs _).mp hmem
    generalize hrec : (⟨key.1, key.2⟩ : DeleteScramCredentialRecord) = rec at hremoves
    cases hremoves with
    | scram hlt _ => exact hlt

/-- Below their level no token is left. -/
theorem delegationTokens_foldl (hrs : ∀ r, r ∈ rs ↔ Removes img target r) :
    (rs.foldl apply img).delegationTokens =
      if target < delegationTokenMinLevel then ∅ else img.delegationTokens := by
  refine emptied_foldl (fun id => .v1DeleteDelegationToken ⟨id⟩)
    (fun _ _ => rfl) (fun r hr => ?_) (fun id hmem => ?_)
    (fun hlt _ _ hget => (hrs _).mpr (.token hlt hget))
  · cases (hrs r).mp hr with
    | token hlt hget => exact Or.inl ⟨_, rfl⟩
    | acl | scram | broker => exact Or.inr fun _ => rfl
    | directory =>
        exact Or.inr fun s =>
          apply_partitionDirAssignment_frame s _ (t := .delegationTokens) (by decide)
  · cases (hrs _).mp hmem with
    | token hlt _ => exact hlt

/-- Every broker ends as its projection. -/
theorem brokers_foldl (hw : img.WellFormed) (hrs : ∀ r, r ∈ rs ↔ Removes img target r) (id : NodeId) :
    (rs.foldl apply img).brokers[id]? = img.brokers[id]?.map (projectBroker target) := by
  obtain ⟨hset, hkeep⟩ := @observe_foldl_of_sets MetadataImage MetadataRecord apply
    (Option BrokerRegistrationRecord) (fun _ => True) (fun s => s.brokers[id]?)
    (fun r => ∃ b, img.brokers[id]? = some b ∧ r = .v1BrokerRegistration (projectBroker target b))
    (img.brokers[id]?.map (projectBroker target)) rs (fun _ _ _ _ => trivial)
    (by
      rintro r _ s _ ⟨b, hb, rfl⟩
      rw [hb]
      exact (get_insert s.brokers _ id _).trans (if_pos (hw.brokers_keyed id b hb)))
    (by
      intro r hr s _ hne
      cases (hrs r).mp hr with
      | broker hget _ =>
          refine (get_insert s.brokers _ id _).trans (if_neg fun hid => hne ?_)
          -- the registration is stored under its own node id
          have hkeyed := (hw.brokers_keyed _ _ hget).symm.trans hid
          exact ⟨_, hkeyed ▸ hget, rfl⟩
      | acl | scram | token => rfl
      | directory =>
          exact congrArg (·[id]?)
            (apply_partitionDirAssignment_frame s _ (t := .brokers) (by decide)))
    img trivial
  by_cases hmem : ∃ r ∈ rs, ∃ b, img.brokers[id]? = some b ∧
      r = .v1BrokerRegistration (projectBroker target b)
  · exact hset hmem
  · rw [hkeep fun r hr hb => hmem ⟨r, hr, hb⟩]
    cases hget : img.brokers[id]? with
    | none => rfl
    | some b =>
        -- no record: the projection takes nothing of this registration
        have hsame : projectBroker target b = b := by
          by_contra hne
          exact hmem ⟨_, (hrs _).mpr (.broker hget hne), b, hget, rfl⟩
        rw [Option.map_some, hsame]

/-! ### Directories

The reset of one slot leaves the other slots alone, and pads the list where it is short. -/

/-- A replica that is listed once is found where it stands. -/
theorem idxOf?_of_nodup {replicas : List NodeId} {replica : NodeId} {i : Nat} (h : replicas.Nodup)
    (hi : replicas[i]? = some replica) : replicas.idxOf? replica = some i := by
  obtain ⟨hlt, hget⟩ := List.getElem?_eq_some_iff.mp hi
  refine List.idxOf?_eq_some_iff.mpr ⟨hlt, hget, fun j hj hsame => ?_⟩
  have hji := (h.getElem_inj_iff).mp (hsame.trans hget.symm)
  omega

/-- What a record of the downgrade does to the directories: nothing, or one reset of a replica. -/
theorem partitions_of_removes (hw : img.WellFormed) {r : MetadataRecord} (hr : Removes img target r) :
    Table.partitions ∉ r.kind.writes ∨ target < directoryAssignmentMinLevel ∧
      ∃ (topic : String) (idx : Int32) (p : PartitionRecord) (replica : NodeId),
        img.partition topic idx = some p ∧ replica ∈ p.replicas ∧
        r = .v1PartitionDirAssignment ⟨topic, idx, replica, migrating⟩ := by
  cases hr with
  | acl | scram | token | broker => exact Or.inl (by simp [MetadataRecord.kind, RecordKind.writes])
  | directory hlt hp hreplica hdirectory hne =>
      obtain ⟨htopic, hidx⟩ := hw.partitions_keyed _ _ _ hp
      exact Or.inr ⟨hlt, _, _, _, _, hp, List.mem_of_getElem? hreplica, by rw [htopic, hidx]⟩

/-- The same partition, but for its directories. -/
def SameButDirectories (p q : PartitionRecord) : Prop := q = { p with directories := q.directories }

theorem SameButDirectories.refl (p : PartitionRecord) : SameButDirectories p p := rfl

theorem SameButDirectories.trans {p q q' : PartitionRecord} (h : SameButDirectories p q)
    (h' : SameButDirectories q q') : SameButDirectories p q' := by
  unfold SameButDirectories at *
  rw [h'] at *
  rw [h]

/-- A removal leaves a partition alone but for its directories. -/
theorem sameButDirectories_step (hw : img.WellFormed) {r : MetadataRecord} (hr : Removes img target r)
    (topic : String) (idx : Int32) {s : MetadataImage}
    (h : Option.Rel SameButDirectories (img.partition topic idx) (s.partition topic idx)) :
    Option.Rel SameButDirectories (img.partition topic idx) ((s.apply r).partition topic idx) := by
  obtain hframe | ⟨-, name, i, p, replica, -, -, rfl⟩ := partitions_of_removes hw hr
  · have hsame : (s.apply r).partitions = s.partitions := apply_frame s r hframe
    unfold partition at h ⊢
    rwa [hsame]
  · have hbut := sameBut_applyPartitionDirAssignment s ⟨name, i, replica, migrating⟩
    by_cases hown : name = topic ∧ i = idx
    · obtain ⟨rfl, rfl⟩ := hown
      have hown := hbut.own
      show Option.Rel _ _ ((s.applyPartitionDirAssignment _).partition name i)
      generalize img.partition name i = p, s.partition name i = q at h hown ⊢
      generalize (s.applyPartitionDirAssignment _).partition name i = q' at hown ⊢
      cases h with
      | none =>
          cases hown
          exact .none
      | some hpq =>
          cases hown with
          | some hqq => exact .some (hpq.trans hqq.rest)
    · show Option.Rel _ _ ((s.applyPartitionDirAssignment _).partition topic idx)
      rwa [hbut.others topic idx hown]

/-- So do all of them. -/
theorem sameButDirectories_foldl (hw : img.WellFormed) (hrs : ∀ r, r ∈ rs ↔ Removes img target r)
    (topic : String) (idx : Int32) : Option.Rel SameButDirectories (img.partition topic idx)
      ((rs.foldl apply img).partition topic idx) := by
  refine List.foldlRecOn rs apply
    (motive := fun s => Option.Rel SameButDirectories (img.partition topic idx) (s.partition topic idx))
    (rel_refl .refl _) fun s hs r hr => ?_
  exact sameButDirectories_step hw ((hrs r).mp hr) topic idx hs

/-- A record that resets slot `i` of the partition `p`. -/
def ResetsSlot (topic : String) (idx : Int32) (p : PartitionRecord) (i : Nat) (r : MetadataRecord) : Prop :=
  ∃ replica, p.replicas[i]? = some replica ∧ r = .v1PartitionDirAssignment ⟨topic, idx, replica, migrating⟩

/-- One slot of a stored partition, in a list of resets. -/
theorem directoryAt_foldl (hw : img.WellFormed) (hrs : ∀ r, r ∈ rs ↔ Removes img target r)
    {topic : String} {idx : Int32} {p : PartitionRecord} (hp : img.partition topic idx = some p)
    (hnodup : p.replicas.Nodup) (i : Nat) :
    ((∃ r ∈ rs, ResetsSlot topic idx p i r) →
        ((rs.foldl apply img).partition topic idx).map (·.directoryAt i) = some migrating) ∧
      ((∀ r ∈ rs, ¬ResetsSlot topic idx p i r) →
        ((rs.foldl apply img).partition topic idx).map (·.directoryAt i) =
          (img.partition topic idx).map (·.directoryAt i)) := by
  have hstored : ∀ s : MetadataImage,
      Option.Rel SameButDirectories (img.partition topic idx) (s.partition topic idx) →
        ∃ q, s.partition topic idx = some q ∧ q.replicas = p.replicas := by
    intro s hs
    rw [hp] at hs
    generalize s.partition topic idx = q at hs
    cases hs with
    | some hpq => exact ⟨_, rfl, by rw [hpq]⟩
  refine @observe_foldl_of_sets MetadataImage MetadataRecord apply (Option Uuid)
    (fun s => Option.Rel SameButDirectories (img.partition topic idx) (s.partition topic idx))
    (fun s => (s.partition topic idx).map (·.directoryAt i)) (ResetsSlot topic idx p i) (some migrating) rs
    (fun r hr s hs => sameButDirectories_step hw ((hrs r).mp hr) topic idx hs) ?_ ?_ img (rel_refl .refl _)
  · rintro r _ s hs ⟨replica, hreplica, rfl⟩
    obtain ⟨q, hq, hreplicas⟩ := hstored s hs
    -- the replicas are distinct, so the report finds this very slot
    have hslot : q.replicas.idxOf? replica = some i := by
      rw [hreplicas]
      exact idxOf?_of_nodup hnodup hreplica
    have hafter := partition_applyPartitionDirAssignment (r := ⟨topic, idx, replica, migrating⟩) hq hslot
      topic idx
    show ((s.applyPartitionDirAssignment ⟨topic, idx, replica, migrating⟩).partition topic idx).map _ = _
    rw [hafter, if_pos ⟨rfl, rfl⟩]
    show some (PartitionRecord.directoryAt _ i) = _
    unfold PartitionRecord.directoryAt
    rw [directories_assignDirectory_self (slot_lt hslot).1]
    rfl
  · intro r hr s hs hne
    obtain ⟨q, hq, hreplicas⟩ := hstored s hs
    obtain hframe | ⟨-, name, j, p', replica, -, -, rfl⟩ := partitions_of_removes hw ((hrs r).mp hr)
    · have hsame : (s.apply r).partitions = s.partitions := apply_frame s r hframe
      unfold partition
      rw [hsame]
    · have hbut := sameBut_applyPartitionDirAssignment s ⟨name, j, replica, migrating⟩
      show ((s.applyPartitionDirAssignment _).partition topic idx).map _ = _
      by_cases hown : name = topic ∧ j = idx
      · obtain ⟨rfl, rfl⟩ := hown
        have hother : s.slotOf ⟨name, j, replica, migrating⟩ ≠ some i := by
          intro hslot
          obtain ⟨q', hq', hidx⟩ := exists_of_slotOf hslot
          obtain rfl := Option.some.inj (hq.symm.trans hq')
          exact hne ⟨replica, hreplicas ▸ (slot_lt hidx).2, rfl⟩
        have hown := hbut.own
        rw [hq] at hown ⊢
        generalize (s.applyPartitionDirAssignment _).partition name j = q' at hown ⊢
        cases hown with
        | some hqq => exact congrArg some (hqq.slots i hother)
      · rw [hbut.others topic idx hown]

/-- Below their level every directory is reset. -/
theorem directories_foldl (hw : img.WellFormed) (hrs : ∀ r, r ∈ rs ↔ Removes img target r)
    (hdistinct : ∀ topic idx, ∀ p ∈ img.partition topic idx, p.replicas.Nodup)
    (hlt : target < directoryAssignmentMinLevel) (topic : String) (idx : Int32) :
    Option.Rel WithoutDirectories (img.partition topic idx)
      ((rs.foldl apply img).partition topic idx) := by
  have hrel := sameButDirectories_foldl hw hrs topic idx
  cases hp : img.partition topic idx with
  | none =>
      rw [hp] at hrel
      generalize (rs.foldl apply img).partition topic idx = q' at hrel ⊢
      cases hrel
      exact .none
  | some p =>
      have hslots := directoryAt_foldl hw hrs hp (hdistinct topic idx p hp)
      simp only [hp] at hrel hslots
      generalize (rs.foldl apply img).partition topic idx = q' at hrel hslots ⊢
      cases hrel with
      | some hpq =>
          rename_i q
          refine .some ⟨hpq, fun i hi => ?_, fun i hi => ?_⟩
          · obtain ⟨hset, hkeep⟩ := hslots i
            by_cases hmem : ∃ r ∈ rs, ResetsSlot topic idx p i r
            · exact Option.some.inj (hset hmem)
            · refine (Option.some.inj (hkeep fun r hr hs => hmem ⟨r, hr, hs⟩)).trans ?_
              -- a slot that no record is about has no directory
              show p.directories[i]?.getD migrating = migrating
              cases hdirectory : p.directories[i]? with
              | none => rfl
              | some directory =>
                  by_contra hne
                  obtain ⟨htopic, hidx⟩ := hw.partitions_keyed _ _ _ hp
                  refine hmem ⟨_, (hrs _).mpr (.directory hlt hp (List.getElem?_eq_getElem hi) hdirectory
                    hne), _, List.getElem?_eq_getElem hi, by rw [htopic, hidx]⟩
          · refine Option.some.inj ((hslots i).2 ?_)
            rintro r _ ⟨replica, hreplica, -⟩
            rw [List.getElem?_eq_none hi] at hreplica
            cases hreplica

/-- No topic loses its partitions. -/
theorem partitionKeys_foldl (hw : img.WellFormed) (hrs : ∀ r, r ∈ rs ↔ Removes img target r)
    (topic : String) : topic ∈ (rs.foldl apply img).partitions ↔ topic ∈ img.partitions := by
  refine List.foldlRecOn rs apply (motive := fun s => topic ∈ s.partitions ↔ topic ∈ img.partitions)
    Iff.rfl fun s hs r hr => ?_
  refine Iff.trans ?_ hs
  obtain hframe | ⟨-, name, i, p, replica, -, -, rfl⟩ := partitions_of_removes hw ((hrs r).mp hr)
  · have hsame : (s.apply r).partitions = s.partitions := apply_frame s r hframe
    rw [hsame]
  · exact (sameBut_applyPartitionDirAssignment s ⟨name, i, replica, migrating⟩).keys topic

/-! ## The whole list

The tables together. A second downgrade finds nothing to remove. -/

/-- **The records of a downgrade, in any order, project the image.** -/
theorem projected_foldl (hw : img.WellFormed) (hrs : ∀ r, r ∈ rs ↔ Removes img target r)
    (hdistinct : ∀ topic idx, ∀ p ∈ img.partition topic idx, p.replicas.Nodup) :
    Projected target img (rs.foldl apply img) where
  clusterId := by
    refine List.foldlRecOn rs apply (motive := fun s => s.clusterId = img.clusterId) rfl fun s hs r _ => ?_
    exact (apply_clusterId s r).trans hs
  tables := fun t ht => by
    refine List.foldlRecOn rs apply (motive := fun s => t.get s = t.get img) rfl fun s hs r hr => ?_
    exact (apply_frame s r (frame_of_removes ((hrs r).mp hr) ht)).trans hs
  acls := acls_foldl hw hrs
  scramCredentials := scramCredentials_foldl hrs
  delegationTokens := delegationTokens_foldl hrs
  brokers := brokers_foldl hw hrs
  partitions := fun hle => by
    refine List.foldlRecOn rs apply (motive := fun s => s.partitions = img.partitions) rfl
      fun s hs r hr => ?_
    obtain hframe | ⟨hlt, -⟩ := partitions_of_removes hw ((hrs r).mp hr)
    · exact Eq.trans (apply_frame s r hframe) hs
    · exact absurd hle (Int16.not_le.mpr hlt)
  partitionKeys := partitionKeys_foldl hw hrs
  directories := directories_foldl hw hrs hdistinct

end

/-- Projecting twice is projecting once. -/
theorem projectBroker_projectBroker (target : Int16) (b : BrokerRegistrationRecord) :
    projectBroker target (projectBroker target b) = projectBroker target b := by
  unfold projectBroker
  congr 1 <;> dsimp only <;> split <;> rfl

/-- A projected image holds nothing that its target gates. -/
theorem Projected.materialized {img' : MetadataImage} (h : Projected target img img') :
    Materialized img' target where
  acls := fun hlt e he => by
    obtain ⟨-, hno⟩ := (h.acls e).mp he
    exact Bool.eq_false_iff.mpr fun hcidr => hno ⟨hlt, hcidr⟩
  scramCredentials := fun hlt => h.scramCredentials.trans (if_pos hlt)
  delegationTokens := fun hlt => h.delegationTokens.trans (if_pos hlt)
  brokers := fun id b hb => by
    have hproject := h.brokers id
    rw [Option.mem_def.mp hb] at hproject
    obtain ⟨b', -, rfl⟩ := Option.map_eq_some_iff.mp hproject.symm
    exact projectBroker_projectBroker target b'
  directories := fun hlt topic idx q hq e he => by
    have hrel := h.directories hlt topic idx
    rw [Option.mem_def.mp hq] at hrel
    generalize img.partition topic idx = o at hrel
    cases hrel with
    | some hpq =>
        obtain ⟨i, hi⟩ := List.mem_iff_getElem?.mp he
        obtain ⟨hreplica, hdirectory⟩ := List.getElem?_zip_eq_some.mp hi
        have hslot := hpq.replicas i (by
          have hreplicas := congrArg PartitionRecord.replicas hpq.rest
          rw [← show q.replicas = _ from hreplicas]
          exact (List.getElem?_eq_some_iff.mp hreplica).1)
        unfold PartitionRecord.directoryAt at hslot
        rw [hdirectory] at hslot
        exact hslot

/-- **A materialized image asks for no more than the target.** -/
theorem Materialized.minRequired_le (hw : img.WellFormed) (h : Materialized img target)
    (hmin : metadataVersionMin ≤ target) : minRequiredMetadataVersion ω img ≤ target :=
  (minRequired_le_iff hw).mpr ⟨hmin, h.scramCredentials, h.delegationTokens, h.acls⟩

/-- **Downgrade.** Applied in any order, the records of a downgrade leave an image that requires no more
    than the target, has nothing left to remove, and differs from the image before in what the target gates
    alone; and an image that requires more than the target has something to remove. -/
theorem downgrade_projection {clusterId : Uuid} {img : MetadataImage} (hb : Built clusterId img)
    (hdistinct : ∀ topic idx, ∀ p ∈ img.partition topic idx, p.replicas.Nodup) {target : Int16}
    (hmin : metadataVersionMin ≤ target) (ω : MapOrder) :
    (∀ rs : List MetadataRecord, rs.Perm (metadataVersionDowngradeRecords ω img target) →
      (∀ ω', minRequiredMetadataVersion ω' (rs.foldl apply img) ≤ target) ∧
      (∀ ω', metadataVersionDowngradeRecords ω' (rs.foldl apply img) target = []) ∧
      Projected target img (rs.foldl apply img)) ∧
    (target < minRequiredMetadataVersion ω img → metadataVersionDowngradeRecords ω img target ≠ []) := by
  have hw := wellFormed_of_built hb
  constructor
  · intro rs hperm
    have hrs : ∀ r, r ∈ rs ↔ Removes img target r := fun r => hperm.mem_iff.trans (mem_downgradeRecords hw)
    have hproj := projected_foldl hw hrs hdistinct
    refine ⟨fun ω' => ?_, fun ω' => ?_, hproj⟩
    · exact hproj.materialized.minRequired_le (hw.foldl rs) hmin
    · exact (downgradeRecords_eq_nil (hw.foldl rs)).mpr hproj.materialized
  · intro hlt hnil
    have hle := ((downgradeRecords_eq_nil hw).mp hnil).minRequired_le (ω := ω) hw hmin
    exact Int16.not_le.mpr hlt hle

/-- The stored partition of the example below. -/
def ordersPartition : PartitionRecord := ⟨"orders", 0, 1, [1, 2], [1, 2], 0, [], [], [7, 8], 0⟩

/-- Records of an image with a CIDR entry, a SCRAM credential, log directories and assigned ones. -/
def gatedRecords : List MetadataRecord := [
  .v1BrokerRegistration ⟨1, 1, 1, "localhost", 9092, none, [], [7], false, false, some [7], ∅⟩,
  .v1ScramCredential ⟨"alice", .scramSha256, [1], [2], [3], 4096⟩,
  .v1AccessControlEntry ⟨.topic, "orders", .literal, "User:alice", "10.0.0.0/8", .read, .allow⟩,
  .v1Partition ordersPartition]

def gated : MetadataImage := gatedRecords.foldl apply (new 0)

theorem gated_distinct (topic : String) (idx : Int32) :
    ∀ p ∈ gated.partition topic idx, p.replicas.Nodup := by
  intro p hp
  have hpartitions : gated.partitions = insert2 ∅ "orders" 0 ordersPartition := rfl
  unfold partition at hp
  rw [hpartitions, lookup2_insert2] at hp
  split at hp
  · cases hp
    decide
  · cases hp

/-- To the lowest level, with the records applied in reverse. -/
theorem downgrade_projection_gated :
    metadataVersionMin < minRequiredMetadataVersion (.sorted _) gated ∧
    metadataVersionDowngradeRecords (.sorted _) gated metadataVersionMin ≠ [] ∧
    minRequiredMetadataVersion (.sorted _)
      ((metadataVersionDowngradeRecords (.sorted _) gated metadataVersionMin).reverse.foldl apply gated) ≤
        metadataVersionMin ∧
    Projected metadataVersionMin gated
      ((metadataVersionDowngradeRecords (.sorted _) gated metadataVersionMin).reverse.foldl apply gated) := by
  have hrequired : metadataVersionMin < minRequiredMetadataVersion (.sorted _) gated := by decide +kernel
  obtain ⟨happlied, hnonempty⟩ := downgrade_projection ⟨gatedRecords, rfl⟩ gated_distinct
    (Int16.le_refl metadataVersionMin) (.sorted _)
  obtain ⟨hle, -, hproj⟩ := happlied _ (List.reverse_perm _)
  exact ⟨hrequired, hnonempty hrequired, hle _, hproj⟩

end MetadataImage

end Krabka.Metadata
