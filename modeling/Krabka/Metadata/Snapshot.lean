import Krabka.Metadata.WellFormed

/-!
# `Metadata.Snapshot` — writing an image as records and restoring it

`toRecords` lists an image as the records whose replay rebuilds it, and `fromRecords` replays them. The
listing is a sequence of segments, one kind of record after another; inside a segment the order is that
in which a hash map iterates, so everything here is for every `ω`.

The proof follows the segments. A table that one kind of record alone writes is rebuilt by the segment
of that kind (`table_fromRecords`), whatever the other segments hold; each table then needs only the
fact that replaying a listing of a keyed map rebuilds the map (`foldl_insert_iter` and its relatives),
with the keys and the sentinels as `WellFormed` promises them.
-/

namespace Krabka.Metadata

open Collections FixedWidth

namespace MetadataImage

/-! ## Writing and restoring

The listing is a list of segments. A replay applies it to the empty image. -/

variable (ω : MapOrder) (img : MetadataImage)

/-- The entity list that a quota key came from. -/
def entityOfKey (key : EntityKey) : List QuotaEntity := key.map (fun e => ⟨e.1, e.2⟩)

def scramRecordOf (user : String) (mechanism : SaslMechanism) (cred : ScramCredential) :
    ScramCredentialRecord where
  user := user
  mechanism := mechanism
  salt := cred.salt
  storedKey := cred.storedKey
  serverKey := cred.serverKey
  iterations := cred.iterations

/-- The records of the snapshot, kind by kind in the order they are written: brokers before their
    configurations, topics before partitions, feature levels before the epoch that overrides the bumps
    of their replay. -/
def segments : List (RecordKind × List MetadataRecord) :=
  [ (.brokerRegistration, (ω.iter .brokers img.brokers).map (fun e => .v1BrokerRegistration e.2)),
    (.controllerRegistration,
      (ω.iter .controllers img.controllers).map (fun e => .v1ControllerRegistration e.2)),
    (.brokerConfig, (iter2 ω .brokerConfigs img.brokerConfigs).map (fun e =>
      .v1BrokerConfig ⟨e.1, e.2.1, some e.2.2⟩)),
    (.topic, (ω.iter .topics img.topics).map (fun e => .v1Topic e.2)),
    (.partition, (iter2 ω .partitions img.partitions).map (fun e => .v1Partition e.2.2)),
    (.partitionOffsetAdvance, (iter2 ω .partitionNextOffsets img.partitionNextOffsets).map (fun e =>
      .v1PartitionOffsetAdvance ⟨e.1, e.2.1, e.2.2⟩)),
    (.partitionElr, (iter2 ω .partitionElr img.partitionElr).map (fun e =>
      .v1PartitionElr ⟨e.1, e.2.1, e.2.2.1, e.2.2.2⟩)),
    (.partitionRecovery, (iter2 ω .partitionRecovery img.partitionRecovery).map (fun e =>
      .v1PartitionRecovery ⟨e.1, e.2.1, e.2.2⟩)),
    (.topicConfig, (ω.iter .topicConfigs img.topicConfigs).map (fun e => .v1TopicConfig ⟨e.1, e.2⟩)),
    (.scramCredential, (ω.iter .scramCredentials img.scramCredentials).map (fun e =>
      .v1ScramCredential (scramRecordOf e.1.1 e.1.2 e.2))),
    (.accessControlEntry, (img.allAcls ω).map (fun entry => .v1AccessControlEntry entry)),
    (.clientQuota, (iter2 ω .clientQuotas img.clientQuotas).map (fun e =>
      .v1ClientQuota ⟨entityOfKey e.1, e.2.1, some e.2.2⟩)),
    (.producerIds, img.producerIds.toList.map (fun record => .v1ProducerIds record)),
    (.delegationToken, (ω.iter .delegationTokens img.delegationTokens).map (fun e =>
      .v1DelegationToken e.2.toRecord)),
    (.clientMetricsConfig, (ω.iter .clientMetricsConfigs img.clientMetricsConfigs).map (fun e =>
      .v1ClientMetricsConfig ⟨e.1, e.2⟩)),
    (.groupConfig, (ω.iter .groupConfigs img.groupConfigs).map (fun e => .v1GroupConfig ⟨e.1, e.2⟩)),
    (.topicFreeze, (img.topicFreezes ω).map (fun freeze => .v1TopicFreeze freeze)),
    (.breakGlassProposal, (ω.iter .breakGlass img.breakGlass).map (fun e =>
      .v1BreakGlassProposal e.2)),
    (.featureLevel, img.featureLevels.toList.map (fun e => .v1FeatureLevel ⟨e.1, e.2⟩)),
    (.featuresEpoch, (if 0 ≤ img.featuresEpoch then [img.featuresEpoch] else []).map (fun epoch =>
      .v1FeaturesEpoch ⟨epoch⟩)),
    (.kraftVersion, (if img.kraftVersion ≠ 0 then [img.kraftVersion] else []).map (fun version =>
      .v1KRaftVersion ⟨version⟩)),
    (.voters, (if img.voters.isEmpty then [] else [img.voters]).map (fun voters =>
      .v1Voters ⟨voters⟩)) ]

/-- The records whose replay rebuilds the image. -/
def toRecords : List MetadataRecord := (img.segments ω).flatMap (·.2)

/-- The image that a record sequence rebuilds. -/
def fromRecords (clusterId : Uuid) (records : List MetadataRecord) : MetadataImage :=
  records.foldl apply (new clusterId)

/-! ## Segments and tables

A record of one kind writes only the tables of that kind, so a table is known from its own segment. -/

/-- The kinds of records a snapshot holds, in order. -/
def snapshotKinds : List RecordKind :=
  [.brokerRegistration, .controllerRegistration, .brokerConfig, .topic, .partition,
    .partitionOffsetAdvance, .partitionElr, .partitionRecovery, .topicConfig, .scramCredential,
    .accessControlEntry, .clientQuota, .producerIds, .delegationToken, .clientMetricsConfig,
    .groupConfig, .topicFreeze, .breakGlassProposal, .featureLevel, .featuresEpoch, .kraftVersion,
    .voters]

/-- The kinds of the segments, in the order of the snapshot. -/
theorem segments_kinds : (img.segments ω).map (·.1) = snapshotKinds := rfl

theorem kind_of_mem_map {α : Type} {l : List α} {f : α → MetadataRecord} {k : RecordKind}
    (hf : ∀ a, (f a).kind = k) : ∀ r ∈ l.map f, r.kind = k := by
  intro r hr
  obtain ⟨a, _, rfl⟩ := List.mem_map.mp hr
  exact hf a

/-- A segment holds records of its own kind only. -/
theorem kind_of_mem_segment : ∀ seg ∈ img.segments ω, ∀ r ∈ seg.2, r.kind = seg.1 := by
  unfold segments
  simp only [List.forall_mem_cons]
  refine ⟨?_, ?_, ?_, ?_, ?_, ?_, ?_, ?_, ?_, ?_, ?_, ?_, ?_, ?_, ?_, ?_, ?_, ?_, ?_, ?_, ?_, ?_,
    fun _ h => by cases h⟩
  all_goals exact kind_of_mem_map (fun _ => rfl)

/-- The records in front of a place have the kinds in front of it. -/
theorem kind_of_mem_take (n : Nat) :
    ∀ r ∈ ((img.segments ω).take n).flatMap (·.2), r.kind ∈ snapshotKinds.take n := by
  intro r hr
  obtain ⟨seg, hs, hr⟩ := List.mem_flatMap.mp hr
  rw [kind_of_mem_segment ω img seg (List.mem_of_mem_take hs) r hr, ← segments_kinds ω img,
    ← List.map_take]
  exact List.mem_map.mpr ⟨seg, hs, rfl⟩

/-- The records behind a place have the kinds behind it. -/
theorem kind_of_mem_drop (n : Nat) :
    ∀ r ∈ ((img.segments ω).drop n).flatMap (·.2), r.kind ∈ snapshotKinds.drop n := by
  intro r hr
  obtain ⟨seg, hs, hr⟩ := List.mem_flatMap.mp hr
  rw [kind_of_mem_segment ω img seg (List.mem_of_mem_drop hs) r hr, ← segments_kinds ω img,
    ← List.map_drop]
  exact List.mem_map.mpr ⟨seg, hs, rfl⟩

variable {ω : MapOrder} {img : MetadataImage}

/-- A table that one kind of record alone writes evolves by the segment of that kind. -/
theorem foldl_apply_segments {α : Type} {t : Table} {k : RecordKind} {l : List α}
    {ctor : α → MetadataRecord} {step : t.Value → α → t.Value}
    (hstep : ∀ img, ∀ a ∈ l, t.get (img.apply (ctor a)) = step (t.get img) a) :
    ∀ segs : List (RecordKind × List MetadataRecord), (∀ seg ∈ segs, ∀ r ∈ seg.2, r.kind = seg.1) →
      (∀ seg ∈ segs, seg.1 ≠ k → t ∉ seg.1.writes) →
      segs.filter (fun seg => seg.1 = k) = [(k, l.map ctor)] → ∀ img,
        t.get ((segs.flatMap (·.2)).foldl apply img) = l.foldl step (t.get img) := by
  -- induction on the segments: the table waits for its own segment and is then left alone
  intro segs
  induction segs with
  | nil => intro _ _ hseg; cases hseg
  | cons seg rest ih =>
      intro hkind hframe hseg img
      have hkind' : ∀ s ∈ rest, ∀ r ∈ s.2, r.kind = s.1 :=
        fun s hs => hkind s (List.mem_cons_of_mem _ hs)
      have hframe' : ∀ s ∈ rest, s.1 ≠ k → t ∉ s.1.writes :=
        fun s hs => hframe s (List.mem_cons_of_mem _ hs)
      rw [List.flatMap_cons, List.foldl_append]
      by_cases hk : seg.1 = k
      · -- the segment of the table: no later segment writes it
        rw [List.filter_cons_of_pos (by simpa using hk)] at hseg
        have hrest : ∀ r ∈ rest.flatMap (·.2), t ∉ r.kind.writes := by
          intro r hr
          obtain ⟨s, hs, hr⟩ := List.mem_flatMap.mp hr
          rw [hkind' s hs r hr]
          refine hframe' s hs (fun hsk => ?_)
          have hmem : s ∈ rest.filter (fun seg => seg.1 = k) :=
            List.mem_filter.mpr ⟨hs, by simpa using hsk⟩
          rw [(List.cons.inj hseg).2] at hmem
          cases hmem
        rw [foldl_apply_frame hrest, (List.cons.inj hseg).1]
        -- inside the segment, one record after the other
        have hfold : ∀ (l' : List α), (∀ a ∈ l', a ∈ l) → ∀ img,
            t.get ((l'.map ctor).foldl apply img) = l'.foldl step (t.get img) := by
          intro l'
          induction l' with
          | nil => intro _ img; rfl
          | cons a l' ih' =>
              intro hl img
              rw [List.map_cons, List.foldl_cons, List.foldl_cons,
                ih' (fun b hb => hl b (List.mem_cons_of_mem _ hb)), hstep img a (hl a List.mem_cons_self)]
        exact hfold l (fun _ ha => ha) img
      · -- another segment: its records do not write the table
        rw [List.filter_cons_of_neg (by simpa using hk)] at hseg
        rw [ih hkind' hframe' hseg, foldl_apply_frame (fun r hr => ?_)]
        rw [hkind seg List.mem_cons_self r hr]
        exact hframe seg List.mem_cons_self hk

/-- **One segment restores one table.** -/
theorem table_fromRecords {α : Type} (t : Table) (k : RecordKind) (l : List α)
    (ctor : α → MetadataRecord) (step : t.Value → α → t.Value)
    (hseg : (img.segments ω).filter (fun seg => seg.1 = k) = [(k, l.map ctor)])
    (hframe : ∀ k' ∈ snapshotKinds, k' ≠ k → t ∉ k'.writes)
    (hstep : ∀ img, ∀ a ∈ l, t.get (img.apply (ctor a)) = step (t.get img) a) (clusterId : Uuid) :
    t.get (fromRecords clusterId (img.toRecords ω)) = l.foldl step (t.get (new clusterId)) := by
  refine foldl_apply_segments hstep _ (img.kind_of_mem_segment ω) (fun seg hs => ?_) hseg _
  refine hframe seg.1 ?_
  rw [← segments_kinds ω img]
  exact List.mem_map.mpr ⟨seg, hs, rfl⟩

/-! ## The restored tables

Each table is rebuilt from its listing, in whatever order its map was iterated. -/

/-- A canonical entity comes back from its key. -/
theorem entityKey_entityOfKey {key : EntityKey} (hk : canonicalizeEntity key = key) :
    entityKey (entityOfKey key) = key := by
  unfold entityKey entityOfKey
  rw [List.map_map]
  have hid : ((fun e : QuotaEntity => (e.entityType, e.entityName)) ∘
      fun e : String × Option String => (⟨e.1, e.2⟩ : QuotaEntity)) = id := rfl
  rw [hid, List.map_id, hk]

section Restored

variable (ω) (h : WellFormed img) (clusterId : Uuid)

/-- The image that a replica restores from the snapshot of `img`. -/
def restored (ω : MapOrder) (img : MetadataImage) (clusterId : Uuid) : MetadataImage :=
  fromRecords clusterId (img.toRecords ω)

include h

theorem restored_brokers : (restored ω img clusterId).brokers = img.brokers := by
  refine (table_fromRecords .brokers .brokerRegistration (ω.iter .brokers img.brokers)
    (fun e => .v1BrokerRegistration e.2) (fun m e => m.insert e.2.nodeId e.2) rfl (by decide)
    (fun _ _ _ => rfl) clusterId).trans ?_
  exact foldl_insert_iter ω _ (fun nodeId b hb => ⟨h.brokers_keyed nodeId b hb, rfl⟩)

theorem restored_controllers : (restored ω img clusterId).controllers = img.controllers := by
  refine (table_fromRecords .controllers .controllerRegistration
    (ω.iter .controllers img.controllers) (fun e => .v1ControllerRegistration e.2)
    (fun m e => m.insert e.2.nodeId e.2) rfl (by decide) (fun _ _ _ => rfl) clusterId).trans ?_
  exact foldl_insert_iter ω _ (fun nodeId c hc => ⟨h.controllers_keyed nodeId c hc, rfl⟩)

theorem restored_partitions : (restored ω img clusterId).partitions = img.partitions := by
  refine (table_fromRecords .partitions .partition (iter2 ω .partitions img.partitions)
    (fun e => .v1Partition e.2.2) (fun m e => insert2 m e.2.2.topic e.2.2.partition e.2.2) rfl
    (by decide) (fun _ _ _ => rfl) clusterId).trans ?_
  refine Eq.trans (foldl_insert2_iter2 ω _ ?_) (compact_of_noEmptyInner h.partitions_nonempty)
  intro topic idx p hp
  obtain ⟨htopic, hidx⟩ := h.partitions_keyed topic idx p hp
  exact ⟨htopic, hidx, rfl⟩

theorem restored_partitionElr : (restored ω img clusterId).partitionElr = img.partitionElr := by
  refine (table_fromRecords .partitionElr .partitionElr (iter2 ω .partitionElr img.partitionElr)
    (fun e => .v1PartitionElr ⟨e.1, e.2.1, e.2.2.1, e.2.2.2⟩) (fun m e => insert2 m e.1 e.2.1 e.2.2)
    rfl (by decide) ?_ clusterId).trans ?_
  · rintro img' ⟨topic, idx, elr⟩ he
    -- an empty pair of lists, which would clear the entry, is never stored
    have hstored := h.elr_stored topic idx elr ((mem_iter2 ω _).mp he)
    exact if_neg (by simpa using hstored)
  · exact Eq.trans (foldl_insert2_iter2 ω _ (fun _ _ _ _ => ⟨rfl, rfl, rfl⟩))
      (compact_of_noEmptyInner h.elr_nonempty)

theorem restored_partitionRecovery :
    (restored ω img clusterId).partitionRecovery = img.partitionRecovery := by
  refine (table_fromRecords .partitionRecovery .partitionRecovery
    (iter2 ω .partitionRecovery img.partitionRecovery)
    (fun e => .v1PartitionRecovery ⟨e.1, e.2.1, e.2.2⟩) (fun m e => insert2 m e.1 e.2.1 e.2.2) rfl
    (by decide) ?_ clusterId).trans ?_
  · rintro img' ⟨topic, idx, state⟩ he
    -- `recovered`, which would clear the entry, is never stored
    have hstored : state = .recovering := h.recovery_stored topic idx state ((mem_iter2 ω _).mp he)
    subst hstored
    rfl
  · exact Eq.trans (foldl_insert2_iter2 ω _ (fun _ _ _ _ => ⟨rfl, rfl, rfl⟩))
      (compact_of_noEmptyInner h.recovery_nonempty)

theorem restored_topicConfigs : (restored ω img clusterId).topicConfigs = img.topicConfigs := by
  refine (table_fromRecords .topicConfigs .topicConfig (ω.iter .topicConfigs img.topicConfigs)
    (fun e => .v1TopicConfig ⟨e.1, e.2⟩) (fun m e => m.insert e.1 e.2) rfl (by decide) ?_
    clusterId).trans ?_
  · rintro img' ⟨topic, overrides⟩ he
    -- an empty map of overrides, which would clear the entry, is never stored
    have hne := h.topicConfigs_nonempty topic overrides ((mem_iter ω _).mp he)
    exact if_neg (by simp [hne])
  · exact foldl_insert_iter ω _ (fun _ _ _ => ⟨rfl, rfl⟩)

theorem restored_clientMetricsConfigs :
    (restored ω img clusterId).clientMetricsConfigs = img.clientMetricsConfigs := by
  refine (table_fromRecords .clientMetricsConfigs .clientMetricsConfig
    (ω.iter .clientMetricsConfigs img.clientMetricsConfigs)
    (fun e => .v1ClientMetricsConfig ⟨e.1, e.2⟩) (fun m e => m.insert e.1 e.2) rfl (by decide) ?_
    clusterId).trans ?_
  · rintro img' ⟨name, configs⟩ he
    have hne := h.clientMetricsConfigs_nonempty name configs ((mem_iter ω _).mp he)
    exact if_neg (by simp [hne])
  · exact foldl_insert_iter ω _ (fun _ _ _ => ⟨rfl, rfl⟩)

theorem restored_groupConfigs : (restored ω img clusterId).groupConfigs = img.groupConfigs := by
  refine (table_fromRecords .groupConfigs .groupConfig (ω.iter .groupConfigs img.groupConfigs)
    (fun e => .v1GroupConfig ⟨e.1, e.2⟩) (fun m e => m.insert e.1 e.2) rfl (by decide) ?_
    clusterId).trans ?_
  · rintro img' ⟨groupId, configs⟩ he
    have hne := h.groupConfigs_nonempty groupId configs ((mem_iter ω _).mp he)
    exact if_neg (by simp [hne])
  · exact foldl_insert_iter ω _ (fun _ _ _ => ⟨rfl, rfl⟩)

theorem restored_scramCredentials :
    (restored ω img clusterId).scramCredentials = img.scramCredentials := by
  refine (table_fromRecords .scramCredentials .scramCredential
    (ω.iter .scramCredentials img.scramCredentials)
    (fun e => .v1ScramCredential (scramRecordOf e.1.1 e.1.2 e.2))
    (fun m e => m.insert (e.1.1, e.1.2) (scramCredentialOf (scramRecordOf e.1.1 e.1.2 e.2))) rfl
    (by decide) (fun _ _ _ => rfl) clusterId).trans ?_
  refine foldl_insert_iter ω _ (fun key cred hc => ⟨rfl, ?_⟩)
  -- the record takes its mechanism from the key, which is the credential's own
  have hm := h.scramCredentials_keyed key cred hc
  simp only [scramCredentialOf, scramRecordOf, ← hm]

theorem restored_breakGlass : (restored ω img clusterId).breakGlass = img.breakGlass := by
  refine (table_fromRecords .breakGlass .breakGlassProposal (ω.iter .breakGlass img.breakGlass)
    (fun e => .v1BreakGlassProposal e.2) (fun m e => m.insert e.2.proposalId e.2) rfl (by decide)
    (fun _ _ _ => rfl) clusterId).trans ?_
  exact foldl_insert_iter ω _ (fun id r hr => ⟨h.breakGlass_keyed id r hr, rfl⟩)

theorem restored_delegationTokens :
    (restored ω img clusterId).delegationTokens = img.delegationTokens := by
  refine (table_fromRecords .delegationTokens .delegationToken
    (ω.iter .delegationTokens img.delegationTokens) (fun e => .v1DelegationToken e.2.toRecord)
    (fun m e => m.insert e.2.toRecord.tokenId (.fromRecord e.2.toRecord)) rfl (by decide)
    (fun _ _ _ => rfl) clusterId).trans ?_
  exact foldl_insert_iter ω _ (fun id tok ht => ⟨h.delegationTokens_keyed id tok ht, rfl⟩)

theorem restored_featureLevels : (restored ω img clusterId).featureLevels = img.featureLevels := by
  refine (table_fromRecords .featureLevels .featureLevel img.featureLevels.toList
    (fun e => .v1FeatureLevel ⟨e.1, e.2⟩) (fun m e => m.insert e.1 e.2) rfl (by decide) ?_
    clusterId).trans ?_
  · rintro img' ⟨name, level⟩ he
    have hne := h.featureLevels_stored name level (Std.ExtTreeMap.mem_toList_iff_getElem?_eq_some.mp he)
    exact if_neg hne
  · -- an ordered map is a map that iterates by ascending key
    exact foldl_insert_iter (HashOrder.sorted MapSite) .topics (fun _ _ _ => ⟨rfl, rfl⟩)

theorem restored_producerIds : (restored ω img clusterId).producerIds = img.producerIds := by
  refine (table_fromRecords .producerIds .producerIds img.producerIds.toList
    (fun record => .v1ProducerIds record)
    (fun p record => if (match p with | none => 0 | some r => r.nextProducerId) < record.nextProducerId
      then some record else p) rfl (by decide) ?_ clusterId).trans ?_
  · intro img' record _
    show Table.get (if _ then _ else _) .producerIds = _
    split
    · rename_i hlt
      exact (if_pos hlt).symm
    · rename_i hlt
      exact (if_neg hlt).symm
  · cases hp : img.producerIds with
    | none => rfl
    -- a fresh image starts at zero, and every stored block is above that
    | some record => exact if_pos (h.producerIds_positive record hp)

omit h in
/-- The freezes that are listed are those of both maps. -/
theorem mem_topicFreezes {r : TopicFreezeRecord} :
    r ∈ img.topicFreezes ω ↔ (∃ scope : String, img.freezesLiteral[scope]? = some r) ∨
      ∃ scope : String, img.freezesPrefixed[scope]? = some r := by
  unfold topicFreezes
  rw [List.mem_append, List.mem_map, List.mem_map]
  constructor
  · rintro (⟨⟨scope, r⟩, he, rfl⟩ | ⟨⟨scope, r⟩, he, rfl⟩)
    · exact Or.inl ⟨scope, (mem_iter ω _).mp he⟩
    · exact Or.inr ⟨scope, Std.ExtTreeMap.mem_toList_iff_getElem?_eq_some.mp he⟩
  · rintro (⟨scope, hr⟩ | ⟨scope, hr⟩)
    · exact Or.inl ⟨(scope, r), (mem_iter ω _).mpr hr, rfl⟩
    · exact Or.inr ⟨(scope, r), Std.ExtTreeMap.mem_toList_iff_getElem?_eq_some.mpr hr, rfl⟩

/-- Every listed freeze is frozen, so its replay writes the registry of its pattern type. -/
theorem frozen_of_mem_topicFreezes {r : TopicFreezeRecord} (hr : r ∈ img.topicFreezes ω) :
    r.frozen = true := by
  rcases (mem_topicFreezes ω).mp hr with ⟨scope, hs⟩ | ⟨scope, hs⟩
  · exact (h.freezesLiteral_stored scope r hs).2.2
  · exact (h.freezesPrefixed_stored scope r hs).2.2

theorem restored_freezesLiteral : (restored ω img clusterId).freezesLiteral = img.freezesLiteral := by
  refine (table_fromRecords .freezesLiteral .topicFreeze (img.topicFreezes ω)
    (fun r => .v1TopicFreeze r)
    (fun m r => if r.patternType = .literal then m.insert r.scope r else m) rfl (by decide) ?_
    clusterId).trans ?_
  · intro img' r hr
    show Table.get (img'.applyTopicFreeze r) .freezesLiteral = _
    unfold applyTopicFreeze
    rw [frozen_of_mem_topicFreezes ω h hr]
    cases hp : r.patternType <;> rfl
  · unfold topicFreezes
    rw [List.foldl_append, List.foldl_map, List.foldl_map]
    -- the literal freezes come first and rebuild the table
    have hlit : (ω.iter .freezesLiteral img.freezesLiteral).foldl
        (fun m e => if e.2.patternType = .literal then m.insert e.2.scope e.2 else m) ∅ =
          img.freezesLiteral := by
      refine (List.foldl_ext _ (fun m e => m.insert e.2.scope e.2) ∅ ?_).trans
        (foldl_insert_iter ω _ (fun scope r hr => ⟨(h.freezesLiteral_stored scope r hr).1, rfl⟩))
      rintro m ⟨scope, r⟩ he
      exact if_pos (h.freezesLiteral_stored scope r ((mem_iter ω _).mp he)).2.1
    -- the prefixed ones then leave it alone
    refine Eq.trans ?_ hlit
    refine (List.foldl_ext _ (fun m _ => m) _ ?_).trans (List.foldl_fixed _)
    rintro m ⟨scope, r⟩ he
    have hp := (h.freezesPrefixed_stored scope r
      (Std.ExtTreeMap.mem_toList_iff_getElem?_eq_some.mp he)).2.1
    exact if_neg (by rw [hp]; decide)

theorem restored_freezesPrefixed :
    (restored ω img clusterId).freezesPrefixed = img.freezesPrefixed := by
  refine (table_fromRecords .freezesPrefixed .topicFreeze (img.topicFreezes ω)
    (fun r => .v1TopicFreeze r)
    (fun m r => if r.patternType = .prefixed then m.insert r.scope r else m) rfl (by decide) ?_
    clusterId).trans ?_
  · intro img' r hr
    show Table.get (img'.applyTopicFreeze r) .freezesPrefixed = _
    unfold applyTopicFreeze
    rw [frozen_of_mem_topicFreezes ω h hr]
    cases hp : r.patternType <;> rfl
  · unfold topicFreezes
    rw [List.foldl_append, List.foldl_map, List.foldl_map]
    have hlit : (ω.iter .freezesLiteral img.freezesLiteral).foldl
        (fun m e => if e.2.patternType = .prefixed then m.insert e.2.scope e.2 else m)
          (∅ : BTreeMap String TopicFreezeRecord) = ∅ := by
      refine (List.foldl_ext _ (fun m _ => m) _ ?_).trans (List.foldl_fixed _)
      rintro m ⟨scope, r⟩ he
      have hp := (h.freezesLiteral_stored scope r ((mem_iter ω _).mp he)).2.1
      exact if_neg (by rw [hp]; decide)
    refine (congrArg (fun acc => List.foldl _ acc _) hlit).trans ?_
    refine (List.foldl_ext _ (fun m e => m.insert e.2.scope e.2) ∅ ?_).trans
      (foldl_insert_iter (HashOrder.sorted MapSite) .topics (fun scope r hr =>
        ⟨(h.freezesPrefixed_stored scope r hr).1, rfl⟩))
    rintro m ⟨scope, r⟩ he
    exact if_pos (h.freezesPrefixed_stored scope r
      (Std.ExtTreeMap.mem_toList_iff_getElem?_eq_some.mp he)).2.1

theorem restored_partitionNextOffsets :
    (restored ω img clusterId).partitionNextOffsets = img.partitionNextOffsets := by
  refine (table_fromRecords .partitionNextOffsets .partitionOffsetAdvance
    (iter2 ω .partitionNextOffsets img.partitionNextOffsets)
    (fun e => .v1PartitionOffsetAdvance ⟨e.1, e.2.1, e.2.2⟩)
    (fun m e => insert2 m e.1 e.2.1 ((lookup2 m e.1 e.2.1).getD 0 + e.2.2)) rfl (by decide)
    (fun _ _ _ => rfl) clusterId).trans ?_
  -- each partition is advanced once, from zero, so the advance is the stored offset
  refine (foldl_eq_foldl_insert2 ?_ _ (nodup_iter2 ω _ _) _ (fun _ _ => lookup2_empty _ _)).trans ?_
  · intro m e he
    simp only [he, Option.getD_none, Int64.zero_add]
  · exact Eq.trans (foldl_insert2_iter2 ω _ (fun _ _ _ _ => ⟨rfl, rfl, rfl⟩))
      (compact_of_noEmptyInner h.offsets_nonempty)

/-- The restored ACLs are the same entries. -/
theorem restored_acls (e : AclEntry) : (restored ω img clusterId).acls.Holds e ↔ img.acls.Holds e := by
  have hfold : (restored ω img clusterId).acls = (img.allAcls ω).foldl AclIndex.insert {} :=
    table_fromRecords .acls .accessControlEntry (img.allAcls ω) (fun entry => .v1AccessControlEntry entry)
      (fun idx entry => idx.insert entry) rfl (by decide) (fun _ _ _ => rfl) clusterId
  rw [hfold, AclIndex.holds_foldl_insert]
  unfold allAcls
  rw [AclIndex.mem_iter_iff h.acls]
  exact or_iff_right (AclIndex.not_holds_empty e)

/-- Entities without a quota are not restored. -/
theorem restored_clientQuotas :
    (restored ω img clusterId).clientQuotas = compact img.clientQuotas := by
  refine (table_fromRecords .clientQuotas .clientQuota (iter2 ω .clientQuotas img.clientQuotas)
    (fun e => .v1ClientQuota ⟨entityOfKey e.1, e.2.1, some e.2.2⟩)
    (fun m e => insert2 m (entityKey (entityOfKey e.1)) e.2.1 e.2.2) rfl (by decide)
    (fun _ _ _ => rfl) clusterId).trans ?_
  refine foldl_insert2_iter2 ω _ (fun key name value hv => ⟨?_, rfl, rfl⟩)
  -- a stored key is canonical, so sorting it again changes nothing
  obtain ⟨configs, hkey⟩ := mem_iff_get.mp (mem_of_lookup2 hv)
  exact entityKey_entityOfKey (h.clientQuotas_canonical key configs hkey)

omit h

/-- Brokers without a config are not restored. -/
theorem restored_brokerConfigs :
    (restored ω img clusterId).brokerConfigs = compact img.brokerConfigs := by
  refine (table_fromRecords .brokerConfigs .brokerConfig (iter2 ω .brokerConfigs img.brokerConfigs)
    (fun e => .v1BrokerConfig ⟨e.1, e.2.1, some e.2.2⟩) (fun m e => insert2 m e.1 e.2.1 e.2.2) rfl
    (by decide) (fun _ _ _ => rfl) clusterId).trans ?_
  -- a broker whose every override was deleted has no record and is not restored
  exact foldl_insert2_iter2 ω _ (fun _ _ _ _ => ⟨rfl, rfl, rfl⟩)

theorem restored_voters : (restored ω img clusterId).voters = img.voters := by
  refine (table_fromRecords .voters .voters (if img.voters.isEmpty then [] else [img.voters])
    (fun voters => .v1Voters ⟨voters⟩) (fun _ v => v) rfl (by decide) (fun _ _ _ => rfl)
    clusterId).trans ?_
  split
  · rename_i he
    have hempty := Std.ExtTreeMap.isEmpty_iff.mp he
    show VoterSet.empty = img.voters
    cases hv : img.voters with
    | mk voters =>
        rw [hv] at hempty
        exact congrArg VoterSet.mk hempty.symm
  · rfl

theorem restored_kraftVersion : (restored ω img clusterId).kraftVersion = img.kraftVersion := by
  refine (table_fromRecords .kraftVersion .kraftVersion
    (if img.kraftVersion ≠ 0 then [img.kraftVersion] else []) (fun version => .v1KRaftVersion ⟨version⟩)
    (fun _ v => v) rfl (by decide) (fun _ _ _ => rfl) clusterId).trans ?_
  split
  · rfl
  · rename_i hz
    exact (not_not.mp hz).symm

end Restored

/-! ## The features epoch

Every feature record raises the epoch, and the last record of the segment sets it to what it was. -/

/-- The epoch is `-1` only while no feature was ever finalized. -/
def EpochPinned (img : MetadataImage) : Prop :=
  (img.featuresEpoch = -1 ∧ img.featureLevels = ∅) ∨ 0 ≤ img.featuresEpoch

/-- A step that states no negative epoch keeps the epoch at zero or above. -/
theorem EpochPinned.step (h : EpochPinned img) {r : MetadataRecord}
    (hr : ∀ e, r = .v1FeaturesEpoch e → 0 ≤ e.epoch) : EpochPinned (img.apply r) := by
  by_cases hw : Table.featureLevels ∉ r.kind.writes ∧ Table.featuresEpoch ∉ r.kind.writes
  · have hlevels : (img.apply r).featureLevels = img.featureLevels := apply_frame img r hw.1
    have hepoch : (img.apply r).featuresEpoch = img.featuresEpoch := apply_frame img r hw.2
    unfold EpochPinned
    rw [hlevels, hepoch]
    exact h
  · cases r with
    -- `max(0)` keeps the bumped epoch from being negative
    | v1FeatureLevel rec =>
        refine Or.inr ?_
        show (0 : Int64) ≤ if saturatingAddI64 img.featuresEpoch 1 < 0 then 0
          else saturatingAddI64 img.featuresEpoch 1
        split
        · exact Int64.le_refl 0
        · rename_i hlt
          exact Int64.not_lt.mp hlt
    | v1FeaturesEpoch rec => exact Or.inr (hr rec rfl)
    | _ => exact absurd (by simp [MetadataRecord.kind, RecordKind.writes]) hw

/-- So does a run of such steps. -/
theorem epochPinned_foldl {records : List MetadataRecord}
    (hr : ∀ r ∈ records, ∀ e, r = .v1FeaturesEpoch e → 0 ≤ e.epoch) (h : EpochPinned img) :
    EpochPinned (records.foldl apply img) := by
  induction records generalizing img with
  | nil => exact h
  | cons r rest ih =>
      exact ih (fun r' hr' => hr r' (List.mem_cons_of_mem _ hr')) (h.step (hr r List.mem_cons_self))

/-- A snapshot with no feature and no epoch record does not touch the epoch. -/
theorem toRecords_keep_epoch (ω : MapOrder) (hepoch : img.featuresEpoch = -1)
    (hlevels : img.featureLevels = ∅) :
    ∀ r ∈ img.toRecords ω, Table.featuresEpoch ∉ r.kind.writes := by
  intro r hr
  obtain ⟨seg, hs, hr⟩ := List.mem_flatMap.mp hr
  rw [img.kind_of_mem_segment ω seg hs r hr]
  have hmem : ∀ k, seg.1 = k → seg ∈ (img.segments ω).filter (fun seg => seg.1 = k) :=
    fun k hk => List.mem_filter.mpr ⟨hs, by simpa using hk⟩
  -- only two kinds write the epoch, and both segments are empty
  by_cases hl : seg.1 = .featureLevel
  · have hseg := hmem _ hl
    have hfilter : (img.segments ω).filter (fun seg => seg.1 = .featureLevel) =
        [(.featureLevel, img.featureLevels.toList.map (fun e => .v1FeatureLevel ⟨e.1, e.2⟩))] := rfl
    rw [hfilter, List.mem_singleton] at hseg
    rw [hseg, hlevels] at hr
    simp at hr
  · by_cases he : seg.1 = .featuresEpoch
    · have hseg := hmem _ he
      have hfilter : (img.segments ω).filter (fun seg => seg.1 = .featuresEpoch) =
          [(.featuresEpoch, (if 0 ≤ img.featuresEpoch then [img.featuresEpoch] else []).map
            (fun epoch => .v1FeaturesEpoch ⟨epoch⟩))] := rfl
      rw [hfilter, List.mem_singleton] at hseg
      rw [hseg, hepoch, if_neg (by decide)] at hr
      cases hr
    · have hall : ∀ k ∈ snapshotKinds, k ≠ .featureLevel → k ≠ .featuresEpoch →
          Table.featuresEpoch ∉ k.writes := by decide
      refine hall seg.1 ?_ hl he
      rw [← segments_kinds ω img]
      exact List.mem_map.mpr ⟨seg, hs, rfl⟩

/-- Where the features epoch is set, the snapshot states it behind the feature levels. -/
theorem toRecords_split_epoch (ω : MapOrder) (hepoch : 0 ≤ img.featuresEpoch) :
    img.toRecords ω = ((img.segments ω).take 19).flatMap (·.2) ++
      (.v1FeaturesEpoch ⟨img.featuresEpoch⟩ :: ((img.segments ω).drop 20).flatMap (·.2)) := by
  have hdrop : ((img.segments ω).drop 19).flatMap (·.2) =
      .v1FeaturesEpoch ⟨img.featuresEpoch⟩ :: ((img.segments ω).drop 20).flatMap (·.2) := by
    show (if 0 ≤ img.featuresEpoch then [img.featuresEpoch] else []).map _ ++ _ = _
    rw [if_pos hepoch]
    rfl
  unfold toRecords
  rw [← hdrop, ← List.flatMap_append, List.take_append_drop]

/-- The epoch record comes after the feature levels, so it decides; without one, nothing bumps. -/
theorem restored_featuresEpoch (ω : MapOrder) (h : EpochPinned img) (clusterId : Uuid) :
    (restored ω img clusterId).featuresEpoch = img.featuresEpoch := by
  rcases h with ⟨hepoch, hlevels⟩ | hepoch
  · have hkeep := toRecords_keep_epoch ω hepoch hlevels
    exact (foldl_apply_frame (t := .featuresEpoch) hkeep (new clusterId)).trans hepoch.symm
  · have hrest : ∀ r ∈ ((img.segments ω).drop 20).flatMap (·.2),
        Table.featuresEpoch ∉ r.kind.writes := by
      intro r hr
      have hall : ∀ k ∈ snapshotKinds.drop 20, Table.featuresEpoch ∉ k.writes := by decide
      exact hall r.kind (img.kind_of_mem_drop ω 20 r hr)
    unfold restored fromRecords
    rw [toRecords_split_epoch ω hepoch, List.foldl_append, List.foldl_cons]
    exact foldl_apply_frame (t := .featuresEpoch) hrest _

/-! ## The round trip

All the tables together. -/

/-- **Snapshot round trip.** Replaying the snapshot of an image that any records built restores every
    table but the topics and their index, whatever order the hash maps iterate in: exactly, except that
    an empty inner map in the broker configurations or the quotas counts as absent, and the ACLs are
    compared as a set. -/
theorem snapshot_round_trip (clusterId : Uuid) (records : List MetadataRecord)
    (hepoch : ∀ r ∈ records, ∀ e, r = .v1FeaturesEpoch e → 0 ≤ e.epoch) (ω : MapOrder) :
    let img := records.foldl apply (new clusterId)
    let img' := fromRecords clusterId (img.toRecords ω)
    img'.clusterId = img.clusterId ∧
    (∀ t : Table, t ∉ [.topics, .topicIds, .acls, .brokerConfigs, .clientQuotas] →
      t.get img' = t.get img) ∧
    compact img'.brokerConfigs = compact img.brokerConfigs ∧
    compact img'.clientQuotas = compact img.clientQuotas ∧
    (∀ (ω' ω'' : MapOrder) (e : AclEntry), e ∈ img'.allAcls ω' ↔ e ∈ img.allAcls ω'') := by
  intro img img'
  have h : WellFormed img := (wellFormed_new clusterId).foldl records
  have h' : WellFormed img' := (wellFormed_new clusterId).foldl _
  have hpinned : EpochPinned img := epochPinned_foldl hepoch (Or.inl ⟨rfl, rfl⟩)
  refine ⟨?_, ?_, ?_, ?_, ?_⟩
  · exact (foldl_apply_clusterId _ _).trans (foldl_apply_clusterId _ _).symm
  · intro t ht
    cases t with
    | topics | topicIds | acls | brokerConfigs | clientQuotas => exact absurd (by decide) ht
    | partitions => exact restored_partitions ω h clusterId
    | partitionNextOffsets => exact restored_partitionNextOffsets ω h clusterId
    | partitionElr => exact restored_partitionElr ω h clusterId
    | partitionRecovery => exact restored_partitionRecovery ω h clusterId
    | brokers => exact restored_brokers ω h clusterId
    | controllers => exact restored_controllers ω h clusterId
    | topicConfigs => exact restored_topicConfigs ω h clusterId
    | clientMetricsConfigs => exact restored_clientMetricsConfigs ω h clusterId
    | groupConfigs => exact restored_groupConfigs ω h clusterId
    | scramCredentials => exact restored_scramCredentials ω h clusterId
    | freezesLiteral => exact restored_freezesLiteral ω h clusterId
    | freezesPrefixed => exact restored_freezesPrefixed ω h clusterId
    | breakGlass => exact restored_breakGlass ω h clusterId
    | producerIds => exact restored_producerIds ω h clusterId
    | delegationTokens => exact restored_delegationTokens ω h clusterId
    | kraftVersion => exact restored_kraftVersion ω clusterId
    | voters => exact restored_voters ω clusterId
    | featureLevels => exact restored_featureLevels ω h clusterId
    | featuresEpoch => exact restored_featuresEpoch ω hpinned clusterId
  · -- an empty inner map has no record, so it is what `compact` drops
    have hb : img'.brokerConfigs = compact img.brokerConfigs := restored_brokerConfigs ω clusterId
    rw [hb, compact_of_noEmptyInner (noEmptyInner_compact _)]
  · have hq : img'.clientQuotas = compact img.clientQuotas := restored_clientQuotas ω h clusterId
    rw [hq, compact_of_noEmptyInner (noEmptyInner_compact _)]
  · intro ω' ω'' e
    unfold allAcls
    rw [AclIndex.mem_iter_iff h'.acls, AclIndex.mem_iter_iff h.acls]
    exact restored_acls ω h clusterId e

/-- A feature finalized and withdrawn, a diskless offset advanced twice, and a broker configuration
    set and deleted. -/
def mixedRun : List MetadataRecord :=
  [ .v1Topic ⟨"orders", 1, 0, 1⟩,
    .v1Partition ⟨"orders", 0, 1, [1], [1], 0, [], [], [], 0⟩,
    .v1PartitionOffsetAdvance ⟨"orders", 0, 5⟩,
    .v1PartitionOffsetAdvance ⟨"orders", 0, 6⟩,
    .v1BrokerConfig ⟨1, "log.retention.ms", some "60000"⟩,
    .v1BrokerConfig ⟨1, "log.retention.ms", none⟩,
    .v1FeatureLevel ⟨"metadata.version", 34⟩,
    .v1FeatureLevel ⟨"metadata.version", 0⟩ ]

/-- The restored image has the advanced offset, the epoch of the two feature records, and no broker
    configuration. -/
theorem snapshot_round_trip_mixed :
    let img := mixedRun.foldl apply (new 0)
    let img' := fromRecords 0 (img.toRecords (HashOrder.sorted MapSite))
    lookup2 img'.partitionNextOffsets "orders" 0 = some 11 ∧ img'.featuresEpoch = 1 ∧
      compact img'.brokerConfigs = ∅ := by
  intro img img'
  have h := snapshot_round_trip 0 mixedRun
    (by intro r hr e he; subst he; simp [mixedRun] at hr) (HashOrder.sorted MapSite)
  refine ⟨?_, ?_, ?_⟩
  · have ht : img'.partitionNextOffsets = img.partitionNextOffsets :=
      h.2.1 .partitionNextOffsets (by decide)
    rw [ht]
    decide
  · have ht : img'.featuresEpoch = img.featuresEpoch := h.2.1 .featuresEpoch (by decide)
    rw [ht]
    decide
  · rw [h.2.2.1]
    decide +kernel

end MetadataImage

end Krabka.Metadata
