import Krabka.Metadata.DowngradeProjection
import Krabka.Metadata.MetadataVersion

/-!
# `Metadata.Feature` — the features of a cluster and the levels it starts with

`feature.rs`: the registry, the check of a resolved map of levels against the dependencies of the features,
and the records that a formatted node starts from. `bootstrap_finalizes` says which levels those records
leave in an image; at the defaults they are levels of this build that meet every dependency, and a later release
has none of them lower (`bootstrap_defaults`).
-/

namespace Krabka.Metadata

open Collections Results

def groupVersionFeature : String := "group.version"

def groupVersionMin : Int16 := 0

def groupVersionMax : Int16 := 1

/-- `4.0-IV0`. -/
def groupVersionGaMetadataLevel : Int16 := 22

def transactionVersionFeature : String := "transaction.version"

def transactionVersionMin : Int16 := 0

def transactionVersionMax : Int16 := 2

def tv1MetadataLevel : Int16 := 24

def tv2MetadataLevel : Int16 := 24

def shareVersionFeature : String := "share.version"

def shareVersionMin : Int16 := 0

def shareVersionMax : Int16 := 2

/-- `4.2-IV0`. -/
def shareVersionDefaultMetadataLevel : Int16 := 28

/-- `4.4-IV0`. -/
def shareVersion2DefaultMetadataLevel : Int16 := 31

def streamsVersionFeature : String := "streams.version"

def streamsVersionMin : Int16 := 0

def streamsVersionMax : Int16 := 1

/-- `4.2-IV1`. -/
def streamsVersionDefaultMetadataLevel : Int16 := 29

def elrVersionFeature : String := "eligible.leader.replicas.version"

def elrVersionMin : Int16 := 0

def elrVersionMax : Int16 := 1

/-- `4.1-IV0`. -/
def elrDefaultMetadataLevel : Int16 := 26

def kraftVersionFeature : String := "kraft.version"

def krabkaVersionFeature : String := "krabka.version"

def krabkaVersionMin : Int16 := 0

def krabkaVersionMax : Int16 := 2

/-! ## The registry

Each feature has its range of levels, its default at a given metadata.version and its dependencies at a given
level. -/

/-- One versioned feature. The fields with a value are the trait's default methods. -/
structure Feature where
  name : String
  supportedRange : Int16 × Int16
  defaultLevel : Int16 → Int16
  minRequiredFloor : MapOrder → MetadataImage → Int16 := fun _ _ => supportedRange.1
  dependencies : Int16 → List (String × Int16) := fun _ => []
  levelName : Int16 → Option String := fun _ => none

/-- `n.clamp(min, max)`. -/
def clamp (n min max : Int16) : Int16 := if n < min then min else if max < n then max else n

namespace Feature

def metadataVersion : Feature where
  name := metadataVersionFeature
  supportedRange := (metadataVersionMin, metadataVersionMax)
  defaultLevel bootstrapMv := clamp bootstrapMv metadataVersionMin metadataVersionMax
  minRequiredFloor ω img := img.minRequiredMetadataVersion ω
  levelName level := (VersionTable.fromFeatureLevel level).map (·.ivn)

def groupVersion : Feature where
  name := groupVersionFeature
  supportedRange := (groupVersionMin, groupVersionMax)
  defaultLevel bootstrapMv :=
    if groupVersionGaMetadataLevel ≤ bootstrapMv then groupVersionMax else groupVersionMin

def transactionVersion : Feature where
  name := transactionVersionFeature
  supportedRange := (transactionVersionMin, transactionVersionMax)
  defaultLevel bootstrapMv :=
    if tv2MetadataLevel ≤ bootstrapMv then 2 else if tv1MetadataLevel ≤ bootstrapMv then 1 else 0

def shareVersion : Feature where
  name := shareVersionFeature
  supportedRange := (shareVersionMin, shareVersionMax)
  defaultLevel bootstrapMv :=
    if shareVersion2DefaultMetadataLevel ≤ bootstrapMv then 2
    else if shareVersionDefaultMetadataLevel ≤ bootstrapMv then 1
    else shareVersionMin

def streamsVersion : Feature where
  name := streamsVersionFeature
  supportedRange := (streamsVersionMin, streamsVersionMax)
  defaultLevel bootstrapMv :=
    if streamsVersionDefaultMetadataLevel ≤ bootstrapMv then streamsVersionMax else streamsVersionMin

def elrVersion : Feature where
  name := elrVersionFeature
  supportedRange := (elrVersionMin, elrVersionMax)
  defaultLevel bootstrapMv := if elrDefaultMetadataLevel ≤ bootstrapMv then elrVersionMax else elrVersionMin
  dependencies level := if 1 ≤ level then [(metadataVersionFeature, elrMinLevel)] else []

/-- A control record finalizes this one, never a feature record. -/
def kraftVersion : Feature where
  name := kraftVersionFeature
  supportedRange := (0, 1)
  defaultLevel _ := 0

def krabkaVersion : Feature where
  name := krabkaVersionFeature
  supportedRange := (krabkaVersionMin, krabkaVersionMax)
  defaultLevel _ := krabkaVersionMin

end Feature

def featureRegistry : List Feature :=
  [.metadataVersion, .groupVersion, .transactionVersion, .shareVersion, .streamsVersion, .elrVersion,
    .kraftVersion, .krabkaVersion]

def feature (name : String) : Option Feature := featureRegistry.find? (fun f => f.name == name)

def isSupportedLevel (name : String) (level : Int16) : Bool :=
  match feature name with
  | none => false
  | some f => f.supportedRange.1 ≤ level && level ≤ f.supportedRange.2

/-! ## The bootstrap records

One record for each feature but `kraft.version`, at the level that the overrides or the defaults give it, if
that is above zero. -/

/-- The records of a fresh cluster: each feature but `kraft.version` at its override, else at the default of the
    release, and none at level 0. -/
def bootstrapFeatureRecordsWithOverrides (bootstrapMv : Int16) (overrides : BTreeMap String Int16) :
    List MetadataRecord :=
  (featureRegistry.filter (fun f => f.name != kraftVersionFeature)).filterMap fun f =>
    let level := overrides[f.name]?.getD (f.defaultLevel bootstrapMv)
    if 0 < level then some (.v1FeatureLevel { name := f.name, level := level }) else none

def bootstrapFeatureRecords (bootstrapMv : Int16) : List MetadataRecord :=
  bootstrapFeatureRecordsWithOverrides bootstrapMv ∅

/-! ## Dependencies

The check walks a map of resolved levels and stops at the first dependency that is not met. -/

def unmetDependency (name : String) (level : Int16) (dep : String) (min found : Int16) : String :=
  "feature " ++ name ++ "=" ++ toString level.toInt ++ " requires " ++ dep ++ ">=" ++ toString min.toInt ++
    ", but " ++ dep ++ " is finalized at " ++ toString found.toInt

/-- Every dependency of every entry, in order; the first that is not met is the error. -/
def checkDeps (resolved : BTreeMap String Int16) (depsOf : String → Int16 → List (String × Int16)) :
    Except String Unit :=
  resolved.toList.forM fun entry => (depsOf entry.1 entry.2).forM fun dep =>
    let found := resolved[dep.1]?.getD 0
    if found < dep.2 then .error (unmetDependency entry.1 entry.2 dep.1 dep.2 found) else .ok ()

def validateFeatureDependencies (resolved : BTreeMap String Int16) : Except String Unit :=
  checkDeps resolved fun name level => ((feature name).map (·.dependencies level)).getD []

/-! ## Lookups

The names of the registry are distinct, so a feature is found by its name and by nothing else. -/

/-- No name is registered twice. -/
theorem registry_distinct : (featureRegistry.map (·.name)).Nodup := by decide

/-- A feature is found by its name. -/
theorem feature_eq_some {name : String} {f : Feature} :
    feature name = some f ↔ f ∈ featureRegistry ∧ f.name = name := by
  have hfound : ∀ {f : Feature}, feature name = some f → f ∈ featureRegistry ∧ f.name = name := fun h =>
    ⟨List.mem_of_find?_eq_some h, by simpa using List.find?_some h⟩
  constructor
  · exact hfound
  · rintro ⟨hf, rfl⟩
    cases h : feature f.name with
    | none => exact absurd (List.find?_eq_none.mp h f hf) (by simp)
    | some f' =>
        obtain ⟨hf', hname⟩ := hfound h
        exact congrArg some (List.inj_on_of_nodup_map registry_distinct hf' hf hname)

/-- A level is supported in the range of its feature. -/
theorem isSupportedLevel_iff {name : String} {level : Int16} : isSupportedLevel name level = true ↔
    ∃ f ∈ featureRegistry, f.name = name ∧ f.supportedRange.1 ≤ level ∧ level ≤ f.supportedRange.2 := by
  unfold isSupportedLevel
  cases hf : feature name with
  | none =>
      refine iff_of_false (by simp) ?_
      rintro ⟨f, hmem, hname, -⟩
      rw [feature_eq_some.mpr ⟨hmem, hname⟩] at hf
      cases hf
  | some f =>
      obtain ⟨hmem, hname⟩ := feature_eq_some.mp hf
      rw [Bool.and_eq_true, decide_eq_true_iff, decide_eq_true_iff]
      constructor
      · intro h
        exact ⟨f, hmem, hname, h⟩
      · rintro ⟨f', hmem', hname', h⟩
        rw [feature_eq_some.mpr ⟨hmem', hname'⟩] at hf
        cases hf
        exact h

/-! ## What the records finalize

The records are applied one by one to an image. Each raises the epoch and sets its level, and no two of them
name the same feature. -/

/-- The levels that feature records carry. -/
def levelsOf (records : List MetadataRecord) : List (String × Int16) :=
  records.filterMap fun
    | .v1FeatureLevel r => some (r.name, r.level)
    | _ => none

section
variable (mv : Int16) (overrides : BTreeMap String Int16)

/-- The override of a feature, else the default of the release. -/
def resolvedLevel (f : Feature) : Int16 := overrides[f.name]?.getD (f.defaultLevel mv)

/-- The level that the bootstrap finalizes a name at. -/
def bootstrapLevel (name : String) : Option Int16 :=
  (feature name).bind fun f =>
    if f.name ≠ kraftVersionFeature ∧ 0 < resolvedLevel mv overrides f then some (resolvedLevel mv overrides f)
    else none

def bootstrapLevels : List (String × Int16) := levelsOf (bootstrapFeatureRecordsWithOverrides mv overrides)

/-- The levels that are written: those above zero, `kraft.version` apart. -/
theorem bootstrapLevels_eq : bootstrapLevels mv overrides =
    (featureRegistry.filter (fun f => f.name != kraftVersionFeature)).filterMap fun f =>
      if 0 < resolvedLevel mv overrides f then some (f.name, resolvedLevel mv overrides f) else none := by
  unfold bootstrapLevels levelsOf bootstrapFeatureRecordsWithOverrides
  rw [List.filterMap_filterMap]
  refine List.filterMap_congr fun f _ => ?_
  show Option.bind (if 0 < resolvedLevel mv overrides f then _ else _) _ = _
  by_cases h : 0 < resolvedLevel mv overrides f
  · rw [if_pos h, if_pos h]
    rfl
  · rw [if_neg h, if_neg h]
    rfl

/-- A record for each of them, in order. -/
theorem records_eq_map : bootstrapFeatureRecordsWithOverrides mv overrides =
    (bootstrapLevels mv overrides).map fun e => .v1FeatureLevel { name := e.1, level := e.2 } := by
  rw [bootstrapLevels_eq, List.map_filterMap]
  refine List.filterMap_congr fun f _ => ?_
  show (if 0 < resolvedLevel mv overrides f then _ else _) = Option.map _ _
  by_cases h : 0 < resolvedLevel mv overrides f
  · rw [if_pos h, if_pos h]
    rfl
  · rw [if_neg h, if_neg h]
    rfl

variable {mv overrides}

/-- Each level comes from a feature that gets a record. -/
theorem mem_bootstrapLevels_iff {e : String × Int16} : e ∈ bootstrapLevels mv overrides ↔
    ∃ f ∈ featureRegistry, f.name ≠ kraftVersionFeature ∧ 0 < resolvedLevel mv overrides f ∧
      (f.name, resolvedLevel mv overrides f) = e := by
  rw [bootstrapLevels_eq, List.mem_filterMap]
  simp only [List.mem_filter, bne_iff_ne, Option.ite_none_right_eq_some, Option.some.injEq, and_assoc]

/-- A level is written where it is the feature's own. -/
theorem mem_bootstrapLevels {name : String} {level : Int16} :
    (name, level) ∈ bootstrapLevels mv overrides ↔ bootstrapLevel mv overrides name = some level := by
  rw [mem_bootstrapLevels_iff, bootstrapLevel, Option.bind_eq_some_iff]
  simp only [feature_eq_some, Option.ite_none_right_eq_some, Option.some.injEq, Prod.mk.injEq]
  constructor
  · rintro ⟨f, hf, hkraft, hpos, hname, hlevel⟩
    exact ⟨f, ⟨hf, hname⟩, ⟨hkraft, hpos⟩, hlevel⟩
  · rintro ⟨f, ⟨hf, hname⟩, ⟨hkraft, hpos⟩, hlevel⟩
    exact ⟨f, hf, hkraft, hpos, hname, hlevel⟩

theorem bootstrapLevels_pos : ∀ e ∈ bootstrapLevels mv overrides, 0 < e.2 := by
  intro e he
  obtain ⟨f, -, -, hpos, rfl⟩ := mem_bootstrapLevels_iff.mp he
  exact hpos

variable (mv overrides)

/-- No feature is written twice. -/
theorem bootstrapLevels_distinct : ((bootstrapLevels mv overrides).map (·.1)).Nodup := by
  have hnames := List.Pairwise.filter (fun f : Feature => f.name != kraftVersionFeature)
    (List.pairwise_map.mp registry_distinct)
  rw [bootstrapLevels_eq, List.Nodup, List.pairwise_map, List.pairwise_filterMap]
  simp only [Option.ite_none_right_eq_some, Option.some.injEq]
  refine hnames.imp fun {f f'} hne => ?_
  rintro e ⟨-, rfl⟩ e' ⟨-, rfl⟩
  exact hne

theorem bootstrapLevels_length : (bootstrapLevels mv overrides).length ≤ featureRegistry.length := by
  rw [bootstrapLevels_eq]
  exact (List.length_filterMap_le _ _).trans (List.length_filter_le _ _)

end

/-- The epoch after a feature record. -/
def bumpEpoch (epoch : Int64) : Int64 :=
  let bumped := FixedWidth.saturatingAddI64 epoch 1
  if bumped < 0 then 0 else bumped

/-- Feature records above level 0 write their levels and the epoch, and nothing else. -/
theorem foldl_featureLevels (ls : List (String × Int16)) (hpos : ∀ e ∈ ls, 0 < e.2) (img : MetadataImage) :
    (ls.map fun e => .v1FeatureLevel { name := e.1, level := e.2 }).foldl MetadataImage.apply img =
      { img with
        featureLevels := ls.foldl (fun m e => m.insert e.1 e.2) img.featureLevels
        featuresEpoch := bumpEpoch^[ls.length] img.featuresEpoch } := by
  induction ls generalizing img with
  | nil => rfl
  | cons e rest ih =>
      have hne : e.2 ≠ 0 := by
        intro h
        have := hpos e List.mem_cons_self
        rw [h] at this
        exact absurd this (by decide)
      rw [List.map_cons, List.foldl_cons, ih (fun e' he' => hpos e' (List.mem_cons_of_mem _ he'))]
      show ({ img with
        featureLevels := rest.foldl _ (if e.2 = 0 then _ else _)
        featuresEpoch := _ } : MetadataImage) = _
      rw [if_neg hne]
      rfl

/-- The epoch counts one, below the largest. -/
theorem toInt_bumpEpoch {epoch : Int64} (h : -1 ≤ epoch.toInt) (hlt : epoch.toInt < 2 ^ 63 - 1) :
    (bumpEpoch epoch).toInt = epoch.toInt + 1 := by
  have hone : (1 : Int64).toInt = 1 := rfl
  have hsat : (FixedWidth.saturatingAddI64 epoch 1).toInt = epoch.toInt + 1 := by
    rw [FixedWidth.saturatingAddI64, FixedWidth.toInt_ofIntClampI64, hone]
    omega
  have hneg : ¬FixedWidth.saturatingAddI64 epoch 1 < 0 := by
    rw [Int64.lt_iff_toInt_lt, hsat]
    show ¬epoch.toInt + 1 < 0
    omega
  show (if FixedWidth.saturatingAddI64 epoch 1 < 0 then (0 : Int64) else _).toInt = _
  rw [if_neg hneg, hsat]

/-- A fresh image counts its feature records from 0 on. -/
theorem toInt_iterate_bumpEpoch {n : Nat} (hn : n < 2 ^ 63) : (bumpEpoch^[n] (-1)).toInt = (n : Int) - 1 := by
  induction n with
  | zero => rfl
  | succ n ih =>
      have hprev := ih (by omega)
      rw [Function.iterate_succ_apply', toInt_bumpEpoch (by omega) (by omega), hprev]
      omega

section
variable (mv : Int16) (overrides : BTreeMap String Int16)

/-- The finalized levels of a fresh cluster. -/
def bootstrapFeatures : BTreeMap String Int16 :=
  (bootstrapLevels mv overrides).foldl (fun m e => m.insert e.1 e.2) ∅

/-- The features after the bootstrap. -/
theorem get_bootstrapFeatures (name : String) :
    (bootstrapFeatures mv overrides)[name]? = bootstrapLevel mv overrides name := by
  refine Option.ext fun level => ?_
  rw [bootstrapFeatures, get_foldl_insert (bootstrapLevels_distinct mv overrides), mem_bootstrapLevels,
    get_empty]
  simp

/-- The records change the levels and the epoch of the image. -/
theorem foldl_bootstrap (img : MetadataImage) (hfresh : img.featureLevels = ∅) :
    (bootstrapFeatureRecordsWithOverrides mv overrides).foldl MetadataImage.apply img =
      { img with
        featureLevels := bootstrapFeatures mv overrides
        featuresEpoch := bumpEpoch^[(bootstrapLevels mv overrides).length] img.featuresEpoch } := by
  rw [records_eq_map, foldl_featureLevels _ bootstrapLevels_pos img, hfresh]
  rfl

/-- **What a fresh cluster finalizes.** The bootstrap records leave, of every feature but `kraft.version`, the
    override or else the default of the release, when that is above 0, and nothing under any other name. Of
    the rest of the image they touch the epoch alone, which counts them from 0 on. -/
theorem bootstrap_finalizes (clusterId : Uuid) :
    ∃ levels epoch,
      (bootstrapFeatureRecordsWithOverrides mv overrides).foldl MetadataImage.apply (.new clusterId) =
        { MetadataImage.new clusterId with featureLevels := levels, featuresEpoch := epoch } ∧
      (∀ name : String, levels[name]? = bootstrapLevel mv overrides name) ∧
      epoch.toInt = ((bootstrapFeatureRecordsWithOverrides mv overrides).length : Int) - 1 := by
  have hlength := bootstrapLevels_length mv overrides
  refine ⟨bootstrapFeatures mv overrides, bumpEpoch^[(bootstrapLevels mv overrides).length] (-1), ?_,
    get_bootstrapFeatures mv overrides, ?_⟩
  · exact foldl_bootstrap mv overrides (.new clusterId) rfl
  · rw [records_eq_map, List.length_map]
    refine toInt_iterate_bumpEpoch (lt_of_le_of_lt hlength ?_)
    decide

end

/-! ## The check of the dependencies

Only the eligible leader replicas depend on anything, so the check of a map comes down to that one entry. -/

/-- The check passes when every entry finds its dependencies at their levels; what is absent is at 0. -/
theorem checkDeps_eq_ok {resolved : BTreeMap String Int16} {depsOf : String → Int16 → List (String × Int16)} :
    checkDeps resolved depsOf = .ok () ↔ ∀ (name : String) level, resolved[name]? = some level →
      ∀ dep ∈ depsOf name level, dep.2 ≤ resolved[dep.1]?.getD 0 := by
  unfold checkDeps
  simp only [forM_eq_ok, Prod.forall, Std.ExtTreeMap.mem_toList_iff_getElem?_eq_some, ite_eq_right_iff,
    reduceCtorEq, imp_false, Int16.not_lt]

/-- The features by name. -/
theorem forall_registry {P : Feature → Prop} : (∀ f ∈ featureRegistry, P f) ↔
    P .metadataVersion ∧ P .groupVersion ∧ P .transactionVersion ∧ P .shareVersion ∧ P .streamsVersion ∧
      P .elrVersion ∧ P .kraftVersion ∧ P .krabkaVersion := by
  simp only [featureRegistry, List.forall_mem_cons, List.not_mem_nil, false_imp_iff, implies_true, and_true]

/-- Eligible leaders are the only feature with a dependency. -/
theorem dependencies_eq : ∀ f ∈ featureRegistry, ∀ level, f.dependencies level =
    if f.name = elrVersionFeature ∧ 1 ≤ level then [(metadataVersionFeature, elrMinLevel)] else [] := by
  have hother : ∀ {name : String}, name ≠ elrVersionFeature → ∀ level : Int16, ([] : List (String × Int16)) =
      if name = elrVersionFeature ∧ 1 ≤ level then [(metadataVersionFeature, elrMinLevel)] else [] :=
    fun hne level => (if_neg fun h => hne h.1).symm
  rw [forall_registry]
  refine ⟨hother ?_, hother ?_, hother ?_, hother ?_, hother ?_, fun level => ?_, hother ?_, hother ?_⟩
  case refine_6 =>
    show (if 1 ≤ level then _ else _) = _
    by_cases h : 1 ≤ level
    · rw [if_pos h, if_pos ⟨rfl, h⟩]
    · rw [if_neg h, if_neg fun hc => h hc.2]
  all_goals decide

theorem feature_elrVersion : feature elrVersionFeature = some .elrVersion :=
  feature_eq_some.mpr ⟨(forall_registry.mp fun _ hf => hf).2.2.2.2.2.1, rfl⟩

/-- The one dependency that there is. -/
theorem validateFeatureDependencies_eq_ok {resolved : BTreeMap String Int16} :
    validateFeatureDependencies resolved = .ok () ↔
      ∀ level, resolved[elrVersionFeature]? = some level → 1 ≤ level →
        elrMinLevel ≤ resolved[metadataVersionFeature]?.getD 0 := by
  rw [validateFeatureDependencies, checkDeps_eq_ok]
  constructor
  · intro h level hlevel hone
    refine h elrVersionFeature level hlevel (metadataVersionFeature, elrMinLevel) ?_
    rw [feature_elrVersion]
    show _ ∈ if 1 ≤ level then _ else _
    rw [if_pos hone]
    exact List.mem_singleton_self _
  · intro h name level hlevel dep hdep
    cases hf : feature name with
    | none =>
        rw [hf] at hdep
        exact absurd hdep List.not_mem_nil
    | some f =>
        rw [hf, Option.map_some, Option.getD_some, dependencies_eq f (feature_eq_some.mp hf).1,
          (feature_eq_some.mp hf).2] at hdep
        split at hdep
        · rename_i hc
          obtain ⟨rfl, hone⟩ := hc
          cases List.mem_singleton.mp hdep
          exact h level hlevel hone
        · exact absurd hdep List.not_mem_nil

/-! ## The defaults

The default levels are monotone in the release, lie in the range of their feature and meet what the check
asks. -/

/-- A default lies in the range of its feature, and does not go down with a later release. -/
theorem defaultLevel_spec : ∀ f ∈ featureRegistry, ∀ mv : Int16,
    f.supportedRange.1 ≤ f.defaultLevel mv ∧ f.defaultLevel mv ≤ f.supportedRange.2 ∧
      ∀ mv', mv ≤ mv' → f.defaultLevel mv ≤ f.defaultLevel mv' := by
  rw [forall_registry]
  refine ⟨?_, ?_, ?_, ?_, ?_, ?_, ?_, ?_⟩ <;> intro mv
  · simp only [Feature.metadataVersion, clamp, metadataVersionMin, metadataVersionMax]
    grind
  · simp only [Feature.groupVersion, groupVersionMin, groupVersionMax, groupVersionGaMetadataLevel]
    grind
  · simp only [Feature.transactionVersion, transactionVersionMin, transactionVersionMax, tv1MetadataLevel,
      tv2MetadataLevel]
    grind
  · simp only [Feature.shareVersion, shareVersionMin, shareVersionMax, shareVersionDefaultMetadataLevel,
      shareVersion2DefaultMetadataLevel]
    grind
  · simp only [Feature.streamsVersion, streamsVersionMin, streamsVersionMax,
      streamsVersionDefaultMetadataLevel]
    grind
  · simp only [Feature.elrVersion, elrVersionMin, elrVersionMax, elrDefaultMetadataLevel]
    grind
  · exact ⟨Int16.le_refl 0, (by decide : (0 : Int16) ≤ 1), fun _ _ => Int16.le_refl 0⟩
  · exact ⟨Int16.le_refl 0, (by decide : (0 : Int16) ≤ 2), fun _ _ => Int16.le_refl 0⟩

/-- Without overrides, a name is finalized at its default. -/
theorem bootstrapLevel_default {mv level : Int16} {name : String} : bootstrapLevel mv ∅ name = some level ↔
    ∃ f ∈ featureRegistry, f.name = name ∧ f.name ≠ kraftVersionFeature ∧ 0 < f.defaultLevel mv ∧
      f.defaultLevel mv = level := by
  have hdefault : ∀ f, resolvedLevel mv ∅ f = f.defaultLevel mv := by
    intro f
    rw [resolvedLevel, get_empty]
    rfl
  rw [bootstrapLevel, Option.bind_eq_some_iff]
  simp only [feature_eq_some, hdefault, Option.ite_none_right_eq_some, Option.some.injEq, and_assoc]

/-- Where eligible leaders are on by default, `metadata.version` is at the level they depend on. -/
theorem elr_default {mv : Int16} (h : 1 ≤ Feature.elrVersion.defaultLevel mv) :
    elrMinLevel ≤ (bootstrapLevel mv ∅ metadataVersionFeature).getD 0 := by
  have hmv : elrDefaultMetadataLevel ≤ mv := by
    by_contra hlt
    change 1 ≤ if elrDefaultMetadataLevel ≤ mv then elrVersionMax else elrVersionMin at h
    rw [if_neg hlt] at h
    exact absurd h (by decide)
  have hlevel : elrMinLevel ≤ Feature.metadataVersion.defaultLevel mv := by
    simp only [elrDefaultMetadataLevel] at hmv
    simp only [Feature.metadataVersion, clamp, metadataVersionMin, metadataVersionMax, elrMinLevel]
    grind
  have hdefault : bootstrapLevel mv ∅ metadataVersionFeature = some (Feature.metadataVersion.defaultLevel mv) :=
    bootstrapLevel_default.mpr ⟨.metadataVersion, (forall_registry.mp fun _ hf => hf).1, rfl, by decide,
      Int16.lt_of_lt_of_le (by decide) hlevel, rfl⟩
  rw [hdefault]
  exact hlevel

/-- The image of a fresh cluster. -/
def freshImage (mv : Int16) (clusterId : Uuid) : MetadataImage :=
  (bootstrapFeatureRecords mv).foldl MetadataImage.apply (.new clusterId)

theorem featureLevels_freshImage (mv : Int16) (clusterId : Uuid) :
    (freshImage mv clusterId).featureLevels = bootstrapFeatures mv ∅ :=
  congrArg MetadataImage.featureLevels (foldl_bootstrap mv ∅ (.new clusterId) rfl)

/-- **The defaults of a release are consistent.** The levels that a fresh cluster finalizes are levels that
    this build supports, they meet every dependency between features, and a later release finalizes every
    feature that this one does, at no lower level. -/
theorem bootstrap_defaults {mv mv' : Int16} (h : mv ≤ mv') (clusterId : Uuid) :
    validateFeatureDependencies (freshImage mv clusterId).featureLevels = .ok () ∧
      ∀ (name : String) level, (freshImage mv clusterId).featureLevels[name]? = some level →
        isSupportedLevel name level = true ∧
          ∃ level', (freshImage mv' clusterId).featureLevels[name]? = some level' ∧ level ≤ level' := by
  simp only [featureLevels_freshImage, validateFeatureDependencies_eq_ok, get_bootstrapFeatures,
    bootstrapLevel_default]
  refine ⟨?_, ?_⟩
  · rintro level ⟨f, hf, hname, -, -, rfl⟩ hone
    have helr := (feature_eq_some.mpr ⟨hf, hname⟩).symm.trans feature_elrVersion
    cases helr
    exact elr_default hone
  · rintro name level ⟨f, hf, rfl, hkraft, hpos, rfl⟩
    obtain ⟨hlow, hhigh, hmono⟩ := defaultLevel_spec f hf mv
    refine ⟨isSupportedLevel_iff.mpr ⟨f, hf, rfl, hlow, hhigh⟩, f.defaultLevel mv', ?_, hmono mv' h⟩
    exact ⟨f, hf, rfl, hkraft, Int16.lt_of_lt_of_le hpos (hmono mv' h), rfl⟩

/-- From `4.0-IV0` to `4.1-IV0`. -/
theorem bootstrap_defaults_22_26 :
    validateFeatureDependencies (freshImage 22 0).featureLevels = .ok () ∧
      ∀ (name : String) level, (freshImage 22 0).featureLevels[name]? = some level →
        isSupportedLevel name level = true ∧
          ∃ level', (freshImage 26 0).featureLevels[name]? = some level' ∧ level ≤ level' :=
  bootstrap_defaults (by decide) 0

end Krabka.Metadata
