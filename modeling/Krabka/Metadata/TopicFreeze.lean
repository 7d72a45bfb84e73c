import Krabka.Lib.LongestPrefix
import Krabka.Metadata.Frame

/-!
# `Metadata.TopicFreeze` — the write-freeze registry

`topicFreeze` resolves a topic against the two registries of live freezes. What it is for is a rule over
the history (`ScopeRule`): of each pattern and scope the last record counts, a literal scope beats every
prefix, and among the prefixes the longest wins. `freezeAt_foldl` reads the registries off the history,
and `topicFreeze_scopeRule` puts the two together.
-/

namespace Krabka.Metadata

open Collections Text

namespace MetadataImage

/-! ## The reader

The literal registry first, then the prefixes from the text down. -/

/-- The topics of the cluster itself: `topic.starts_with("__")`. -/
def internalTopic (topic : String) : Bool := startsWith topic "__"

/-- `topic_freeze`: the write-freeze entry that covers `topic`. -/
def topicFreeze (img : MetadataImage) (topic : String) : Option TopicFreezeRecord :=
  if img.freezesLiteral.isEmpty && img.freezesPrefixed.isEmpty then none
  else if internalTopic topic then none
  else
    match img.freezesLiteral[topic]? with
    | some freeze => some freeze
    | none =>
      -- the first prefix met on the way down from `topic`
      ((rangeToRev img.freezesPrefixed topic).find? (fun e => startsWith topic e.1)).map (·.2)

/-! ## The rule

It speaks of the history alone: of each pattern and scope the last record counts. -/

variable {records : List MetadataRecord} {pattern : PatternType} {scope topic : String}

/-- The freeze record, if this is one with the given pattern and scope. -/
def freezeOf (pattern : PatternType) (scope : String) : MetadataRecord → Option TopicFreezeRecord
  | .v1TopicFreeze r => if r.patternType = pattern ∧ r.scope = scope then some r else none
  | _ => none

/-- The last freeze record of a history with the given pattern and scope. -/
def lastFreeze (records : List MetadataRecord) (pattern : PatternType) (scope : String) :
    Option TopicFreezeRecord :=
  (records.filterMap (freezeOf pattern scope)).getLast?

/-- The last record of the pair is a freeze, and it is `r`. -/
def Live (records : List MetadataRecord) (pattern : PatternType) (scope : String)
    (r : TopicFreezeRecord) : Prop :=
  lastFreeze records pattern scope = some r ∧ r.frozen = true

/-- What covers a topic after a history. -/
inductive ScopeRule (records : List MetadataRecord) (topic : String) : Option TopicFreezeRecord → Prop where
  | internal : "__".toList <+: topic.toList → ScopeRule records topic none
  | literal {r : TopicFreezeRecord} : ¬"__".toList <+: topic.toList → Live records .literal topic r →
      ScopeRule records topic (some r)
  | longestPrefix {scope : String} {r : TopicFreezeRecord} : ¬"__".toList <+: topic.toList →
      (∀ r', ¬Live records .literal topic r') → Live records .prefixed scope r →
      scope.toList <+: topic.toList →
      (∀ scope' r', Live records .prefixed scope' r' → scope'.toList <+: topic.toList →
        scope'.toList.length ≤ scope.toList.length) → ScopeRule records topic (some r)
  | uncovered : ¬"__".toList <+: topic.toList → (∀ r', ¬Live records .literal topic r') →
      (∀ scope r', Live records .prefixed scope r' → ¬scope.toList <+: topic.toList) →
      ScopeRule records topic none

/-! ## The registries after a history

A lookup in a registry is the last record under its key, if that record freezes. -/

/-- The live entry of a pattern and scope. -/
def freezeAt (img : MetadataImage) (pattern : PatternType) (scope : String) : Option TopicFreezeRecord :=
  match pattern with
  | .literal => img.freezesLiteral[scope]?
  | .prefixed => img.freezesPrefixed[scope]?

/-- A freeze is stored, a thaw is not. -/
def liveOnly (r : TopicFreezeRecord) : Option TopicFreezeRecord := if r.frozen then some r else none

/-- One freeze record decides its own pair. -/
theorem freezeAt_applyTopicFreeze (img : MetadataImage) (r : TopicFreezeRecord) (pattern : PatternType)
    (scope : String) :
    (img.applyTopicFreeze r).freezeAt pattern scope =
      if r.patternType = pattern ∧ r.scope = scope then liveOnly r else img.freezeAt pattern scope := by
  unfold applyTopicFreeze freezeAt liveOnly
  cases hp : r.patternType <;> cases hf : r.frozen <;> cases pattern <;>
    simp [get_insert, get_erase]

/-- **Step.** A record decides the pair that it names and leaves every other alone. -/
theorem freezeAt_apply (img : MetadataImage) (r : MetadataRecord) :
    (img.apply r).freezeAt pattern scope =
      match freezeOf pattern scope r with
      | some rec => liveOnly rec
      | none => img.freezeAt pattern scope := by
  by_cases hkind : r.kind = .topicFreeze
  · cases r <;> cases hkind
    rename_i rec
    refine (freezeAt_applyTopicFreeze img rec pattern scope).trans ?_
    simp only [freezeOf]
    split <;> rfl
  · have hnone : freezeOf pattern scope r = none := by
      cases r <;> first | rfl | exact (hkind rfl).elim
    have hwrites : ∀ k : RecordKind, k ≠ .topicFreeze →
        Table.freezesLiteral ∉ k.writes ∧ Table.freezesPrefixed ∉ k.writes := by
      intro k hk
      cases k <;> first | decide | exact absurd rfl hk
    have hliteral : (img.apply r).freezesLiteral = img.freezesLiteral :=
      apply_frame img r (hwrites r.kind hkind).1
    have hprefixed : (img.apply r).freezesPrefixed = img.freezesPrefixed :=
      apply_frame img r (hwrites r.kind hkind).2
    rw [hnone]
    unfold freezeAt
    rw [hliteral, hprefixed]

theorem lastFreeze_cons (r : MetadataRecord) :
    lastFreeze (r :: records) pattern scope =
      (lastFreeze records pattern scope).or (freezeOf pattern scope r) := by
  unfold lastFreeze
  rw [List.filterMap_cons]
  cases freezeOf pattern scope r with
  | none => exact (Option.or_none).symm
  | some rec =>
      rw [List.getLast?_cons]
      cases (records.filterMap (freezeOf pattern scope)).getLast? <;> rfl

/-- **Run.** The last record of a pair decides it. -/
theorem freezeAt_foldl (img : MetadataImage) :
    (records.foldl apply img).freezeAt pattern scope =
      match lastFreeze records pattern scope with
      | some rec => liveOnly rec
      | none => img.freezeAt pattern scope := by
  induction records generalizing img with
  | nil => rfl
  | cons r rest ih =>
      rw [List.foldl_cons, ih, lastFreeze_cons, freezeAt_apply]
      cases lastFreeze rest pattern scope with
      | none => rfl
      | some rec => rfl

/-- The registries of an image hold the live pairs of its history. -/
theorem freezeAt_eq_some_iff {clusterId : Uuid} {r : TopicFreezeRecord} :
    (records.foldl apply (new clusterId)).freezeAt pattern scope = some r ↔
      Live records pattern scope r := by
  have hnew : (new clusterId).freezeAt pattern scope = none := by
    cases pattern <;> exact get_empty scope
  rw [freezeAt_foldl, hnew]
  unfold Live liveOnly
  cases lastFreeze records pattern scope with
  | none => simp
  | some rec =>
      rw [Option.ite_none_right_eq_some, Option.some.injEq]
      constructor
      · rintro ⟨hfrozen, rfl⟩
        exact ⟨rfl, hfrozen⟩
      · rintro ⟨rfl, hfrozen⟩
        exact ⟨hfrozen, rfl⟩

/-! ## The reader follows the rule

The longest prefix that is frozen is the first that is met on the way down. -/

/-- The test for two empty registries only saves the walk. -/
theorem topicFreeze_eq (img : MetadataImage) (topic : String) :
    img.topicFreeze topic =
      if internalTopic topic then none
      else match img.freezesLiteral[topic]? with
        | some freeze => some freeze
        | none => ((rangeToRev img.freezesPrefixed topic).find? (fun e => startsWith topic e.1)).map (·.2) := by
  unfold topicFreeze
  split
  · rename_i hempty
    rw [Bool.and_eq_true] at hempty
    have hwalk : (rangeToRev img.freezesPrefixed topic).find? (fun e => startsWith topic e.1) = none := by
      refine find?_rangeToRev_eq_none_iff.mpr fun k hk => ?_
      obtain ⟨r, hr⟩ := mem_iff_get.mp hk
      rw [isEmpty_iff_get.mp hempty.2 k] at hr
      cases hr
    rw [isEmpty_iff_get.mp hempty.1 topic, hwalk]
    split <;> rfl
  · rfl

/-- The rule over the registries of an image, which hold the live pairs. -/
theorem scopeRule_iff {img : MetadataImage}
    (h : ∀ pattern scope r, img.freezeAt pattern scope = some r ↔ Live records pattern scope r)
    (o : Option TopicFreezeRecord) : ScopeRule records topic o ↔ img.topicFreeze topic = o := by
  have hliteral : ∀ r, img.freezesLiteral[topic]? = some r ↔ Live records .literal topic r :=
    fun r => h .literal topic r
  have hprefixed : ∀ scope r, img.freezesPrefixed[scope]? = some r ↔ Live records .prefixed scope r :=
    fun scope r => h .prefixed scope r
  have hmem : ∀ scope, scope ∈ img.freezesPrefixed ↔ ∃ r, Live records .prefixed scope r := by
    intro scope
    rw [mem_iff_get]
    exact exists_congr (hprefixed scope)
  have hinternal : internalTopic topic = true ↔ "__".toList <+: topic.toList := startsWith_iff
  rw [topicFreeze_eq]
  constructor
  · intro hrule
    cases hrule with
    | internal hi => rw [if_pos (hinternal.mpr hi)]
    | literal hi hlive =>
        rw [if_neg (fun hc => hi (hinternal.mp hc)), (hliteral _).mpr hlive]
    | longestPrefix hi hno hlive hpre hmax =>
        rename_i scope r
        have hnone : img.freezesLiteral[topic]? = none := by
          rw [Option.eq_none_iff_forall_ne_some]
          exact fun r' hr' => hno r' ((hliteral r').mp hr')
        have hwalk : (rangeToRev img.freezesPrefixed topic).find? (fun e => startsWith topic e.1) =
            some (scope, r) := by
          refine find?_rangeToRev_eq_some_iff.mpr ⟨(hprefixed scope r).mpr hlive, hpre, ?_⟩
          intro scope' hscope' hpre'
          obtain ⟨r', hr'⟩ := (hmem scope').mp hscope'
          exact hmax scope' r' hr' hpre'
        rw [if_neg (fun hc => hi (hinternal.mp hc)), hnone, hwalk]
        rfl
    | uncovered hi hno hnopre =>
        have hnone : img.freezesLiteral[topic]? = none := by
          rw [Option.eq_none_iff_forall_ne_some]
          exact fun r' hr' => hno r' ((hliteral r').mp hr')
        have hwalk : (rangeToRev img.freezesPrefixed topic).find? (fun e => startsWith topic e.1) = none := by
          refine find?_rangeToRev_eq_none_iff.mpr fun scope hscope => ?_
          obtain ⟨r', hr'⟩ := (hmem scope).mp hscope
          exact hnopre scope r' hr'
        rw [if_neg (fun hc => hi (hinternal.mp hc)), hnone, hwalk]
        rfl
  · rintro rfl
    by_cases hi : internalTopic topic = true
    · rw [if_pos hi]
      exact .internal (hinternal.mp hi)
    · rw [if_neg hi]
      have hi' : ¬"__".toList <+: topic.toList := fun hc => hi (hinternal.mpr hc)
      cases hl : img.freezesLiteral[topic]? with
      | some r => exact .literal hi' ((hliteral r).mp hl)
      | none =>
          have hno : ∀ r', ¬Live records .literal topic r' := by
            intro r' hlive
            rw [(hliteral r').mpr hlive] at hl
            cases hl
          simp only []
          cases hwalk : (rangeToRev img.freezesPrefixed topic).find? (fun e => startsWith topic e.1) with
          | none =>
              refine .uncovered hi' hno fun scope r' hlive => ?_
              exact find?_rangeToRev_eq_none_iff.mp hwalk scope ((hmem scope).mpr ⟨r', hlive⟩)
          | some e =>
              obtain ⟨scope, r⟩ := e
              obtain ⟨hget, hpre, hmax⟩ := find?_rangeToRev_eq_some_iff.mp hwalk
              refine .longestPrefix hi' hno ((hprefixed scope r).mp hget) hpre ?_
              intro scope' r' hlive hpre'
              exact hmax scope' ((hmem scope').mpr ⟨r', hlive⟩) hpre'

/-- **`topic_freeze` is the scope rule of the history**: what the rule gives, and nothing else. -/
theorem topicFreeze_scopeRule (clusterId : Uuid) (records : List MetadataRecord) (topic : String)
    (o : Option TopicFreezeRecord) :
    ScopeRule records topic o ↔ (records.foldl apply (new clusterId)).topicFreeze topic = o :=
  scopeRule_iff (fun _ _ _ => freezeAt_eq_some_iff) o

end MetadataImage

end Krabka.Metadata
