import MemEC.Server.ParityRun
import MemEC.Server.ServerBackup

/-!
# Reverting updates

Reverting some updates after a run has to give what the run gives without
them. To revert an update is to apply it once more, so a run with reverted
updates behind it is tracked by the same ledger as any other run.
-/

namespace MemEC.Server

open MemEC.Lib MemEC.Common KeyValue

/-! ## The entries that are removed -/

/-- The request names the delta. -/
def DeltaTag.named (timestamps : List ℕ) (targetId : ℕ) (tag : DeltaTag) : Bool :=
  tag.dataServerId = targetId && tag.timestamp ∈ timestamps

namespace ParityUpdate

/-- `removeParityUpdate` goes over the timestamp. -/
def inRange (endWord : ℕ) (timestamps : List ℕ) (timestamp : ℕ) : Bool :=
  let fromTimestamp := timestamps.min?.getD endWord
  if endWord < fromTimestamp then fromTimestamp ≤ timestamp || timestamp ≤ endWord
  else fromTimestamp ≤ timestamp && timestamp ≤ endWord

theorem removeParityUpdate_eq (endWord : ℕ) (map : ParityUpdate) (timestamps : List ℕ)
    (dataServerId : ℕ) :
    let taken := fun d : BackupDelta =>
      inRange endWord timestamps d.timestamp && removes timestamps dataServerId d
    (map.removeParityUpdate endWord timestamps dataServerId).1.entries =
        map.entries.filter (fun d => !taken d) ∧
      (map.removeParityUpdate endWord timestamps dataServerId).2.Perm
        (map.entries.filter taken) := by
  intro taken
  exact map.removeInterval_eq (timestamps.min?.getD endWord) endWord
    (removes timestamps dataServerId)

/-- What is read behind the set does not cut off a delta that is named, and when the set is empty,
is not the timestamp of a delta of the server. -/
def ReadsFar (endWord : ℕ) (timestamps : List ℕ) (targetId : ℕ) (tags : List DeltaTag) : Prop :=
  (∀ tag ∈ tags, tag.named timestamps targetId = true →
      tag.timestamp ≤ endWord ∨ ∀ t ∈ timestamps, endWord < t) ∧
    (timestamps = [] → ∀ tag ∈ tags, tag.dataServerId = targetId → tag.timestamp ≠ endWord)

/-- The first of some timestamps. -/
theorem min?_spec {timestamps : List ℕ} {t : ℕ} (ht : t ∈ timestamps) (endWord : ℕ) :
    timestamps.min?.getD endWord ∈ timestamps ∧
      ∀ t ∈ timestamps, timestamps.min?.getD endWord ≤ t := by
  cases hmin : timestamps.min? with
  | none =>
    rw [List.min?_eq_none_iff.mp hmin] at ht
    cases ht
  | some first => exact List.min?_eq_some_iff.mp hmin

/-- A delta that is named is in the range unless what is read behind the set cuts it off. -/
theorem inRange_iff {timestamps : List ℕ} {t : ℕ} (ht : t ∈ timestamps) (endWord : ℕ) :
    inRange endWord timestamps t = true ↔ t ≤ endWord ∨ ∀ t ∈ timestamps, endWord < t := by
  obtain ⟨hmem, hle⟩ := min?_spec ht endWord
  have hfirst := hle t ht
  have hwrapped : (∀ t ∈ timestamps, endWord < t) ↔ endWord < timestamps.min?.getD endWord := by
    constructor
    · exact fun h => h _ hmem
    · exact fun h t ht => h.trans_le (hle t ht)
  rw [hwrapped]
  simp only [inRange]
  split_ifs with h
  · simp only [hfirst, decide_true, Bool.true_or, h, or_true]
  · simp only [hfirst, decide_true, Bool.true_and, decide_eq_true_eq, h, or_false]

theorem removes_eq {timestamps : List ℕ} {targetId : ℕ} (hid : targetId ≠ 0) (d : BackupDelta) :
    removes timestamps targetId d =
      (decide (d.dataServerId = targetId) &&
        (timestamps.isEmpty || decide (d.timestamp ∈ timestamps))) := by
  simp [removes, hid, Bool.not_and, Bool.not_or]

/-- The entries that are removed are those that the request names. -/
theorem taken_eq_named_iff {endWord : ℕ} {timestamps : List ℕ} {targetId : ℕ} (hid : targetId ≠ 0)
    (ds : List BackupDelta) :
    (∀ d ∈ ds, (inRange endWord timestamps d.timestamp && removes timestamps targetId d) =
      d.named timestamps targetId) ↔
      ReadsFar endWord timestamps targetId (ds.map BackupDelta.toDeltaTag) := by
  cases timestamps with
  | nil =>
    have htaken : ∀ d : BackupDelta, (inRange endWord [] d.timestamp && removes [] targetId d) =
        decide (d.dataServerId = targetId ∧ d.timestamp = endWord) := by
      intro d
      have hrange : inRange endWord [] d.timestamp = decide (d.timestamp = endWord) := by
        have hunfold : inRange endWord [] d.timestamp =
            if endWord < endWord then endWord ≤ d.timestamp || d.timestamp ≤ endWord
            else endWord ≤ d.timestamp && d.timestamp ≤ endWord := rfl
        rw [hunfold, if_neg (lt_irrefl endWord), ← Bool.decide_and]
        exact decide_eq_decide.mpr ⟨fun h => by omega, fun h => by omega⟩
      rw [hrange, removes_eq hid, List.isEmpty_nil, Bool.true_or, Bool.and_true, Bool.and_comm,
        ← Bool.decide_and]
    have hnamed : ∀ d : BackupDelta, d.named [] targetId = false := by
      intro d
      simp [DeltaTag.named]
    constructor
    · intro h
      constructor
      · intro tag htag
        simp [DeltaTag.named]
      · intro _ tag htag hserver htimestamp
        obtain ⟨d, hd, rfl⟩ := List.mem_map.mp htag
        have heq := h d hd
        rw [htaken, hnamed] at heq
        exact of_decide_eq_false heq ⟨hserver, htimestamp⟩
    · intro h d hd
      rw [htaken, hnamed]
      apply decide_eq_false
      rintro ⟨hserver, htimestamp⟩
      exact h.2 rfl _ (List.mem_map_of_mem hd) hserver htimestamp
  | cons t ts =>
    have htaken : ∀ d : BackupDelta, removes (t :: ts) targetId d = d.named (t :: ts) targetId := by
      intro d
      rw [removes_eq hid]
      rfl
    have hmem : ∀ d : BackupDelta, d.named (t :: ts) targetId = true → d.timestamp ∈ t :: ts := by
      intro d hd
      rw [DeltaTag.named, Bool.and_eq_true] at hd
      exact of_decide_eq_true hd.2
    constructor
    · intro h
      refine ⟨?_, fun hnil => by cases hnil⟩
      intro tag htag hnamed
      obtain ⟨d, hd, rfl⟩ := List.mem_map.mp htag
      have heq := h d hd
      rw [htaken, hnamed, Bool.and_true] at heq
      exact (inRange_iff (hmem d hnamed) endWord).mp heq
    · intro h d hd
      rw [htaken]
      cases hnamed : d.named (t :: ts) targetId with
      | false => exact Bool.and_false _
      | true =>
        rw [Bool.and_true]
        exact (inRange_iff (hmem d hnamed) endWord).mpr
          (h.1 _ (List.mem_map_of_mem hd) hnamed)

theorem filter_eq_filter_iff {α : Type} {l : List α} {p q : α → Bool} :
    l.filter p = l.filter q ↔ ∀ a ∈ l, p a = q a := by
  constructor
  · intro h a ha
    have hiff : p a = true ↔ q a = true := by
      have hmem : a ∈ l.filter p ↔ a ∈ l.filter q := by rw [h]
      rwa [List.mem_filter, List.mem_filter, and_iff_right ha, and_iff_right ha] at hmem
    exact Bool.eq_iff_iff.mpr hiff
  · exact List.filter_congr

/-- The backup keeps all that the request does not name. -/
theorem kept_iff {endWord : ℕ} {timestamps : List ℕ} {targetId : ℕ} (hid : targetId ≠ 0)
    (map : ParityUpdate) :
    (map.removeParityUpdate endWord timestamps targetId).1.entries =
      map.entries.filter (fun d => !d.named timestamps targetId) ↔
      ReadsFar endWord timestamps targetId (map.entries.map BackupDelta.toDeltaTag) := by
  rw [(removeParityUpdate_eq endWord map timestamps targetId).1, filter_eq_filter_iff,
    ← taken_eq_named_iff hid]
  constructor
  · exact fun h d hd => Bool.not_inj (h d hd)
  · exact fun h d hd => congrArg _ (h d hd)

/-- What is removed, if the backup keeps all else. -/
theorem ReadsFar.removed {endWord : ℕ} {timestamps : List ℕ} {targetId : ℕ} (hid : targetId ≠ 0)
    {map : ParityUpdate}
    (h : ReadsFar endWord timestamps targetId (map.entries.map BackupDelta.toDeltaTag)) :
    (map.removeParityUpdate endWord timestamps targetId).2.Perm
      (map.entries.filter fun d => d.named timestamps targetId) := by
  have hperm := (removeParityUpdate_eq endWord map timestamps targetId).2
  rwa [List.filter_congr ((taken_eq_named_iff hid map.entries).mpr h)] at hperm

end ParityUpdate

end MemEC.Server
