import MemEC.Server.DataBackup

/-!
# Backups between two timestamps

The searches and the removals between two timestamps go from the first one
forward to the last one. Past the greatest timestamp they go on with the
smallest one.
-/

namespace MemEC.Server

open MemEC.Lib

/-- `findDataUpdate` and `findDataDelete`. -/
def DataBackup.findData (b : DataBackup) (op : BackupOp) (first last : ℕ) : List DataDelta :=
  (b.delta op).findInterval first last

/-- `findParityUpdate` and `findParityDelete`. -/
def ParityUpdate.findParity (map : ParityUpdate) (first last : ℕ) : List BackupDelta :=
  Multimap.findInterval map first last

/-- The steps from one timestamp forward to another one. -/
def forward (first t : ℕ) : ℕ := (t + 2 ^ 32 - first) % 2 ^ 32

/-- The timestamp is passed on the way, the ends included. -/
def InCycle (first last t : ℕ) : Prop := forward first t ≤ forward first last

instance (first last t : ℕ) : Decidable (InCycle first last t) :=
  inferInstanceAs (Decidable (_ ≤ _))

theorem forward_of_le {first t : ℕ} (h : first ≤ t) (ht : t < 2 ^ 32) :
    forward first t = t - first := by
  have hsum : t + 2 ^ 32 - first = t - first + 2 ^ 32 := Nat.sub_add_comm h
  rw [forward, hsum, Nat.add_mod_right, Nat.mod_eq_of_lt (by omega)]

theorem forward_of_lt {first t : ℕ} (h : t < first) : forward first t = t + 2 ^ 32 - first :=
  Nat.mod_eq_of_lt (by omega)

theorem inInterval_iff {first last t : ℕ} (hfirst : first < 2 ^ 32) (hlast : last < 2 ^ 32)
    (ht : t < 2 ^ 32) : Multimap.inInterval first last t = true ↔ InCycle first last t := by
  rw [InCycle]
  by_cases hwrapped : last < first
  · rw [Multimap.inInterval, if_pos hwrapped, Bool.or_eq_true, decide_eq_true_eq,
      decide_eq_true_eq, forward_of_lt hwrapped]
    by_cases hge : first ≤ t
    · rw [forward_of_le hge ht]
      omega
    · rw [forward_of_lt (not_le.mp hge)]
      omega
  · rw [Multimap.inInterval, if_neg hwrapped, Bool.and_eq_true, decide_eq_true_eq,
      decide_eq_true_eq, forward_of_le (not_lt.mp hwrapped) hlast]
    by_cases hge : first ≤ t
    · rw [forward_of_le hge ht]
      omega
    · rw [forward_of_lt (not_le.mp hge)]
      omega

/-- The delta is from the data server. `0` is no server and stands for all of them. -/
def BackupDelta.IsFrom (dataServerId : ℕ) (d : BackupDelta) : Prop :=
  dataServerId = 0 ∨ d.dataServerId = dataServerId

instance (dataServerId : ℕ) (d : BackupDelta) : Decidable (d.IsFrom dataServerId) :=
  inferInstanceAs (Decidable (_ ∨ _))

theorem removes_nil_iff {dataServerId : ℕ} {d : BackupDelta} :
    ParityUpdate.removes [] dataServerId d = true ↔ d.IsFrom dataServerId := by
  by_cases hzero : dataServerId = 0 <;> simp [ParityUpdate.removes, BackupDelta.IsFrom, hzero]

/-- What a search returns are the entries on the way, each once. -/
theorem findInterval_perm_inCycle {α : Type} {timestamp : α → ℕ} (map : Multimap timestamp)
    (first last : Fin (2 ^ 32)) (h : ∀ d ∈ map.entries, timestamp d < 2 ^ 32) :
    (map.findInterval first.val last.val).Perm
      (map.entries.filter fun d => InCycle first.val last.val (timestamp d)) := by
  refine (map.findInterval_perm first.val last.val).trans (List.Perm.of_eq ?_)
  refine List.filter_congr fun d hd => ?_
  rw [Bool.eq_iff_iff, inInterval_iff first.isLt last.isLt (h d hd), decide_eq_true_eq]

/-- A search returns the entries on the way, and a removal takes out those of them that are from
the data server and leaves all others where they are. -/
theorem betweenTimestamps (b : DataBackup) (op : BackupOp) (map : ParityUpdate)
    (first last : Fin (2 ^ 32)) (dataServerId : ℕ)
    (hdata : ∀ d ∈ (b.delta op).entries, d.timestamp < 2 ^ 32)
    (hparity : ∀ d ∈ map.entries, d.timestamp < 2 ^ 32) :
    (b.findData op first.val last.val).Perm
        ((b.delta op).entries.filter fun d => InCycle first.val last.val d.timestamp) ∧
      (map.findParity first.val last.val).Perm
        (map.entries.filter fun d => InCycle first.val last.val d.timestamp) ∧
      (map.removeInterval first.val last.val dataServerId).1.entries =
        map.entries.filter (fun d =>
          ¬ (InCycle first.val last.val d.timestamp ∧ d.IsFrom dataServerId)) ∧
      (map.removeInterval first.val last.val dataServerId).2.Perm
        (map.entries.filter fun d =>
          InCycle first.val last.val d.timestamp ∧ d.IsFrom dataServerId) := by
  obtain ⟨hkept, htaken⟩ := Multimap.removeInterval_eq map first.val last.val
    (ParityUpdate.removes [] dataServerId)
  have hcond : ∀ d ∈ map.entries,
      (Multimap.inInterval first.val last.val d.timestamp &&
        ParityUpdate.removes [] dataServerId d) =
          decide (InCycle first.val last.val d.timestamp ∧ d.IsFrom dataServerId) := by
    intro d hd
    rw [Bool.eq_iff_iff, Bool.and_eq_true, decide_eq_true_eq, removes_nil_iff,
      inInterval_iff first.isLt last.isLt (hparity d hd)]
  refine ⟨findInterval_perm_inCycle _ first last hdata,
    findInterval_perm_inCycle map first last hparity, ?_, ?_⟩
  · rw [ParityUpdate.removeInterval, hkept]
    refine List.filter_congr fun d hd => ?_
    rw [hcond d hd, decide_not]
  · rw [ParityUpdate.removeInterval]
    refine htaken.trans (List.Perm.of_eq ?_)
    exact List.filter_congr hcond

/-- Three deltas of two data servers, where the interval from the second one goes past the
greatest timestamp. -/
def wrappedBackup : ParityUpdate :=
  ((Multimap.empty.insert ⟨⟨1, 4, 7⟩, [117], [1], 0, 0, ⟨0, 0, 0⟩, false⟩).insert
    ⟨⟨2, 5, 3⟩, [118], [2], 0, 0, ⟨0, 0, 0⟩, false⟩).insert
    ⟨⟨3, 4, 4294967295⟩, [119], [3], 0, 0, ⟨0, 0, 0⟩, false⟩

/-- A data server with one delta, at the greatest timestamp. -/
def wrappedData : DataBackup :=
  DataBackup.empty.setDelta .update (Multimap.empty.insert
    (DataInsert.delta ⟨4294967295, [120], [121], ⟨0, 0, 0⟩, false, 0, 0, 1, 9, 7⟩))

theorem betweenTimestamps_wrappedBackup :
    (wrappedData.findData .update 4294967295 3).Perm
        ((wrappedData.delta .update).entries.filter fun d => InCycle 4294967295 3 d.timestamp) ∧
      (wrappedBackup.findParity 4294967295 3).Perm
        (wrappedBackup.entries.filter fun d => InCycle 4294967295 3 d.timestamp) ∧
      (wrappedBackup.removeInterval 4294967295 3 4).1.entries =
        wrappedBackup.entries.filter (fun d => ¬ (InCycle 4294967295 3 d.timestamp ∧
          d.IsFrom 4)) ∧
      (wrappedBackup.removeInterval 4294967295 3 4).2.Perm
        (wrappedBackup.entries.filter fun d => InCycle 4294967295 3 d.timestamp ∧ d.IsFrom 4) :=
  betweenTimestamps wrappedData .update wrappedBackup 4294967295 3 4 (by decide +kernel)
    (by decide +kernel)

end MemEC.Server
