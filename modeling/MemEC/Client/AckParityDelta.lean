import Mathlib.Data.Prod.Lex
import MemEC.Client.Pending
import MemEC.Server.ServerBackup

/-!
# Acknowledging parity deltas

From time to time a client tells the parity servers up to which timestamp the
deltas of a data server will not be reverted any more. The interval starts at
the timestamp that was acknowledged last and has to stop short of every UPDATE
and DELETE that is still pending.

The end of the interval is the current timestamp unless an UPDATE is pending,
whatever DELETEs are, so the interval is right under a condition only.
-/

namespace MemEC.Client

open MemEC.Lib MemEC.Common MemEC.Server

/-- `std::multiset<std::pair<Timestamp, uint32_t>>`: timestamps with the IDs of the requests of the
applications. -/
abbrev PendingAckSet := Multimap fun e : TimestampValue × ℕ => toLex e

/-- `ServerSocket::timestamp`. -/
structure ServerTimestamps where
  current : TimestampValue
  lastAck : TimestampValue
  pendingUpdate : PendingAckSet
  pendingDel : PendingAckSet

/-- `Timestamp::operator-`, where `-1` is `UINT32_MAX`. -/
def timestampSub (a b : TimestampValue) : TimestampValue :=
  if a < b then a - b + -1 else a - b

/-- The value before the smallest timestamp that is pending. -/
def PendingAckSet.beforeFirst (m : PendingAckSet) (toTimestamp : TimestampValue) : TimestampValue :=
  match m.entries with
  | [] => toTimestamp
  | e :: _ => e.1 - 1

namespace ServerTimestamps

variable (s : ServerTimestamps)

/-- The end of the interval. -/
def ackTo : TimestampValue :=
  let toTimestamp := s.current
  let update := s.pendingUpdate.beforeFirst toTimestamp
  let del := s.pendingDel.beforeFirst toTimestamp
  if update < toTimestamp then (if del < update then del else update) else toTimestamp

/-- `Client::ackParityDelta` for one server: the interval that is sent, and the new state. -/
def ackParityDelta (ackBatchSize : TimestampValue) (force : Bool) :
    Option (TimestampValue × TimestampValue) × ServerTimestamps :=
  -- check the threshold is reached
  if !force && timestampSub s.ackTo s.lastAck < ackBatchSize then (none, s)
  else (some (s.lastAck, s.ackTo), { s with lastAck := s.ackTo })

end ServerTimestamps

/-- What a parity server has backed up for a client: `parityUpdate` and `parityDelete`. -/
structure ParityBackup where
  parityUpdate : ParityUpdate
  parityDelete : ParityUpdate

/-- `ServerWorker::handleAckParityDeltaBackup`. -/
def ParityBackup.handleAckParityDeltaBackup (b : ParityBackup) (timestamps : List TimestampValue)
    (targetId : ℕ) : ParityBackup :=
  match timestamps with
  | [fromTimestamp, toTimestamp] =>
    { parityUpdate := (b.parityUpdate.removeInterval fromTimestamp toTimestamp targetId).1
      parityDelete := (b.parityDelete.removeInterval fromTimestamp toTimestamp targetId).1 }
  | _ => b

/-! ## What an interval covers -/

/-- `t` is in the interval, which goes through `0` when it ends below its start. -/
def Covers (fromTimestamp toTimestamp t : TimestampValue) : Prop :=
  Multimap.inInterval fromTimestamp.val toTimestamp.val t.val = true

theorem covers_iff {fromTimestamp toTimestamp t : TimestampValue} :
    Covers fromTimestamp toTimestamp t ↔
    (toTimestamp.val < fromTimestamp.val ∧ (fromTimestamp.val ≤ t.val ∨ t.val ≤ toTimestamp.val)) ∨
      (fromTimestamp.val ≤ t.val ∧ t.val ≤ toTimestamp.val) := by
  unfold Covers Multimap.inInterval
  split_ifs with h
  · rw [Bool.or_eq_true, decide_eq_true_eq, decide_eq_true_eq]
    omega
  · rw [Bool.and_eq_true, decide_eq_true_eq, decide_eq_true_eq]
    omega

/-- The entries of the data server that the interval covers are removed, and no others. -/
theorem mem_removeInterval {map : ParityUpdate} {fromTimestamp toTimestamp : TimestampValue}
    {sid : ℕ}
    {d : BackupDelta} : d ∈ (map.removeInterval fromTimestamp toTimestamp sid).1.entries ↔
      d ∈ map.entries ∧ (Multimap.inInterval fromTimestamp.val toTimestamp.val d.timestamp = true →
        sid ≠ 0 ∧ d.dataServerId ≠ sid) := by
  rw [ParityUpdate.removeInterval, (Multimap.removeInterval_eq map _ _ _).1, List.mem_filter]
  cases Multimap.inInterval fromTimestamp.val toTimestamp.val d.timestamp <;>
    simp [ParityUpdate.removes]

/-! ## The pending timestamps -/

namespace ServerTimestamps

variable (s : ServerTimestamps)

def UpdatePending (t : TimestampValue) : Prop := ∃ e ∈ s.pendingUpdate.entries, e.1 = t

def DelPending (t : TimestampValue) : Prop := ∃ e ∈ s.pendingDel.entries, e.1 = t

def Pending (t : TimestampValue) : Prop := s.UpdatePending t ∨ s.DelPending t

/-- Nothing that is pending is in the interval. -/
def Spares (fromTimestamp toTimestamp : TimestampValue) : Prop :=
  ∀ t, s.Pending t → ¬ Covers fromTimestamp toTimestamp t

/-- No parity server loses the delta of a request that is pending. -/
def KeepsBackups (fromTimestamp toTimestamp : TimestampValue) : Prop :=
  ∀ (b : ParityBackup) (sid : ℕ) (t : TimestampValue) (d : BackupDelta), s.Pending t →
    d.timestamp = t.val →
    (d ∈ b.parityUpdate.entries →
      d ∈ (b.handleAckParityDeltaBackup [fromTimestamp, toTimestamp] sid).parityUpdate.entries) ∧
    (d ∈ b.parityDelete.entries →
      d ∈ (b.handleAckParityDeltaBackup [fromTimestamp, toTimestamp] sid).parityDelete.entries)

/-- When the interval is right. With a pending UPDATE whose timestamp is neither `0` nor above the
current one, everything pending has to lie on one side of the last acknowledged timestamp; a
pending DELETE with timestamp `0` is overlooked. Else the interval goes up to the current
timestamp. -/
def CanAcknowledge : Prop :=
  match s.pendingUpdate.entries with
  | [] => s.Spares s.lastAck s.current
  | (u, _) :: _ =>
    if 0 < u ∧ u ≤ s.current then
      if s.pendingDel.entries.any fun e => e.1 = 0 then
        0 < s.lastAck ∧ s.lastAck < u ∧ ∀ t, s.DelPending t → t < s.lastAck ∨ u ≤ t
      else (∀ t, s.Pending t → s.lastAck < t) ∨ ∀ t, s.Pending t → t < s.lastAck
    else s.Spares s.lastAck s.current

end ServerTimestamps

theorem PendingAckSet.head_le {m : PendingAckSet} {e : TimestampValue × ℕ}
    {rest : List (TimestampValue × ℕ)} (h : m.entries = e :: rest) :
    ∀ x ∈ m.entries, e.1 ≤ x.1 := by
  intro x hx
  have hsorted := m.sorted
  rw [h] at hx hsorted
  rcases List.mem_cons.mp hx with rfl | hx
  · exact le_rfl
  · have hle := (List.pairwise_cons.mp hsorted).1 x hx
    rcases (Prod.Lex.toLex_le_toLex).mp hle with hlt | ⟨heq, -⟩
    · exact hlt.le
    · exact heq.le

theorem val_sub_one (u : TimestampValue) :
    (u - 1).val = if u.val = 0 then 2 ^ 32 - 1 else u.val - 1 := by
  have h1 : (1 : TimestampValue).val = 1 := rfl
  have hu := u.isLt
  rw [Fin.sub_def, h1]
  dsimp only
  split_ifs with h
  · rw [h]
    rfl
  · omega

namespace ServerTimestamps

variable {s : ServerTimestamps} {fromTimestamp toTimestamp : TimestampValue}

theorem ackParityDelta_some {ackBatchSize : TimestampValue} {force : Bool}
    (h : (s.ackParityDelta ackBatchSize force).1 = some (fromTimestamp, toTimestamp)) :
    fromTimestamp = s.lastAck ∧ toTimestamp = s.ackTo := by
  unfold ackParityDelta at h
  split_ifs at h
  obtain ⟨rfl, rfl⟩ := Prod.mk.inj (Option.some.inj h)
  exact ⟨rfl, rfl⟩

/-- The server with the backup of one delta, of data server `1`. -/
theorem exists_backup (t : TimestampValue) : ∃ d : BackupDelta, d.timestamp = t.val ∧
    d.dataServerId = 1 := ⟨⟨⟨0, 1, t.val⟩, [], [], 0, 0, ⟨0, 0, 0⟩, false⟩, rfl, rfl⟩

theorem keepsBackups_iff :
    s.KeepsBackups fromTimestamp toTimestamp ↔ s.Spares fromTimestamp toTimestamp := by
  constructor
  · intro h t ht hcovers
    obtain ⟨d, htime, hsid⟩ := exists_backup t
    have hd : d ∈ ((Multimap.empty : ParityUpdate).insert d).entries :=
      (Multimap.insertEntry_perm d _).mem_iff.mpr List.mem_cons_self
    have hkept := (h ⟨Multimap.empty.insert d, Multimap.empty⟩ 1 t d ht htime).1 hd
    unfold Covers at hcovers
    rw [← htime] at hcovers
    exact ((mem_removeInterval.mp hkept).2 hcovers).2 hsid
  · intro h b sid t d ht htime
    have hout : ¬ Multimap.inInterval fromTimestamp.val toTimestamp.val d.timestamp = true := by
      rw [htime]
      exact h t ht
    constructor
    · exact fun hd => mem_removeInterval.mpr ⟨hd, fun hin => absurd hin hout⟩
    · exact fun hd => mem_removeInterval.mpr ⟨hd, fun hin => absurd hin hout⟩

/-- An interval that ends before the first timestamp that is pending. -/
theorem spares_beforeFirst {first : TimestampValue} (hfirst : s.Pending first)
    (hmin : ∀ t, s.Pending t → first ≤ t) (hpos : 0 < first.val)
    (hto : toTimestamp.val = first.val - 1) : s.Spares fromTimestamp toTimestamp ↔
      (∀ t, s.Pending t → fromTimestamp < t) ∨ ∀ t, s.Pending t → t < fromTimestamp := by
  constructor
  · intro h
    rcases Nat.lt_or_ge fromTimestamp.val first.val with hlt | hge
    · exact Or.inl fun t ht => Fin.lt_def.mpr (hlt.trans_le (Fin.le_def.mp (hmin t ht)))
    · refine Or.inr fun t ht => ?_
      have hout := h t ht
      rw [covers_iff] at hout
      rw [Fin.lt_def]
      omega
  · rintro (h | h) t ht hcovers
    · have hlt := Fin.lt_def.mp (h t ht)
      have hlt' := Fin.lt_def.mp (h first hfirst)
      have hle := Fin.le_def.mp (hmin t ht)
      rw [covers_iff] at hcovers
      omega
    · have hlt := Fin.lt_def.mp (h t ht)
      have hle := Fin.le_def.mp (hmin t ht)
      rw [covers_iff] at hcovers
      omega

/-- An interval that ends before the first UPDATE, with a DELETE pending at `0`. -/
theorem spares_beforeUpdate {first : TimestampValue} (hmin : ∀ t, s.UpdatePending t → first ≤ t)
    (hpos : 0 < first.val) (hzero : s.DelPending 0) (hto : toTimestamp.val = first.val - 1) :
    s.Spares fromTimestamp toTimestamp ↔ 0 < fromTimestamp ∧ fromTimestamp < first ∧
      ∀ t, s.DelPending t → t < fromTimestamp ∨ first ≤ t := by
  have hval : (0 : TimestampValue).val = 0 := rfl
  constructor
  · intro h
    have hout := h 0 (Or.inr hzero)
    rw [covers_iff, hval] at hout
    refine ⟨?_, ?_, fun t ht => ?_⟩
    · rw [Fin.lt_def, hval]
      omega
    · rw [Fin.lt_def]
      omega
    · have hout' := h t (Or.inr ht)
      rw [covers_iff] at hout'
      rw [Fin.lt_def, Fin.le_def]
      omega
  · rintro ⟨hlow, hhigh, hdel⟩ t ht hcovers
    rw [Fin.lt_def, hval] at hlow
    rw [Fin.lt_def] at hhigh
    rw [covers_iff] at hcovers
    rcases ht with ht | ht
    · have hle := Fin.le_def.mp (hmin t ht)
      omega
    · rcases hdel t ht with hlt | hge
      · have hlt' := Fin.lt_def.mp hlt
        omega
      · have hge' := Fin.le_def.mp hge
        omega

theorem updatePending_head {e : TimestampValue × ℕ} {rest : List (TimestampValue × ℕ)}
    (h : s.pendingUpdate.entries = e :: rest) :
    s.UpdatePending e.1 ∧ ∀ t, s.UpdatePending t → e.1 ≤ t := by
  constructor
  · exact ⟨e, h ▸ List.mem_cons_self, rfl⟩
  · rintro t ⟨x, hx, rfl⟩
    exact PendingAckSet.head_le h x hx

theorem delPending_head {e : TimestampValue × ℕ} {rest : List (TimestampValue × ℕ)}
    (h : s.pendingDel.entries = e :: rest) :
    s.DelPending e.1 ∧ ∀ t, s.DelPending t → e.1 ≤ t := by
  constructor
  · exact ⟨e, h ▸ List.mem_cons_self, rfl⟩
  · rintro t ⟨x, hx, rfl⟩
    exact PendingAckSet.head_le h x hx

/-- No DELETE is pending: the interval ends before the first UPDATE. -/
theorem spares_ackTo_of_nil {u : TimestampValue} (hu : s.UpdatePending u)
    (hmin : ∀ t, s.UpdatePending t → u ≤ t) (hpos : 0 < u.val) (hlt : u - 1 < s.current)
    (hto : s.ackTo = if s.pendingDel.beforeFirst s.current < u - 1 then
      s.pendingDel.beforeFirst s.current else u - 1) (hdel : s.pendingDel.entries = []) :
    s.Spares s.lastAck s.ackTo ↔
      (∀ t, s.Pending t → s.lastAck < t) ∨ ∀ t, s.Pending t → t < s.lastAck := by
  have hpred := val_sub_one u
  have hnone : ∀ t, ¬ s.DelPending t := by
    rintro t ⟨x, hx, -⟩
    rw [hdel] at hx
    cases hx
  have hcurrent : s.pendingDel.beforeFirst s.current = s.current := by
    simp only [PendingAckSet.beforeFirst, hdel]
  rw [if_neg hpos.ne'] at hpred
  rw [hcurrent, if_neg hlt.le.not_gt] at hto
  apply spares_beforeFirst (Or.inl hu) _ hpos (hto ▸ hpred)
  exact fun t ht => ht.elim (hmin t) fun ht => absurd ht (hnone t)

/-- A DELETE is pending: the interval ends before the first of the two, but `0` is overlooked. -/
theorem spares_ackTo_of_cons {u d : TimestampValue} (hu : s.UpdatePending u)
    (hmin : ∀ t, s.UpdatePending t → u ≤ t) (hpos : 0 < u.val)
    (hto : s.ackTo = if d - 1 < u - 1 then d - 1 else u - 1) (hd : s.DelPending d)
    (hmin' : ∀ t, s.DelPending t → d ≤ t) : s.Spares s.lastAck s.ackTo ↔
      if d.val = 0 then
        0 < s.lastAck ∧ s.lastAck < u ∧ ∀ t, s.DelPending t → t < s.lastAck ∨ u ≤ t
      else (∀ t, s.Pending t → s.lastAck < t) ∨ ∀ t, s.Pending t → t < s.lastAck := by
  have hpred := val_sub_one u
  have hpred' := val_sub_one d
  rw [if_neg hpos.ne'] at hpred
  by_cases hzero : d.val = 0
  · rw [if_pos hzero] at hpred' ⊢
    have hnot : ¬ d - 1 < u - 1 := by
      have hult := u.isLt
      rw [Fin.lt_def]
      omega
    have hd0 : d = 0 := Fin.ext hzero
    rw [if_neg hnot] at hto
    exact spares_beforeUpdate hmin hpos (hd0 ▸ hd) (hto ▸ hpred)
  · rw [if_neg hzero] at hpred' ⊢
    by_cases hbefore : d - 1 < u - 1
    · rw [if_pos hbefore] at hto
      rw [Fin.lt_def] at hbefore
      apply spares_beforeFirst (Or.inr hd) _ (Nat.pos_of_ne_zero hzero) (hto ▸ hpred')
      rintro t (ht | ht)
      · have hut := Fin.le_def.mp (hmin t ht)
        rw [Fin.le_def]
        omega
      · exact hmin' t ht
    · rw [if_neg hbefore] at hto
      rw [Fin.lt_def] at hbefore
      apply spares_beforeFirst (Or.inl hu) _ hpos (hto ▸ hpred)
      rintro t (ht | ht)
      · exact hmin t ht
      · have hdt := Fin.le_def.mp (hmin' t ht)
        rw [Fin.le_def]
        omega

theorem spares_ackTo : s.Spares s.lastAck s.ackTo ↔ s.CanAcknowledge := by
  unfold CanAcknowledge
  cases hupdate : s.pendingUpdate.entries with
  | nil =>
    have hto : s.ackTo = s.current := by
      simp only [ackTo, PendingAckSet.beforeFirst, hupdate, lt_self_iff_false, if_false]
    rw [hto]
  | cons e rest =>
    obtain ⟨u, id⟩ := e
    obtain ⟨hu, hmin⟩ := updatePending_head hupdate
    have hfirst : s.pendingUpdate.beforeFirst s.current = u - 1 := by
      simp only [PendingAckSet.beforeFirst, hupdate]
    have hpred := val_sub_one u
    dsimp only
    by_cases hlow : 0 < u ∧ u ≤ s.current
    · have hpos : 0 < u.val := Fin.lt_def.mp hlow.1
      have hle : u.val ≤ s.current.val := Fin.le_def.mp hlow.2
      rw [if_neg hpos.ne'] at hpred
      have hlt : u - 1 < s.current := by
        rw [Fin.lt_def]
        omega
      have hto : s.ackTo = if s.pendingDel.beforeFirst s.current < u - 1 then
          s.pendingDel.beforeFirst s.current else u - 1 := by
        simp only [ackTo, hfirst, if_pos hlt]
      rw [if_pos hlow]
      cases hdel : s.pendingDel.entries with
      | nil => exact spares_ackTo_of_nil hu hmin hpos hlt hto hdel
      | cons e' rest' =>
        obtain ⟨hd, hmin'⟩ := delPending_head hdel
        have hfirst' : s.pendingDel.beforeFirst s.current = e'.1 - 1 := by
          simp only [PendingAckSet.beforeFirst, hdel]
        have hzero : (s.pendingDel.entries.any fun e => e.1 = 0) = true ↔ e'.1.val = 0 := by
          rw [List.any_eq_true]
          constructor
          · rintro ⟨x, hx, hx0⟩
            exact Nat.le_zero.mp (Fin.le_def.mp (hmin' 0 ⟨x, hx, of_decide_eq_true hx0⟩))
          · intro h0
            exact ⟨e', hdel ▸ List.mem_cons_self, decide_eq_true (Fin.ext h0)⟩
        rw [hfirst'] at hto
        rw [← hdel, spares_ackTo_of_cons hu hmin hpos hto hd hmin']
        simp only [hzero]
    · have hnot : ¬ u - 1 < s.current := by
        have hcurrent := s.current.isLt
        rw [Fin.lt_def]
        rcases Nat.eq_zero_or_pos u.val with h0 | hpos
        · rw [if_pos h0] at hpred
          omega
        · rw [if_neg hpos.ne'] at hpred
          have hgt : ¬ u ≤ s.current := fun hle => hlow ⟨Fin.lt_def.mpr hpos, hle⟩
          rw [Fin.le_def] at hgt
          omega
      have hto : s.ackTo = s.current := by
        simp only [ackTo, hfirst, if_neg hnot]
      rw [if_neg hlow, hto]

/-- The interval spares what is pending, and the parity servers keep its deltas, exactly under the
condition. -/
theorem ackParityDelta_spares (s : ServerTimestamps) (ackBatchSize : TimestampValue)
    (force : Bool) {fromTimestamp toTimestamp : TimestampValue}
    (hsent : (s.ackParityDelta ackBatchSize force).1 = some (fromTimestamp, toTimestamp)) :
    (s.Spares fromTimestamp toTimestamp ↔ s.CanAcknowledge) ∧
      (s.KeepsBackups fromTimestamp toTimestamp ↔ s.CanAcknowledge) := by
  obtain ⟨rfl, rfl⟩ := ackParityDelta_some hsent
  exact ⟨spares_ackTo, keepsBackups_iff.trans spares_ackTo⟩

/-- An UPDATE with timestamp `3` and a DELETE with timestamp `2`: the interval ends at `1`. -/
def updateAndDelete : ServerTimestamps where
  current := 5
  lastAck := 0
  pendingUpdate := ⟨[(3, 8)], List.pairwise_singleton _ _⟩
  pendingDel := ⟨[(2, 7)], List.pairwise_singleton _ _⟩

theorem ackParityDelta_spares_updateAndDelete :
    updateAndDelete.Spares 0 1 ∧ updateAndDelete.KeepsBackups 0 1 := by
  have hsent : (updateAndDelete.ackParityDelta 1 false).1 = some (0, 1) := by decide +kernel
  obtain ⟨hspares, hkeeps⟩ := ackParityDelta_spares updateAndDelete 1 false hsent
  have hcan : updateAndDelete.CanAcknowledge := by
    refine Or.inl fun t ht => ?_
    rcases ht with ⟨e, he, rfl⟩ | ⟨e, he, rfl⟩
    · rw [List.mem_singleton.mp he]
      decide +kernel
    · rw [List.mem_singleton.mp he]
      decide +kernel
  exact ⟨hspares.mpr hcan, hkeeps.mpr hcan⟩

/-- The DELETE alone: the interval ends at the current timestamp. -/
def deleteAlone : ServerTimestamps where
  current := 5
  lastAck := 0
  pendingUpdate := Multimap.empty
  pendingDel := ⟨[(2, 7)], List.pairwise_singleton _ _⟩

theorem ackParityDelta_covers_deleteAlone :
    (deleteAlone.ackParityDelta 1 false).1 = some (0, 5) ∧ ¬ deleteAlone.Spares 0 5 ∧
      ¬ deleteAlone.KeepsBackups 0 5 := by
  have hspares : ¬ deleteAlone.Spares 0 5 := by
    intro h
    refine h 2 (Or.inr ⟨(2, 7), List.mem_singleton_self _, rfl⟩) ?_
    unfold Covers
    decide +kernel
  refine ⟨by decide +kernel, hspares, fun h => hspares (keepsBackups_iff.mp h)⟩

end ServerTimestamps

end MemEC.Client
