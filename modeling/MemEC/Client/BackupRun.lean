import MemEC.Client.Backup
import MemEC.Lib.Run

/-!
# What a crash of the server leaves

An operation that a client has heard of is at the coordinator, in a heartbeat, or
pending at the server, until the server crashes. The clients may drop what is
older than the last heartbeat that was acknowledged, so nothing is lost as long
as the server handles an acknowledgement only when everything that is older has
reached the coordinator. A frame that leaves operations behind breaks this: they
are older than the frame.
-/

namespace MemEC.Client

open MemEC.Common MemEC.Coordinator MemEC.Lib

namespace Backup

variable {b : Backup} {key : Key} {op : OpMetadata}

theorem insert_of_none (h : b.find key = none) (op : OpMetadata) :
    b.insert key op = b.assign key op := by
  rw [insert, h]

/-- A SET replaces an older entry. -/
theorem insert_of_older {e : OpMetadata} (h : b.find key = some e) (hop : op.opcode = .set)
    (hold : e.timestamp < op.timestamp) : b.insert key op = b.assign key op := by
  rw [insert, h]
  simp only [hop, if_pos, hold]

/-- `erase` leaves what it does not select. -/
theorem find_erase {fromTimestamp toTimestamp : ℕ} (h : b.find key = some op)
    (hout : selected fromTimestamp toTimestamp op.timestamp = false) :
    (b.erase fromTimestamp toTimestamp).find key = some op := by
  have hmem : (⟨key.ident, op⟩ : Sigma fun _ => OpMetadata) ∈ b.entries := AList.mem_lookup_iff.mp h
  apply AList.mem_lookup_iff.mpr
  apply List.mem_filter.mpr
  constructor
  · exact hmem
  · rw [hout]
    rfl

/-- In a range that is not empty, what is selected is older than its end. -/
theorem lt_of_selected {fromTimestamp toTimestamp timestamp : ℕ}
    (hle : fromTimestamp ≤ toTimestamp) (h : selected fromTimestamp toTimestamp timestamp = true) :
    timestamp < toTimestamp := by
  rw [selected, if_neg (by omega), Bool.and_eq_true, decide_eq_true_eq, decide_eq_true_eq] at h
  exact h.2

end Backup

theorem PendingAck.erase_eq_some {p p' : PendingAck} {toTimestamp fromTimestamp : ℕ}
    (h : p.erase toTimestamp = some (p', fromTimestamp)) :
    toTimestamp ∈ p.timestamps ∧ p'.lastAckTimestamp = toTimestamp ∧
      fromTimestamp = p.lastAckTimestamp := by
  rw [erase] at h
  split_ifs at h with hmem
  cases h
  exact ⟨hmem, rfl, rfl⟩

namespace BackupSystem

variable {Client : Type} {s : BackupSystem Client}

/-- What was acknowledged to a client and is not at the coordinator is in the client's backup. -/
def Kept (s : BackupSystem Client) : Prop :=
  ∀ c r, (c, r) ∈ s.acknowledged → r ∈ s.reached ∨ (s.backups c).find r.key = some r.op

/-- The server records an operation that meets no other one on its key, under a timestamp that has
not been used. -/
def Records (s : BackupSystem Client) (key : Key) : Prop :=
  s.server.ops.find key = none ∧ s.server.timestamp + 1 < 2 ^ 32

/-- The operations of the server that are older than `timestamp` have reached the coordinator. -/
def ReachedBefore (s : BackupSystem Client) (timestamp : ℕ) : Prop :=
  (∀ k r, s.server.ops.find k = some r → timestamp ≤ r.op.timestamp) ∧
    ∀ f ∈ s.frames, ∀ r ∈ f.ops, timestamp ≤ r.op.timestamp

/-- The backup `b` of client `c` takes the operation in: it has no entry of the key, or the
operation is a SET and the entry is older, and the operations that it stands for have reached the
coordinator. -/
def Takes (s : BackupSystem Client) (c : Client) (r : Record) : Prop :=
  (s.backups c).find r.key = none ∨
    r.op.opcode = .set ∧
      (∃ e, (s.backups c).find r.key = some e ∧ e.timestamp < r.op.timestamp) ∧
      ∀ r', (c, r') ∈ s.acknowledged → r'.key.ident = r.key.ident → r' ∈ s.reached

/-- The steps that lose nothing. -/
def Allowed (s : BackupSystem Client) : BackupAction Client → Prop
  | .set _ key _ _ => s.up = true → s.Records key
  | .delete _ key _ _ => s.up = true → s.server.keys.find key ≠ none → s.Records key
  | .heartbeat .. => s.up = true → s.server.timestamp + 1 < 2 ^ 32
  | .ack i => ∀ toTimestamp, s.up = true → s.acks[i]? = some toTimestamp →
      toTimestamp ∈ s.pendingAck.timestamps →
      s.pendingAck.lastAckTimestamp ≤ toTimestamp ∧ s.ReachedBefore toTimestamp
  | .respond i => ∀ c r, s.responses[i]? = some (c, r) → s.Takes c r
  | .receive | .ackMetadata _ | .crash => True

/-- As long as the server has not crashed, it has the record or a heartbeat has it. -/
def Awaited (s : BackupSystem Client) (r : Record) : Prop :=
  s.up = true → s.server.ops.find r.key = some r ∨ ∃ f ∈ s.frames, r ∈ f.ops

structure Inv (s : BackupSystem Client) : Prop where
  clock : s.up = true → s.pendingAck.lastAckTimestamp ≤ s.server.timestamp
  acks_le : ∀ t ∈ s.acks, t ≤ s.server.timestamp
  frames_le : ∀ f ∈ s.frames, f.timestamp ≤ s.server.timestamp
  ident_eq : ∀ i r, s.server.ops.lookup i = some r → r.key.ident = i
  erased : ∀ m ∈ s.ackMetadata, m.fromTimestamp ≤ m.toTimestamp ∧
    m.toTimestamp ≤ s.pendingAck.lastAckTimestamp
  answered : ∀ p ∈ s.responses ++ s.acknowledged, p.2 ∈ s.reached ∨
    s.pendingAck.lastAckTimestamp ≤ p.2.op.timestamp ∧ s.Awaited p.2
  kept : s.Kept

theorem Inv.start : (start : BackupSystem Client).Inv where
  clock _ := le_rfl
  acks_le t ht := absurd ht List.not_mem_nil
  frames_le f hf := absurd hf List.not_mem_nil
  ident_eq k r h := by cases h
  erased m hm := absurd hm List.not_mem_nil
  answered p hp := absurd hp List.not_mem_nil
  kept c r h := absurd h List.not_mem_nil

/-! ## The server -/

/-- The server stores one more record, which it responds with. -/
theorem Inv.record (h : s.Inv) {server : KeyServer} {c : Client} {r : Record}
    (hup : s.up = true) (hnone : s.server.ops.find r.key = none)
    (hops : server.ops = s.server.ops.assign r.key r)
    (ht : r.op.timestamp = s.server.timestamp)
    (htimestamp : server.timestamp = s.server.timestamp + 1) :
    { s with server, responses := s.responses ++ [(c, r)] }.Inv := by
  constructor
  · intro hup
    have hclock := h.clock hup
    dsimp only
    omega
  · intro t hmem
    have hle := h.acks_le t hmem
    dsimp only
    omega
  · intro f hf
    have hle := h.frames_le f hf
    dsimp only
    omega
  · intro i r' hr'
    dsimp only at hr'
    rw [hops, KeyMap.assign] at hr'
    by_cases hi : i = r.key.ident
    · rw [hi, AList.lookup_insert] at hr'
      rw [hi, Option.some.inj hr']
    · rw [AList.lookup_insert_ne hi] at hr'
      exact h.ident_eq i r' hr'
  · exact h.erased
  · intro p hp
    simp only [List.append_assoc, List.mem_append, List.mem_cons, List.not_mem_nil, or_false] at hp
    have hold : p ∈ s.responses ++ s.acknowledged → p.2 ∈ s.reached ∨
        s.pendingAck.lastAckTimestamp ≤ p.2.op.timestamp ∧
          Awaited { s with server, responses := s.responses ++ [(c, r)] } p.2 := by
      intro hp
      rcases h.answered p hp with hreached | ⟨hle, hawaited⟩
      · exact Or.inl hreached
      · refine Or.inr ⟨hle, fun _ => ?_⟩
        rcases hawaited hup with hpending | hframe
        · left
          have hne : p.2.key.ident ≠ r.key.ident := by
            intro heq
            rw [s.server.ops.find_congr heq, hnone] at hpending
            cases hpending
          dsimp only
          rw [hops, KeyMap.find_assign, if_neg hne]
          exact hpending
        · exact Or.inr hframe
    rcases hp with hp | rfl | hp
    · exact hold (List.mem_append_left _ hp)
    · refine Or.inr ⟨?_, fun _ => Or.inl ?_⟩
      · dsimp only
        rw [ht]
        exact h.clock hup
      · dsimp only
        rw [hops, KeyMap.find_assign, if_pos rfl]
    · exact hold (List.mem_append_right _ hp)
  · exact h.kept

theorem responseTimestamp_of_none {key : Key} (h : s.server.ops.find key = none) (timestamp : ℕ) :
    s.responseTimestamp key timestamp = s.server.timestamp := by
  rw [responseTimestamp, h]

section Step

variable [DecidableEq Client] {clients : List Client}

theorem Inv.set (h : s.Inv) {c : Client} {key : Key} {md : Metadata} {timestamp : ℕ}
    (ha : s.Allowed (.set c key md timestamp)) : (s.step clients (.set c key md timestamp)).Inv := by
  rw [step]
  split_ifs with hup
  · obtain ⟨hnone, hclock⟩ := ha hup
    rw [responseTimestamp_of_none hnone]
    apply h.record hup hnone
    · simp only [KeyServer.step, KeyServer.insertOpMetadata, hnone]
    · rfl
    · simp only [KeyServer.step, KeyServer.insertOpMetadata, hnone]
      exact u32_eq hclock
  · exact h

theorem Inv.delete (h : s.Inv) {c : Client} {key : Key} {md : Metadata} {timestamp : ℕ}
    (ha : s.Allowed (.delete c key md timestamp)) :
    (s.step clients (.delete c key md timestamp)).Inv := by
  rw [step]
  split_ifs with hup
  · rw [Bool.and_eq_true] at hup
    obtain ⟨old, hold⟩ := Option.isSome_iff_exists.mp hup.2
    obtain ⟨hnone, hclock⟩ := ha hup.1 (by rw [hold]; exact Option.some_ne_none old)
    rw [responseTimestamp_of_none hnone]
    apply h.record hup.1 hnone
    · simp only [KeyServer.step, KeyServer.insertOpMetadata, hold, hnone]
    · rfl
    · simp only [KeyServer.step, KeyServer.insertOpMetadata, hold, hnone]
      exact u32_eq hclock
  · exact h

end Step

/-! ## Heartbeats -/

/-- Erasing keys adds no entries. -/
theorem entries_foldl_eraseKey (ops : KeyMap Record) (l : List Record) :
    (l.foldl (fun ops r => ops.eraseKey r.key) ops).entries.Sublist ops.entries := by
  induction l generalizing ops with
  | nil => exact List.Sublist.refl _
  | cons r l ih => exact (ih (ops.eraseKey r.key)).trans (List.kerase_sublist _ _)

/-- A record that is pending is still pending after a heartbeat, or in its frame. -/
theorem Inv.pending_or_sent (h : s.Inv) {ops : List Record}
    (hperm : ops.Perm (s.server.ops.entries.map Sigma.snd)) (bufferSize timestamp : ℕ)
    (sealed : List Metadata) {r : Record} (hr : s.server.ops.find r.key = some r) :
    let frame := generateHeartbeatMessage bufferSize timestamp sealed ops
    (frame.ops.foldl (fun ops r => ops.eraseKey r.key) s.server.ops).find r.key = some r ∨
      r ∈ frame.ops := by
  intro frame
  rw [KeyServer.find_foldl_eraseKey]
  cases hfind : frame.ops.find? fun r' => r'.key.ident = r.key.ident with
  | none => exact Or.inl hr
  | some r' =>
    right
    have hident := List.find?_some hfind
    rw [decide_eq_true_eq] at hident
    have hmem : r' ∈ frame.ops := List.mem_of_find?_eq_some hfind
    have hsent : frame.ops <+: ops := opsThatFit_prefix ..
    have hlisted : r' ∈ s.server.ops.entries.map Sigma.snd := hperm.subset (hsent.subset hmem)
    have hlists : KeyServer.Lists s.server.ops (s.server.ops.entries.map Sigma.snd) := by
      apply KeyServer.lists_entries
      intro p hp
      exact h.ident_eq p.1 p.2 (AList.mem_lookup_iff.mpr hp)
    have hr' := (hlists.2 r').mp hlisted
    rw [s.server.ops.find_congr hident, hr] at hr'
    rwa [Option.some.inj hr']

theorem lastAckTimestamp_heartbeat (bufferSize : ℕ) (sealed : List Metadata) (ops : List Record) :
    (s.heartbeat bufferSize sealed ops).pendingAck.lastAckTimestamp =
      s.pendingAck.lastAckTimestamp := by
  simp only [heartbeat]
  split_ifs <;> rfl

section Step

variable [DecidableEq Client] {clients : List Client}

theorem Inv.heartbeat (h : s.Inv) {bufferSize : ℕ} {sealed : List Metadata} {ops : List Record}
    (ha : s.Allowed (.heartbeat bufferSize sealed ops)) :
    (s.step clients (.heartbeat bufferSize sealed ops)).Inv := by
  rw [step]
  split_ifs with hcond
  · simp only [Bool.and_eq_true, List.isPerm_iff] at hcond
    obtain ⟨⟨hup, hperm⟩, -⟩ := hcond
    have htimestamp : u32 (s.server.timestamp + 1) = s.server.timestamp + 1 := u32_eq (ha hup)
    constructor
    · intro _
      rw [lastAckTimestamp_heartbeat]
      simp only [BackupSystem.heartbeat, KeyServer.step, htimestamp]
      exact Nat.le_succ_of_le (h.clock hup)
    · intro t hmem
      have hle := h.acks_le t hmem
      simp only [BackupSystem.heartbeat, KeyServer.step, htimestamp]
      omega
    · intro f hf
      simp only [BackupSystem.heartbeat, KeyServer.step, htimestamp, List.mem_append,
        List.mem_singleton] at hf ⊢
      rcases hf with hf | rfl
      · exact Nat.le_succ_of_le (h.frames_le f hf)
      · exact Nat.le_succ _
    · intro i r hr
      have hmem := (entries_foldl_eraseKey _ _).subset (AList.mem_lookup_iff.mp hr)
      exact h.ident_eq i r (AList.mem_lookup_iff.mpr hmem)
    · rw [lastAckTimestamp_heartbeat]
      exact h.erased
    · intro p hp
      rw [lastAckTimestamp_heartbeat]
      rcases h.answered p hp with hreached | ⟨hle, hawaited⟩
      · exact Or.inl hreached
      · refine Or.inr ⟨hle, fun _ => ?_⟩
        rcases hawaited hup with hpending | ⟨f, hf, hmem⟩
        · rcases h.pending_or_sent hperm bufferSize s.server.timestamp sealed hpending with
            hpending | hsent
          · exact Or.inl hpending
          · exact Or.inr ⟨_, List.mem_append_right _ (List.mem_singleton_self _), hsent⟩
        · exact Or.inr ⟨f, List.mem_append_left _ hf, hmem⟩
    · exact h.kept
  · exact h

/-- The records of the heartbeat are at the coordinator. -/
theorem Inv.receive (h : s.Inv) : (s.step clients .receive).Inv := by
  cases hframes : s.frames with
  | nil => simpa only [step, hframes] using h
  | cons f frames =>
    simp only [step, hframes]
    constructor
    · exact h.clock
    · intro t hmem
      rcases List.mem_append.mp hmem with hmem | hmem
      · exact h.acks_le t hmem
      · obtain rfl := List.mem_singleton.mp hmem
        exact h.frames_le f (by rw [hframes]; exact List.mem_cons_self)
    · exact fun f' hf => h.frames_le f' (by rw [hframes]; exact List.mem_cons_of_mem f hf)
    · exact h.ident_eq
    · exact h.erased
    · intro p hp
      rcases h.answered p hp with hreached | ⟨hle, hawaited⟩
      · exact Or.inl (List.mem_append_left _ hreached)
      · by_cases hmem : p.2 ∈ f.ops
        · exact Or.inl (List.mem_append_right _ hmem)
        · refine Or.inr ⟨hle, fun hup => ?_⟩
          rcases hawaited hup with hpending | ⟨f', hf, hin⟩
          · exact Or.inl hpending
          · rw [hframes] at hf
            rcases List.mem_cons.mp hf with rfl | hf
            · exact absurd hin hmem
            · exact Or.inr ⟨f', hf, hin⟩
    · intro c r hr
      exact (h.kept c r hr).imp_left (List.mem_append_left _)

/-! ## Acknowledgements -/

omit [DecidableEq Client] in
theorem Inv.eraseAck (h : s.Inv) (i : ℕ) : { s with acks := s.acks.eraseIdx i }.Inv where
  clock := h.clock
  acks_le t hmem := h.acks_le t (List.mem_of_mem_eraseIdx hmem)
  frames_le := h.frames_le
  ident_eq := h.ident_eq
  erased := h.erased
  answered := h.answered
  kept := h.kept

/-- What is dropped from now on has reached the coordinator. -/
theorem Inv.ack (h : s.Inv) {i : ℕ} (ha : s.Allowed (.ack i)) : (s.step clients (.ack i)).Inv := by
  rw [step]
  split
  · next toTimestamp hup hack =>
    have hle := h.acks_le toTimestamp (List.mem_of_getElem? hack)
    split
    · exact h.eraseAck i
    · next pendingAck fromTimestamp herase =>
      obtain ⟨hmem, hlast, rfl⟩ := PendingAck.erase_eq_some herase
      obtain ⟨hold, hops, hframes⟩ := ha toTimestamp hup hack hmem
      constructor
      · intro _
        dsimp only
        rwa [hlast]
      · exact (h.eraseAck i).acks_le
      · exact h.frames_le
      · exact h.ident_eq
      · intro m hm
        dsimp only at hm ⊢
        rw [hlast]
        rcases List.mem_append.mp hm with hm | hm
        · exact ⟨(h.erased m hm).1, (h.erased m hm).2.trans hold⟩
        · obtain ⟨c, -, rfl⟩ := List.mem_map.mp hm
          exact ⟨hold, le_rfl⟩
      · intro p hp
        dsimp only
        rw [hlast]
        rcases h.answered p hp with hreached | ⟨_, hawaited⟩
        · exact Or.inl hreached
        · refine Or.inr ⟨?_, hawaited⟩
          rcases hawaited hup with hpending | ⟨f, hf, hin⟩
          · exact hops p.2.key p.2 hpending
          · exact hframes f hf p.2 hin
      · exact h.kept
  · exact h

/-! ## The clients -/

omit [DecidableEq Client] in
/-- The entry that an operation replaces is not needed any more. -/
theorem Kept.insert (h : s.Kept) {c : Client} {r : Record} (ht : s.Takes c r) :
    ((s.backups c).insert r.key r.op) = (s.backups c).assign r.key r.op ∧
      ∀ r', (c, r') ∈ s.acknowledged → r'.key.ident = r.key.ident → r' ∈ s.reached := by
  rcases ht with hnone | ⟨hset, ⟨e, he, hold⟩, hreached⟩
  · constructor
    · exact Backup.insert_of_none hnone r.op
    · intro r' hr' hident
      rcases h c r' hr' with hreached | hfind
      · exact hreached
      · rw [(s.backups c).find_congr hident, hnone] at hfind
        cases hfind
  · exact ⟨Backup.insert_of_older he hset hold, hreached⟩

theorem Inv.respond (h : s.Inv) {i : ℕ} (ha : s.Allowed (.respond i)) :
    (s.step clients (.respond i)).Inv := by
  rw [step]
  split
  · exact h
  · next c r hget =>
    have hmem : (c, r) ∈ s.responses := List.mem_of_getElem? hget
    constructor
    · exact h.clock
    · exact h.acks_le
    · exact h.frames_le
    · exact h.ident_eq
    · exact h.erased
    · intro p hp
      apply h.answered p
      simp only [List.mem_append, List.mem_singleton] at hp ⊢
      rcases hp with hp | hp | rfl
      · exact Or.inl (List.mem_of_mem_eraseIdx hp)
      · exact Or.inr hp
      · exact Or.inl hmem
    · intro c' r' hr'
      dsimp only
      by_cases hc : c' = c
      · subst hc
        obtain ⟨hinsert, hreached⟩ := h.kept.insert (ha c' r hget)
        rw [Function.update_self, hinsert, KeyMap.find_assign]
        split_ifs with hident
        · rcases List.mem_append.mp hr' with hr' | hr'
          · exact Or.inl (hreached r' hr' hident)
          · cases List.mem_singleton.mp hr'
            exact Or.inr rfl
        · rcases List.mem_append.mp hr' with hr' | hr'
          · exact h.kept c' r' hr'
          · cases List.mem_singleton.mp hr'
            exact absurd rfl hident
      · rw [Function.update_of_ne hc]
        apply h.kept c' r'
        rcases List.mem_append.mp hr' with hr' | hr'
        · exact hr'
        · cases List.mem_singleton.mp hr'
          exact absurd rfl hc

/-- What the client drops has reached the coordinator. -/
theorem Inv.ackMetadata (h : s.Inv) {i : ℕ} : (s.step clients (.ackMetadata i)).Inv := by
  rw [step]
  split
  · exact h
  · next m hget =>
    obtain ⟨hrange, hlast⟩ := h.erased m (List.mem_of_getElem? hget)
    constructor
    · exact h.clock
    · exact h.acks_le
    · exact h.frames_le
    · exact h.ident_eq
    · exact fun m' hm' => h.erased m' (List.mem_of_mem_eraseIdx hm')
    · exact h.answered
    · intro c r hr
      dsimp only
      by_cases hc : c = m.client
      · subst hc
        rw [Function.update_self]
        rcases h.kept _ r hr with hreached | hfind
        · exact Or.inl hreached
        · cases hselected : Backup.selected m.fromTimestamp m.toTimestamp r.op.timestamp with
          | false => exact Or.inr (Backup.find_erase hfind hselected)
          | true =>
            left
            have hlt := Backup.lt_of_selected hrange hselected
            rcases h.answered _ (List.mem_append_right _ hr) with hreached | ⟨hle, -⟩
            · exact hreached
            · dsimp only at hle
              omega
      · rw [Function.update_of_ne hc]
        exact h.kept c r hr

theorem Inv.crash (h : s.Inv) : (s.step clients .crash).Inv where
  clock hup := by cases hup
  acks_le t hmem := absurd hmem List.not_mem_nil
  frames_le f hf := absurd hf List.not_mem_nil
  ident_eq i r hr := by cases hr
  erased := h.erased
  answered p hp := (h.answered p hp).imp_right fun hle => ⟨hle.1, fun hup => by cases hup⟩
  kept := h.kept

theorem Inv.step (h : s.Inv) {a : BackupAction Client} (ha : s.Allowed a) :
    (s.step clients a).Inv := by
  cases a with
  | set c key md timestamp => exact h.set ha
  | delete c key md timestamp => exact h.delete ha
  | heartbeat bufferSize sealed ops => exact h.heartbeat ha
  | receive => exact h.receive
  | ack i => exact h.ack ha
  | respond i => exact h.respond ha
  | ackMetadata i => exact h.ackMetadata
  | crash => exact h.crash

end Step

/-- The keys `a` and `b`. -/
def sampleKeys : Key × Key := (.plain [0x61], .plain [0x62])

def sampleRecord (key : Key) (timestamp : ℕ) : Record := ⟨key, ⟨⟨0, 0, 0⟩, .set, timestamp⟩⟩

/-- Two keys are stored. A heartbeat has room for the first one only, and when it has been
acknowledged the client drops the second one as well. -/
def sampleSplit : List (BackupAction Unit) :=
  [.set () sampleKeys.1 ⟨0, 0, 0⟩ 0, .set () sampleKeys.2 ⟨0, 0, 0⟩ 0, .respond 0, .respond 0,
    .heartbeat 49 [] [sampleRecord sampleKeys.2 1, sampleRecord sampleKeys.1 0], .receive, .ack 0,
    .ackMetadata 0, .crash]

/-- A key is stored, reported and acknowledged, and the server crashes while another one is
pending. -/
def sampleRun : List (BackupAction Unit) :=
  [.set () sampleKeys.1 ⟨0, 0, 0⟩ 0, .respond 0, .heartbeat 1024 [] [sampleRecord sampleKeys.1 0],
    .receive, .set () sampleKeys.2 ⟨0, 0, 0⟩ 0, .respond 0, .ack 0, .ackMetadata 0, .crash]

end BackupSystem

end MemEC.Client
