import MemEC.Coordinator.Map

/-!
# Heartbeats

A server keeps the key operations that it has not reported yet in a map, one for
each key, and sends them to the coordinator in frames of a bounded size. A SET
or DELETE that meets a pending operation on its key is not just recorded: a
DELETE takes the pending operation away, and a SET leaves it as it is.
-/

namespace MemEC.Coordinator

open MemEC.Lib MemEC.Common

/-! ## Frames -/

/-- A heartbeat message. -/
structure Frame where
  timestamp : ℕ
  sealed : List Metadata
  ops : List Record
  isLast : Bool

/-- The chunks that the loop over `sealed` writes, behind `bytes` bytes. The `12` is
`PROTO_METADATA_SIZE`. -/
def sealedThatFit (bufferSize : ℕ) : ℕ → List Metadata → List Metadata
  | _, [] => []
  | bytes, md :: rest =>
    if bytes + 12 ≤ bufferSize then md :: sealedThatFit bufferSize (bytes + 12) rest else []

/-- The bytes of a record. The `19` is `PROTO_KEY_OP_METADATA_SIZE`. -/
def Record.size (r : Record) : ℕ := 19 + Key.extent r.key.size r.key.isLarge

/-- The records that the loop over `ops` writes. -/
def opsThatFit (bufferSize : ℕ) : ℕ → List Record → List Record
  | _, [] => []
  | bytes, r :: rest =>
    if bytes + r.size ≤ bufferSize then r :: opsThatFit bufferSize (bytes + r.size) rest else []

/-- `generateHeartbeatMessage`, with the chunks and the records in the order of the iteration. The
`29` is `PROTO_HEADER_SIZE + PROTO_HEARTBEAT_SIZE`. -/
def generateHeartbeatMessage (bufferSize timestamp : ℕ) (sealed : List Metadata)
    (ops : List Record) : Frame :=
  let sent := sealedThatFit bufferSize 29 sealed
  let sentOps := opsThatFit bufferSize (29 + 12 * sent.length) ops
  ⟨timestamp, sent, sentOps, sent.length = sealed.length && sentOps.length = ops.length⟩

theorem opsThatFit_prefix (bufferSize bytes : ℕ) (ops : List Record) :
    opsThatFit bufferSize bytes ops <+: ops := by
  induction ops generalizing bytes with
  | nil => exact List.prefix_rfl
  | cons r rest ih =>
    unfold opsThatFit
    split_ifs
    · exact (List.prefix_cons_inj r).mpr (ih _)
    · exact List.nil_prefix

/-! ## The server -/

/-- A server: its keys with their chunks, the operations and the sealed chunks to report, its
clock, and the records that it has sent. -/
structure KeyServer where
  keys : KeyMap Metadata
  ops : KeyMap Record
  sealed : List Metadata
  timestamp : ℕ
  reported : List Record

namespace KeyServer

/-- `insertOpMetadata`. -/
def insertOpMetadata (s : KeyServer) (opcode : Opcode) (key : Key) (md : Metadata) :
    KeyServer × Bool :=
  match s.ops.find key with
  | none => ({ s with
      ops := s.ops.assign key ⟨key, md, opcode, s.timestamp⟩
      timestamp := u32 (s.timestamp + 1) }, true)
  | some _ =>
    if opcode = .delete then ({ s with ops := s.ops.eraseKey key }, true) else (s, false)

/-- The list has the entries of the map in some order. -/
def Lists (ops : KeyMap Record) (l : List Record) : Prop :=
  (l.map fun r => r.key.ident).Nodup ∧ ∀ r, r ∈ l ↔ ops.find r.key = some r

/-- The order of the entries themselves. -/
theorem lists_entries {ops : KeyMap Record} (h : ∀ p ∈ ops.entries, p.2.key.ident = p.1) :
    Lists ops (ops.entries.map Sigma.snd) := by
  constructor
  · have hkeys : (ops.entries.map Sigma.snd).map (fun r => r.key.ident) =
        ops.entries.map Sigma.fst := by
      rw [List.map_map]
      exact List.map_congr_left h
    rw [hkeys]
    exact ops.nodupKeys
  · intro r
    have hmem : ops.find r.key = some r ↔ (⟨r.key.ident, r⟩ : Sigma fun _ => Record) ∈ ops.entries :=
      AList.mem_lookup_iff
    rw [hmem, List.mem_map]
    constructor
    · rintro ⟨p, hp, rfl⟩
      rw [h p hp]
      exact hp
    · exact fun hr => ⟨_, hr, rfl⟩

/-- SET of a key into a chunk, DELETE of a key, with the metadata that is reported for it, and a
heartbeat with the orders in which it goes over its sets. -/
inductive Op
  | set (key : Key) (md : Metadata)
  | delete (key : Key) (md : Metadata)
  | heartbeat (bufferSize : ℕ) (sealed : List Metadata) (ops : List Record)

/-- One operation. `Map::insertKey` and `Map::deleteKey` report after they changed the keys. -/
def step (s : KeyServer) : Op → KeyServer
  | .set key md => ({ s with keys := s.keys.assign key md }.insertOpMetadata .set key md).1
  | .delete key md =>
    match s.keys.find key with
    | some _ => ({ s with keys := s.keys.eraseKey key }.insertOpMetadata .delete key md).1
    | none => s
  | .heartbeat bufferSize sealed ops =>
    let frame := generateHeartbeatMessage bufferSize s.timestamp sealed ops
    { s with
      timestamp := u32 (s.timestamp + 1)
      sealed := s.sealed.filter fun md => md ∉ frame.sealed
      ops := frame.ops.foldl (fun ops r => ops.eraseKey r.key) s.ops
      reported := s.reported ++ frame.ops }

/-- A server without keys. -/
def start : KeyServer := ⟨∅, ∅, [], 0, []⟩

/-- Replaying what was reported and what is pending gives the keys of the server. -/
def Replayed (keys : Set Key) (s : KeyServer) : Prop :=
  ∀ l, Lists s.ops l → ∀ k ∈ keys,
    (Map.receive (s.reported ++ l)).findMetadataByKey k = s.keys.find k

/-- The operations use the keys, and a heartbeat goes over the pending operations. -/
def Uses (keys : Set Key) (s : KeyServer) : Op → Prop
  | .set key _ | .delete key _ => key ∈ keys
  | .heartbeat _ _ ops => Lists s.ops ops

/-- A SET meets no pending operation other than a SET into the same chunk, and a DELETE meets a
pending operation only if no SET of the key was reported that still stands. -/
def Allowed (keys : Set Key) (s : KeyServer) (op : Op) : Prop :=
  s.Uses keys op ∧ match op with
  | .set key md => ∀ r, s.ops.find key = some r → r.op.opcode = .set ∧ r.op.toMetadata = md
  | .delete key _ => ∀ r, s.keys.find key ≠ none → s.ops.find key = some r →
      (Map.receive s.reported).keys.find key = none
  | .heartbeat _ _ _ => True

/-- The entry of a key once its pending operation has been reported. -/
def settle (entry : Option OpMetadata) (pending : Option Record) : Option OpMetadata :=
  match pending with
  | none => entry
  | some r => Map.mergeEntry entry r.op

/-- The entry is one of a SET, if there is one. -/
def SetOnly (entry : Option OpMetadata) : Prop := ∀ e, entry = some e → e.opcode.isSet = true

structure Inv (keys : Set Key) (s : KeyServer) : Prop where
  ident_eq : ∀ k r, s.ops.find k = some r → r.key.ident = k.ident
  opcode : ∀ k r, s.ops.find k = some r → r.op.opcode = .set ∨ r.op.opcode = .delete
  entry : ∀ k ∈ keys, SetOnly ((Map.receive s.reported).keys.find k)
  settled : ∀ k ∈ keys, SetOnly (settle ((Map.receive s.reported).keys.find k) (s.ops.find k)) ∧
    (settle ((Map.receive s.reported).keys.find k) (s.ops.find k)).map OpMetadata.toMetadata =
      s.keys.find k

variable {keys : Set Key} {s : KeyServer}

/-! ## Reporting many operations -/

/-- Records of different keys change the entry of each key once. -/
theorem find_receive_append (rs l : List Record) (hl : (l.map fun r => r.key.ident).Nodup)
    (k : Key) : (Map.receive (rs ++ l)).keys.find k =
      settle ((Map.receive rs).keys.find k) (l.find? fun r => r.key.ident = k.ident) := by
  induction l generalizing rs with
  | nil => rw [List.append_nil]; rfl
  | cons r l ih =>
    rw [List.map_cons, List.nodup_cons] at hl
    have hsplit : rs ++ r :: l = (rs ++ [r]) ++ l := by simp
    rw [hsplit, ih (rs ++ [r]) hl.2, Map.receive_concat, Map.find_insertKey, List.find?_cons]
    by_cases hk : r.key.ident = k.ident
    · have hnone : (l.find? fun r => r.key.ident = k.ident) = none := by
        refine List.find?_eq_none.mpr fun r' hr' hk' => hl.1 ?_
        rw [decide_eq_true_eq] at hk'
        rw [hk, ← hk']
        exact List.mem_map_of_mem hr'
      simp only [hnone, hk, decide_true, if_pos]
      rw [(Map.receive rs).keys.find_congr hk]
      rfl
    · simp only [hk, decide_false, if_neg (Ne.symm hk)]

/-- The pending operations after some were reported. -/
theorem find_foldl_eraseKey (ops : KeyMap Record) (l : List Record) (k : Key) :
    (l.foldl (fun ops r => ops.eraseKey r.key) ops).find k =
      if (l.find? fun r => r.key.ident = k.ident) = none then ops.find k else none := by
  induction l generalizing ops with
  | nil => rfl
  | cons r l ih =>
    rw [List.foldl_cons, ih, KeyMap.find_eraseKey, List.find?_cons]
    by_cases hk : r.key.ident = k.ident
    · simp [hk]
    · simp [hk, Ne.symm hk]

/-! ## The operations -/

theorem settle_set {entry : Option OpMetadata} {r : Record} (he : SetOnly entry)
    (hr : r.op.opcode = .set) : settle entry (some r) = some r.op :=
  Map.mergeEntry_set (by rw [hr]; rfl) he

theorem settle_delete {entry : Option OpMetadata} {r : Record} (hr : r.op.opcode = .delete) :
    settle entry (some r) = if entry = none then some r.op else none :=
  Map.mergeEntry_delete hr entry

theorem setOnly_none : SetOnly none := by
  intro e he
  cases he

theorem setOnly_some {op : OpMetadata} (h : op.opcode = .set) : SetOnly (some op) := by
  intro e he
  rw [← Option.some.inj he, h]
  rfl

/-- An operation on one key leaves the others as they are. -/
theorem Inv.change (h : s.Inv keys) {s' : KeyServer} {key : Key}
    (hreported : s'.reported = s.reported)
    (hother : ∀ k, k.ident ≠ key.ident →
      s'.ops.find k = s.ops.find k ∧ s'.keys.find k = s.keys.find k)
    (hops : ∀ r, s'.ops.find key = some r →
      r.key.ident = key.ident ∧ (r.op.opcode = .set ∨ r.op.opcode = .delete))
    (hkey : ∀ entry, key ∈ keys → SetOnly entry → entry = (Map.receive s.reported).keys.find key →
      SetOnly (settle entry (s'.ops.find key)) ∧
      (settle entry (s'.ops.find key)).map OpMetadata.toMetadata = s'.keys.find key)
    (hk : key ∈ keys) : s'.Inv keys := by
  constructor
  · intro k r hr
    by_cases hident : k.ident = key.ident
    · rw [s'.ops.find_congr hident] at hr
      rw [hident]
      exact (hops r hr).1
    · rw [(hother k hident).1] at hr
      exact h.ident_eq k r hr
  · intro k r hr
    by_cases hident : k.ident = key.ident
    · rw [s'.ops.find_congr hident] at hr
      exact (hops r hr).2
    · rw [(hother k hident).1] at hr
      exact h.opcode k r hr
  · rw [hreported]
    exact h.entry
  · intro k hk'
    rw [hreported]
    by_cases hident : k.ident = key.ident
    · rw [s'.ops.find_congr hident, s'.keys.find_congr hident,
        (Map.receive s.reported).keys.find_congr hident]
      exact hkey _ hk (h.entry key hk) rfl
    · rw [(hother k hident).1, (hother k hident).2]
      exact h.settled k hk'

theorem Inv.set (h : s.Inv keys) {key : Key} {md : Metadata}
    (ha : s.Allowed keys (.set key md)) : (s.step (.set key md)).Inv keys := by
  obtain ⟨hk, hpending⟩ := ha
  have hassign : ∀ k, k.ident ≠ key.ident → (s.keys.assign key md).find k = s.keys.find k := by
    intro k hne
    rw [KeyMap.find_assign, if_neg hne]
  have hself : (s.keys.assign key md).find key = some md := by rw [KeyMap.find_assign, if_pos rfl]
  cases hfind : s.ops.find key with
  | none =>
    have hstep : s.step (.set key md) = { s with
        keys := s.keys.assign key md
        ops := s.ops.assign key ⟨key, md, .set, s.timestamp⟩
        timestamp := u32 (s.timestamp + 1) } := by
      simp only [step, insertOpMetadata, hfind]
    have hnew : (s.ops.assign key ⟨key, md, .set, s.timestamp⟩).find key =
        some ⟨key, md, .set, s.timestamp⟩ := by rw [KeyMap.find_assign, if_pos rfl]
    rw [hstep]
    refine h.change rfl (fun k hne => ⟨?_, hassign k hne⟩) (fun r hr => ?_)
      (fun entry _ he _ => ?_) hk
    · exact (KeyMap.find_assign ..).trans (if_neg hne)
    · obtain rfl := Option.some.inj (hnew.symm.trans hr)
      exact ⟨rfl, Or.inl rfl⟩
    · dsimp only
      rw [hnew, hself, settle_set he rfl]
      exact ⟨setOnly_some rfl, rfl⟩
  | some r =>
    have hstep : s.step (.set key md) = { s with keys := s.keys.assign key md } := by
      simp [step, insertOpMetadata, hfind]
    obtain ⟨hset, hmd⟩ := hpending r hfind
    rw [hstep]
    refine h.change rfl (fun k hne => ⟨rfl, hassign k hne⟩) (fun r' hr' => ?_)
      (fun entry _ he _ => ?_) hk
    · exact ⟨h.ident_eq key r' hr', h.opcode key r' hr'⟩
    · dsimp only
      rw [hfind, hself, settle_set he hset, ← hmd]
      exact ⟨setOnly_some hset, rfl⟩

theorem Inv.delete (h : s.Inv keys) {key : Key} {md : Metadata}
    (ha : s.Allowed keys (.delete key md)) : (s.step (.delete key md)).Inv keys := by
  obtain ⟨hk, hpending⟩ := ha
  cases hkey : s.keys.find key with
  | none =>
    have hstep : s.step (.delete key md) = s := by simp only [step, hkey]
    rwa [hstep]
  | some old =>
    have herase : ∀ k, k.ident ≠ key.ident → (s.keys.eraseKey key).find k = s.keys.find k := by
      intro k hne
      rw [KeyMap.find_eraseKey, if_neg hne]
    have hself : (s.keys.eraseKey key).find key = none := by rw [KeyMap.find_eraseKey, if_pos rfl]
    cases hfind : s.ops.find key with
    | none =>
      have hstep : s.step (.delete key md) = { s with
          keys := s.keys.eraseKey key
          ops := s.ops.assign key ⟨key, md, .delete, s.timestamp⟩
          timestamp := u32 (s.timestamp + 1) } := by
        simp only [step, hkey, insertOpMetadata, hfind]
      have hnew : (s.ops.assign key ⟨key, md, .delete, s.timestamp⟩).find key =
          some ⟨key, md, .delete, s.timestamp⟩ := by rw [KeyMap.find_assign, if_pos rfl]
      have hreported := (h.settled key hk).2
      rw [hfind, hkey] at hreported
      rw [hstep]
      refine h.change rfl (fun k hne => ⟨?_, herase k hne⟩) (fun r hr => ?_)
        (fun entry _ _ he => ?_) hk
      · exact (KeyMap.find_assign ..).trans (if_neg hne)
      · obtain rfl := Option.some.inj (hnew.symm.trans hr)
        exact ⟨rfl, Or.inr rfl⟩
      · have hne : entry ≠ none := by
          rintro rfl
          rw [← he] at hreported
          cases hreported
        dsimp only
        rw [hnew, hself, settle_delete rfl, if_neg hne]
        exact ⟨setOnly_none, rfl⟩
    | some r =>
      have hstep : s.step (.delete key md) = { s with
          keys := s.keys.eraseKey key
          ops := s.ops.eraseKey key } := by
        simp [step, hkey, insertOpMetadata, hfind]
      have hgone : (s.ops.eraseKey key).find key = none := by rw [KeyMap.find_eraseKey, if_pos rfl]
      have hnone := hpending r (by rw [hkey]; exact Option.some_ne_none old) hfind
      rw [hstep]
      refine h.change rfl (fun k hne => ⟨?_, herase k hne⟩) (fun r' hr' => ?_)
        (fun entry _ _ he => ?_) hk
      · exact (KeyMap.find_eraseKey ..).trans (if_neg hne)
      · rw [hgone] at hr'
        cases hr'
      · dsimp only
        rw [hgone, hself, he, hnone]
        exact ⟨setOnly_none, rfl⟩

theorem Inv.heartbeat (h : s.Inv keys) {bufferSize : ℕ} {sealed : List Metadata}
    {ops : List Record} (ha : s.Allowed keys (.heartbeat bufferSize sealed ops)) :
    (s.step (.heartbeat bufferSize sealed ops)).Inv keys := by
  obtain ⟨hlists, -⟩ := ha
  set sent := (generateHeartbeatMessage bufferSize s.timestamp sealed ops).ops with hsent
  have hsent : sent <+: ops := opsThatFit_prefix ..
  have hnodup : (sent.map fun r => r.key.ident).Nodup :=
    hlists.1.sublist (hsent.sublist.map _)
  have hfind : ∀ k r, (sent.find? fun r => r.key.ident = k.ident) = some r →
      s.ops.find k = some r := by
    intro k r hr
    have hk := List.find?_some hr
    rw [decide_eq_true_eq] at hk
    rw [← s.ops.find_congr hk]
    exact (hlists.2 r).mp (hsent.subset (List.mem_of_find?_eq_some hr))
  have hops : ∀ k, (s.step (.heartbeat bufferSize sealed ops)).ops.find k =
      if (sent.find? fun r => r.key.ident = k.ident) = none then s.ops.find k else none :=
    fun k => find_foldl_eraseKey s.ops sent k
  have hof : ∀ k r, (s.step (.heartbeat bufferSize sealed ops)).ops.find k = some r →
      s.ops.find k = some r := by
    intro k r hr
    rw [hops] at hr
    split_ifs at hr
    exact hr
  -- What was sent has been merged into the entry and is pending no more.
  have hsame : ∀ k, settle
      ((Map.receive (s.step (.heartbeat bufferSize sealed ops)).reported).keys.find k)
      ((s.step (.heartbeat bufferSize sealed ops)).ops.find k) =
      settle ((Map.receive s.reported).keys.find k) (s.ops.find k) := by
    intro k
    have hreceive := find_receive_append s.reported sent hnodup k
    rw [hops k]
    cases hk : sent.find? fun r => r.key.ident = k.ident with
    | none =>
      rw [hk] at hreceive
      rw [if_pos rfl]
      exact congrArg (settle · _) hreceive
    | some r =>
      rw [hk] at hreceive
      rw [if_neg (Option.some_ne_none r), hfind k r hk]
      exact hreceive
  constructor
  · exact fun k r hr => h.ident_eq k r (hof k r hr)
  · exact fun k r hr => h.opcode k r (hof k r hr)
  · intro k hk
    have hreceive := find_receive_append s.reported sent hnodup k
    have hreported : (s.step (.heartbeat bufferSize sealed ops)).reported = s.reported ++ sent := rfl
    rw [hreported, hreceive]
    cases hk' : sent.find? fun r => r.key.ident = k.ident with
    | none => exact h.entry k hk
    | some r =>
      have hsettled := (h.settled k hk).1
      rwa [hfind k r hk'] at hsettled
  · intro k hk
    rw [hsame]
    exact h.settled k hk

theorem Inv.step (h : s.Inv keys) {op : Op} (ha : s.Allowed keys op) : (s.step op).Inv keys := by
  cases op with
  | set key md => exact h.set ha
  | delete key md => exact h.delete ha
  | heartbeat bufferSize sealed ops => exact h.heartbeat ha

theorem Inv.start (keys : Set Key) : KeyServer.start.Inv keys where
  ident_eq _ _ h := by cases h
  opcode _ _ h := by cases h
  entry _ _ := setOnly_none
  settled _ _ := ⟨setOnly_none, rfl⟩

/-- The key `a`. -/
def sampleKey : Key := .plain [0x61]

def samplePending (opcode : Opcode) (stripeId timestamp : ℕ) : Record :=
  ⟨sampleKey, ⟨⟨0, stripeId, 0⟩, opcode, timestamp⟩⟩

/-- The key is stored and reported, deleted, and stored again. -/
def sampleOps : List Op :=
  [.set sampleKey ⟨0, 0, 0⟩, .heartbeat 1024 [] [samplePending .set 0 0],
    .delete sampleKey ⟨0, 0, 0⟩, .set sampleKey ⟨0, 1, 0⟩]

end KeyServer

end MemEC.Coordinator
