import MemEC.Coordinator.RemappingAgreement
import Mathlib.Data.Set.Card

/-!
# The records of degraded SETs and the servers they belong to

A record is inserted for a server, so that all records of a server can be erased
when it is back. The keys of a server are kept in a set beside the map of the
records. A record can also be erased by its key; the sets are left as they are
then.
-/

namespace MemEC.Coordinator

open MemEC.Common MemEC.Lib

namespace RemappingRecordMap

/-- `erase` of the record of one key, and whether there was one. -/
def eraseKey (m : RemappingRecordMap) (key : Key) : RemappingRecordMap × Bool :=
  match m.map.find key with
  | some _ => ({ m with map := m.map.eraseKey key }, true)
  | none => (m, false)

/-- What `erase` of the records of a server returns. -/
def eraseCount (m : RemappingRecordMap) (server : ℕ) : ℕ := (m.serverToKeyMap server).keys.length

def start : RemappingRecordMap := ⟨∅, fun _ => ∅⟩

end RemappingRecordMap

inductive RecordOp
  | insert (key : Key) (record : RemappingRecord) (server : ℕ)
  | eraseKey (key : Key)
  | erase (server : ℕ)

def RemappingRecordMap.step (m : RemappingRecordMap) : RecordOp → RemappingRecordMap
  | .insert key record server => (m.insert key record server).1
  | .eraseKey key => (m.eraseKey key).1
  | .erase server => m.erase server

/-- What the map is for: the record of a key, and the server for which it was inserted. -/
abbrev PlacedRecords := Key.Ident → Option (RemappingRecord × ℕ)

namespace PlacedRecords

def server (a : PlacedRecords) (id : Key.Ident) : Option ℕ := (a id).map Prod.snd

def step (a : PlacedRecords) : RecordOp → PlacedRecords
  | .insert key record server =>
    if a key.ident = none then Function.update a key.ident (some (record, server)) else a
  | .eraseKey key => Function.update a key.ident none
  | .erase server => fun id => if a.server id = some server then none else a id

end PlacedRecords

/-- The records and the sets are in step: the set of a server has the keys whose records were
inserted for it. -/
structure InStep (m : RemappingRecordMap) (a : PlacedRecords) : Prop where
  record : ∀ id, m.map.lookup id = (a id).map Prod.fst
  keySet : ∀ server id, id ∈ m.serverToKeyMap server ↔ a.server id = some server

/-- An erasure of the records of a server takes these and no others, and counts them. -/
structure ErasesOwn (m : RemappingRecordMap) (a : PlacedRecords) (server : ℕ) : Prop where
  erased : ∀ id, (m.erase server).map.lookup id =
    if a.server id = some server then none else m.map.lookup id
  count : m.eraseCount server = {id | a.server id = some server}.ncard

namespace InStep

variable {m : RemappingRecordMap} {a : PlacedRecords}

theorem start : InStep .start fun _ => none where
  record _ := rfl
  keySet server id := by
    simp [RemappingRecordMap.start, PlacedRecords.server]

/-- The record map and the sets have the same keys, and no key is in two sets. -/
theorem mem_iff (h : InStep m a) (id : Key.Ident) :
    (m.map.lookup id).isSome ↔ ∃! server, id ∈ m.serverToKeyMap server := by
  rw [h.record, Option.isSome_map]
  constructor
  · intro hid
    obtain ⟨p, hp⟩ := Option.isSome_iff_exists.mp hid
    have hserver : a.server id = some p.2 := by rw [PlacedRecords.server, hp, Option.map_some]
    refine ⟨p.2, (h.keySet _ _).mpr hserver, fun server hs => ?_⟩
    exact Option.some.inj (((h.keySet _ _).mp hs).symm.trans hserver)
  · rintro ⟨server, hs, -⟩
    have hserver := (h.keySet _ _).mp hs
    obtain ⟨p, hp, -⟩ := Option.map_eq_some_iff.mp hserver
    rw [hp]
    rfl

theorem erasesOwn (h : InStep m a) (server : ℕ) : ErasesOwn m a server where
  erased id := by
    rw [RemappingRecordMap.erase, EpochsInv.lookup_foldl_erase]
    simp only [← AList.mem_keys, h.keySet]
  count := by
    have hset : {id | a.server id = some server} =
        ((m.serverToKeyMap server).keys.toFinset : Set Key.Ident) := by
      ext id
      rw [Set.mem_ofPred_eq, Finset.mem_coe, List.mem_toFinset, ← AList.mem_keys, h.keySet]
    rw [hset, Set.ncard_coe_finset, List.toFinset_card_of_nodup (AList.keys_nodup _)]
    rfl

theorem mem_insertNew (keys : KeyMap Unit) (key : Key) (id : Key.Ident) :
    id ∈ (keys.insertNew key ()).1 ↔ id = key.ident ∨ id ∈ keys := by
  unfold KeyMap.insertNew
  split_ifs with hmem
  · exact ⟨.inr, fun h => h.elim (fun h => h ▸ hmem) fun h => h⟩
  · exact AList.mem_insert keys

theorem insert (h : InStep m a) (key : Key) (record : RemappingRecord) (server : ℕ) :
    InStep (m.insert key record server).1 (a.step (.insert key record server)) := by
  have hrecord := h.record key.ident
  unfold RemappingRecordMap.insert
  simp only [PlacedRecords.step]
  split
  · next p hp =>
    rw [KeyMap.find, hrecord] at hp
    rw [if_neg fun hnone => by rw [hnone] at hp; cases hp]
    exact h
  · next hp =>
    rw [KeyMap.find, hrecord, Option.map_eq_none_iff] at hp
    rw [if_pos hp]
    constructor
    · intro id
      by_cases hid : id = key.ident
      · subst hid
        rw [Function.update_self]
        exact AList.lookup_insert m.map
      · rw [Function.update_of_ne hid]
        exact (AList.lookup_insert_ne hid).trans (h.record id)
    · intro s id
      dsimp only
      have hkey : a.server key.ident = none := by rw [PlacedRecords.server, hp, Option.map_none]
      by_cases hid : id = key.ident
      · subst hid
        rw [PlacedRecords.server, Function.update_self, Option.map_some, Option.some_inj]
        by_cases hs : s = server
        · subst hs
          rw [Function.update_self, mem_insertNew]
          simp
        · rw [Function.update_of_ne hs, h.keySet, hkey]
          simp [Ne.symm hs]
      · rw [PlacedRecords.server, Function.update_of_ne hid, ← PlacedRecords.server, ← h.keySet]
        by_cases hs : s = server
        · subst hs
          rw [Function.update_self, mem_insertNew, or_iff_right hid]
        · rw [Function.update_of_ne hs]

/-- An erasure by key that finds nothing changes nothing. -/
theorem eraseKey (h : InStep m a) {key : Key} (hnone : m.find key = none) :
    InStep (m.eraseKey key).1 (a.step (.eraseKey key)) := by
  have hfind : m.map.find key = none := hnone
  have habsent : a key.ident = none :=
    Option.map_eq_none_iff.mp ((h.record key.ident).symm.trans hnone)
  have hstep : a.step (.eraseKey key) = a := Function.update_eq_self_iff.mpr habsent.symm
  rw [RemappingRecordMap.eraseKey, hfind, hstep]
  exact h

theorem erase (h : InStep m a) (server : ℕ) :
    InStep (m.erase server) (a.step (.erase server)) := by
  constructor
  · intro id
    rw [(h.erasesOwn server).erased, h.record]
    simp only [PlacedRecords.step]
    split_ifs
    · rfl
    · rfl
  · intro s id
    have hserver : (a.step (.erase server)).server id =
        if a.server id = some server then none else a.server id :=
      apply_ite (Option.map Prod.snd) (a.server id = some server) none (a id)
    rw [hserver]
    by_cases hs : s = server
    · subst hs
      simp only [RemappingRecordMap.erase, Function.update_self]
      split_ifs with hid
      · simp
      · simpa using hid
    · simp only [RemappingRecordMap.erase, Function.update_of_ne hs, h.keySet]
      split_ifs with hid
      · simp [hid, Ne.symm hs]
      · rfl

/-- An erasure by key that finds a record leaves the key in the set of its server. -/
theorem not_inStep_eraseKey (h : InStep m a) {key : Key} (hsome : m.find key ≠ none) :
    ¬InStep (m.eraseKey key).1 (a.step (.eraseKey key)) := by
  intro hafter
  obtain ⟨record, hrecord⟩ := Option.ne_none_iff_exists'.mp hsome
  have hfind : m.map.find key = some record := hrecord
  obtain ⟨server, hmem, -⟩ := (h.mem_iff key.ident).mp (by
    rw [← KeyMap.find, hfind]
    rfl)
  have hkeep : key.ident ∈ (m.eraseKey key).1.serverToKeyMap server := by
    rw [RemappingRecordMap.eraseKey, hfind]
    exact hmem
  have hnone := (hafter.keySet _ _).mp hkeep
  rw [PlacedRecords.server, PlacedRecords.step, Function.update_self] at hnone
  cases hnone

end InStep

/-- The map after the operations, and what it is for. -/
def recordsAfter (ops : List RecordOp) : RemappingRecordMap := run .step .start ops

def placedAfter (ops : List RecordOp) : PlacedRecords := run .step (fun _ => none) ops

/-- The records and the sets are in step, and an erasure by server would do its work. -/
structure KeepsServers (ops : List RecordOp) : Prop where
  inStep : InStep (recordsAfter ops) (placedAfter ops)
  erasesOwn : ∀ server, ErasesOwn (recordsAfter ops) (placedAfter ops) server

/-- The records and the sets stay in step exactly as long as no erasure by key finds a record. -/
theorem keepsServers_iff (ops : List RecordOp) :
    (∀ n ≤ ops.length, KeepsServers (ops.take n)) ↔
      ∀ n key, ops[n]? = some (.eraseKey key) → (recordsAfter (ops.take n)).find key = none := by
  have hstep : ∀ past op, InStep (recordsAfter past) (placedAfter past) →
      (∀ key, op = .eraseKey key → (recordsAfter past).find key = none) →
        InStep (recordsAfter (past ++ [op])) (placedAfter (past ++ [op])) := by
    intro past op h hallowed
    rw [recordsAfter, placedAfter, run_concat, run_concat]
    cases op with
    | insert key record server => exact h.insert key record server
    | eraseKey key => exact h.eraseKey (hallowed key rfl)
    | erase server => exact h.erase server
  have hbad : ∀ past op, InStep (recordsAfter past) (placedAfter past) →
      (¬∀ key, op = .eraseKey key → (recordsAfter past).find key = none) →
        ¬KeepsServers (past ++ [op]) := by
    intro past op h hnot hgood
    obtain ⟨key, hnot⟩ := not_forall.mp hnot
    obtain ⟨rfl, hsome⟩ := Classical.not_imp.mp hnot
    have hafter := hgood.inStep
    rw [recordsAfter, placedAfter, run_concat, run_concat] at hafter
    exact h.not_inStep_eraseKey hsome hafter
  rw [good_iff_allowed InStep.start (fun past h => ⟨h, h.erasesOwn⟩) hstep hbad]
  exact ⟨fun h n key hop => h n _ hop key rfl, fun h n op hop key hkey => h n key (hkey ▸ hop)⟩

/-- A key whose record was erased by key, and that then gets a record for another server. -/
def movedKey : Key := .plain [128]

def movedOps : List RecordOp :=
  [.insert movedKey [⟨(0, 0), (0, 1)⟩] 1, .eraseKey movedKey, .insert movedKey [⟨(0, 0), (0, 2)⟩] 2,
    .erase 1]

/-- The erasure of the records of the first server takes the record of the second one. -/
theorem not_keepsServers_of_movedOps :
    ¬∀ ops : List RecordOp, ∀ n ≤ ops.length, KeepsServers (ops.take n) := by
  intro h
  have hrecord := (h movedOps 4 le_rfl).inStep.record movedKey.ident
  exact absurd hrecord (by decide +kernel)

end MemEC.Coordinator
