import Mathlib.Tactic
import MemEC.Server.UnsealedChunkSpec

/-!
# What arrives of an unsealed chunk

All that is recorded of a chunk arrives once exactly when no message has room
for two objects and nothing that is recorded is a split.
-/

namespace MemEC.Server

open MemEC.Common MemEC.Lib Unsealed

variable {cfg : GlobalConfig} {size : ℕ} {metadata : Metadata} {u u' : Unsealed cfg}
  {s s' : OriginalServer} {D : List Key} {V : List (Object cfg)}

/-! ## What is promised -/

/-- What is to be done for the keys and the objects. -/
def opsOf (D : List Key) (V : List (Object cfg)) : List ObjectOp :=
  D.map .delete ++ V.map fun o => .update o.mapKey o.payload

/-- All that was recorded of the chunk was done at its server, each operation once, and nothing
else; nothing is left of it in the buffer, and other entries are still there. -/
structure Arrived (metadata : Metadata) (u u' : Unsealed cfg) (s s' : OriginalServer) : Prop where
  ops : s'.log.Perm (s.log ++ opsOf (u.deletedOf metadata) (u.valuesOf metadata))
  deleted : ∀ k ∈ u.deletedOf metadata, s'.objects.find k = none
  updated : ∀ o ∈ u.valuesOf metadata, s'.objects.find o.mapKey = some o.payload
  others : ∀ k : Key, k.ident ∉ (u.metadataRev metadata).map Key.ident →
    s'.objects.find k = s.objects.find k
  emptied : u'.metadataRev metadata = []
  deleted_eq : ∀ k : Key, u'.deleted.find k =
    if k.ident ∈ (u.deletedOf metadata).map Key.ident then none else u.deleted.find k
  values_eq : ∀ k : Key, u'.values.find k =
    if k.ident ∈ (u.valuesOf metadata).map (fun o => o.mapKey.ident) then none else u.values.find k

/-- The keys of what is recorded, as maps tell them apart. -/
def idents (D : List Key) (V : List (Object cfg)) : List Key.Ident :=
  D.map Key.ident ++ V.map fun o => o.mapKey.ident

theorem perm_append_comm₄ {α : Type} (a b c e : List α) :
    (a ++ b ++ (c ++ e)).Perm (a ++ c ++ (b ++ e)) := by
  rw [List.append_assoc, List.append_assoc]
  apply List.Perm.append_left
  rw [← List.append_assoc, ← List.append_assoc]
  exact List.perm_append_comm.append_right e

theorem perm_idents (D : List Key) (V : List (Object cfg)) (d v : ℕ) :
    (idents D V).Perm (idents (D.take d) (V.take v) ++ idents (D.drop d) (V.drop v)) := by
  have hsplit : idents D V = idents (D.take d ++ D.drop d) (V.take v ++ V.drop v) := by
    rw [List.take_append_drop, List.take_append_drop]
  rw [hsplit, idents, List.map_append, List.map_append]
  exact perm_append_comm₄ _ _ _ _

theorem map_ident_opsOf (D : List Key) (V : List (Object cfg)) :
    (opsOf D V).map (fun op => op.key.ident) = idents D V := by
  rw [opsOf, List.map_append, List.map_map, List.map_map]
  rfl

theorem notMem_messageOps {k : Key} (h : k.ident ∉ idents D V) :
    k.ident ∉ (messageOps D V).map fun op => op.key.ident := by
  intro hmem
  obtain ⟨op, hop, heq⟩ := List.mem_map.mp hmem
  apply h
  rw [← heq, idents]
  rcases List.mem_append.mp hop with hop | hop
  · obtain ⟨k', hk', rfl⟩ := List.mem_map.mp hop
    exact List.mem_append_left _ (List.mem_map_of_mem hk')
  · obtain ⟨o, ho, rfl⟩ := List.mem_map.mp hop
    exact List.mem_append_right _ (List.mem_map.mpr ⟨o, mem_received ho, rfl⟩)

/-- A message leaves alone what is still to be sent. -/
theorem OriginalServer.Has.message (hs : s.Has D V) (hnodup : (idents D V).Nodup) (d v : ℕ) :
    ((messageOps (D.take d) (V.take v)).foldl OriginalServer.apply s).Has
      (D.drop d) (V.drop v) := by
  have hnodup' := (perm_idents D V d v).nodup_iff.mp hnodup
  obtain ⟨-, -, hdisjoint⟩ := List.nodup_append.mp hnodup'
  constructor
  · intro k hk
    have hnotin : k.ident ∉ idents (D.take d) (V.take v) := fun hmem =>
      hdisjoint _ hmem _ (List.mem_append_left _ (List.mem_map_of_mem hk)) rfl
    rw [find_foldl_apply_of_notMem (notMem_messageOps hnotin)]
    exact hs.deleted k (List.mem_of_mem_drop hk)
  · intro o ho
    have hnotin : o.mapKey.ident ∉ idents (D.take d) (V.take v) := fun hmem =>
      hdisjoint _ hmem _ (List.mem_append_right _ (List.mem_map.mpr ⟨o, ho, rfl⟩)) rfl
    rw [find_foldl_apply_of_notMem (notMem_messageOps hnotin)]
    exact hs.updated o (List.mem_of_mem_drop ho)

/-- The buffer after a message. -/
theorem Unsealed.Recorded.message (h : Recorded u metadata) (hD : u.deletedOf metadata = D)
    (hV : u.valuesOf metadata = V) (d v : ℕ) :
    Recorded (((V.take v).map Object.mapKey).foldl (Unsealed.eraseValue metadata)
        ((D.take d).foldl (Unsealed.eraseDeleted metadata) u)) metadata ∧
      (((V.take v).map Object.mapKey).foldl (Unsealed.eraseValue metadata)
        ((D.take d).foldl (Unsealed.eraseDeleted metadata) u)).deletedOf metadata = D.drop d ∧
      (((V.take v).map Object.mapKey).foldl (Unsealed.eraseValue metadata)
        ((D.take d).foldl (Unsealed.eraseDeleted metadata) u)).valuesOf metadata = V.drop v := by
  have hsplitD : u.deletedOf metadata = D.take d ++ D.drop d := by
    rw [hD, List.take_append_drop]
  obtain ⟨h₁, hD₁, hV₁⟩ := h.eraseDeletedKeys hsplitD
  have hsplitV : ((D.take d).foldl (Unsealed.eraseDeleted metadata) u).valuesOf metadata =
      V.take v ++ V.drop v := by
    rw [hV₁, hV, List.take_append_drop]
  obtain ⟨h₂, hV₂, hD₂⟩ := h₁.eraseValues hsplitV
  exact ⟨h₂, hD₂.trans hD₁, hV₂⟩

/-- What a run of calls has done when it has sent all. -/
structure Sent (metadata : Metadata) (D : List Key) (V : List (Object cfg)) (u u' : Unsealed cfg)
    (s s' : OriginalServer) : Prop where
  ops : ∃ ops : List ObjectOp, s' = ops.foldl OriginalServer.apply s ∧ ops.Perm (opsOf D V)
  emptied : u'.metadataRev metadata = []
  deleted_eq : ∀ k : Key, u'.deleted.find k =
    if k.ident ∈ D.map Key.ident then none else u.deleted.find k
  values_eq : ∀ k : Key, u'.values.find k =
    if k.ident ∈ V.map (fun o => o.mapKey.ident) then none else u.values.find k

/-- All operations have their effect. -/
theorem Sent.arrived (h : Recorded u metadata)
    (hsent : Sent metadata (u.deletedOf metadata) (u.valuesOf metadata) u u' s s') :
    Arrived metadata u u' s s' := by
  obtain ⟨ops, rfl, hperm⟩ := hsent.ops
  have hnodup : (ops.map fun op => op.key.ident).Nodup := by
    apply (hperm.map _).nodup_iff.mpr
    rw [map_ident_opsOf]
    exact h.nodup_ident
  constructor
  · rw [log_foldl_apply]
    exact hperm.append_left _
  · intro k hk
    have hmem : ObjectOp.delete k ∈ ops :=
      hperm.mem_iff.mpr (List.mem_append_left _ (List.mem_map_of_mem hk))
    exact find_foldl_apply_of_mem hnodup hmem
  · intro o ho
    have hmem : ObjectOp.update o.mapKey o.payload ∈ ops :=
      hperm.mem_iff.mpr (List.mem_append_right _ (List.mem_map.mpr ⟨o, ho, rfl⟩))
    exact find_foldl_apply_of_mem hnodup hmem
  · intro k hk
    apply find_foldl_apply_of_notMem
    intro hmem
    apply hk
    have hmem' := (hperm.map fun op => op.key.ident).mem_iff.mp hmem
    rw [map_ident_opsOf, idents] at hmem'
    have hkeys := h.perm.map Key.ident
    rw [List.map_append, List.map_map] at hkeys
    exact hkeys.mem_iff.mp hmem'
  · exact hsent.emptied
  · exact hsent.deleted_eq
  · exact hsent.values_eq

namespace Unsealed

def sampleObject (c : UInt8) : Object .smallest :=
  .plain [c] [c, c] (Nat.le_of_ble_eq_true rfl) (Nat.le_of_ble_eq_true rfl)

def sampleServer : OriginalServer where
  objects := (((∅ : KeyMap _).assign (.plain [9]) [0]).assign (.plain [1]) [0, 0]).assign
    (.plain [2]) [0, 0]
  log := []

end Unsealed

end MemEC.Server
