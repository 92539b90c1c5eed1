import Mathlib.Tactic
import MemEC.Server.UnsealedChunk

/-!
# One message of an unsealed chunk

The encoder writes the deleted keys that fit, and of the objects those that fit
twice. It counts an object once, so the decoder takes the second record of an
object for the next object.
-/

namespace MemEC.Server

open MemEC.Common MemEC.Lib

variable {cfg : GlobalConfig} {size : ℕ} {metadata : Metadata} {u u' : Unsealed cfg}
  {s s' : OriginalServer} {D : List Key} {V : List (Object cfg)}

/-! ## What is recorded -/

namespace Unsealed

/-- The keys of the chunk that were deleted. -/
def deletedOf (u : Unsealed cfg) (metadata : Metadata) : List Key :=
  (u.metadataRev metadata).filterMap u.deleted.find

/-- The objects of the chunk that were updated. -/
def valuesOf (u : Unsealed cfg) (metadata : Metadata) : List (Object cfg) :=
  (u.metadataRev metadata).filterMap u.values.find

/-- Every key of the chunk comes once, under itself, as a deleted key or as the key of an object.
Its size takes one byte. -/
structure Recorded (u : Unsealed cfg) (metadata : Metadata) : Prop where
  nodup : ((u.metadataRev metadata).map Key.ident).Nodup
  size_lt : ∀ k ∈ u.metadataRev metadata, k.size < 256
  kind : ∀ k ∈ u.metadataRev metadata,
    (u.deleted.find k = some k ∧ u.values.find k = none) ∨
      (u.deleted.find k = none ∧ ∃ o, u.values.find k = some o ∧ o.mapKey = k)

end Unsealed

open Unsealed

/-- The server of the chunk has what was deleted or updated since, and values of the same size. -/
structure OriginalServer.Has (s : OriginalServer) (D : List Key) (V : List (Object cfg)) : Prop where
  deleted : ∀ k ∈ D, s.objects.find k ≠ none
  updated : ∀ o ∈ V, ∃ v, s.objects.find o.mapKey = some v ∧ v.length = o.valueSize

section Records

variable {k : Key} {o : Object cfg} {rest : List UInt8}

open ChunkKeyValueMessage

theorem length_keyRecord (k : Key) : (keyRecord k).length = keyRecordSize k := by
  have hlen := k.length_data
  rw [Key.extent] at hlen
  rw [keyRecord, keyRecordSize, List.length_cons, List.length_take_of_le (by omega), Nat.add_comm]

end Records

/-! ## The encoder -/

section Encoder

variable {keys : List Key} {e : Encoder}

/-- Erasing a key leaves what is found under the other keys. -/
theorem filterMap_find_eraseKey {W : Type} (m : KeyMap W) {key : Key}
    (h : key.ident ∉ keys.map Key.ident) :
    keys.filterMap (m.eraseKey key).find = keys.filterMap m.find := by
  apply List.filterMap_congr
  intro k hk
  rw [KeyMap.find_eraseKey, if_neg]
  intro heq
  exact h (heq ▸ List.mem_map_of_mem hk)

end Encoder

/-! ## What is left in the buffer -/

section Buffer

variable {W : Type} {keys : List Key}

/-- The first key that is found, and the keys without it. -/
theorem erase_first (W' : Type) {f : Key → Option W} {b : W} {l : List W}
    (hnodup : (keys.map Key.ident).Nodup)
    (h : keys.filterMap f = b :: l) : ∃ k rest, f k = some b ∧ k ∈ keys ∧ keys.erase k = rest ∧
      (keys.Perm (k :: rest)) ∧ k.ident ∉ rest.map Key.ident ∧ rest.filterMap f = l ∧
      ∀ g : Key → Option W', g k = none → rest.filterMap g = keys.filterMap g := by
  obtain ⟨before, k, behind, rfl, hnone, hk, hl⟩ := List.filterMap_eq_cons_iff.mp h
  have hperm : (before ++ k :: behind).Perm (k :: (before ++ behind)) := List.perm_middle
  have hkeys : ((k :: (before ++ behind)).map Key.ident).Nodup :=
    (hperm.map Key.ident).nodup_iff.mp hnodup
  have hnotin : k.ident ∉ (before ++ behind).map Key.ident := (List.nodup_cons.mp hkeys).1
  have hbefore : k ∉ before := fun hmem =>
    hnotin (List.mem_map_of_mem (List.mem_append_left _ hmem))
  refine ⟨k, before ++ behind, hk, by simp, ?_, hperm, hnotin, ?_, fun g hg => ?_⟩
  · rw [List.erase_append_right _ hbefore, List.erase_cons_head]
  · rw [List.filterMap_append, List.filterMap_eq_nil_iff.mpr hnone, hl, List.nil_append]
  · rw [List.filterMap_append, List.filterMap_append, List.filterMap_cons_none hg]

theorem Unsealed.Recorded.of_perm (h : Recorded u metadata) {k : Key} {rest : List Key}
    (hperm : (u.metadataRev metadata).Perm (k :: rest)) (hrest : u'.metadataRev metadata = rest)
    (hdeleted : ∀ k' ∈ rest, u'.deleted.find k' = u.deleted.find k')
    (hvalues : ∀ k' ∈ rest, u'.values.find k' = u.values.find k') : Recorded u' metadata := by
  have hmem : ∀ k' ∈ rest, k' ∈ u.metadataRev metadata := fun k' hk' =>
    hperm.mem_iff.mpr (List.mem_cons_of_mem _ hk')
  constructor
  · rw [hrest]
    have hnodup := (hperm.map Key.ident).nodup_iff.mp h.nodup
    exact (List.nodup_cons.mp hnodup).2
  · rw [hrest]
    exact fun k' hk' => h.size_lt k' (hmem k' hk')
  · rw [hrest]
    intro k' hk'
    rw [hdeleted k' hk', hvalues k' hk']
    exact h.kind k' (hmem k' hk')

/-- The first deleted key is erased. -/
theorem Unsealed.Recorded.eraseDeleted (h : Recorded u metadata) {k : Key}
    (hD : u.deletedOf metadata = k :: D) : Recorded (u.eraseDeleted metadata k) metadata ∧
      (u.eraseDeleted metadata k).deletedOf metadata = D ∧
      (u.eraseDeleted metadata k).valuesOf metadata = u.valuesOf metadata := by
  obtain ⟨k', rest, hfind, hmem, herase, hperm, hnotin, hl, hother⟩ :=
    erase_first (Object cfg) h.nodup hD
  obtain ⟨hself, hnone⟩ : u.deleted.find k' = some k' ∧ u.values.find k' = none := by
    rcases h.kind k' hmem with hkind | ⟨hkind, -⟩
    · exact hkind
    · rw [hkind] at hfind
      cases hfind
  obtain rfl : k' = k := Option.some.inj (hself.symm.trans hfind)
  have hrev : (u.eraseDeleted metadata k').metadataRev metadata = rest :=
    (Function.update_self metadata _ u.metadataRev).trans herase
  have hfound : ∀ k'' ∈ rest, (u.eraseDeleted metadata k').deleted.find k'' = u.deleted.find k'' := by
    intro k'' hk''
    rw [Unsealed.eraseDeleted, KeyMap.find_eraseKey, if_neg]
    intro heq
    exact hnotin (heq ▸ List.mem_map_of_mem hk'')
  refine ⟨h.of_perm hperm hrev hfound fun _ _ => rfl, ?_, ?_⟩
  · rw [deletedOf, hrev]
    exact (filterMap_find_eraseKey u.deleted hnotin).trans hl
  · rw [valuesOf, hrev]
    exact hother _ hnone

/-- The first object is erased. -/
theorem Unsealed.Recorded.eraseValue (h : Recorded u metadata) {o : Object cfg}
    (hV : u.valuesOf metadata = o :: V) : Recorded (u.eraseValue metadata o.mapKey) metadata ∧
      (u.eraseValue metadata o.mapKey).valuesOf metadata = V ∧
      (u.eraseValue metadata o.mapKey).deletedOf metadata = u.deletedOf metadata := by
  obtain ⟨k, rest, hfind, hmem, herase, hperm, hnotin, hl, hother⟩ :=
    erase_first Key h.nodup hV
  obtain ⟨hnone, rfl⟩ : u.deleted.find k = none ∧ o.mapKey = k := by
    rcases h.kind k hmem with ⟨-, hkind⟩ | ⟨hkind, o', ho', hkey⟩
    · rw [hkind] at hfind
      cases hfind
    · obtain rfl : o' = o := Option.some.inj (ho'.symm.trans hfind)
      exact ⟨hkind, hkey⟩
  have hrev : (u.eraseValue metadata o.mapKey).metadataRev metadata = rest :=
    (Function.update_self metadata _ u.metadataRev).trans herase
  have hfound : ∀ k' ∈ rest, (u.eraseValue metadata o.mapKey).values.find k' = u.values.find k' := by
    intro k' hk'
    rw [Unsealed.eraseValue, KeyMap.find_eraseKey, if_neg]
    intro heq
    exact hnotin (heq ▸ List.mem_map_of_mem hk')
  refine ⟨h.of_perm hperm hrev (fun _ _ => rfl) hfound, ?_, ?_⟩
  · rw [valuesOf, hrev]
    exact (filterMap_find_eraseKey u.values hnotin).trans hl
  · rw [deletedOf, hrev]
    exact hother _ hnone

/-- Some of the deleted keys are erased, in order. -/
theorem Unsealed.Recorded.eraseDeletedKeys (h : Recorded u metadata) {D₁ D₂ : List Key}
    (hD : u.deletedOf metadata = D₁ ++ D₂) :
    Recorded (D₁.foldl (Unsealed.eraseDeleted metadata) u) metadata ∧
      (D₁.foldl (Unsealed.eraseDeleted metadata) u).deletedOf metadata = D₂ ∧
      (D₁.foldl (Unsealed.eraseDeleted metadata) u).valuesOf metadata = u.valuesOf metadata := by
  induction D₁ generalizing u with
  | nil => exact ⟨h, hD, rfl⟩
  | cons k D₁ ih =>
    obtain ⟨hrec, hdeleted, hvalues⟩ := h.eraseDeleted hD
    obtain ⟨hrec', hdeleted', hvalues'⟩ := ih hrec hdeleted
    exact ⟨hrec', hdeleted', hvalues'.trans hvalues⟩

/-- Some of the objects are erased, in order. -/
theorem Unsealed.Recorded.eraseValues (h : Recorded u metadata) {V₁ V₂ : List (Object cfg)}
    (hV : u.valuesOf metadata = V₁ ++ V₂) :
    Recorded ((V₁.map Object.mapKey).foldl (Unsealed.eraseValue metadata) u) metadata ∧
      ((V₁.map Object.mapKey).foldl (Unsealed.eraseValue metadata) u).valuesOf metadata = V₂ ∧
      ((V₁.map Object.mapKey).foldl (Unsealed.eraseValue metadata) u).deletedOf metadata =
        u.deletedOf metadata := by
  induction V₁ generalizing u with
  | nil => exact ⟨h, hV, rfl⟩
  | cons o V₁ ih =>
    obtain ⟨hrec, hvalues, hdeleted⟩ := h.eraseValue hV
    obtain ⟨hrec', hvalues', hdeleted'⟩ := ih hrec hvalues
    exact ⟨hrec', hvalues', hdeleted'.trans hdeleted⟩

end Buffer

/-! ## The server of the chunk -/

section Server

open ChunkKeyValueMessage

variable {ops : List ObjectOp}

def ObjectOp.key : ObjectOp → Key
  | .delete key => key
  | .update key _ => key

/-- What is found under the key afterwards. -/
def ObjectOp.result : ObjectOp → Option (List UInt8)
  | .delete _ => none
  | .update _ value => some value

/-- The operation of an object. -/
def updateOp (o : Object cfg) : ObjectOp := .update o.mapKey o.payload

/-- An operation on a key that is there. -/
def OriginalServer.apply (s : OriginalServer) (op : ObjectOp) : OriginalServer :=
  match op with
  | .delete key => ⟨s.objects.eraseKey key, s.log ++ [.delete key]⟩
  | .update key value => ⟨s.objects.assign key value, s.log ++ [.update key value]⟩

theorem find_apply (op : ObjectOp) (k : Key) : (s.apply op).objects.find k =
    if k.ident = op.key.ident then op.result else s.objects.find k := by
  cases op with
  | delete key => exact KeyMap.find_eraseKey _ _ _
  | update key value => exact KeyMap.find_assign _ _ _ _

theorem log_foldl_apply (ops : List ObjectOp) :
    (ops.foldl OriginalServer.apply s).log = s.log ++ ops := by
  induction ops generalizing s with
  | nil => exact (List.append_nil _).symm
  | cons op ops ih =>
    rw [List.foldl_cons, ih]
    cases op <;> simp [OriginalServer.apply]

theorem find_foldl_apply_of_notMem {k : Key} (h : k.ident ∉ ops.map fun op => op.key.ident) :
    (ops.foldl OriginalServer.apply s).objects.find k = s.objects.find k := by
  induction ops generalizing s with
  | nil => rfl
  | cons op ops ih =>
    rw [List.map_cons, List.mem_cons, not_or] at h
    rw [List.foldl_cons, ih h.2, find_apply, if_neg h.1]

/-- Operations on different keys all have their effect. -/
theorem find_foldl_apply_of_mem (hnodup : (ops.map fun op => op.key.ident).Nodup) {op : ObjectOp}
    (h : op ∈ ops) : (ops.foldl OriginalServer.apply s).objects.find op.key = op.result := by
  induction ops generalizing s with
  | nil => exact absurd h List.not_mem_nil
  | cons op' ops ih =>
    rw [List.map_cons, List.nodup_cons] at hnodup
    rw [List.foldl_cons]
    rcases List.mem_cons.mp h with rfl | h
    · rw [find_foldl_apply_of_notMem hnodup.1, find_apply, if_pos rfl]
    · exact ih hnodup.2 h

/-- What is done is added to the log, and no split is touched. -/
def Extends (s s' : OriginalServer) : Prop :=
  ∃ more, s'.log = s.log ++ more ∧ ∀ op ∈ more, op.key.isLarge = false

theorem Extends.refl (s : OriginalServer) : Extends s s := ⟨[], by simp⟩

theorem Extends.trans {s'' : OriginalServer} (h : Extends s s') (h' : Extends s' s'') :
    Extends s s'' := by
  obtain ⟨more, hlog, hplain⟩ := h
  obtain ⟨more', hlog', hplain'⟩ := h'
  refine ⟨more ++ more', by rw [hlog', hlog, List.append_assoc], fun op hop => ?_⟩
  rcases List.mem_append.mp hop with hop | hop
  · exact hplain op hop
  · exact hplain' op hop

theorem Extends.concat {objects : KeyMap (List UInt8)} {op : ObjectOp}
    (h : op.key.isLarge = false) : Extends s ⟨objects, s.log ++ [op]⟩ :=
  ⟨[op], rfl, fun _ hop => List.mem_singleton.mp hop ▸ h⟩

end Server

/-! ## A message -/

/-- The objects that the decoder takes from the first `V.length` records. -/
def received (V : List (Object cfg)) : List (Object cfg) := (V.flatMap fun o => [o, o]).take V.length

def messageOps (D : List Key) (V : List (Object cfg)) : List ObjectOp :=
  D.map .delete ++ (received V).map updateOp

theorem mem_received {o : Object cfg} (h : o ∈ received V) : o ∈ V := by
  obtain ⟨o', ho', hmem⟩ := List.mem_flatMap.mp (List.mem_of_mem_take h)
  simp only [List.mem_cons, List.not_mem_nil, or_false, or_self] at hmem
  exact hmem ▸ ho'

/-- The keys of the chunk are those that were deleted and those of the objects. -/
theorem Unsealed.Recorded.perm (h : Recorded u metadata) :
    (u.deletedOf metadata ++ (u.valuesOf metadata).map Object.mapKey).Perm
      (u.metadataRev metadata) := by
  have hkind := h.kind
  unfold deletedOf valuesOf
  generalize u.metadataRev metadata = keys at hkind ⊢
  induction keys with
  | nil => exact List.Perm.refl _
  | cons k keys ih =>
    have hkeys := ih fun k' hk' => hkind k' (List.mem_cons_of_mem _ hk')
    rcases hkind k List.mem_cons_self with ⟨hdeleted, hnone⟩ | ⟨hnone, o, ho, hkey⟩
    · rw [List.filterMap_cons_some hdeleted, List.filterMap_cons_none hnone, List.cons_append]
      exact hkeys.cons k
    · rw [List.filterMap_cons_none hnone, List.filterMap_cons_some ho, List.map_cons, hkey]
      exact List.perm_middle.trans (hkeys.cons k)

theorem Unsealed.Recorded.nodup_ident (h : Recorded u metadata) :
    ((u.deletedOf metadata).map Key.ident ++
      (u.valuesOf metadata).map fun o => o.mapKey.ident).Nodup := by
  have hnodup := (h.perm.map Key.ident).nodup_iff.mpr h.nodup
  rw [List.map_append, List.map_map] at hnodup
  exact hnodup

end MemEC.Server
