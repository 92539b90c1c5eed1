import MemEC.Server.Reconstruction

/-!
# The numbers that a surviving server reports

In a run in which the requests for a chunk are disjoint and the server has every
key it is asked for, the reports add up to what was asked for exactly when every
response is handled, provided that no request of a kind comes behind the report
of this kind while the entry lives on because of the other kind. The entry keeps
its total, and the next report counts it again.
-/

namespace MemEC.Server

open MemEC.Lib MemEC.Common

variable {κ : Type} [DecidableEq κ]

/-! ## The entry -/

/-- What the entry, if there is one, says of the stripes. -/
def stripeTally (entry : Option (PendingReconstruction κ)) : Tally ℕ := entry.elim .empty (·.chunks)

def keyTally (entry : Option (PendingReconstruction κ)) : Tally κ := entry.elim .empty (·.unsealed)

/-- The entry, if there is one, is for this chunk. -/
def IsFor (listId chunkId : ℕ) (entry : Option (PendingReconstruction κ)) : Prop :=
  ∀ r ∈ entry, r.listId = listId ∧ r.chunkId = chunkId

theorem insertReconstruction_spec {entry : Option (PendingReconstruction κ)} {listId chunkId : ℕ}
    (h : IsFor listId chunkId entry) (stripeIds : Finset ℕ) (unsealedKeys : Finset κ) :
    insertReconstruction entry listId chunkId stripeIds unsealedKeys =
      (some ⟨listId, chunkId, (stripeTally entry).merge stripeIds,
        (keyTally entry).merge unsealedKeys⟩, true) := by
  cases entry with
  | none => simp [insertReconstruction, stripeTally, keyTally, Tally.empty_merge]
  | some r =>
    obtain ⟨hlist, hchunk⟩ := h r rfl
    simp [insertReconstruction, stripeTally, keyTally, hlist, hchunk]

variable {r : PendingReconstruction κ}

namespace PendingReconstruction

theorem orErased_eq_some (h : r.unsealed.items ≠ ∅) : r.orErased = some r :=
  if_neg fun hboth => h hboth.2

theorem stripeTally_orErased {asked : Finset ℕ} {reported : ℕ}
    (h : r.chunks.Accounts asked reported) : (stripeTally r.orErased).Accounts asked reported := by
  unfold orErased
  split_ifs with hdone
  · exact h.forget hdone.1
  · exact h

theorem keyTally_orErased {asked : Finset κ} {reported : ℕ}
    (h : r.unsealed.Accounts asked reported) : (keyTally r.orErased).Accounts asked reported := by
  unfold orErased
  split_ifs with hdone
  · exact h.forget hdone.2
  · exact h

theorem mem_keyTally_orErased (key : κ) :
    key ∈ (keyTally r.orErased).items ↔ key ∈ r.unsealed.items := by
  unfold orErased
  split_ifs with hdone
  · simp [hdone.2, keyTally, Tally.empty]
  · rfl

/-- The chunks that an entry waits for. -/
def Awaits (r : PendingReconstruction κ) (md : Metadata) : Prop :=
  md.listId = r.listId ∧ md.chunkId = r.chunkId ∧ md.stripeId ∈ r.chunks.items

theorem awaits_orErased (md : Metadata) : (∃ r' ∈ r.orErased, r'.Awaits md) ↔ r.Awaits md := by
  unfold orErased
  split_ifs with hdone
  · simp [Awaits, hdone.1]
  · simp

end PendingReconstruction

theorem eraseStripe_eq {md : Metadata} (h : r.Awaits md) :
    eraseStripe (some r) md.listId md.stripeId md.chunkId =
      some (({ r with chunks := r.chunks.remove {md.stripeId} } : PendingReconstruction κ).orErased,
        true, { r with chunks := r.chunks.remove {md.stripeId} }) := by
  obtain ⟨hlist, hchunk, hstripe⟩ := h
  simp [eraseStripe, hlist, hchunk, hstripe]

/-- The entry without some keys. -/
def PendingReconstruction.withoutKeys (r : PendingReconstruction κ) (keys : List κ) :
    PendingReconstruction κ :=
  { r with unsealed := r.unsealed.remove keys.toFinset }

/-- The loop over the keys of a response, as long as the entry has all of them. -/
theorem eraseKeys_eq {keys : List κ} (hne : keys ≠ []) (hnodup : keys.Nodup)
    (hmem : ∀ key ∈ keys, key ∈ r.unsealed.items) (last : Option (PendingReconstruction κ)) :
    Reconstructing.eraseKeys r.listId r.chunkId keys (some r) last =
      ((r.withoutKeys keys).orErased, some (r.withoutKeys keys)) := by
  induction keys generalizing r last with
  | nil => exact absurd rfl hne
  | cons key keys ih =>
    obtain ⟨hkey, hnodup⟩ := List.nodup_cons.mp hnodup
    have hstep : eraseKey (some r) r.listId r.chunkId key =
        some ((r.withoutKeys [key]).orErased, decide (key ∈ r.unsealed.items),
          r.withoutKeys [key]) := by
      simp [eraseKey, PendingReconstruction.withoutKeys]
    rw [Reconstructing.eraseKeys, hstep]
    dsimp only
    by_cases hrest : keys = []
    · rw [hrest]
      rfl
    · have hmem' : ∀ key' ∈ keys, key' ∈ (r.withoutKeys [key]).unsealed.items := by
        intro key' hkey'
        have hne' : key' ≠ key := fun heq => hkey (heq ▸ hkey')
        simpa [PendingReconstruction.withoutKeys, Tally.remove, hne'] using
          hmem key' (List.mem_cons_of_mem _ hkey')
      have hsome : (r.withoutKeys [key]).orErased = some (r.withoutKeys [key]) := by
        obtain ⟨key', hkey'⟩ := List.exists_mem_of_ne_nil keys hrest
        exact PendingReconstruction.orErased_eq_some
          (Finset.ne_empty_of_mem (hmem' key' hkey'))
      have hall : (r.withoutKeys [key]).withoutKeys keys = r.withoutKeys (key :: keys) := by
        unfold PendingReconstruction.withoutKeys
        rw [Tally.remove_remove, List.toFinset_cons, List.toFinset_cons, List.toFinset_nil,
          insert_empty_eq, Finset.singleton_union]
      rw [hsome, ← hall]
      exact ih hrest hnodup hmem' _

/-! ## Runs -/

namespace Reconstructing

/-- What the numbers promise: they add up to what the server was asked for exactly when all work is
done, and never to more. -/
structure Reports (s : Reconstructing κ) : Prop where
  stripes_le : s.stripeReports.sum ≤ s.askedStripes.card
  stripes_eq : s.stripeReports.sum = s.askedStripes.card ↔ s.storing = []
  keys_le : s.keyReports.sum ≤ s.askedKeys.card
  keys_eq : s.keyReports.sum = s.askedKeys.card ↔ s.forwarding = []

/-- No stripe and no key is asked for twice, all requests are for one chunk, the server has all
keys, and no request of a kind comes behind the report of this kind in an entry. -/
def Allowed (s : Reconstructing κ) : ReconstructAction κ → Prop
  | .request listId chunkId stripeIds => stripeIds = [] ∨ IsFor listId chunkId s.entry ∧
      Disjoint stripeIds.toFinset s.askedStripes ∧ ¬ (stripeTally s.entry).Reported
  | .requestUnsealed listId chunkId keys batches => keys ≠ [] ∧ IsFor listId chunkId s.entry ∧
      Disjoint keys.toFinset s.askedKeys ∧ ¬ (keyTally s.entry).Reported ∧
      [] ∉ batches ∧ batches.flatten.Perm keys.dedup
  | .stored _ => True
  | .forwarded _ => True

/-- What the entry, the requests on the way and the reports have to do with each other. -/
structure Inv (s : Reconstructing κ) : Prop where
  stripes : (stripeTally s.entry).Accounts s.askedStripes s.stripeReports.sum
  keys : (keyTally s.entry).Accounts s.askedKeys s.keyReports.sum
  storing_nodup : s.storing.Nodup
  mem_storing : ∀ md, md ∈ s.storing ↔ ∃ r ∈ s.entry, r.Awaits md
  forwarding_nodup : s.forwarding.flatten.Nodup
  mem_forwarding : ∀ key, key ∈ s.forwarding.flatten ↔ key ∈ (keyTally s.entry).items
  batch_ne_nil : [] ∉ s.forwarding

variable {s : Reconstructing κ}

theorem start_inv : (start : Reconstructing κ).Inv := by
  constructor
  · exact Tally.accounts_empty
  · exact Tally.accounts_empty
  · exact List.nodup_nil
  · simp [start]
  · exact List.nodup_nil
  · simp [start, keyTally, Tally.empty]
  · simp [start]

theorem Inv.storing_eq_nil_iff (h : s.Inv) :
    s.storing = [] ↔ (stripeTally s.entry).items = ∅ := by
  rw [List.eq_nil_iff_forall_not_mem, Finset.eq_empty_iff_forall_notMem]
  cases hentry : s.entry with
  | none => simp [h.mem_storing, hentry, stripeTally, Tally.empty]
  | some r =>
    constructor
    · intro hnone stripeId hstripe
      apply hnone ⟨r.listId, stripeId, r.chunkId⟩
      rw [h.mem_storing]
      exact ⟨r, hentry, rfl, rfl, hstripe⟩
    · intro hnone md hmd
      obtain ⟨r', hr', hawaits⟩ := (h.mem_storing md).mp hmd
      obtain rfl : r = r' := Option.some.inj (hentry.symm.trans hr')
      exact hnone _ hawaits.2.2

theorem Inv.forwarding_eq_nil_iff (h : s.Inv) :
    s.forwarding = [] ↔ (keyTally s.entry).items = ∅ := by
  rw [Finset.eq_empty_iff_forall_notMem]
  constructor
  · intro hnil key hkey
    rw [← h.mem_forwarding, hnil] at hkey
    exact List.not_mem_nil hkey
  · intro hnone
    cases hforwarding : s.forwarding with
    | nil => rfl
    | cons batch batches =>
      exfalso
      have hbatch : batch ≠ [] := by
        intro hnil
        apply h.batch_ne_nil
        simp [hforwarding, hnil]
      obtain ⟨key, hkey⟩ := List.exists_mem_of_ne_nil batch hbatch
      apply hnone key
      rw [← h.mem_forwarding, hforwarding]
      simp [hkey]

theorem Inv.reports (h : s.Inv) : s.Reports := by
  constructor
  · exact h.stripes.reported_le
  · rw [h.stripes.reported_eq_iff, h.storing_eq_nil_iff]
  · exact h.keys.reported_le
  · rw [h.keys.reported_eq_iff, h.forwarding_eq_nil_iff]

theorem Inv.handleReconstructionRequest (h : s.Inv) {listId chunkId : ℕ} {stripeIds : List ℕ}
    (ha : s.Allowed (.request listId chunkId stripeIds)) :
    (s.handleReconstructionRequest listId chunkId stripeIds).Inv := by
  unfold Reconstructing.handleReconstructionRequest
  split_ifs with hnil
  · exact { h with stripes := by simpa using h.stripes }
  · obtain ⟨hfor, hnew, hopen⟩ := ha.resolve_left hnil
    rw [insertReconstruction_spec hfor, Tally.merge_empty]
    have hfresh : ∀ md ∈ s.storing, md.stripeId ∉ stripeIds := by
      intro md hmd hmem
      obtain ⟨r, hr, hawaits⟩ := (h.mem_storing md).mp hmd
      have hasked := h.stripes.subset
      rw [Option.mem_def.mp hr] at hasked
      exact Finset.disjoint_left.mp hnew (List.mem_toFinset.mpr hmem) (hasked hawaits.2.2)
    constructor
    · exact h.stripes.merge hnew hopen
    · exact h.keys
    · apply h.storing_nodup.append
      · apply (List.nodup_dedup _).map
        intro i j heq
        exact (Metadata.mk.inj heq).2.1
      · intro md hmd hnewMd
        obtain ⟨stripeId, hstripe, rfl⟩ := List.mem_map.mp hnewMd
        exact hfresh _ hmd (List.mem_dedup.mp hstripe)
    · intro md
      have hold : md ∈ s.storing ↔ md.listId = listId ∧ md.chunkId = chunkId ∧
          md.stripeId ∈ (stripeTally s.entry).items := by
        rw [h.mem_storing]
        cases hentry : s.entry with
        | none => simp [stripeTally, Tally.empty]
        | some r =>
          obtain ⟨hlist, hchunk⟩ := hfor r hentry
          simp [PendingReconstruction.Awaits, stripeTally, hlist, hchunk]
      have hadded :
          (md ∈ stripeIds.dedup.map fun stripeId => (⟨listId, stripeId, chunkId⟩ : Metadata)) ↔
          md.listId = listId ∧ md.chunkId = chunkId ∧ md.stripeId ∈ stripeIds := by
        obtain ⟨l, i, c⟩ := md
        simp only [List.mem_map, List.mem_dedup, Metadata.mk.injEq]
        constructor
        · rintro ⟨i, hi, rfl, rfl, rfl⟩
          exact ⟨rfl, rfl, hi⟩
        · rintro ⟨rfl, rfl, hi⟩
          exact ⟨i, hi, rfl, rfl, rfl⟩
      simp only [List.mem_append, hold, hadded, Option.mem_some_iff, exists_eq_left',
        PendingReconstruction.Awaits, Tally.merge, Finset.mem_union, List.mem_toFinset]
      tauto
    · exact h.forwarding_nodup
    · exact h.mem_forwarding
    · exact h.batch_ne_nil

theorem Inv.handleReconstructionUnsealedRequest (h : s.Inv) {listId chunkId : ℕ} {keys : List κ}
    {batches : List (List κ)} (ha : s.Allowed (.requestUnsealed listId chunkId keys batches)) :
    (s.handleReconstructionUnsealedRequest listId chunkId keys batches).Inv := by
  obtain ⟨-, hfor, hnew, hopen, hbatches, hperm⟩ := ha
  have hmem : ∀ key, key ∈ batches.flatten ↔ key ∈ keys.toFinset := by
    intro key
    rw [hperm.mem_iff, List.mem_dedup, List.mem_toFinset]
  unfold Reconstructing.handleReconstructionUnsealedRequest
  rw [insertReconstruction_spec hfor, Tally.merge_empty]
  constructor
  · exact h.stripes
  · exact h.keys.merge hnew hopen
  · exact h.storing_nodup
  · intro md
    rw [h.mem_storing]
    cases hentry : s.entry with
    | none => simp [PendingReconstruction.Awaits, stripeTally, Tally.empty]
    | some r =>
      obtain ⟨hlist, hchunk⟩ := hfor r hentry
      simp [PendingReconstruction.Awaits, stripeTally, hlist, hchunk]
  · dsimp only
    rw [List.flatten_append]
    apply h.forwarding_nodup.append
    · exact hperm.nodup_iff.mpr (List.nodup_dedup keys)
    · intro key hkey hbatch
      have hasked := h.keys.subset ((h.mem_forwarding key).mp hkey)
      exact Finset.disjoint_left.mp hnew ((hmem key).mp hbatch) hasked
  · intro key
    dsimp only
    rw [List.flatten_append, List.mem_append, h.mem_forwarding, hmem]
    exact Finset.mem_union.symm
  · simp [h.batch_ne_nil, hbatches]

theorem Inv.stored (h : s.Inv) {md : Metadata} (hmd : md ∈ s.storing) :
    ({ s with storing := s.storing.erase md }.handleSetChunkResponse md).Inv := by
  obtain ⟨r, hr, hawaits⟩ := (h.mem_storing md).mp hmd
  have hentry : s.entry = some r := hr
  have hstripes : r.chunks.Accounts s.askedStripes s.stripeReports.sum := by
    simpa [hentry, stripeTally] using h.stripes
  have hkeys : r.unsealed.Accounts s.askedKeys s.keyReports.sum := by
    simpa [hentry, keyTally] using h.keys
  have hdone := hstripes.remove (Finset.singleton_subset_iff.mpr hawaits.2.2)
    (Finset.singleton_nonempty md.stripeId)
  unfold Reconstructing.handleSetChunkResponse
  dsimp only
  rw [hentry, eraseStripe_eq hawaits]
  constructor
  · apply PendingReconstruction.stripeTally_orErased
    simpa using hdone
  · exact PendingReconstruction.keyTally_orErased (r := { r with chunks := _ }) hkeys
  · exact h.storing_nodup.erase md
  · intro md'
    dsimp only
    rw [PendingReconstruction.awaits_orErased, h.storing_nodup.mem_erase_iff, h.mem_storing, hentry]
    obtain ⟨hlist, hchunk, hstripe⟩ := hawaits
    obtain ⟨l, i, c⟩ := md
    obtain ⟨l', i', c'⟩ := md'
    simp only [Option.mem_some_iff, exists_eq_left', PendingReconstruction.Awaits, Tally.remove,
      Finset.mem_sdiff, Finset.mem_singleton, ne_eq, Metadata.mk.injEq] at hlist hchunk ⊢
    constructor
    · rintro ⟨hne, hl, hc, hi⟩
      exact ⟨hl, hc, hi, fun heq => hne ⟨hl.trans hlist.symm, heq, hc.trans hchunk.symm⟩⟩
    · rintro ⟨hl, hc, hi, hne⟩
      exact ⟨fun heq => hne heq.2.1, hl, hc, hi⟩
  · exact h.forwarding_nodup
  · intro key
    dsimp only
    rw [PendingReconstruction.mem_keyTally_orErased, h.mem_forwarding, hentry]
    rfl
  · exact h.batch_ne_nil

theorem Inv.forwarded (h : s.Inv) {keys : List κ} (hkeys : keys ∈ s.forwarding) :
    ({ s with forwarding := s.forwarding.erase keys }.handleBatchKeyValueResponse keys).Inv := by
  have hperm : s.forwarding.flatten.Perm (keys ++ (s.forwarding.erase keys).flatten) :=
    (List.perm_cons_erase hkeys).flatten
  have hnodup := hperm.nodup_iff.mp h.forwarding_nodup
  have hne : keys ≠ [] := fun hnil => h.batch_ne_nil (hnil ▸ hkeys)
  have hmem : ∀ key ∈ keys, key ∈ (keyTally s.entry).items := by
    intro key hkey
    rw [← h.mem_forwarding]
    exact hperm.mem_iff.mpr (List.mem_append_left _ hkey)
  obtain ⟨key, rest, rfl⟩ := List.exists_cons_of_ne_nil hne
  obtain ⟨r, hentry⟩ : ∃ r, s.entry = some r := by
    cases hentry : s.entry with
    | none => simpa [hentry, keyTally, Tally.empty] using hmem key List.mem_cons_self
    | some r => exact ⟨r, rfl⟩
  have hstripes : r.chunks.Accounts s.askedStripes s.stripeReports.sum := by
    simpa [hentry, stripeTally] using h.stripes
  have hunsealed : r.unsealed.Accounts s.askedKeys s.keyReports.sum := by
    simpa [hentry, keyTally] using h.keys
  replace hmem : ∀ key' ∈ key :: rest, key' ∈ r.unsealed.items := by
    simpa [hentry, keyTally] using hmem
  have hdone := hunsealed.remove (s := (key :: rest).toFinset)
    (fun key' hkey' => hmem key' (List.mem_toFinset.mp hkey')) ⟨key, by simp⟩
  unfold Reconstructing.handleBatchKeyValueResponse
  dsimp only [List.head?_cons]
  rw [hentry]
  dsimp only
  rw [if_pos (hmem key List.mem_cons_self), eraseKeys_eq hne hnodup.of_append_left hmem]
  constructor
  · exact PendingReconstruction.stripeTally_orErased (r := r.withoutKeys _) hstripes
  · apply PendingReconstruction.keyTally_orErased
    exact hdone
  · exact h.storing_nodup
  · intro md
    dsimp only
    rw [PendingReconstruction.awaits_orErased, h.mem_storing, hentry]
    simp [PendingReconstruction.withoutKeys, PendingReconstruction.Awaits]
  · exact hnodup.of_append_right
  · intro key'
    dsimp only
    rw [PendingReconstruction.mem_keyTally_orErased]
    have hold : key' ∈ r.unsealed.items ↔ key' ∈ s.forwarding.flatten := by
      rw [h.mem_forwarding, hentry]
      rfl
    have hdisjoint : key' ∈ (s.forwarding.erase (key :: rest)).flatten → key' ∉ key :: rest :=
      fun hrest hkey' => List.disjoint_of_nodup_append hnodup hkey' hrest
    have hsplit := hperm.mem_iff (a := key')
    simp only [PendingReconstruction.withoutKeys, Tally.remove, Finset.mem_sdiff, hold,
      List.mem_toFinset]
    rw [List.mem_append] at hsplit
    tauto
  · exact fun hmem' => h.batch_ne_nil (List.mem_of_mem_erase hmem')

theorem Inv.step (h : s.Inv) {action : ReconstructAction κ} (ha : s.Allowed action) :
    (s.step action).Inv := by
  unfold Reconstructing.step
  cases action with
  | request listId chunkId stripeIds => exact h.handleReconstructionRequest ha
  | requestUnsealed listId chunkId keys batches => exact h.handleReconstructionUnsealedRequest ha
  | stored md =>
    dsimp only
    split_ifs with hmd
    · exact h.stored hmd
    · exact h
  | forwarded keys =>
    dsimp only
    split_ifs with hkeys
    · exact h.forwarded hkeys
    · exact h

/-- In every run of allowed steps the reports are right in every state: `actions` may stop
anywhere. -/
theorem reports_of_allowed (actions : List (ReconstructAction κ))
    (hallowed : ∀ n action, actions[n]? = some action →
      (run step start (actions.take n)).Allowed action) :
    (run step (start : Reconstructing κ) actions).Reports :=
  (run_invariant_of_allowed start_inv (fun _ _ h => h.step) actions hallowed).reports

/-- Two stripes and a key of chunk 1. -/
def sampleReconstruction : List (ReconstructAction ℕ) :=
  [.request 0 1 [0, 1], .requestUnsealed 0 1 [7] [[7]], .stored ⟨0, 1, 1⟩, .forwarded [7],
    .stored ⟨0, 0, 1⟩]

theorem reports_of_allowed_sample :
    (run step (start : Reconstructing ℕ) sampleReconstruction).Reports := by
  apply reports_of_allowed
  intro n action haction
  rcases n with _ | _ | _ | _ | _ | n
  · obtain rfl := Option.some.inj haction
    right
    simp [IsFor, start, stripeTally, Tally.empty, Tally.Reported]
  · obtain rfl := Option.some.inj haction
    simp [Allowed, IsFor, sampleReconstruction, step, handleReconstructionRequest,
      insertReconstruction, start, keyTally, Tally.ofSet, Tally.Reported]
  · obtain rfl := Option.some.inj haction
    trivial
  · obtain rfl := Option.some.inj haction
    trivial
  · obtain rfl := Option.some.inj haction
    trivial
  · simp [sampleReconstruction] at haction

/-- A second request for stripes comes behind the report of the first, while a key remains: the
first stripe is counted twice. -/
theorem not_reports_of_merge :
    ¬ (run step (start : Reconstructing ℕ) [.request 0 1 [0], .requestUnsealed 0 1 [7] [[7]],
      .stored ⟨0, 0, 1⟩, .request 0 1 [1], .stored ⟨0, 1, 1⟩]).Reports := by
  intro h
  have hle : 3 ≤ 2 := h.stripes_le
  omega

end Reconstructing

end MemEC.Server
