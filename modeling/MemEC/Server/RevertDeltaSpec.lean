import MemEC.Server.RevertDeltaRun

/-!
# What a REVERT_DELTA request has to do

After the request, the parity chunks and the stored objects are those that the
server would have if it had never received the updates that the request names,
and the backup has lost these updates and no others.
-/

namespace MemEC.Server

open MemEC.Lib MemEC.Common KeyValue

variable {cfg : GlobalConfig}

/-- The parity chunks and the stored objects are the same. -/
structure ParityServer.SameParity (s s' : ParityServer cfg) : Prop where
  chunk : ∀ l stripeId, ∀ i < cfg.chunkSize,
    ((s.buffers l).getWrapper stripeId).chunk i = ((s'.buffers l).getWrapper stripeId).chunk i
  keys : ∀ l k, (s.buffers l).keys.find k = (s'.buffers l).keys.find k

/-- The request undoes the updates that it names, and nothing else. -/
def ParityServer.Reverted (s₀ : ParityServer cfg) (endWord : ℕ) (peers : List ℕ)
    (ms : List ParityMessage) (timestamps : List ℕ) (keyCount targetId : ℕ) : Prop :=
  ∀ s, s₀.after ms = some s → ∃ s' reply,
    s.handleRevertDelta endWord peers timestamps keyCount targetId = some (s', reply) ∧
      s'.parityUpdate.entries =
        s.parityUpdate.entries.filter (fun d => !d.named timestamps targetId) ∧
      ∃ s'', s₀.after (ms.filter fun m => !m.named timestamps targetId) = some s'' ∧
        s'.SameParity s''

variable {c : Coding cfg} {parity : ℕ → ℕ} {items : ℕ → List (Item cfg)}
  {es es' : List (ParityEvent cfg)} {s s' : ParityServer cfg} {timestamps : List ℕ} {targetId : ℕ}

/-! ## Ledgers that say the same -/

/-- What the ledger says is in the parity, or stored, depends on the phases and the changes. -/
theorem Follows.sameParity (h : Follows c parity items es s) (h' : Follows c parity items es' s')
    (hphase : ∀ l x, (ledgerOf es l x).phase = (ledgerOf es' l x).phase)
    (hdelta : ∀ l x, (ledgerOf es l x).delta = (ledgerOf es' l x).delta)
    (hextra : ∀ l, extraOf es l = extraOf es' l) : s.SameParity s' := by
  constructor
  · intro l stripeId i hi
    have htracks := h.tracks l
    have htracks' := h'.tracks l
    have hdata : (ledgerOf es l).data (items l) = (ledgerOf es' l).data (items l) := by
      apply congrArg List.sum
      apply List.map_congr_left
      intro x _
      simp only [ItemState.content, hphase l x, hdelta l x]
    have hindex : (s.buffers l).parityIndex = (s'.buffers l).parityIndex := by
      simp only [ParityChunkBuffer.parityIndex, htracks.coding, htracks.chunkId, htracks'.coding,
        htracks'.chunkId]
    rw [htracks.encodes stripeId i hi, htracks'.encodes stripeId i hi, htracks.coding,
      htracks'.coding, hindex, hdata, hextra]
  · intro l k
    by_cases hk : ∃ x ∈ items l, x.key.ident = k.ident
    · obtain ⟨x, hx, hident⟩ := hk
      have hagrees := (h.tracks l).agrees x hx
      have hagrees' := (h'.tracks l).agrees x hx
      rw [← (s.buffers l).keys.find_congr hident, ← (s'.buffers l).keys.find_congr hident]
      simp only [Agrees, hphase l x] at hagrees
      simp only [Agrees] at hagrees'
      cases hphase' : (ledgerOf es' l x).phase with
      | unknown =>
        simp only [hphase'] at hagrees hagrees'
        rw [hagrees.1, hagrees'.1]
      | stored =>
        simp only [hphase'] at hagrees hagrees'
        rw [hagrees.1, hagrees'.1, ItemState.record, ItemState.record, hdelta]
      | awaited =>
        simp only [hphase'] at hagrees hagrees'
        rw [hagrees.1, hagrees'.1]
      | folded =>
        simp only [hphase'] at hagrees hagrees'
        rw [hagrees.1, hagrees'.1]
    · have hother : ∀ x ∈ items l, x.key.ident ≠ k.ident := fun x hx hident => hk ⟨x, hx, hident⟩
      rw [h.others l k hother, h'.others l k hother]

/-- What the events change of an object of a list. -/
def ParityEvent.revisionOf (l : ℕ) (x : Item cfg) (e : ParityEvent cfg) : Memory :=
  if e.listId = l then (e.event.map (Event.revisionOf x)).getD 0 else 0

theorem delta_ledgerOf (es : List (ParityEvent cfg)) (l : ℕ) (x : Item cfg) :
    (ledgerOf es l x).delta = (es.map (ParityEvent.revisionOf l x)).sum := by
  induction es using List.reverseRecOn with
  | nil => rfl
  | append_singleton es e ih =>
    rw [List.map_append, List.sum_append, List.map_singleton, List.sum_singleton, ← ih,
      ParityEvent.revisionOf]
    by_cases hl : e.listId = l
    · subst hl
      rw [if_pos rfl]
      cases he : e.event with
      | none =>
        rw [ledgerOf_of_none he]
        exact (add_zero _).symm
      | some e' =>
        rw [ledgerOf_of_some he]
        exact e'.delta_apply _ x
    · rw [if_neg hl, ledgerOf_of_ne hl, add_zero]

theorem extraOf_eq (es : List (ParityEvent cfg)) (l : ℕ) :
    extraOf es l = (es.map fun e => if e.listId = l then e.extra else 0).sum := by
  induction es using List.reverseRecOn with
  | nil => rfl
  | append_singleton es e ih =>
    rw [List.map_append, List.sum_append, List.map_singleton, List.sum_singleton, ← ih]
    by_cases hl : e.listId = l
    · subst hl
      rw [if_pos rfl, extraOf_self]
    · rw [if_neg hl, extraOf_of_ne hl, add_zero]

/-- The phases depend on the events that leave no backup. -/
theorem phase_ledgerOf_congr
    (h : ∀ e : ParityEvent cfg, e.message.tag = none → (e ∈ es ↔ e ∈ es')) (l : ℕ) (x : Item cfg) :
    (ledgerOf es l x).phase = (ledgerOf es' l x).phase := by
  have hmem : ∀ (f : Event cfg → List (Item cfg)),
      (∀ (y : Item cfg) v delta, f (.update y v delta) = []) →
      (x ∈ ((ofList l es).filterMap ParityEvent.event).flatMap f ↔
        x ∈ ((ofList l es').filterMap ParityEvent.event).flatMap f) := by
    intro f hf
    have hone : ∀ as bs : List (ParityEvent cfg),
        (∀ e : ParityEvent cfg, e.message.tag = none → e ∈ as → e ∈ bs) →
        x ∈ ((ofList l as).filterMap ParityEvent.event).flatMap f →
        x ∈ ((ofList l bs).filterMap ParityEvent.event).flatMap f := by
      intro as bs hsub hx
      obtain ⟨e', he', hxe⟩ := List.mem_flatMap.mp hx
      obtain ⟨e, he, hevent⟩ := List.mem_filterMap.mp he'
      obtain ⟨hmem, hl⟩ := List.mem_filter.mp he
      apply List.mem_flatMap.mpr
      refine ⟨e', List.mem_filterMap.mpr ⟨e, List.mem_filter.mpr ⟨?_, hl⟩, hevent⟩, hxe⟩
      apply hsub e _ hmem
      cases e with
      | other l' e => rfl
      | update tag l' y v delta =>
        obtain rfl := Option.some.inj hevent
        rw [hf] at hxe
        cases hxe
      | updateChunk tag l' header => cases hevent
    exact ⟨hone es es' fun e he => (h e he).mp, hone es' es fun e he => (h e he).mpr⟩
  rw [ledgerOf, ledgerOf, Ledger.phase_run, Ledger.phase_run]
  congr 1
  · exact decide_eq_decide.mpr (hmem Event.arrivals fun _ _ _ => rfl)
  · exact decide_eq_decide.mpr (hmem Event.listings fun _ _ _ => rfl)

/-! ## The request -/

/-- What the messages of a run keep to: each object arrives and is listed once, and is updated when
it is known; and an update that the request names does not change a stored split. -/
structure Orderly (c : Coding cfg) (items : ℕ → List (Item cfg)) (timestamps : List ℕ)
    (targetId : ℕ) (es : List (ParityEvent cfg)) : Prop where
  catalogued : ∀ l, Catalogued c (items l)
  comes : ∀ as e bs, es = as ++ e :: bs → e.Comes c items as
  found : ∀ as e bs, es = as ++ e :: bs → e.FoundAgain timestamps targetId as

/-- The events that the request does not name. -/
def unnamed (timestamps : List ℕ) (targetId : ℕ) (es : List (ParityEvent cfg)) :
    List (ParityEvent cfg) :=
  es.filter fun e => !e.message.named timestamps targetId

theorem not_named_of_tag {e : ParityEvent cfg} (h : e.message.tag = none) (timestamps : List ℕ)
    (targetId : ℕ) : e.message.named timestamps targetId = false := by
  rw [ParityMessage.named, h]
  rfl

theorem mem_unnamed_iff {e : ParityEvent cfg} (h : e.message.tag = none) :
    e ∈ unnamed timestamps targetId es ↔ e ∈ es := by
  rw [unnamed, List.mem_filter, not_named_of_tag h]
  exact and_iff_left rfl

/-- Without the updates that the request names, the other messages may come as before. -/
theorem Orderly.unnamed (h : Orderly c items timestamps targetId es) :
    Orderly c items timestamps targetId (unnamed timestamps targetId es) := by
  have hpast : ∀ as (e : ParityEvent cfg) bs, MemEC.Server.unnamed timestamps targetId es =
      as ++ e :: bs → ∃ as' bs', es = as' ++ e :: bs' ∧
        MemEC.Server.unnamed timestamps targetId as' = as := by
    intro as e bs heq
    obtain ⟨as₁, rest, rfl, has₁, hrest⟩ := List.filter_eq_append_iff.mp heq
    obtain ⟨as₂, bs', rfl, has₂, -, -⟩ := List.filter_eq_cons_iff.mp hrest
    refine ⟨as₁ ++ as₂, bs', by rw [List.append_assoc], ?_⟩
    have hnone : as₂.filter (fun e => !e.message.named timestamps targetId) = [] :=
      List.filter_eq_nil_iff.mpr has₂
    rw [MemEC.Server.unnamed, List.filter_append, has₁, hnone, List.append_nil]
  have hphase : ∀ (as : List (ParityEvent cfg)) l x,
      (ledgerOf (MemEC.Server.unnamed timestamps targetId as) l x).phase =
        (ledgerOf as l x).phase := fun as l x =>
    phase_ledgerOf_congr (fun e he => mem_unnamed_iff he) l x
  have hallowed : ∀ (as : List (ParityEvent cfg)) l (e : Event cfg), e.Allowed (ledgerOf as l) →
      e.Allowed (ledgerOf (MemEC.Server.unnamed timestamps targetId as) l) := by
    intro as l e ha
    cases e with
    | set x =>
      simp only [Event.Allowed, hphase]
      exact ha
    | sealChunk request xs =>
      simp only [Event.Allowed, hphase]
      exact ha
    | update x v delta =>
      simp only [Event.Allowed, hphase]
      exact ha
  constructor
  · exact h.catalogued
  · intro as e bs heq
    obtain ⟨as', bs', hes, rfl⟩ := hpast as e bs heq
    have hcomes := h.comes as' e bs' hes
    cases e with
    | other l e => exact ⟨hcomes.1, hallowed as' l e hcomes.2⟩
    | update tag l x v delta => exact ⟨hcomes.1, hallowed as' l _ hcomes.2⟩
    | updateChunk tag l header => exact hcomes
  · intro as e bs heq
    obtain ⟨as', bs', hes, rfl⟩ := hpast as e bs heq
    have hfound := h.found as' e bs' hes
    cases e with
    | other l e => trivial
    | update tag l x v delta =>
      simp only [ParityEvent.FoundAgain, hphase]
      exact hfound
    | updateChunk tag l header => trivial

/-- The updates that the request names, once more behind the run, cancel out. -/
theorem Follows.sameParity_append {us : List (ParityEvent cfg)}
    (h : Follows c parity items (es ++ us) s)
    (h' : Follows c parity items (unnamed timestamps targetId es) s')
    (hus : us.Perm (es.filter fun e => e.message.named timestamps targetId)) :
    s.SameParity s' := by
  have hcancel : ∀ m : ℕ → ℕ → Memory, m + m = 0 := fun m =>
    funext fun i => funext fun j => Memory.add_self (m i j)
  apply h.sameParity h'
  · intro l x
    apply phase_ledgerOf_congr
    intro e he
    rw [mem_unnamed_iff he, List.mem_append]
    constructor
    · rintro (hmem | hmem)
      · exact hmem
      · have hnamed := (List.mem_filter.mp (hus.mem_iff.mp hmem)).2
        rw [not_named_of_tag he] at hnamed
        cases hnamed
    · exact Or.inl
  · intro l x
    rw [delta_ledgerOf, delta_ledgerOf, List.map_append, List.sum_append, (hus.map _).sum_eq]
    exact sum_map_add_filter Memory.add_self _ _ es
  · intro l
    rw [extraOf_eq, extraOf_eq, List.map_append, List.sum_append, (hus.map _).sum_eq]
    exact sum_map_add_filter hcancel _ _ es

/-- The tags of the backups are those of the events. -/
theorem BacksAll.tags_perm (h : BacksAll c parity items timestamps targetId es s) :
    (s.parityUpdate.entries.map BackupDelta.toDeltaTag).Perm
      (es.filterMap fun e => e.message.tag) := by
  obtain ⟨us, hback, hperm⟩ := h.backups
  have htags : ∀ (ds : List BackupDelta) us, List.Forall₂ (fun d u => Backs c items es d u ∧
      (d.named timestamps targetId = true → Revertible d u)) ds us →
      ds.map BackupDelta.toDeltaTag = us.filterMap fun e => e.message.tag := by
    intro ds us h
    induction h with
    | nil => rfl
    | cons hd _ ih => rw [List.map_cons, List.filterMap_cons, hd.1.tag_eq, ih]
  have hall : (backedUp es).filterMap (fun e => e.message.tag) =
      es.filterMap fun e => e.message.tag := by
    rw [backedUp, List.filterMap_filter]
    apply List.filterMap_congr
    intro e _
    cases e.message.tag <;> rfl
  rw [htags _ us hback, ← hall]
  exact hperm.filterMap _

theorem ParityUpdate.ReadsFar.congr {endWord : ℕ} {tags tags' : List DeltaTag}
    (h : tags.Perm tags') :
    ReadsFar endWord timestamps targetId tags ↔ ReadsFar endWord timestamps targetId tags' := by
  simp only [ReadsFar, h.mem_iff]

/-- The backup is changed before the deltas are reverted. -/
theorem ParityServer.parityUpdate_revertAll {ds : List BackupDelta}
    (h : s.revertAll ds = some s') : s'.parityUpdate = s.parityUpdate := by
  refine tryRun_preserves (fun s' => s'.parityUpdate = s.parityUpdate) rfl ?_ h
  intro s₁ d s₂ h₁ h₂
  obtain ⟨b, -, rfl⟩ := Option.map_eq_some_iff.mp h₂
  exact h₁

/-- A request that names a peer is served. -/
theorem ParityServer.handleRevertDelta_eq (s : ParityServer cfg) (endWord : ℕ) {peers : List ℕ}
    (hpeer : targetId ∈ peers) (hid : targetId ≠ 0) (timestamps : List ℕ) (keyCount : ℕ) :
    s.handleRevertDelta endWord peers timestamps keyCount targetId =
      ({ s with parityUpdate := (s.parityUpdate.removeParityUpdate endWord timestamps targetId).1
        }.revertAll (s.parityUpdate.removeParityUpdate endWord timestamps targetId).2).map fun s' =>
        (s', (s.parityUpdate.removeParityUpdate endWord timestamps targetId).2.map
          fun d : BackupDelta => d.timestamp) := by
  rw [handleRevertDelta, if_neg (by simp [hid]), if_neg (not_not.mpr hpeer)]

/-- The deltas that the request names are undone. -/
theorem BacksAll.reverted (h : BacksAll c parity items timestamps targetId es s)
    (hc : ∀ l, Catalogued c (items l)) {ds : List BackupDelta} (map : ParityUpdate)
    (hds : ds.Perm (s.parityUpdate.entries.filter fun d => d.named timestamps targetId))
    (h' : Follows c parity items (unnamed timestamps targetId es) s') :
    ∃ s₁, { s with parityUpdate := map }.revertAll ds = some s₁ ∧ s₁.SameParity s' := by
  obtain ⟨us, hback, hperm⟩ := h.backups
  have hnamed : List.Forall₂ (fun d u => Backs c items es d u ∧ Revertible d u)
      (s.parityUpdate.entries.filter fun d => d.named timestamps targetId)
      (us.filter fun e => e.message.named timestamps targetId) := by
    apply forall₂_filter hback
    · intro d u hd
      simp only [ParityMessage.named, hd.1.tag_eq]
      rfl
    · exact fun d u hd hnamed => ⟨hd.1, hd.2 hnamed⟩
  obtain ⟨us', hback', hperm'⟩ := List.perm_comp_forall₂ hds hnamed
  have hstart : Follows c parity items es { s with parityUpdate := map } := h.toFollows.congr rfl
  obtain ⟨s₁, hs₁, -, hfollows⟩ := hstart.revertAll hc hback'
  refine ⟨s₁, hs₁, hfollows.sameParity_append h' ?_⟩
  have hall : (backedUp es).filter (fun e => e.message.named timestamps targetId) =
      es.filter fun e => e.message.named timestamps targetId := by
    rw [backedUp, List.filter_filter]
    apply List.filter_congr
    intro e _
    simp only [ParityMessage.named]
    cases e.message.tag with
    | none => rfl
    | some tag => exact Bool.and_true _
  rw [← hall]
  exact hperm'.trans (hperm.filter _)

/-- Where the request undoes what it names and nothing else, what is read behind the set cuts
nothing off. -/
theorem Orderly.readsFar (h : Orderly c items timestamps targetId es) (parity : ℕ → ℕ)
    {endWord keyCount : ℕ} {peers : List ℕ} (hpeer : targetId ∈ peers) (hid : targetId ≠ 0)
    (hreverted : (ParityServer.start c parity).Reverted endWord peers
      (es.map ParityEvent.message) timestamps keyCount targetId) :
    ParityUpdate.ReadsFar endWord timestamps targetId (es.filterMap fun e => e.message.tag) := by
  obtain ⟨s, hs, hbacks⟩ := backsAll_run parity h.catalogued fun as e bs heq =>
    ⟨h.comes as e bs heq, h.found as e bs heq⟩
  obtain ⟨s', reply, hs', hentries, -⟩ := hreverted s hs
  rw [s.handleRevertDelta_eq endWord hpeer hid] at hs'
  obtain ⟨s₁, hs₁, heq⟩ := Option.map_eq_some_iff.mp hs'
  obtain ⟨rfl, -⟩ := Prod.mk.inj heq
  rw [ParityServer.parityUpdate_revertAll hs₁] at hentries
  rw [← ParityUpdate.ReadsFar.congr hbacks.tags_perm]
  exact (ParityUpdate.kept_iff hid s.parityUpdate).mp hentries

/-- The request undoes what it names and nothing else if and only if what is read behind the set
cuts nothing off. -/
theorem reverted_iff (parity : ℕ → ℕ) (endWord keyCount : ℕ) {peers : List ℕ}
    (hpeer : targetId ∈ peers) (hid : targetId ≠ 0)
    (h : Orderly c items timestamps targetId es) :
    (ParityServer.start c parity).Reverted endWord peers (es.map ParityEvent.message) timestamps
        keyCount targetId ↔
      ParityUpdate.ReadsFar endWord timestamps targetId
        (es.filterMap fun e => e.message.tag) := by
  constructor
  · exact h.readsFar parity hpeer hid
  · intro hfar s hs
    obtain ⟨s', hs', hbacks⟩ := backsAll_run parity h.catalogued fun as e bs heq =>
      ⟨h.comes as e bs heq, h.found as e bs heq⟩
    cases hs.symm.trans hs'
    obtain ⟨s'', hs'', hbacks''⟩ := backsAll_run parity h.catalogued fun as e bs heq =>
      ⟨h.unnamed.comes as e bs heq, h.unnamed.found as e bs heq⟩
    rw [← ParityUpdate.ReadsFar.congr hbacks.tags_perm] at hfar
    obtain ⟨s₁, hs₁, hsame⟩ := hbacks.reverted h.catalogued
      (s.parityUpdate.removeParityUpdate endWord timestamps targetId).1 (hfar.removed hid)
      hbacks''.toFollows
    refine ⟨s₁, (s.parityUpdate.removeParityUpdate endWord timestamps targetId).2.map
      fun d : BackupDelta => d.timestamp, ?_, ?_, s'', ?_, hsame⟩
    · rw [s.handleRevertDelta_eq endWord hpeer hid, hs₁]
      rfl
    · rw [ParityServer.parityUpdate_revertAll hs₁]
      exact (ParityUpdate.kept_iff hid s.parityUpdate).mpr hfar
    · have hunnamed : (es.map ParityEvent.message).filter
          (fun m => !m.named timestamps targetId) =
          (MemEC.Server.unnamed timestamps targetId es).map ParityEvent.message := by
        rw [List.filter_map]
        rfl
      rw [hunnamed]
      exact hs''

/-! ## A gap in the timestamps -/

/-- What the GNU library has behind the end of a set: the number of its elements. -/
def nodeCount (timestamps : List ℕ) : ℕ := timestamps.dedup.length

/-- A delta of a sealed chunk, from server 2. -/
def sampleDelta (requestId timestamp : ℕ) : ParityEvent GlobalConfig.smallest :=
  .updateChunk ⟨requestId, 2, timestamp⟩ 0 ⟨0, 0, 0, [1]⟩

/-- Of the deltas at 1 and at 5, only the first one is undone. -/
theorem not_reverted_of_gap :
    ¬∀ (ms : List ParityMessage) (timestamps : List ℕ) (targetId : ℕ),
      (ParityServer.start (.raid5 2 : Coding GlobalConfig.smallest) fun _ => 0).Reverted
        (nodeCount timestamps) [targetId] ms timestamps 0 targetId := by
  intro h
  have horderly : Orderly (.raid5 2 : Coding GlobalConfig.smallest) (fun _ => []) [1, 5] 2
      [sampleDelta 0 1, sampleDelta 1 5] := by
    have hmem : ∀ as e bs, [sampleDelta 0 1, sampleDelta 1 5] = as ++ e :: bs →
        ∃ requestId timestamp, e = sampleDelta requestId timestamp := by
      intro as e bs heq
      have hmem : e ∈ [sampleDelta 0 1, sampleDelta 1 5] := by
        rw [heq]
        exact List.mem_append_right _ List.mem_cons_self
      rcases List.mem_cons.mp hmem with rfl | hmem
      · exact ⟨0, 1, rfl⟩
      · exact ⟨1, 5, List.mem_singleton.mp hmem⟩
    constructor
    · intro l
      exact ⟨List.nodup_nil, fun x hx => absurd hx List.not_mem_nil,
        fun x hx => absurd hx List.not_mem_nil⟩
    · intro as e bs heq
      obtain ⟨requestId, timestamp, rfl⟩ := hmem as e bs heq
      exact ⟨by decide, by decide⟩
    · intro as e bs heq
      obtain ⟨requestId, timestamp, rfl⟩ := hmem as e bs heq
      trivial
  have hfar := horderly.readsFar (fun _ => 0) (List.mem_singleton_self 2) (by decide)
    (h _ [1, 5] 2)
  have hlast := hfar.1 ⟨1, 2, 5⟩ (List.mem_cons_of_mem _ List.mem_cons_self) (by decide)
  revert hlast
  decide

/-- An object at the start of a chunk. -/
def sampleItem : Item GlobalConfig.smallest := ⟨0, 0, 0, ChunkHistory.sampleObject 0x61⟩

/-- An object is stored, and updated at 5 and at 6. -/
def sampleUpdates : List (ParityEvent GlobalConfig.smallest) :=
  [.other 0 (.set sampleItem), .update ⟨0, 2, 5⟩ 0 sampleItem 0 [1],
    .update ⟨1, 2, 6⟩ 0 sampleItem 1 [3]]

theorem reverted_sample :
    (ParityServer.start (.raid5 2 : Coding GlobalConfig.smallest) fun _ => 0).Reverted
      (nodeCount [6]) [2] (sampleUpdates.map ParityEvent.message) [6] 0 2 := by
  have horderly : Orderly (.raid5 2 : Coding GlobalConfig.smallest) (fun _ => [sampleItem]) [6] 2
      sampleUpdates := by
    constructor
    · intro l
      refine ⟨List.nodup_singleton _, fun x hx => ?_, fun x hx => ?_⟩
      · obtain rfl := List.mem_singleton.mp hx
        decide
      · obtain rfl := List.mem_singleton.mp hx
        decide
    · intro as e bs heq
      rcases as with _ | ⟨e₁, _ | ⟨e₂, _ | ⟨e₃, as⟩⟩⟩
      · cases heq
        exact ⟨List.mem_singleton_self _, Or.inl rfl⟩
      · cases heq
        refine ⟨⟨List.mem_singleton_self _, by decide⟩, ?_⟩
        change (ledgerOf (sampleUpdates.take 1) 0 sampleItem).phase ≠ .unknown
        decide +kernel
      · cases heq
        refine ⟨⟨List.mem_singleton_self _, by decide⟩, ?_⟩
        change (ledgerOf (sampleUpdates.take 2) 0 sampleItem).phase ≠ .unknown
        decide +kernel
      · exact absurd (congrArg List.length heq) (by simp [sampleUpdates])
    · intro as e bs heq
      rcases as with _ | ⟨e₁, _ | ⟨e₂, _ | ⟨e₃, as⟩⟩⟩
      · cases heq
        trivial
      · cases heq
        exact fun _ => Or.inl (by decide)
      · cases heq
        exact fun _ => Or.inl (by decide)
      · exact absurd (congrArg List.length heq) (by simp [sampleUpdates])
  apply (reverted_iff (fun _ => 0) (nodeCount [6]) 0 (List.mem_singleton_self 2) (by decide)
    horderly).mpr
  exact ⟨by decide, by decide⟩

end MemEC.Server
