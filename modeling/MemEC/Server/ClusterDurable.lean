import MemEC.Server.ClusterRun

/-!
# No object of a stripe list is lost

In every run of the servers of a list, whatever order the messages come in, the
parity servers hold what they have been sent as soon as nothing is under way.
Then the chunks of a stripe can be decoded when as many of them are lost as
there are parity servers, and an object in a chunk that is not sealed is at
every parity server.
-/

namespace MemEC.Server

open MemEC.Lib MemEC.Common

variable {cfg : GlobalConfig}

variable (cfg) in
/-- An UPDATE comes after a message that names its object. -/
def ClusterMessage.Ready (past : List ClusterMessage) : ClusterMessage → Prop
  | .object (.update header) => ∃ m, .object m ∈ past ∧ header.key ∈ m.names cfg
  | _ => True

theorem ClusterMessage.Ready.concat {past : List ClusterMessage} {m : ClusterMessage}
    (h : m.Ready cfg past) (m' : ClusterMessage) : m.Ready cfg (past ++ [m']) := by
  match m, h with
  | .object (.update _), ⟨m, hm, hkey⟩ => exact ⟨m, List.mem_append_left _ hm, hkey⟩
  | .object (.set _ _), _ => trivial
  | .object (.delete _), _ => trivial
  | .object (.sealChunk _), _ => trivial
  | .updateChunk _ _ _ _, _ => trivial

/-- A parity server that has got `past`. -/
abbrev ParityHistory (c : Coding cfg) (listId parity : ℕ) (sent : List ClusterMessage)
    (r : Receiver (ParityChunkBuffer cfg) ClusterMessage) (past : List ClusterMessage) : Prop :=
  r.History ParityChunkBuffer.receive (ClusterMessage.Ready cfg) (.fresh c listId parity) sent past

theorem OpenChunk.step_ids (s : OpenChunk cfg) (op : DataRequest cfg) :
    (s.step op).stripeId = s.stripeId ∧ (s.step op).chunkId = s.chunkId := by
  cases op with
  | set o =>
    rw [OpenChunk.step, OpenChunk.set]
    split_ifs <;> exact ⟨rfl, rfl⟩
  | update i v valueUpdate =>
    rw [OpenChunk.step]
    split <;> exact ⟨rfl, rfl⟩
  | delete i buffer =>
    rw [OpenChunk.step]
    split <;> exact ⟨rfl, rfl⟩

theorem ClusterChunk.handle_ids (d : ClusterChunk cfg) (r : ClusterRequest cfg) :
    (d.handle r).ids = d.ids := by
  cases r with
  | set o =>
    rw [ClusterChunk.handle]
    split_ifs
    · rfl
    · exact Prod.ext (d.chunk.step_ids _).1 (d.chunk.step_ids _).2
  | update i v valueUpdate =>
    rw [ClusterChunk.handle]
    split_ifs
    · split <;> rfl
    · exact Prod.ext (d.chunk.step_ids _).1 (d.chunk.step_ids _).2

namespace Cluster

variable {c : Coding cfg} {s : Cluster c}

/-- The chunks hold what was sent, and the parity servers have got what is not under way. -/
structure Inv (s : Cluster c) : Prop where
  chunks : ∀ d ∈ s.chunks, ∃ es, d.Follows c es
  ids : (s.chunks.map ClusterChunk.ids).Nodup
  chunkId_lt : ∀ d ∈ s.chunks, d.chunk.chunkId < c.dataChunkCount
  idents : (s.items.map fun x => x.key.ident).Nodup
  length : s.parities.length = c.parityChunkCount
  parities : ∀ p r, s.parities[p]? = some r → ∃ past, ParityHistory c s.listId p s.messages r past

namespace Inv

theorem start (c : Coding cfg) (listId : ℕ) {ids : List (ℕ × ℕ)} (hnodup : ids.Nodup)
    (hlt : ∀ p ∈ ids, p.2 < c.dataChunkCount) : (start c listId ids).Inv where
  chunks := by
    intro d hd
    obtain ⟨p, -, rfl⟩ := List.mem_map.mp hd
    exact ⟨[], .start c p.1 p.2⟩
  ids := by
    rw [Cluster.start, List.map_map]
    exact hnodup.map fun p q h => h
  chunkId_lt := by
    intro d hd
    obtain ⟨p, hp, rfl⟩ := List.mem_map.mp hd
    exact hlt p hp
  idents := by
    have hitems : (Cluster.start c listId ids).items = [] := by
      rw [items, Cluster.start, List.flatMap_map]
      exact List.flatMap_eq_nil_iff.mpr fun p _ => rfl
    rw [hitems]
    exact List.nodup_nil
  length := by rw [Cluster.start, List.length_map, List.length_range]
  parities := by
    intro p r hr
    have hmessages : (Cluster.start c listId ids).messages = [] := by
      rw [messages, Cluster.start, List.flatMap_map]
      exact List.flatMap_eq_nil_iff.mpr fun p _ => rfl
    rw [Cluster.start, List.getElem?_map, Option.map_eq_some_iff] at hr
    obtain ⟨p', hp', rfl⟩ := hr
    obtain ⟨-, rfl⟩ := List.getElem?_eq_some_iff.mp hp'
    rw [List.getElem_range, hmessages]
    exact ⟨[], Receiver.History.start _ _ _⟩

/-! ## The events of all chunks -/

section Events

variable {events : ClusterChunk cfg → List (ClusterEvent cfg)}
  (hevents : ∀ d ∈ s.chunks, d.Follows c (events d))
include hevents

theorem map_message_events : (s.chunks.flatMap events).map ClusterEvent.message = s.messages := by
  rw [messages, List.map_flatMap]
  exact List.flatMap_congr fun d hd => (hevents d hd).messages_eq.symm

theorem arrivals_events :
    ((s.chunks.flatMap events).flatMap ClusterEvent.plain).flatMap Event.arrivals = s.items := by
  rw [items, List.flatMap_assoc, List.flatMap_assoc]
  refine List.flatMap_congr fun d hd => ?_
  rw [← (hevents d hd).arrivals_eq, List.flatMap_assoc]

theorem listings_events :
    ((s.chunks.flatMap events).flatMap ClusterEvent.plain).flatMap Event.listings =
      s.chunks.flatMap fun d => if d.isSealed then d.chunk.items else [] := by
  rw [List.flatMap_assoc, List.flatMap_assoc]
  refine List.flatMap_congr fun d hd => ?_
  rw [← (hevents d hd).listings_eq, List.flatMap_assoc]

theorem wellFormed_events : ∀ e ∈ s.chunks.flatMap events, e.WellFormed c s.items := by
  intro e he
  obtain ⟨d, hd, he⟩ := List.mem_flatMap.mp he
  exact ((hevents d hd).wellFormed e he).mono fun x hx => List.mem_flatMap.mpr ⟨d, hd, hx⟩

end Events

variable (h : s.Inv)
include h

theorem exists_events : ∃ events : ClusterChunk cfg → List (ClusterEvent cfg),
    ∀ d ∈ s.chunks, d.Follows c (events d) := by
  have hchunks := h.chunks
  choose! events hevents using hchunks
  exact ⟨events, hevents⟩

theorem catalogued : Catalogued c s.items where
  idents := h.idents
  fits := by
    intro x hx
    obtain ⟨d, hd, hx⟩ := List.mem_flatMap.mp hx
    obtain ⟨es, hes⟩ := h.chunks d hd
    obtain ⟨sent, es', hinv⟩ := hes.exists_inv
    exact (hinv.end_le hx).trans hinv.fits
  chunkId_lt := by
    intro x hx
    obtain ⟨d, hd, hx⟩ := List.mem_flatMap.mp hx
    obtain ⟨e, -, rfl⟩ := List.mem_map.mp hx
    exact h.chunkId_lt d hd

/-- No assertion fails for what was sent. -/
theorem exists_receive (b : ParityChunkBuffer cfg) {m : ClusterMessage} (hm : m ∈ s.messages) :
    ∃ b', b.receive m = some b' := by
  obtain ⟨events, hevents⟩ := h.exists_events
  rw [← map_message_events hevents] at hm
  obtain ⟨e, he, rfl⟩ := List.mem_map.mp hm
  exact b.exists_receive (wellFormed_events hevents e he)

/-! ## One action -/

/-- A chunk of the cluster changes and sends `new`. -/
theorem modifyChunk {i : ℕ} {d : ClusterChunk cfg} (hd : s.chunks[i]? = some d)
    {f : ClusterChunk cfg → ClusterChunk cfg} {es new : List (ClusterEvent cfg)}
    (hes : d.Follows c es) (hnew : (f d).Follows c (es ++ new)) (hids : (f d).ids = d.ids)
    (hidents : ((s.items ++ (new.flatMap ClusterEvent.plain).flatMap Event.arrivals).map
      fun x => x.key.ident).Nodup)
    (hready : ∀ r ∈ s.parities, ∀ past : List ClusterMessage, (past ++ r.inbox).Perm s.messages →
      ∀ e ∈ new, e.message.Ready cfg past) : (s.modifyChunk i f).Inv := by
  have hmodify : s.modifyChunk i f = { s with
      chunks := s.chunks.set i (f d)
      parities := s.parities.map fun r => r.post ((f d).messages.drop d.messages.length) } := by
    rw [Cluster.modifyChunk, hd]
  have hsent : (f d).messages = d.messages ++ new.map ClusterEvent.message := by
    rw [hnew.messages_eq, hes.messages_eq, List.map_append]
  have hitems : (f d).chunk.items =
      d.chunk.items ++ (new.flatMap ClusterEvent.plain).flatMap Event.arrivals := by
    rw [← hnew.arrivals_eq, ← hes.arrivals_eq, List.flatMap_append, List.flatMap_append]
  have hitemsPerm := perm_flatMap_set hd (f := fun d => d.chunk.items) hitems
  have hmessagesPerm := perm_flatMap_set hd (f := ClusterChunk.messages) hsent
  have hset : (s.chunks.set i (f d)).map ClusterChunk.ids = s.chunks.map ClusterChunk.ids := by
    obtain ⟨as, bs, hsplit, rfl⟩ := split_of_getElem? hd
    rw [hsplit, set_length_append, List.map_append, List.map_append, List.map_cons, List.map_cons,
      hids]
  rw [hmodify]
  constructor
  · intro d' hd'
    rcases List.mem_or_eq_of_mem_set hd' with hd' | rfl
    · exact h.chunks d' hd'
    · exact ⟨_, hnew⟩
  · exact hset ▸ h.ids
  · intro d' hd'
    rcases List.mem_or_eq_of_mem_set hd' with hd' | rfl
    · exact h.chunkId_lt d' hd'
    · have hid : (f d).chunk.chunkId = d.chunk.chunkId := congrArg Prod.snd hids
      rw [hid]
      exact h.chunkId_lt d (List.mem_of_getElem? hd)
  · exact ((hitemsPerm.map _).nodup_iff).mpr hidents
  · exact (List.length_map _).trans h.length
  · intro p r' hr'
    rw [List.getElem?_map, Option.map_eq_some_iff] at hr'
    obtain ⟨r, hr, rfl⟩ := hr'
    obtain ⟨past, hpast⟩ := h.parities p r hr
    rw [hsent, List.drop_left]
    refine ⟨past, hpast.post hmessagesPerm fun m hm => ?_⟩
    obtain ⟨e, he, rfl⟩ := List.mem_map.mp hm
    exact hready r (List.mem_of_getElem? hr) past hpast.perm e he

/-- The SET of an object that is not under way has come. -/
theorem exists_names {x : Item cfg} (hx : x ∈ s.items)
    {r : Receiver (ParityChunkBuffer cfg) ClusterMessage}
    (hr : ∀ m ∈ r.inbox, m.isSetOf x.object = false) {past : List ClusterMessage}
    (hpast : (past ++ r.inbox).Perm s.messages) :
    ∃ m, .object m ∈ past ∧ x.key ∈ m.names cfg := by
  obtain ⟨events, hevents⟩ := h.exists_events
  have hset : ClusterMessage.object (.set x.object.bytes x.chunkId) ∈ s.messages := by
    rw [← arrivals_events hevents] at hx
    obtain ⟨e, he, hxe⟩ := List.mem_flatMap.mp hx
    obtain ⟨ce, hce, hece⟩ := List.mem_flatMap.mp he
    rw [← map_message_events hevents]
    cases ce with
    | updateChunk y v delta => cases hece
    | object e' =>
      rw [List.mem_singleton.mp hece] at hxe
      cases e' with
      | sealChunk request ys => cases hxe
      | update y v delta => cases hxe
      | set y =>
        rw [List.mem_singleton.mp hxe]
        exact List.mem_map_of_mem hce
  have hmem := hpast.mem_iff.mpr hset
  rcases List.mem_append.mp hmem with hmem | hmem
  · refine ⟨_, hmem, ?_⟩
    rw [Message.names_set]
    exact List.mem_singleton_self _
  · have hnot := hr _ hmem
    simp [ClusterMessage.isSetOf] at hnot

/-- A request that may come. -/
theorem request {i : ℕ} {r : ClusterRequest cfg} (hallowed : s.Allowed (.request i r)) :
    (s.modifyChunk i fun d => d.handle r).Inv := by
  cases hd : s.chunks[i]? with
  | none =>
    rw [Cluster.modifyChunk, hd]
    exact h
  | some d =>
    have hmem := List.mem_of_getElem? hd
    obtain ⟨es, hes⟩ := h.chunks d hmem
    have hproper : r.Proper d := by
      cases r with
      | set o => exact hallowed.1
      | update j v valueUpdate => exact fun e he => (hallowed d hd e he).1
    obtain ⟨new, hsends, hnew⟩ := hes.handle hproper
    refine h.modifyChunk hd hes hnew (d.handle_ids r) ?_ ?_
    · cases hsends with
      | nothing => simpa using h.idents
      | update he hx hobject => simpa [ClusterEvent.plain, Event.arrivals] using h.idents
      | updateChunk => simpa [ChunkUpdate.event, ClusterEvent.plain] using h.idents
      | @set x =>
        have hfresh : ∀ y ∈ s.items, y.key.ident ≠ x.key.ident := hallowed.2
        rw [List.map_append, List.nodup_append]
        refine ⟨h.idents, List.nodup_singleton _, fun k hk k' hk' => ?_⟩
        obtain ⟨y, hy, rfl⟩ := List.mem_map.mp hk
        rw [List.mem_singleton.mp hk']
        exact hfresh y hy
    · intro r' hr' past hpast e he
      cases hsends with
      | nothing => cases he
      | set =>
        rw [List.mem_singleton.mp he]
        trivial
      | updateChunk =>
        rw [List.mem_singleton.mp he]
        trivial
      | @update j v valueUpdate delta e' x he' hx hobject =>
        rw [List.mem_singleton.mp he]
        refine h.exists_names (List.mem_flatMap.mpr ⟨d, hmem, hx⟩) ?_ hpast
        rw [hobject]
        exact (hallowed d hd e' he').2 r' hr'

/-- A chunk is sealed. -/
theorem sealChunk (i : ℕ) : (s.modifyChunk i fun d => d.sealChunk s.listId).Inv := by
  cases hd : s.chunks[i]? with
  | none =>
    rw [Cluster.modifyChunk, hd]
    exact h
  | some d =>
    have hmem := List.mem_of_getElem? hd
    obtain ⟨es, hes⟩ := h.chunks d hmem
    obtain ⟨new, hnew, hchunk, hcase⟩ := hes.sealChunk (h.chunkId_lt d hmem) s.listId
    refine h.modifyChunk hd hes hnew ?_ ?_ ?_
    · simp only [ClusterChunk.ids, hchunk]
    · rcases hcase with rfl | ⟨request, xs, rfl⟩
      · simpa using h.idents
      · simpa [ClusterEvent.plain, Event.arrivals] using h.idents
    · intro r hr past hpast e he
      rcases hcase with rfl | ⟨request, xs, rfl⟩
      · cases he
      · rw [List.mem_singleton.mp he]
        trivial

/-- A message comes to a parity server. -/
theorem deliver (p j : ℕ) : ∃ s', s.step (.deliver p j) = some s' ∧ s'.Inv := by
  rw [Cluster.step]
  cases hr : s.parities[p]? with
  | none => exact ⟨s, rfl, h⟩
  | some r =>
    obtain ⟨past, hpast⟩ := h.parities p r hr
    obtain ⟨r', past', hr', hpast'⟩ := hpast.deliver (fun past m m' hm => hm.concat m')
      (fun b m hm => h.exists_receive b hm) j
    refine ⟨{ s with parities := s.parities.set p r' }, by simp only [hr', Option.map_some], ?_⟩
    constructor
    · exact h.chunks
    · exact h.ids
    · exact h.chunkId_lt
    · exact h.idents
    · exact (List.length_set).trans h.length
    · intro q r'' hr''
      rw [List.getElem?_set] at hr''
      split_ifs at hr'' with hpq hlt
      · obtain rfl := Option.some.inj hr''
        subst hpq
        exact ⟨past', hpast'⟩
      · exact h.parities q r'' hr''

/-- An action that is allowed. -/
theorem step {a : ClusterAction cfg} (hallowed : s.Allowed a) :
    ∃ s', s.step a = some s' ∧ s'.Inv := by
  cases a with
  | request i r => exact ⟨_, rfl, h.request hallowed⟩
  | sealChunk i => exact ⟨_, rfl, h.sealChunk i⟩
  | deliver p j => exact h.deliver p j

/-! ## When nothing is under way -/

/-- An object is listed by its chunk if this is sealed. -/
theorem mem_listings_iff {d : ClusterChunk cfg} (hd : d ∈ s.chunks) {x : Item cfg}
    (hx : x ∈ d.chunk.items) :
    x ∈ (s.chunks.flatMap fun d => if d.isSealed then d.chunk.items else []) ↔
      d.isSealed = true := by
  constructor
  · intro hmem
    obtain ⟨d', hd', hx'⟩ := List.mem_flatMap.mp hmem
    split_ifs at hx' with hsealed
    · have hids : d'.ids = d.ids :=
        (ClusterChunk.Follows.ids_of_mem_items hx').trans
          (ClusterChunk.Follows.ids_of_mem_items hx).symm
      rwa [← List.inj_on_of_nodup_map h.ids hd' hd hids]
    · cases hx'
  · intro hsealed
    refine List.mem_flatMap.mpr ⟨d, hd, ?_⟩
    rwa [if_pos hsealed]

section Quiet

variable {events : ClusterChunk cfg → List (ClusterEvent cfg)}
  (hevents : ∀ d ∈ s.chunks, d.Follows c (events d))
include hevents

/-- The updates of an object are those of its chunk. -/
theorem revisions_events {d : ClusterChunk cfg} (hd : d ∈ s.chunks) {x : Item cfg}
    (hx : x ∈ d.chunk.items) :
    (((s.chunks.flatMap events).flatMap ClusterEvent.plain).map (Event.revisionOf x)).sum =
      (((events d).flatMap ClusterEvent.plain).map (Event.revisionOf x)).sum := by
  have hchunk : ∀ d' ∈ s.chunks,
      (((events d').flatMap ClusterEvent.plain).map (Event.revisionOf x)).sum =
        if d'.ids = d.ids then
          (((events d').flatMap ClusterEvent.plain).map (Event.revisionOf x)).sum
        else 0 := by
    intro d' hd'
    split_ifs with heq
    · rfl
    · refine (hevents d' hd').revisions_eq_zero fun hmem => heq ?_
      rw [ClusterChunk.Follows.ids_of_mem_items hmem, ClusterChunk.Follows.ids_of_mem_items hx]
  rw [List.flatMap_assoc, List.map_flatMap, List.flatMap, List.sum_flatten, List.map_map]
  refine (congrArg List.sum (List.map_congr_left hchunk)).trans ?_
  rw [sum_map_ite_eq_find? ClusterChunk.ids _ h.ids, find?_key_eq h.ids hd]
  rfl

/-- The UPDATE_CHUNKs for a chunk are its own. -/
theorem direct_events (stripeId ci : ℕ) :
    ((s.chunks.flatMap events).map ClusterEvent.direct).sum stripeId ci =
      ((s.chunks.find? fun d => d.ids = (stripeId, ci)).map fun d =>
        ((events d).map ClusterEvent.delta).sum).getD 0 := by
  have hchunk : ∀ d ∈ s.chunks,
      ((events d).map fun e => e.direct stripeId ci).sum =
        if d.ids = (stripeId, ci) then ((events d).map ClusterEvent.delta).sum else 0 := by
    intro d hd
    have hmap : ((events d).map fun e => e.direct stripeId ci) =
        (events d).map fun e => if d.ids = (stripeId, ci) then e.delta else 0 :=
      List.map_congr_left fun e he => (hevents d hd).direct_apply he stripeId ci
    rw [hmap]
    split_ifs
    · rfl
    · exact List.sum_eq_zero fun m hm => by simp_all
  rw [Pi.list_sum_apply, Pi.list_sum_apply, List.map_map, List.map_map, List.map_flatMap,
    List.flatMap, List.sum_flatten, List.map_map]
  refine (congrArg List.sum (List.map_congr_left hchunk)).trans ?_
  exact sum_map_ite_eq_find? ClusterChunk.ids _ h.ids (stripeId, ci)

/-- When all objects have arrived, the parity has the data of the sealed chunks. -/
theorem data_eq {l : Ledger cfg} (hl : ∀ d ∈ s.chunks, ∀ x ∈ d.chunk.items,
      (l x).phase = (if d.isSealed then .folded else .stored) ∧
      (l x).delta = (((events d).flatMap ClusterEvent.plain).map (Event.revisionOf x)).sum)
    (stripeId ci : ℕ) {i : ℕ} (hi : i < cfg.chunkSize) :
    (l.data s.items + ((s.chunks.flatMap events).map ClusterEvent.direct).sum) stripeId ci i =
      s.data stripeId ci i := by
  rw [Pi.add_apply, Pi.add_apply, h.direct_events hevents, items,
    l.data_flatMap ClusterChunk.ids (fun d => d.chunk.items)
      (fun d _ x hx => (ClusterChunk.Follows.ids_of_mem_items hx).symm) h.ids, data]
  cases hfind : s.chunks.find? fun d => d.ids = (stripeId, ci) with
  | none => exact congrFun (add_zero (0 : Memory)) i
  | some d =>
    have hd := List.mem_of_find?_eq_some hfind
    exact ((hevents d hd).sealedData_apply (fun x hx => (hl d hd x hx).1)
      (fun x hx => (hl d hd x hx).2) hi).symm

/-- A parity server has got all that was sent. -/
theorem settled (hquiet : s.Quiet) {p : ℕ} {r : Receiver (ParityChunkBuffer cfg) ClusterMessage}
    (hr : s.parities[p]? = some r) : ∃ l : Ledger cfg,
      Tracks c (c.dataChunkCount + p) s.items l
        (l.data s.items + ((s.chunks.flatMap events).map ClusterEvent.direct).sum) r.state ∧
      ∀ d ∈ s.chunks, ∀ x ∈ d.chunk.items,
        (l x).phase = (if d.isSealed then .folded else .stored) ∧
        (l x).delta =
          (((events d).flatMap ClusterEvent.plain).map (Event.revisionOf x)).sum := by
  have hc := h.catalogued
  obtain ⟨past, hpast⟩ := h.parities p r hr
  have hperm := hpast.perm_of_quiet (hquiet r (List.mem_of_getElem? hr))
  rw [← map_message_events hevents] at hperm
  obtain ⟨es, rfl, hes⟩ := exists_perm_of_perm_map hperm
  have hplain := hes.flatMap_right ClusterEvent.plain
  have harrivals := hplain.flatMap_right Event.arrivals
  have hlistings := hplain.flatMap_right Event.listings
  rw [arrivals_events hevents] at harrivals
  rw [listings_events hevents] at hlistings
  have hwf : ∀ e ∈ es, e.WellFormed c s.items :=
    fun e he => wellFormed_events hevents e (hes.mem_iff.mp he)
  have hsealed : (s.chunks.flatMap fun d => if d.isSealed then d.chunk.items else []).Nodup := by
    refine hc.nodup.sublist (List.Sublist.flatMap_right _ fun d _ => ?_)
    split_ifs
    · exact List.Sublist.refl _
    · exact List.nil_sublist _
  obtain ⟨b, hb, htracks⟩ := (Tracks.init c s.listId p s.items).receiveAll hc hwf
    fun as e bs heq => by
      have hsplit : es.flatMap ClusterEvent.plain =
          as.flatMap ClusterEvent.plain ++ e :: bs.flatMap ClusterEvent.plain := by
        rw [heq, List.flatMap_append, List.flatMap_cons]
        rfl
      refine Event.allowed_of_nodup hsplit (harrivals.nodup_iff.mpr hc.nodup)
        (hlistings.nodup_iff.mpr hsealed) fun x v delta he => ?_
      subst he
      -- The message that the UPDATE waited for names the object.
      obtain ⟨m, hm, hkey⟩ := hpast.ready (as.map ClusterEvent.message)
        (.object (.update (x.updateHeader v delta))) (bs.map ClusterEvent.message) (by
          rw [heq, List.map_append]
          rfl)
      refine Event.phase_ne_unknown hc (fun e he => ?_)
        (hwf (.object (.update x v delta)) (heq ▸ List.mem_append_right _ List.mem_cons_self)).1
        ⟨m, ?_, hkey⟩
      · obtain ⟨ce, hce, hece⟩ := List.mem_flatMap.mp he
        exact ClusterEvent.wellFormed_of_mem_plain
          (hwf ce (heq ▸ List.mem_append_left _ hce)) hece
      · exact ClusterEvent.mem_map_plain hm
  have hstate : b = r.state := Option.some.inj (hb.symm.trans hpast.state)
  subst hstate
  rw [zero_add, (hes.map ClusterEvent.direct).sum_eq] at htracks
  refine ⟨_, htracks, fun d hd x hx => ⟨?_, ?_⟩⟩
  · have harrived : x ∈ (es.flatMap ClusterEvent.plain).flatMap Event.arrivals :=
      harrivals.mem_iff.mpr (List.mem_flatMap.mpr ⟨d, hd, hx⟩)
    have hlisted : x ∈ (es.flatMap ClusterEvent.plain).flatMap Event.listings ↔
        d.isSealed = true := hlistings.mem_iff.trans (h.mem_listings_iff hd hx)
    rw [Ledger.phase_run, decide_eq_true harrived]
    by_cases hs : d.isSealed = true
    · rw [decide_eq_true (hlisted.mpr hs), if_pos hs]
      rfl
    · rw [decide_eq_false (mt hlisted.mp hs), if_neg hs]
      rfl
  · rw [Ledger.delta_run, (hplain.map (Event.revisionOf x)).sum_eq]
    exact h.revisions_events hevents hd hx

end Quiet

end Inv

/-- An object with a key of one byte and a value of two bytes. -/
def storedObject : Object GlobalConfig.smallest := .plain [131] [98, 99] (by decide) (by decide)

/-- An object is stored, and updated before and after its chunk is sealed. The SEAL_CHUNK request
comes last. -/
def sampleActions : List (ClusterAction .smallest) :=
  [.request 0 (.set storedObject), .deliver 0 0, .request 0 (.update 0 1 [100]), .sealChunk 0,
    .request 0 (.update 0 0 [101]), .deliver 0 2, .deliver 0 0, .deliver 0 0]

end Cluster

end MemEC.Server
