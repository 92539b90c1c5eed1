import MemEC.Coordinator.Map

/-!
# The stripes of a parity server that failed

No server reports which parity chunks it has. When a server that keeps parity of
a stripe list fails, the coordinator takes the stripes of the list from the
largest stripe id it has seen, `Map::stripes`, which every record of a chunk or
a key raises, as well as every request for a remapping lock: these carry the
stripe id `-1`.
-/

namespace MemEC.Coordinator

open MemEC.Lib MemEC.Common

/-- The stripe id `-1` of a lock request, as a `uint32_t`. -/
def placeholderStripeId : ℕ := 2 ^ 32 - 1

/-- What the coordinator keeps for a server. -/
structure ServerMap where
  chunks : Finset Metadata
  keys : KeyMap OpMetadata
  lockedKeys : KeyMap Unit

/-- The maps of the servers, and `Map::stripes`, which they share. -/
structure ServerMaps (Srv : Type) where
  servers : Srv → ServerMap
  stripes : ℕ → ℕ

/-- What changes the maps: the records of a heartbeat or of a client's backup, for the server that
they are about, and the requests for a remapping lock. -/
inductive MapEvent (Srv : Type)
  | sealedChunk (srv : Srv) (md : Metadata)
  | keyRecord (srv : Srv) (key : Key) (op : OpMetadata)
  | lock (srv : Srv) (key : Key) (listId chunkId : ℕ)

namespace ServerMaps

variable {Srv : Type}

def start : ServerMaps Srv := ⟨fun _ => ⟨∅, ∅, ∅⟩, fun _ => 0⟩

/-- The key map of a server. -/
def map (m : ServerMaps Srv) (srv : Srv) : Map :=
  ⟨(m.servers srv).keys, (m.servers srv).lockedKeys, m.stripes⟩

variable [DecidableEq Srv]

/-- `Map::insertChunk`. -/
def insertChunk (m : ServerMaps Srv) (srv : Srv) (md : Metadata) : ServerMaps Srv :=
  let s := m.servers srv
  { servers := Function.update m.servers srv { s with chunks := insert md s.chunks }
    stripes := ((m.map srv).updateMaxStripeId md.listId md.stripeId).stripes }

/-- `Map::insertKey`. -/
def insertKey (m : ServerMaps Srv) (srv : Srv) (key : Key) (op : OpMetadata) : ServerMaps Srv :=
  let map := ((m.map srv).insertKey key op).1
  { servers := Function.update m.servers srv
      { m.servers srv with keys := map.keys, lockedKeys := map.lockedKeys }
    stripes := map.stripes }

def step (m : ServerMaps Srv) : MapEvent Srv → ServerMaps Srv
  | .sealedChunk srv md => m.insertChunk srv md
  | .keyRecord srv key op => m.insertKey srv key op
  | .lock srv key listId chunkId =>
    m.insertKey srv key ⟨⟨listId, placeholderStripeId, chunkId⟩, .remappingLock, 0⟩

/-- `stripeIds[ listId ]` in `handleReconstructionRequest`, when the server fails that has the chunk
`chunkId` of the stripes of the list. -/
def stripeIds (m : ServerMaps Srv) (dataChunkCount : ℕ) (srv : Srv) (listId chunkId : ℕ) :
    Finset ℕ :=
  let stripeIds := ((m.servers srv).chunks.filter (·.listId = listId)).image Metadata.stripeId
  -- Update stripeIds for parity server
  if dataChunkCount ≤ chunkId then stripeIds ∪ Finset.range (m.stripes listId) else stripeIds

end ServerMaps

/-! ## What was reported -/

/-- The stripe of the list that an event carries. -/
def MapEvent.Carries {Srv : Type} (listId stripeId : ℕ) : MapEvent Srv → Prop
  | .sealedChunk _ md => md.listId = listId ∧ md.stripeId = stripeId
  | .keyRecord _ _ op => op.listId = listId ∧ op.stripeId = stripeId
  | .lock _ _ l _ => l = listId ∧ placeholderStripeId = stripeId

variable {Srv : Type} (events : List (MapEvent Srv)) (listId : ℕ)

/-- A record of a sealed chunk or of a key in the stripe. -/
def Reported (stripeId : ℕ) : Prop :=
  (∃ srv md, .sealedChunk srv md ∈ events ∧ md.listId = listId ∧ md.stripeId = stripeId) ∨
    ∃ srv key op, .keyRecord srv key op ∈ events ∧ op.listId = listId ∧ op.stripeId = stripeId

/-- A lock was requested for a key of the list. -/
def Locked : Prop := ∃ srv key chunkId, .lock srv key listId chunkId ∈ events

/-- The server itself has reported a sealed chunk of the stripe. -/
def ReportedBy (srv : Srv) (stripeId : ℕ) : Prop :=
  ∃ md, .sealedChunk srv md ∈ events ∧ md.listId = listId ∧ md.stripeId = stripeId

variable {events listId}

theorem exists_carries_iff (stripeId : ℕ) : (∃ e ∈ events, e.Carries listId stripeId) ↔
    Reported events listId stripeId ∨
      (Locked events listId ∧ placeholderStripeId = stripeId) := by
  constructor
  · rintro ⟨e, he, hcarries⟩
    cases e with
    | sealedChunk srv md => exact .inl (.inl ⟨srv, md, he, hcarries⟩)
    | keyRecord srv key op => exact .inl (.inr ⟨srv, key, op, he, hcarries⟩)
    | lock srv key l chunkId =>
      obtain ⟨rfl, hid⟩ := hcarries
      exact .inr ⟨⟨srv, key, chunkId, he⟩, hid⟩
  · rintro ((⟨srv, md, he, h⟩ | ⟨srv, key, op, he, h⟩) | ⟨⟨srv, key, chunkId, he⟩, hid⟩)
    · exact ⟨_, he, h⟩
    · exact ⟨_, he, h⟩
    · exact ⟨_, he, rfl, hid⟩

theorem ReportedBy.reported {srv : Srv} {stripeId : ℕ} (h : ReportedBy events listId srv stripeId) :
    Reported events listId stripeId := by
  obtain ⟨md, he, h⟩ := h
  exact .inl ⟨srv, md, he, h⟩

/-! ## The counters -/

theorem Map.stripes_updateMaxStripeId (m : Map) (l i l' : ℕ) :
    (m.updateMaxStripeId l i).stripes l' = if l' = l then max (m.stripes l) i else m.stripes l' := by
  unfold Map.updateMaxStripeId
  by_cases hlt : m.stripes l < i
  · rw [if_pos hlt, max_eq_right hlt.le]
    exact Function.update_apply ..
  · rw [if_neg hlt, max_eq_left (Nat.le_of_not_lt hlt)]
    split_ifs with h
    · rw [h]
    · rfl

theorem Map.stripes_applyOp (m : Map) (key : Key) (op : OpMetadata) :
    (m.applyOp key op).1.stripes = m.stripes := by
  unfold Map.applyOp
  cases op.opcode <;> cases m.keys.find key <;> try rfl
  all_goals
    dsimp only [Map.replaceEntry]
    split_ifs <;> rfl

theorem Map.stripes_insertKey (m : Map) (key : Key) (op : OpMetadata) (l' : ℕ) :
    (m.insertKey key op).1.stripes l' =
      if l' = op.listId then max (m.stripes op.listId) op.stripeId else m.stripes l' := by
  have happly := m.stripes_applyOp key op
  unfold Map.insertKey
  rw [Map.stripes_updateMaxStripeId, happly]

namespace ServerMaps

variable [DecidableEq Srv]

/-- An event raises the counter of its list to its stripe id. -/
theorem stripes_step_le_iff (m : ServerMaps Srv) (e : MapEvent Srv) (n : ℕ) :
    (m.step e).stripes listId ≤ n ↔
      m.stripes listId ≤ n ∧ ∀ i, e.Carries listId i → i ≤ n := by
  have hmax : ∀ l i, (if listId = l then max (m.stripes l) i else m.stripes listId) ≤ n ↔
      m.stripes listId ≤ n ∧ ∀ j, l = listId ∧ i = j → j ≤ n := by
    intro l i
    split_ifs with h
    · subst h
      simp
    · simp [Ne.symm h]
  cases e with
  | sealedChunk srv md =>
    have hstripes : (m.step (.sealedChunk srv md)).stripes listId = _ :=
      (m.map srv).stripes_updateMaxStripeId md.listId md.stripeId listId
    rw [hstripes]
    exact hmax _ _
  | keyRecord srv key op =>
    have hstripes : (m.step (.keyRecord srv key op)).stripes listId = _ :=
      (m.map srv).stripes_insertKey key op listId
    rw [hstripes]
    exact hmax _ _
  | lock srv key l chunkId =>
    have hstripes : (m.step (.lock srv key l chunkId)).stripes listId = _ :=
      (m.map srv).stripes_insertKey key ⟨⟨l, placeholderStripeId, chunkId⟩, .remappingLock, 0⟩ listId
    rw [hstripes]
    exact hmax _ _

/-- The counter is the largest stripe id that any event carries, or zero. -/
theorem stripes_run_le_iff (events : List (MapEvent Srv)) (n : ℕ) :
    (run step start events).stripes listId ≤ n ↔
      ∀ i, (∃ e ∈ events, e.Carries listId i) → i ≤ n := by
  induction events using List.reverseRecOn with
  | nil =>
    constructor
    · rintro - i ⟨e, he, -⟩
      cases he
    · exact fun _ => Nat.zero_le n
  | append_singleton events e ih =>
    rw [run_concat, stripes_step_le_iff, ih]
    simp only [List.mem_append, List.mem_singleton]
    constructor
    · rintro ⟨hpast, hnew⟩ i ⟨e', he' | rfl, hcarries⟩
      · exact hpast i ⟨e', he', hcarries⟩
      · exact hnew i hcarries
    · intro h
      constructor
      · rintro i ⟨e', he', hcarries⟩
        exact h i ⟨e', .inl he', hcarries⟩
      · exact fun i hcarries => h i ⟨e, .inr rfl, hcarries⟩

theorem mem_chunks_step (m : ServerMaps Srv) (e : MapEvent Srv) (srv : Srv) (md : Metadata) :
    md ∈ ((m.step e).servers srv).chunks ↔
      md ∈ (m.servers srv).chunks ∨ e = .sealedChunk srv md := by
  cases e with
  | sealedChunk srv' md' =>
    by_cases h : srv = srv'
    · subst h
      simp [step, insertChunk, or_comm, eq_comm]
    · simp [step, insertChunk, h, Ne.symm h]
  | keyRecord srv' key op =>
    by_cases h : srv = srv'
    · subst h
      simp [step, insertKey]
    · simp [step, insertKey, h]
  | lock srv' key l chunkId =>
    by_cases h : srv = srv'
    · subst h
      simp [step, insertKey]
    · simp [step, insertKey, h]

theorem mem_chunks_run (events : List (MapEvent Srv)) (srv : Srv) (md : Metadata) :
    md ∈ ((run step start events).servers srv).chunks ↔ .sealedChunk srv md ∈ events := by
  induction events using List.reverseRecOn with
  | nil => simp [start]
  | append_singleton events e ih =>
    rw [run_concat, mem_chunks_step, ih]
    simp [eq_comm]

/-- The stripes that are to be reconstructed. -/
theorem mem_stripeIds_iff {k chunkId : ℕ} (hk : k ≤ chunkId) (events : List (MapEvent Srv))
    (srv : Srv) (j : ℕ) :
    j ∈ (run step start events).stripeIds k srv listId chunkId ↔
      ReportedBy events listId srv j ∨ j < (run step start events).stripes listId := by
  unfold stripeIds
  rw [if_pos hk]
  simp only [Finset.mem_union, Finset.mem_image, Finset.mem_filter, mem_chunks_run,
    Finset.mem_range, ReportedBy, and_assoc]

/-- The task for the list has exactly the stripes up to the largest one that was reported. -/
def Scheduled (events : List (MapEvent Srv)) (k : ℕ) (srv : Srv) (listId chunkId : ℕ) : Prop :=
  ∀ j, j ∈ (run step start events).stripeIds k srv listId chunkId ↔
    ∃ i, Reported events listId i ∧ j ≤ i

/-- The largest reported stripe is in the task: the failed server has reported its chunk there, or
the placeholder of a lock request is the next stripe id. -/
def CoversLast (events : List (MapEvent Srv)) (srv : Srv) (listId stripeId : ℕ) : Prop :=
  (ReportedBy events listId srv stripeId ∧
    (Locked events listId → placeholderStripeId ≤ stripeId)) ∨
    (Locked events listId ∧ placeholderStripeId = stripeId + 1)

theorem stripes_le_iff (events : List (MapEvent Srv)) (listId n : ℕ) :
    (run step start events).stripes listId ≤ n ↔
      (∀ i, Reported events listId i → i ≤ n) ∧ (Locked events listId → placeholderStripeId ≤ n) := by
  simp only [stripes_run_le_iff, exists_carries_iff]
  constructor
  · exact fun h => ⟨fun i hi => h i (.inl hi), fun hl => h _ (.inr ⟨hl, rfl⟩)⟩
  · rintro ⟨hreported, hlocked⟩ i (hi | ⟨hl, rfl⟩)
    · exact hreported i hi
    · exact hlocked hl

/-- When the largest reported stripe id is known, the task ends with it if it is covered. -/
theorem scheduled_iff_of_isGreatest {k chunkId M : ℕ} (hk : k ≤ chunkId)
    (events : List (MapEvent Srv)) (srv : Srv)
    (hM : IsGreatest {i | Reported events listId i} M) :
    Scheduled events k srv listId chunkId ↔ CoversLast events srv listId M := by
  have hle := stripes_le_iff events listId
  generalize hS : (run step start events).stripes listId = S at hle
  obtain ⟨hbound, hplaceholder⟩ := (hle S).mp le_rfl
  have hMS : M ≤ S := hbound M hM.1
  have hupto : ∀ j, (∃ i, Reported events listId i ∧ j ≤ i) ↔ j ≤ M := by
    intro j
    constructor
    · rintro ⟨i, hi, hj⟩
      exact hj.trans (hM.2 hi)
    · exact fun hj => ⟨M, hM.1, hj⟩
  simp only [Scheduled, mem_stripeIds_iff hk, hS, hupto]
  constructor
  · intro h
    by_cases hlt : M < S
    · -- the task goes up to the stripe before the counter, which only a lock request can have set
      have hSM : S = M + 1 := by
        have := (h (S - 1)).mp (.inr (by omega))
        omega
      have hnot : ¬ (Locked events listId → placeholderStripeId ≤ M) :=
        fun hlocked => absurd ((hle M).mpr ⟨fun i hi => hM.2 hi, hlocked⟩) (by omega)
      push Not at hnot
      have hge := hplaceholder hnot.1
      exact .inr ⟨hnot.1, by omega⟩
    · have hown := ((h M).mpr le_rfl).resolve_right hlt
      exact .inl ⟨hown, fun hl => (hplaceholder hl).trans (Nat.le_of_not_lt hlt)⟩
  · rintro (⟨hown, hlocked⟩ | ⟨hlocked, hlast⟩) j
    · have hSM : S ≤ M := (hle M).mpr ⟨fun i hi => hM.2 hi, hlocked⟩
      constructor
      · rintro (hj | hj)
        · exact hM.2 hj.reported
        · exact hj.le.trans hSM
      · intro hj
        rcases Nat.lt_or_eq_of_le hj with hj | rfl
        · exact .inr (hj.trans_le hMS)
        · exact .inl hown
    · have hSM : S = M + 1 := by
        have hge := hlast ▸ hplaceholder hlocked
        have hle := (hle (M + 1)).mpr ⟨fun i hi => (hM.2 hi).trans M.le_succ, fun _ => hlast.le⟩
        omega
      rw [hSM, Nat.lt_succ_iff]
      exact ⟨fun hj => hj.elim (fun h => hM.2 h.reported) id, .inr⟩

/-- The reconstruction of a parity server covers exactly the stripes up to the largest reported one,
if and only if nothing was reported and no lock requested, or the largest stripe is covered. -/
theorem scheduled_iff {k chunkId : ℕ} (hk : k ≤ chunkId) (events : List (MapEvent Srv)) (srv : Srv)
    (listId : ℕ) : Scheduled events k srv listId chunkId ↔
      ((∀ i, ¬ Reported events listId i) ∧ ¬ Locked events listId) ∨
        ∃ M, IsGreatest {i | Reported events listId i} M ∧ CoversLast events srv listId M := by
  by_cases hany : ∃ i, Reported events listId i
  · have hbdd : BddAbove {i | Reported events listId i} :=
      ⟨_, fun i hi => ((stripes_le_iff events listId _).mp le_rfl).1 i hi⟩
    have hM : IsGreatest {i | Reported events listId i} _ :=
      ⟨Nat.sSup_mem hany hbdd, fun i hi => le_csSup hbdd hi⟩
    rw [scheduled_iff_of_isGreatest hk events srv hM]
    constructor
    · exact fun h => .inr ⟨_, hM, h⟩
    · rintro (⟨hnone, -⟩ | ⟨M, hM', h⟩)
      · obtain ⟨i, hi⟩ := hany
        exact absurd hi (hnone i)
      · rwa [hM.unique hM']
  · push Not at hany
    have hnone : ∀ j, ¬ ∃ i, Reported events listId i ∧ j ≤ i :=
      fun j ⟨i, hi, _⟩ => hany i hi
    have hgreatest : ¬ ∃ M, IsGreatest {i | Reported events listId i} M ∧
        CoversLast events srv listId M := fun ⟨M, hM, _⟩ => hany M hM.1
    have hown : ∀ j, ¬ ReportedBy events listId srv j := fun j hj => hany j hj.reported
    simp only [Scheduled, mem_stripeIds_iff hk, hnone, hown, false_or, iff_false, Nat.not_lt,
      hgreatest, or_false]
    have hzero := stripes_le_iff events listId 0
    constructor
    · intro h
      have hlocked := (hzero.mp (h 0)).2
      exact ⟨hany, fun hl => absurd (hlocked hl) (by decide)⟩
    · rintro ⟨-, hl⟩ j
      exact (hzero.mpr ⟨fun i hi => absurd hi (hany i), fun h => absurd h hl⟩).trans j.zero_le

/-- A data server has reported its chunk in the first stripe. The parity of this stripe is not
reconstructed. -/
theorem not_scheduled_of_first :
    ∃ (events : List (MapEvent ℕ)) (srv : ℕ), Reported events 0 0 ∧
      ¬ Scheduled events 2 srv 0 2 := by
  refine ⟨[.sealedChunk 1 ⟨0, 0, 0⟩], 7, .inl ⟨1, ⟨0, 0, 0⟩, .head _, rfl, rfl⟩, fun h => ?_⟩
  have hmem := (h 0).mpr ⟨0, .inl ⟨1, ⟨0, 0, 0⟩, .head _, rfl, rfl⟩, le_rfl⟩
  revert hmem
  decide

/-- The failed server itself has reported the largest stripe. -/
def sampleMapEvents : List (MapEvent ℕ) := [.sealedChunk 1 ⟨0, 0, 0⟩, .sealedChunk 7 ⟨0, 1, 2⟩]

theorem scheduled_iff_sample : Scheduled sampleMapEvents 2 7 0 2 ↔
    ((∀ i, ¬ Reported sampleMapEvents 0 i) ∧ ¬ Locked sampleMapEvents 0) ∨
      ∃ M, IsGreatest {i | Reported sampleMapEvents 0 i} M ∧ CoversLast sampleMapEvents 7 0 M :=
  scheduled_iff (by decide) sampleMapEvents 7 0

end ServerMaps

end MemEC.Coordinator
