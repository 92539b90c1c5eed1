import MemEC.Server.DegradedReadLookup

/-!
# What a degraded read leaves pending

A degraded read enters its request into the pending set before it knows whether
anything will come of it. An entry is taken care of when a message of the read
asks for its data, or when it is on a waiting list that a reconstruction ends.
Some exits return with an entry that is neither.
-/

namespace MemEC.Server

open MemEC.Lib MemEC.Common

/-- The message is a request under the id. -/
def ReadMessage.Asks (requestId : ℕ) : ReadMessage → Prop
  | get _ id _ _ _ => id = requestId
  | getChunk _ id _ => id = requestId
  | forwardKey _ _ _ _ _ _ => False

/-- The response to the message ends the waiting for the stripe of the read. -/
def ReadMessage.EndsChunk : ReadMessage → Prop
  | getChunk _ _ _ => True
  | _ => False

/-- The response to the message ends the waiting for a key. The response to a forwarded object ends
it for the plain form. -/
def ReadMessage.EndsKey (k : Key.Ident) : ReadMessage → Prop
  | get _ _ _ _ key => key.ident = k
  | getChunk _ _ _ => False
  | forwardKey _ _ _ _ key _ => (Key.plain key).ident = k

variable {cfg : GlobalConfig} {shape : IndexShape} (srv : ReadServer cfg shape) (req : ReadRequest)

/-- The id is on a waiting list. -/
def ReadServer.Listed {κ : Type} [DecidableEq κ] (w : Waiting κ PendingOp) (k : κ)
    (requestId : ℕ) : Prop :=
  ∃ pids, w.lists.lookup k = some pids ∧
    ∃ pid ∈ pids, pid.instanceId = srv.instanceId ∧ pid.requestId = requestId

/-- The id is new. -/
structure ReadServer.Fresh (waiting : DegradedWaiting) (requestId : ℕ) : Prop where
  chunks : ∀ k, ¬ srv.Listed waiting.chunks k requestId
  keys : ∀ k, ¬ srv.Listed waiting.keys k requestId

/-- The entry under the id belongs to a request that was sent, or it is on a waiting list and a
reconstruction is in progress: it was before the read, it is at another server, or the read has sent
a message for it. -/
inductive ReadServer.Covered (waiting : DegradedWaiting) (st : ReadState) (requestId : ℕ) : Prop
  | sent (m : ReadMessage) (hm : m ∈ st.sent) (hasks : m.Asks requestId)
  | chunk (hlisted : srv.Listed st.waiting.chunks (stripeOf req.listId req.stripeId) requestId)
      (hprogress : (waiting.chunks.lists.lookup (stripeOf req.listId req.stripeId)).isSome ∨
        req.ongoingAtChunk ≠ srv.ownChunkId req.listId ∨ ∃ m ∈ st.sent, m.EndsChunk)
  | key (k : Key.Ident) (hlisted : srv.Listed st.waiting.keys k requestId)
      (hprogress : (waiting.keys.lists.lookup k).isSome ∨ ∃ m ∈ st.sent, m.EndsKey k)

/-- When the read returns, its entries are taken care of, and when it returns `false`, it has none
any more. -/
structure ReadServer.HandsOver (waiting : DegradedWaiting) (lastId : ℕ) (isReconstructed : Bool) :
    Prop where
  covered : ∀ success st,
    srv.performDegradedRead req (.start waiting lastId isReconstructed) = .ok (success, st) →
      ∀ e ∈ st.ops, srv.Covered req waiting st e.1
  clean : ∀ st,
    srv.performDegradedRead req (.start waiting lastId isReconstructed) = .ok (false, st) →
      st.ops = [] ∧ st.getChunks = []

/-! ## When the entries are taken care of -/

/-- Enough surviving servers are there to fetch chunks from, and one of them is another server. -/
structure ReadServer.Fetchable : Prop where
  enough : srv.dataChunkCount ≤ (srv.selectChunks req).length
  remote : ∃ c ∈ srv.selectChunks req, c.2.self = false

/-- The stripe is being reconstructed, or it is not reconstructed yet and can be, if it is to be
done here. -/
def ReadServer.SealedReady (waiting : DegradedWaiting) : Prop :=
  waiting.chunks.lists.lookup (stripeOf req.listId req.stripeId) = none →
    stripeOf req.listId req.stripeId ∉ waiting.chunks.finished ∧
      (req.ongoingAtChunk = srv.ownChunkId req.listId → srv.Fetchable req)

/-- Another lost data chunk is to be reconstructed, and nobody has started it. -/
structure ReadServer.NeedsOther (waiting : DegradedWaiting) : Prop where
  here : req.ongoingAtChunk = srv.ownChunkId req.listId
  lost : ∃ e ∈ req.redirections, e.original.2 < srv.dataChunkCount ∧ e.original.2 ≠ req.chunkId
  idle : waiting.chunks.lists.lookup (stripeOf req.listId req.stripeId) = none
  unfinished : stripeOf req.listId req.stripeId ∉ waiting.chunks.finished

/-- Nobody has asked for the key. -/
def DegradedWaiting.KeyIdle (waiting : DegradedWaiting) (key : Key) : Prop :=
  waiting.keys.lists.lookup key.ident = none ∧ key.ident ∉ waiting.keys.finished

/-- A read from another server is the first one for its key; an object that is found here is
forwarded and is one of the plain key; and what else is to be reconstructed can be. -/
structure ReadServer.UnsealedReady (waiting : DegradedWaiting) (socket : PeerSocket) (key : Key) :
    Prop where
  remote : socket.self = false →
    waiting.KeyIdle key ∧ (srv.NeedsOther req waiting → srv.Fetchable req)
  own : socket.self = true → waiting.KeyIdle key →
    ∀ dataSocket, srv.surviving req req.chunkId = some dataSocket →
      (∀ o, srv.objectToForward req dataSocket key = some o →
        req.redirections ≠ [] ∧ (Key.plain (o.key srv)).ident = key.ident) ∧
      (srv.NeedsOther req waiting → srv.Fetchable req)

/-- The exits that leave an entry behind are not taken. -/
structure ReadServer.ReadyToRead (waiting : DegradedWaiting) : Prop where
  sealedChunk : req.isSealed = true →
    ¬ sub32 (srv.dataChunkCount + srv.parityChunkCount) req.redirections.length <
      srv.dataChunkCount → srv.SealedReady req waiting
  unsealedChunk : req.isSealed = false → ∀ socket key, srv.unsealedSocket req = some (some socket) →
    req.op.key = some key → srv.UnsealedReady req waiting socket key

/-! ## Exits -/

variable {srv req} {waiting : DegradedWaiting} {lastId : ℕ} {isReconstructed : Bool}

theorem handsOver_of_error {f : ReadFailure}
    (h : srv.performDegradedRead req (.start waiting lastId isReconstructed) = .error f) :
    srv.HandsOver req waiting lastId isReconstructed := by
  constructor
  · intro success st hok
    rw [h] at hok
    cases hok
  · intro st hok
    rw [h] at hok
    cases hok

theorem handsOver_iff_of_ok {r : Bool × ReadState}
    (h : srv.performDegradedRead req (.start waiting lastId isReconstructed) = .ok r) :
    srv.HandsOver req waiting lastId isReconstructed ↔
      (∀ e ∈ r.2.ops, srv.Covered req waiting r.2 e.1) ∧
        (r.1 = false → r.2.ops = [] ∧ r.2.getChunks = []) := by
  constructor
  · intro hover
    refine ⟨hover.covered r.1 r.2 h, fun hfalse => hover.clean r.2 ?_⟩
    rw [h, ← hfalse]
  · rintro ⟨hcovered, hclean⟩
    constructor
    · intro success st hok
      obtain rfl := Except.ok.inj (h.symm.trans hok)
      exact hcovered
    · intro st hok
      obtain rfl := Except.ok.inj (h.symm.trans hok)
      exact hclean rfl

/-! ## Fetching chunks -/

variable {st : ReadState} {requestId : ℕ}

theorem mem_sent_fetchChunks {m : ReadMessage} :
    m ∈ (srv.fetchChunks req st requestId).2.sent ↔
      m ∈ st.sent ∨ ∃ c ∈ srv.selectChunks req, c.2.self = false ∧
        m = .getChunk c.2 requestId ⟨req.listId, req.stripeId, c.1⟩ := by
  rw [ReadServer.fetchChunks]
  simp only [List.mem_append, List.mem_map, List.mem_filter, Bool.not_eq_true', and_assoc,
    eq_comm (a := m)]

theorem fetchChunks_fst_of_enough (h : srv.dataChunkCount ≤ (srv.selectChunks req).length) :
    (srv.fetchChunks req st requestId).1 = true := decide_eq_true h

theorem fetchChunks_fst_of_few (h : ¬ srv.dataChunkCount ≤ (srv.selectChunks req).length) :
    (srv.fetchChunks req st requestId).1 = false := decide_eq_false h

/-- An entry that is on no list is taken care of by the chunks that are fetched. -/
theorem covered_fetchChunks_iff (hchunks : ∀ k, ¬ srv.Listed st.waiting.chunks k requestId)
    (hkeys : ∀ k, ¬ srv.Listed st.waiting.keys k requestId)
    (hasks : ∀ m ∈ st.sent, ¬ m.Asks requestId) :
    srv.Covered req waiting (srv.fetchChunks req st requestId).2 requestId ↔
      ∃ c ∈ srv.selectChunks req, c.2.self = false := by
  constructor
  · rintro (⟨m, hm, hm'⟩ | ⟨hlisted, -⟩ | ⟨k, hlisted, -⟩)
    · rcases mem_sent_fetchChunks.mp hm with hold | ⟨c, hc, hself, -⟩
      · exact absurd hm' (hasks m hold)
      · exact ⟨c, hc, hself⟩
    · exact absurd hlisted (hchunks _)
    · exact absurd hlisted (hkeys k)
  · rintro ⟨c, hc, hself⟩
    exact .sent _ (mem_sent_fetchChunks.mpr (Or.inr ⟨c, hc, hself, rfl⟩)) rfl

/-- An entry that waits for no stripe is taken care of by a message or on the list of a key. -/
theorem covered_iff_of_no_chunk (hchunks : ∀ k, ¬ srv.Listed st.waiting.chunks k requestId) :
    srv.Covered req waiting st requestId ↔
      (∃ m ∈ st.sent, m.Asks requestId) ∨
        ∃ k, srv.Listed st.waiting.keys k requestId ∧
          ((waiting.keys.lists.lookup k).isSome ∨ ∃ m ∈ st.sent, m.EndsKey k) := by
  constructor
  · rintro (⟨m, hm, hasks⟩ | ⟨hlisted, -⟩ | ⟨k, hlisted, hprogress⟩)
    · exact Or.inl ⟨m, hm, hasks⟩
    · exact absurd hlisted (hchunks _)
    · exact Or.inr ⟨k, hlisted, hprogress⟩
  · rintro (⟨m, hm, hasks⟩ | ⟨k, hlisted, hprogress⟩)
    · exact .sent m hm hasks
    · exact .key k hlisted hprogress

/-- The chunks that are fetched under one id change nothing for an entry under another. -/
theorem covered_fetchChunks_iff_of_ne {id : ℕ} (hne : id ≠ requestId)
    (hchunks : ∀ k, ¬ srv.Listed st.waiting.chunks k id) :
    srv.Covered req waiting (srv.fetchChunks req st requestId).2 id ↔
      srv.Covered req waiting st id := by
  have hwaiting : (srv.fetchChunks req st requestId).2.waiting = st.waiting := rfl
  have hfetched : ∀ k, ¬ srv.Listed (srv.fetchChunks req st requestId).2.waiting.chunks k id :=
    hchunks
  have hasks : (∃ m ∈ (srv.fetchChunks req st requestId).2.sent, m.Asks id) ↔
      ∃ m ∈ st.sent, m.Asks id := by
    constructor
    · rintro ⟨m, hm, hid⟩
      rcases mem_sent_fetchChunks.mp hm with hold | ⟨c, -, -, rfl⟩
      · exact ⟨m, hold, hid⟩
      · exact absurd hid.symm hne
    · rintro ⟨m, hm, hid⟩
      exact ⟨m, mem_sent_fetchChunks.mpr (Or.inl hm), hid⟩
  have hends : ∀ k, (∃ m ∈ (srv.fetchChunks req st requestId).2.sent, m.EndsKey k) ↔
      ∃ m ∈ st.sent, m.EndsKey k := by
    intro k
    constructor
    · rintro ⟨m, hm, hend⟩
      rcases mem_sent_fetchChunks.mp hm with hold | ⟨c, -, -, rfl⟩
      · exact ⟨m, hold, hend⟩
      · exact False.elim hend
    · rintro ⟨m, hm, hend⟩
      exact ⟨m, mem_sent_fetchChunks.mpr (Or.inl hm), hend⟩
  rw [covered_iff_of_no_chunk hchunks, covered_iff_of_no_chunk hfetched, hasks, hwaiting]
  simp only [hends]

/-! ## Another lost data chunk -/

/-- A call under other ids puts the id on no list. -/
theorem not_listed_insert {κ : Type} [DecidableEq κ] {w : Waiting κ PendingOp} (k' : κ)
    {ops : List PendingOp} (hops : ∀ pid ∈ ops, pid.requestId ≠ requestId)
    (h : ∀ k, ¬ srv.Listed w k requestId) (k : κ) :
    ¬ srv.Listed (w.insert k' ops).1 k requestId := by
  rintro ⟨pids, hlookup, pid, hmem, hinstance, hrequest⟩
  rcases Waiting.insert_cases w k' ops with ⟨old, hold, heq⟩ | ⟨-, -, heq⟩ | ⟨-, -, heq⟩
    <;> rw [heq] at hlookup
  · by_cases hk : k = k'
    · rw [hk, AList.lookup_insert] at hlookup
      obtain rfl := Option.some.inj hlookup
      rcases List.mem_append.mp hmem with hmem | hmem
      · exact h k' ⟨old, hold, pid, hmem, hinstance, hrequest⟩
      · exact hops pid hmem hrequest
    · rw [AList.lookup_insert_ne hk] at hlookup
      exact h k ⟨pids, hlookup, pid, hmem, hinstance, hrequest⟩
  · exact h k ⟨pids, hlookup, pid, hmem, hinstance, hrequest⟩
  · by_cases hk : k = k'
    · rw [hk, AList.lookup_insert] at hlookup
      obtain rfl := Option.some.inj hlookup
      exact hops pid hmem hrequest
    · rw [AList.lookup_insert_ne hk] at hlookup
      exact h k ⟨pids, hlookup, pid, hmem, hinstance, hrequest⟩

/-- The chunk that is reconstructed besides the one of the read. -/
theorem find_other_eq_none_iff :
    (req.redirections.find? fun e =>
        e.original.2 < srv.dataChunkCount && e.original.2 ≠ req.chunkId) = none ↔
      ¬ ∃ e ∈ req.redirections,
        e.original.2 < srv.dataChunkCount ∧ e.original.2 ≠ req.chunkId := by
  simp [List.find?_eq_none]

/-- If another chunk is to be reconstructed, chunks are fetched under a new id. -/
theorem forwardSealed_of_needsOther (hneeds : srv.NeedsOther req st.waiting) (success : Bool) :
    ∃ chunkId, srv.forwardSealed req st success = srv.fetchChunks req { st with
      waiting := (st.waiting.insertDegradedChunk req.listId req.stripeId chunkId none).1
      lastId := st.lastId + 1
      isReconstructed := false
      ops := st.ops ++ [(st.lastId + 1, { req with op := .none })] } (st.lastId + 1) := by
  obtain ⟨hhere, hlost, hidle, hunfinished⟩ := hneeds
  rw [ReadServer.forwardSealed, if_neg (not_not.mpr hhere)]
  cases hfind : req.redirections.find? fun e =>
      e.original.2 < srv.dataChunkCount && e.original.2 ≠ req.chunkId with
  | none => exact absurd hlost (find_other_eq_none_iff.mp hfind)
  | some e =>
    have hstart : (st.waiting.insertDegradedChunk req.listId req.stripeId e.original.2 none).2 =
        .start := by
      rw [DegradedWaiting.insertDegradedChunk, Waiting.insert_of_idle hidle hunfinished]
    refine ⟨e.original.2, ?_⟩
    simp only [hstart]

/-- Otherwise the read is left as it is, up to the waiting for the stripe. -/
theorem forwardSealed_of_not_needsOther (hneeds : ¬ srv.NeedsOther req st.waiting)
    (success : Bool) : ∃ chunks isReconstructed,
      srv.forwardSealed req st success =
        (success, { st with waiting := { st.waiting with chunks }, isReconstructed }) ∧
      ∀ id, (∀ k, ¬ srv.Listed st.waiting.chunks k id) → ∀ k, ¬ srv.Listed chunks k id := by
  rw [ReadServer.forwardSealed]
  split_ifs with hhere
  · exact ⟨_, _, rfl, fun _ h => h⟩
  · cases hfind : req.redirections.find? fun e =>
        e.original.2 < srv.dataChunkCount && e.original.2 ≠ req.chunkId with
    | none => exact ⟨_, _, rfl, fun _ h => h⟩
    | some e =>
      have hlost : ∃ e ∈ req.redirections,
          e.original.2 < srv.dataChunkCount ∧ e.original.2 ≠ req.chunkId := by
        by_contra hnone
        rw [find_other_eq_none_iff.mpr hnone] at hfind
        cases hfind
      have hlisted : ∀ id, (∀ k, ¬ srv.Listed st.waiting.chunks k id) →
          ∀ k, ¬ srv.Listed (st.waiting.insertDegradedChunk req.listId req.stripeId e.original.2
            none).1.chunks k id :=
        fun id h k => not_listed_insert _ (List.forall_mem_nil _) h k
      dsimp only
      split
      · next hstart =>
        rcases Waiting.insert_cases st.waiting.chunks (stripeOf req.listId req.stripeId) [] with
          ⟨_, _, heq⟩ | ⟨_, _, heq⟩ | ⟨hidle, hunfinished, _⟩
        · simp [DegradedWaiting.insertDegradedChunk, heq] at hstart
        · simp [DegradedWaiting.insertDegradedChunk, heq] at hstart
        · exact absurd ⟨not_not.mp hhere, hlost, hidle, hunfinished⟩ hneeds
      · exact ⟨_, _, rfl, hlisted⟩
      · exact ⟨_, _, rfl, hlisted⟩

/-- When a read is about to reconstruct another chunk, it has taken care of its entries so far, and
has none if it is not successful. -/
structure ReadServer.Handed (waiting : DegradedWaiting) (st : ReadState) (success : Bool) :
    Prop where
  chunks : st.waiting.chunks = waiting.chunks
  getChunks : st.getChunks = []
  failed : success = false → st.ops = []
  ne_next : ∀ e ∈ st.ops, e.1 ≠ st.lastId + 1
  no_chunk : ∀ e ∈ st.ops, ∀ k, ¬ srv.Listed waiting.chunks k e.1
  next_chunks : ∀ k, ¬ srv.Listed waiting.chunks k (st.lastId + 1)
  next_keys : ∀ k, ¬ srv.Listed st.waiting.keys k (st.lastId + 1)
  next_asks : ∀ m ∈ st.sent, ¬ m.Asks (st.lastId + 1)

theorem ReadServer.Handed.forwardSealed_iff {success : Bool}
    (h : srv.Handed waiting st success) :
    ((∀ e ∈ (srv.forwardSealed req st success).2.ops,
        srv.Covered req waiting (srv.forwardSealed req st success).2 e.1) ∧
      ((srv.forwardSealed req st success).1 = false →
        (srv.forwardSealed req st success).2.ops = [] ∧
          (srv.forwardSealed req st success).2.getChunks = [])) ↔
      (∀ e ∈ st.ops, srv.Covered req waiting st e.1) ∧
        (srv.NeedsOther req waiting → srv.Fetchable req) := by
  have hneeds_iff : srv.NeedsOther req st.waiting ↔ srv.NeedsOther req waiting := by
    constructor
    · rintro ⟨hhere, hlost, hidle, hunfinished⟩
      rw [h.chunks] at hidle hunfinished
      exact ⟨hhere, hlost, hidle, hunfinished⟩
    · rintro ⟨hhere, hlost, hidle, hunfinished⟩
      rw [← h.chunks] at hidle hunfinished
      exact ⟨hhere, hlost, hidle, hunfinished⟩
  by_cases hneeds : srv.NeedsOther req st.waiting
  · obtain ⟨chunkId, heq⟩ := forwardSealed_of_needsOther hneeds success
    set st' : ReadState := { st with
      waiting := (st.waiting.insertDegradedChunk req.listId req.stripeId chunkId none).1
      lastId := st.lastId + 1
      isReconstructed := false
      ops := st.ops ++ [(st.lastId + 1, { req with op := .none })] } with hst'
    have hlisted : ∀ id, (∀ k, ¬ srv.Listed waiting.chunks k id) →
        ∀ k, ¬ srv.Listed st'.waiting.chunks k id := by
      intro id hid
      rw [← h.chunks] at hid
      exact not_listed_insert _ (List.forall_mem_nil _) hid
    -- the old entries are as before, and the new one needs a chunk from another server
    have hold : ∀ e ∈ st.ops,
        srv.Covered req waiting (srv.fetchChunks req st' (st.lastId + 1)).2 e.1 ↔
          srv.Covered req waiting st e.1 := by
      intro e he
      have hchunks := h.no_chunk e he
      rw [covered_fetchChunks_iff_of_ne (h.ne_next e he) (hlisted _ hchunks),
        covered_iff_of_no_chunk (hlisted _ hchunks), covered_iff_of_no_chunk (h.chunks ▸ hchunks)]
      rfl
    have hnew : srv.Covered req waiting (srv.fetchChunks req st' (st.lastId + 1)).2 (st.lastId + 1)
        ↔ ∃ c ∈ srv.selectChunks req, c.2.self = false :=
      covered_fetchChunks_iff (hlisted _ h.next_chunks) h.next_keys h.next_asks
    have hops : (srv.fetchChunks req st' (st.lastId + 1)).2.ops =
        st.ops ++ [(st.lastId + 1, { req with op := .none })] := rfl
    rw [heq, hops]
    constructor
    · rintro ⟨hcovered, hclean⟩
      refine ⟨fun e he => (hold e he).mp (hcovered e (List.mem_append_left _ he)), fun _ => ?_⟩
      constructor
      · by_contra hfew
        exact absurd (hclean (fetchChunks_fst_of_few hfew)).1 (by simp)
      · exact hnew.mp (hcovered (st.lastId + 1, { req with op := .none })
          (List.mem_append_right _ (List.mem_singleton_self _)))
    · rintro ⟨hcovered, hfetch⟩
      obtain ⟨henough, hremote⟩ := hfetch (hneeds_iff.mp hneeds)
      constructor
      · intro e he
        rcases List.mem_append.mp he with he | he
        · exact (hold e he).mpr (hcovered e he)
        · rw [List.mem_singleton.mp he]
          exact hnew.mpr hremote
      · intro hfalse
        rw [fetchChunks_fst_of_enough henough] at hfalse
        cases hfalse
  · obtain ⟨chunks, isReconstructed, heq, hlisted⟩ := forwardSealed_of_not_needsOther hneeds success
    have hsame : ∀ e ∈ st.ops,
        srv.Covered req waiting
          { st with waiting := { st.waiting with chunks }, isReconstructed } e.1 ↔
            srv.Covered req waiting st e.1 := by
      intro e he
      have hchunks : ∀ k, ¬ srv.Listed st.waiting.chunks k e.1 := h.chunks ▸ h.no_chunk e he
      rw [covered_iff_of_no_chunk (hlisted _ hchunks), covered_iff_of_no_chunk hchunks]
    rw [heq]
    constructor
    · rintro ⟨hcovered, -⟩
      exact ⟨fun e he => (hsame e he).mp (hcovered e he),
        fun hother => absurd (hneeds_iff.mpr hother) hneeds⟩
    · rintro ⟨hcovered, -⟩
      exact ⟨fun e he => (hsame e he).mpr (hcovered e he),
        fun hfalse => ⟨h.failed hfalse, h.getChunks⟩⟩

/-! ## Reads from a sealed chunk -/

variable (srv req) in
/-- The state in which the chunks of a stripe are read: the request waits for its stripe. -/
def ReadServer.registerStripe (st : ReadState) (isReconstructed : Bool) : ReadState :=
  { st with
    lastId := st.lastId + 1
    isReconstructed
    ops := st.ops ++ [(st.lastId + 1, req)]
    waiting := (st.waiting.insertDegradedChunk req.listId req.stripeId req.chunkId
      (some (srv.instanceId, st.lastId + 1))).1 }

theorem readSealed_of_away (haway : req.ongoingAtChunk ≠ srv.ownChunkId req.listId) :
    srv.readSealed req st = (true, srv.registerStripe req st false) := by
  rw [ReadServer.readSealed]
  exact if_pos haway

theorem readSealed_of_some {pids : List PendingOp}
    (hsome : st.waiting.chunks.lists.lookup (stripeOf req.listId req.stripeId) = some pids) :
    srv.readSealed req st = (true, srv.registerStripe req st false) := by
  have hwait : (st.waiting.insertDegradedChunk req.listId req.stripeId req.chunkId
      (some (srv.instanceId, st.lastId + 1))).2 = .wait := by
    rw [DegradedWaiting.insertDegradedChunk, Waiting.insert_of_some hsome]
  rw [ReadServer.readSealed]
  simp only [hwait]
  split_ifs <;> rfl

theorem readSealed_of_finished (hhere : req.ongoingAtChunk = srv.ownChunkId req.listId)
    (hnone : st.waiting.chunks.lists.lookup (stripeOf req.listId req.stripeId) = none)
    (hfinished : stripeOf req.listId req.stripeId ∈ st.waiting.chunks.finished) :
    srv.readSealed req st = (false, srv.registerStripe req st true) := by
  have hdone : (st.waiting.insertDegradedChunk req.listId req.stripeId req.chunkId
      (some (srv.instanceId, st.lastId + 1))).2 = .finished := by
    rw [DegradedWaiting.insertDegradedChunk, Waiting.insert_of_finished hnone hfinished]
  rw [ReadServer.readSealed, if_neg (not_not.mpr hhere)]
  simp only [hdone]
  rfl

theorem readSealed_of_idle (hhere : req.ongoingAtChunk = srv.ownChunkId req.listId)
    (hnone : st.waiting.chunks.lists.lookup (stripeOf req.listId req.stripeId) = none)
    (hunfinished : stripeOf req.listId req.stripeId ∉ st.waiting.chunks.finished) :
    srv.readSealed req st =
      srv.fetchChunks req (srv.registerStripe req st false) (st.lastId + 1) := by
  have hstart : (st.waiting.insertDegradedChunk req.listId req.stripeId req.chunkId
      (some (srv.instanceId, st.lastId + 1))).2 = .start := by
    rw [DegradedWaiting.insertDegradedChunk, Waiting.insert_of_idle hnone hunfinished]
  rw [ReadServer.readSealed, if_neg (not_not.mpr hhere)]
  simp only [hstart]
  rfl

/-- The request is on the list of its stripe, unless the stripe is finished. -/
theorem listed_registerStripe_iff
    (hfresh : ∀ k, ¬ srv.Listed st.waiting.chunks k (st.lastId + 1)) :
    srv.Listed (srv.registerStripe req st isReconstructed).waiting.chunks
        (stripeOf req.listId req.stripeId) (st.lastId + 1) ↔
      (st.waiting.chunks.lists.lookup (stripeOf req.listId req.stripeId) = none →
        stripeOf req.listId req.stripeId ∉ st.waiting.chunks.finished) := by
  have hinsert : (srv.registerStripe req st isReconstructed).waiting.chunks =
      (st.waiting.chunks.insert (stripeOf req.listId req.stripeId)
        [⟨srv.instanceId, st.lastId + 1, req.chunkId⟩]).1 := rfl
  rw [hinsert]
  rcases Waiting.insert_cases st.waiting.chunks (stripeOf req.listId req.stripeId)
      [⟨srv.instanceId, st.lastId + 1, req.chunkId⟩] with
    ⟨pids, hsome, heq⟩ | ⟨hnone, hfinished, heq⟩ | ⟨hnone, hunfinished, heq⟩ <;> rw [heq]
  · refine iff_of_true ⟨_, AList.lookup_insert _, ?_⟩ fun hnone => ?_
    · exact ⟨_, List.mem_append_right _ (List.mem_singleton_self _), rfl, rfl⟩
    · rw [hsome] at hnone
      cases hnone
  · exact iff_of_false (hfresh _) fun hunfinished => hunfinished hnone hfinished
  · refine iff_of_true ⟨_, AList.lookup_insert _, ?_⟩ fun _ => hunfinished
    exact ⟨_, List.mem_singleton_self _, rfl, rfl⟩

/-- Without a message, only the list of the stripe takes care of the request. -/
theorem covered_registerStripe_iff (hfresh : srv.Fresh waiting (lastId + 1)) (r : Bool) :
    srv.Covered req waiting
        (srv.registerStripe req (.start waiting lastId isReconstructed) r) (lastId + 1) ↔
      (waiting.chunks.lists.lookup (stripeOf req.listId req.stripeId) = none →
        stripeOf req.listId req.stripeId ∉ waiting.chunks.finished) ∧
      ((waiting.chunks.lists.lookup (stripeOf req.listId req.stripeId)).isSome ∨
        req.ongoingAtChunk ≠ srv.ownChunkId req.listId) := by
  have hlisted : srv.Listed (srv.registerStripe req (.start waiting lastId isReconstructed)
      r).waiting.chunks (stripeOf req.listId req.stripeId) (lastId + 1) ↔ _ :=
    listed_registerStripe_iff hfresh.chunks
  constructor
  · rintro (⟨m, hm, -⟩ | ⟨hlist, hprogress | haway | ⟨m, hm, -⟩⟩ | ⟨k, hkey, -⟩)
    · cases hm
    · exact ⟨hlisted.mp hlist, Or.inl hprogress⟩
    · exact ⟨hlisted.mp hlist, Or.inr haway⟩
    · cases hm
    · exact absurd hkey (hfresh.keys k)
  · rintro ⟨hlist, hprogress⟩
    exact .chunk (hlisted.mpr hlist) (hprogress.imp_right Or.inl)

/-- If this server is to reconstruct the stripe, it asks for a chunk. -/
theorem covered_fetchChunks_registerStripe_iff (hfresh : srv.Fresh waiting (lastId + 1))
    (hhere : req.ongoingAtChunk = srv.ownChunkId req.listId)
    (hnone : waiting.chunks.lists.lookup (stripeOf req.listId req.stripeId) = none) (r : Bool) :
    srv.Covered req waiting (srv.fetchChunks req
        (srv.registerStripe req (.start waiting lastId isReconstructed) r) (lastId + 1)).2
        (lastId + 1) ↔
      ∃ c ∈ srv.selectChunks req, c.2.self = false := by
  have hremote : ∀ m ∈ (srv.fetchChunks req
      (srv.registerStripe req (.start waiting lastId isReconstructed) r) (lastId + 1)).2.sent,
        ∃ c ∈ srv.selectChunks req, c.2.self = false := by
    intro m hm
    rcases mem_sent_fetchChunks.mp hm with hold | ⟨c, hc, hself, -⟩
    · cases hold
    · exact ⟨c, hc, hself⟩
  constructor
  · rintro (⟨m, hm, -⟩ | ⟨-, hprogress | haway | ⟨m, hm, -⟩⟩ | ⟨k, hkey, -⟩)
    · exact hremote m hm
    · rw [hnone] at hprogress
      cases hprogress
    · exact absurd hhere haway
    · exact hremote m hm
    · exact absurd hkey (hfresh.keys k)
  · rintro ⟨c, hc, hself⟩
    exact .sent _ (mem_sent_fetchChunks.mpr (Or.inr ⟨c, hc, hself, rfl⟩)) rfl

theorem performDegradedRead_of_sealed (hsealed : req.isSealed = true)
    (henough : ¬ sub32 (srv.dataChunkCount + srv.parityChunkCount) req.redirections.length <
      srv.dataChunkCount) :
    srv.performDegradedRead req st = .ok (srv.readSealed req st) := by
  rw [ReadServer.performDegradedRead, if_pos hsealed, if_neg henough]

/-- What is left of a read from a sealed chunk. -/
theorem handsOver_iff_of_sealed (hfresh : srv.Fresh waiting (lastId + 1))
    (hsealed : req.isSealed = true)
    (henough : ¬ sub32 (srv.dataChunkCount + srv.parityChunkCount) req.redirections.length <
      srv.dataChunkCount) :
    srv.HandsOver req waiting lastId isReconstructed ↔ srv.SealedReady req waiting := by
  have hread : srv.performDegradedRead req (.start waiting lastId isReconstructed) =
      .ok (srv.readSealed req (.start waiting lastId isReconstructed)) :=
    performDegradedRead_of_sealed hsealed henough
  have hops : ∀ r, (srv.registerStripe req (.start waiting lastId isReconstructed) r).ops =
      [(lastId + 1, req)] := fun _ => rfl
  rw [ReadServer.SealedReady]
  by_cases haway : req.ongoingAtChunk ≠ srv.ownChunkId req.listId
  · rw [readSealed_of_away haway] at hread
    rw [handsOver_iff_of_ok hread, hops, List.forall_mem_singleton,
      covered_registerStripe_iff hfresh]
    simp [haway]
  have hhere := not_not.mp haway
  cases hlookup : waiting.chunks.lists.lookup (stripeOf req.listId req.stripeId) with
  | some pids =>
    rw [readSealed_of_some hlookup] at hread
    rw [handsOver_iff_of_ok hread, hops, List.forall_mem_singleton,
      covered_registerStripe_iff hfresh, hlookup]
    simp
  | none =>
    by_cases hfinished : stripeOf req.listId req.stripeId ∈ waiting.chunks.finished
    · rw [readSealed_of_finished hhere hlookup hfinished] at hread
      rw [handsOver_iff_of_ok hread, hops]
      simp [hfinished]
    · have hfetch : srv.performDegradedRead req (.start waiting lastId isReconstructed) =
          .ok (srv.fetchChunks req (srv.registerStripe req
            (.start waiting lastId isReconstructed) false) (lastId + 1)) := by
        rw [hread, readSealed_of_idle hhere hlookup hfinished]
        rfl
      have hfetched : (srv.fetchChunks req (srv.registerStripe req
          (.start waiting lastId isReconstructed) false) (lastId + 1)).2.ops =
            [(lastId + 1, req)] := rfl
      rw [handsOver_iff_of_ok hfetch, hfetched, List.forall_mem_singleton,
        covered_fetchChunks_registerStripe_iff hfresh hhere hlookup]
      constructor
      · rintro ⟨hremote, hclean⟩ -
        refine ⟨hfinished, fun _ => ⟨?_, hremote⟩⟩
        by_contra hfew
        exact List.cons_ne_nil _ _ (hclean (fetchChunks_fst_of_few hfew)).1
      · intro hready
        obtain ⟨henough, hremote⟩ := (hready rfl).2 hhere
        refine ⟨hremote, fun hfalse => ?_⟩
        rw [fetchChunks_fst_of_enough henough] at hfalse
        cases hfalse

end MemEC.Server
