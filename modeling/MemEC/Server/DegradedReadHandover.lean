import MemEC.Lib.Run
import MemEC.Server.DegradedReadPending

/-!
# How a degraded read hands over its entries

The object that is found locally is forwarded to every server that a lost chunk
is redirected to. The server itself may be one of them, and then its waiting for
the key ends at once. It ends for the plain form of the key of the object, so
that the list of another key is never drained.
-/

namespace MemEC.Server

open MemEC.Lib MemEC.Common

variable {cfg : GlobalConfig} {shape : IndexShape} (srv : ReadServer cfg shape) (req : ReadRequest)

/-- `eraseDegradedOp` for all operations of a list. -/
def ReadServer.eraseOps (pids : List PendingOp) (ops : List (ℕ × ReadRequest)) :
    List (ℕ × ReadRequest) :=
  pids.foldl (fun ops pid => ops.eraseP fun e =>
    pid.instanceId = srv.instanceId && pid.requestId = e.1) ops

variable {srv req} {waiting : DegradedWaiting} {lastId : ℕ} {isReconstructed : Bool}
variable {st : ReadState} {requestId : ℕ} {o : LocalObject}

theorem foldl_eraseDegradedOp (pids : List PendingOp) (st : ReadState) :
    pids.foldl (ReadState.eraseDegradedOp srv.instanceId) st =
      { st with ops := srv.eraseOps pids st.ops } := by
  induction pids generalizing st with
  | nil => rfl
  | cons pid pids ih => exact ih _

@[simp] theorem eraseOps_nil (pids : List PendingOp) : srv.eraseOps pids [] = [] := by
  induction pids with
  | nil => rfl
  | cons pid pids ih => exact ih

/-- The one entry is erased if it is on the list. -/
theorem eraseOps_singleton (pids : List PendingOp) (e : ℕ × ReadRequest) :
    srv.eraseOps pids [e] =
      if ∃ pid ∈ pids, pid.instanceId = srv.instanceId ∧ pid.requestId = e.1 then [] else [e] := by
  induction pids with
  | nil => simp [ReadServer.eraseOps]
  | cons pid pids ih =>
    have hcons : srv.eraseOps (pid :: pids) [e] = srv.eraseOps pids
        ([e].eraseP fun e => pid.instanceId = srv.instanceId && pid.requestId = e.1) := rfl
    rw [hcons]
    by_cases hpid : pid.instanceId = srv.instanceId ∧ pid.requestId = e.1
    · simp [hpid]
    · rw [List.eraseP_cons_of_neg (by simpa using hpid), List.eraseP_nil, ih]
      simp [hpid]

/-- What forwarding an object to one server does. -/
theorem forwardKey_cases (st : ReadState) (e : Redirection) :
    (∃ socket metadata, srv.forwardKey req requestId o st e = { st with
        sent := st.sent ++ [.forwardKey socket requestId metadata req.op (o.key srv)
          (o.value srv)] }) ∨
      (st.waiting.keys.lists.lookup (Key.plain (o.key srv)).ident = none ∧
        srv.forwardKey req requestId o st e = st) ∨
      ∃ pids, st.waiting.keys.lists.lookup (Key.plain (o.key srv)).ident = some pids ∧
        srv.forwardKey req requestId o st e = { st with
          waiting := { st.waiting with keys := ⟨st.waiting.keys.lists.erase
            (Key.plain (o.key srv)).ident,
            insert (Key.plain (o.key srv)).ident st.waiting.keys.finished⟩ }
          ops := srv.eraseOps pids st.ops } := by
  rw [ReadServer.forwardKey]
  dsimp only
  split_ifs
  · right
    rw [ReadServer.forwardKeyToSelf]
    cases hlookup : st.waiting.keys.lists.lookup (Key.plain (o.key srv)).ident with
    | none =>
      left
      rw [DegradedWaiting.deleteDegradedKey, Waiting.delete_of_none hlookup]
      exact ⟨rfl, rfl⟩
    | some pids =>
      right
      refine ⟨pids, rfl, ?_⟩
      rw [DegradedWaiting.deleteDegradedKey, Waiting.delete_of_some hlookup]
      exact foldl_eraseDegradedOp pids _
  · exact Or.inl ⟨_, _, rfl⟩

theorem mem_of_mem_eraseOps {pids : List PendingOp} {ops : List (ℕ × ReadRequest)}
    {e : ℕ × ReadRequest} (h : e ∈ srv.eraseOps pids ops) : e ∈ ops := by
  induction pids generalizing ops with
  | nil => exact h
  | cons pid pids ih => exact List.mem_of_mem_eraseP (ih h)

/-- An id on a list after another list was dropped was on it before. -/
theorem listed_of_erase {w : Waiting Key.Ident PendingOp} {k k' : Key.Ident}
    {finished : Finset Key.Ident} (h : srv.Listed ⟨w.lists.erase k', finished⟩ k requestId) :
    k ≠ k' ∧ srv.Listed w k requestId := by
  obtain ⟨pids, hlookup, hpid⟩ := h
  have hne : k ≠ k' := by
    rintro rfl
    rw [AList.lookup_erase] at hlookup
    cases hlookup
  rw [AList.lookup_erase_ne hne] at hlookup
  exact ⟨hne, pids, hlookup, hpid⟩

/-! ## Reads that have one entry -/

variable (srv) in
/-- A read from an unsealed chunk uses one id, and changes only the lists of keys. -/
structure ReadServer.Forwarding (waiting : DegradedWaiting) (lastId : ℕ) (st : ReadState) :
    Prop where
  chunks : st.waiting.chunks = waiting.chunks
  getChunks : st.getChunks = []
  last : st.lastId = lastId + 1
  ops : ∀ e ∈ st.ops, e.1 = lastId + 1
  next_keys : ∀ k, ¬ srv.Listed st.waiting.keys k (lastId + 2)
  asks : ∀ m ∈ st.sent, ∀ id, m.Asks id → id = lastId + 1

namespace ReadServer.Forwarding

theorem forwardKey (h : srv.Forwarding waiting lastId st) (e : Redirection) :
    srv.Forwarding waiting lastId (srv.forwardKey req requestId o st e) := by
  rcases forwardKey_cases st e with ⟨socket, metadata, heq⟩ | ⟨-, heq⟩ | ⟨pids, -, heq⟩ <;> rw [heq]
  · refine { h with asks := fun m hm id hasks => ?_ }
    rcases List.mem_append.mp hm with hm | hm
    · exact h.asks m hm id hasks
    · rw [List.mem_singleton.mp hm] at hasks
      exact hasks.elim
  · exact h
  · exact { h with
      ops := fun e he => h.ops e (mem_of_mem_eraseOps he)
      next_keys := fun k hk => h.next_keys k (listed_of_erase hk).2 }

theorem foldl_forwardKey (h : srv.Forwarding waiting lastId st) (redirections : List Redirection) :
    srv.Forwarding waiting lastId (redirections.foldl (srv.forwardKey req requestId o) st) :=
  run_invariant h (fun _ e hst => hst.forwardKey e) redirections

/-- What is left to hand over behind the read of the object. -/
theorem handed (h : srv.Forwarding waiting lastId st) (hfresh : srv.Fresh waiting (lastId + 1))
    (hnext : srv.Fresh waiting (lastId + 2)) {success : Bool}
    (hfailed : success = false → st.ops = []) : srv.Handed waiting st success where
  chunks := h.chunks
  getChunks := h.getChunks
  failed := hfailed
  ne_next e he := by
    rw [h.last, h.ops e he]
    exact Nat.ne_of_lt (Nat.lt_succ_self _)
  no_chunk e he := by
    rw [h.ops e he]
    exact hfresh.chunks
  next_chunks := by
    rw [h.last]
    exact hnext.chunks
  next_keys := by
    rw [h.last]
    exact h.next_keys
  next_asks m hm hasks := by
    have hid := h.asks m hm _ hasks
    rw [h.last] at hid
    exact Nat.succ_ne_self _ hid

end ReadServer.Forwarding

/-! ## The entry of an object that is forwarded -/

variable {key : Key}

variable (srv req) in
/-- The entry is gone, or it is alone on the list of the key. -/
def ReadServer.Waits (key : Key) (lastId : ℕ) (st : ReadState) : Prop :=
  st.ops = [] ∨ st.ops = [(lastId + 1, req)] ∧
    st.waiting.keys.lists.lookup key.ident = some [⟨srv.instanceId, lastId + 1, 0⟩]

/-- The entry is gone, or the waiting for the key is going to end. -/
def ReadState.Drains (key : Key) (st : ReadState) : Prop :=
  st.ops = [] ∨ ∃ m ∈ st.sent, m.EndsKey key.ident

variable (srv req) in
/-- The entry is on no list but that of the key, and the waiting for the key does not end. -/
structure ReadServer.Stranded (key : Key) (lastId : ℕ) (st : ReadState) : Prop where
  ops : st.ops = [(lastId + 1, req)]
  listed : ∀ k, srv.Listed st.waiting.keys k (lastId + 1) → k = key.ident
  sent : ∀ m ∈ st.sent, ¬ m.Asks (lastId + 1) ∧ ¬ m.EndsKey key.ident

theorem ReadServer.Waits.forwardKey (h : srv.Waits req key lastId st)
    (hident : (Key.plain (o.key srv)).ident = key.ident) (e : Redirection) :
    srv.Waits req key lastId (srv.forwardKey req requestId o st e) ∧
      (srv.forwardKey req requestId o st e).Drains key := by
  rcases forwardKey_cases st e with ⟨socket, metadata, heq⟩ | ⟨hnone, heq⟩ | ⟨pids, hpids, heq⟩
    <;> rw [heq]
  · exact ⟨h, Or.inr ⟨_, List.mem_append_right _ (List.mem_singleton_self _), hident⟩⟩
  · rw [hident] at hnone
    rcases h with hempty | ⟨-, hlist⟩
    · exact ⟨Or.inl hempty, Or.inl hempty⟩
    · rw [hnone] at hlist
      cases hlist
  · have hempty : srv.eraseOps pids st.ops = [] := by
      rcases h with hempty | ⟨hops, hlist⟩
      · rw [hempty, eraseOps_nil]
      · rw [hident, hlist] at hpids
        obtain rfl := Option.some.inj hpids
        rw [hops, eraseOps_singleton]
        exact if_pos ⟨_, List.mem_singleton_self _, rfl, rfl⟩
    exact ⟨Or.inl hempty, Or.inl hempty⟩

theorem ReadServer.Stranded.forwardKey (h : srv.Stranded req key lastId st)
    (hident : (Key.plain (o.key srv)).ident ≠ key.ident) (e : Redirection) :
    srv.Stranded req key lastId (srv.forwardKey req requestId o st e) := by
  rcases forwardKey_cases st e with ⟨socket, metadata, heq⟩ | ⟨-, heq⟩ | ⟨pids, hpids, heq⟩
    <;> rw [heq]
  · refine { h with sent := fun m hm => ?_ }
    rcases List.mem_append.mp hm with hm | hm
    · exact h.sent m hm
    · rw [List.mem_singleton.mp hm]
      exact ⟨id, hident⟩
  · exact h
  · refine { h with
      ops := ?_
      listed := fun k hk => h.listed k (listed_of_erase hk).2 }
    rw [h.ops, eraseOps_singleton]
    refine if_neg ?_
    rintro ⟨pid, hmem, hpid⟩
    exact hident (h.listed _ ⟨pids, hpids, pid, hmem, hpid⟩)

theorem ReadServer.Waits.foldl_forwardKey (h : srv.Waits req key lastId st)
    (hident : (Key.plain (o.key srv)).ident = key.ident) {redirections : List Redirection}
    (hne : redirections ≠ []) :
    srv.Waits req key lastId (redirections.foldl (srv.forwardKey req requestId o) st) ∧
      (redirections.foldl (srv.forwardKey req requestId o) st).Drains key := by
  induction redirections generalizing st with
  | nil => exact absurd rfl hne
  | cons e rest ih =>
    cases rest with
    | nil => exact h.forwardKey hident e
    | cons e' rest => exact ih (h.forwardKey hident e).1 (List.cons_ne_nil e' rest)

theorem ReadServer.Stranded.foldl_forwardKey (h : srv.Stranded req key lastId st)
    (hident : (Key.plain (o.key srv)).ident ≠ key.ident) (redirections : List Redirection) :
    srv.Stranded req key lastId (redirections.foldl (srv.forwardKey req requestId o) st) :=
  run_invariant h (fun _ e hst => hst.forwardKey hident e) redirections

theorem ReadServer.Waits.covered (h : srv.Waits req key lastId st) (hdrains : st.Drains key) :
    ∀ e ∈ st.ops, srv.Covered req waiting st e.1 := by
  intro e he
  rcases h with hempty | ⟨hops, hlist⟩
  · rw [hempty] at he
    cases he
  · rw [hops] at he
    rw [List.mem_singleton.mp he]
    rcases hdrains with hempty | hsent
    · rw [hops] at hempty
      cases hempty
    · exact .key key.ident ⟨_, hlist, _, List.mem_singleton_self _, rfl, rfl⟩ (Or.inr hsent)

theorem ReadServer.Stranded.not_covered (h : srv.Stranded req key lastId st)
    (hst : srv.Forwarding waiting lastId st) (hfresh : srv.Fresh waiting (lastId + 1))
    (hidle : waiting.KeyIdle key) : ¬ ∀ e ∈ st.ops, srv.Covered req waiting st e.1 := by
  rw [h.ops, List.forall_mem_singleton, covered_iff_of_no_chunk (hst.chunks ▸ hfresh.chunks)]
  rintro (⟨m, hm, hasks⟩ | ⟨k, hlisted, hprogress | ⟨m, hm, hends⟩⟩)
  · exact (h.sent m hm).1 hasks
  · rw [h.listed k hlisted, hidle.1] at hprogress
    cases hprogress
  · rw [h.listed k hlisted] at hends
    exact (h.sent m hm).2 hends

/-- The object is forwarded so that the waiting for the key ends, if and only if there is a server
to forward it to and it has the plain key. -/
theorem covered_foldl_forwardKey_iff (hst : srv.Forwarding waiting lastId st)
    (hops : st.ops = [(lastId + 1, req)]) (hsent : st.sent = [])
    (hlist : st.waiting.keys.lists.lookup key.ident = some [⟨srv.instanceId, lastId + 1, 0⟩])
    (hother : ∀ k, srv.Listed st.waiting.keys k (lastId + 1) → k = key.ident)
    (hfresh : srv.Fresh waiting (lastId + 1)) (hidle : waiting.KeyIdle key) :
    (∀ e ∈ (req.redirections.foldl (srv.forwardKey req requestId o) st).ops,
      srv.Covered req waiting (req.redirections.foldl (srv.forwardKey req requestId o) st) e.1) ↔
        req.redirections ≠ [] ∧ (Key.plain (o.key srv)).ident = key.ident := by
  have hstranded : srv.Stranded req key lastId st := ⟨hops, hother, by rw [hsent]; nofun⟩
  constructor
  · intro hcovered
    constructor
    · intro hnil
      rw [hnil] at hcovered
      exact hstranded.not_covered hst hfresh hidle hcovered
    · by_contra hident
      exact (hstranded.foldl_forwardKey hident _).not_covered (hst.foldl_forwardKey _) hfresh hidle
        hcovered
  · rintro ⟨hne, hident⟩
    have hwaits : srv.Waits req key lastId st := Or.inr ⟨hops, hlist⟩
    obtain ⟨hwaits', hdrains⟩ := hwaits.foldl_forwardKey hident hne
    exact hwaits'.covered hdrains

/-! ## Reads from an unsealed chunk -/

theorem forwarding_registerKey (hnext : srv.Fresh waiting (lastId + 2)) (socket : PeerSocket)
    (key : Key) : srv.Forwarding waiting lastId
      (srv.registerKey req (.start waiting lastId isReconstructed) socket key) where
  chunks := rfl
  getChunks := rfl
  last := rfl
  ops e he := by
    rw [ReadServer.registerKey] at he
    dsimp only at he
    split_ifs at he
    · cases he
    · rw [List.mem_singleton.mp he]
      rfl
  next_keys := by
    refine not_listed_insert key.ident (fun pid hpid => ?_) hnext.keys
    rw [List.mem_singleton.mp hpid]
    exact Nat.ne_of_lt (Nat.lt_succ_self _)
  asks := nofun

theorem handsOver_of_busy {socket : PeerSocket} (hread : srv.performDegradedRead req
      (.start waiting lastId isReconstructed) =
        srv.readUnsealed req (.start waiting lastId isReconstructed) socket key)
    (hbusy : ¬ waiting.KeyIdle key) :
    srv.HandsOver req waiting lastId isReconstructed ↔ socket.self = true := by
  have hbusy' : (ReadState.start waiting lastId isReconstructed).waiting.keys.lists.lookup
        key.ident ≠ none ∨
      key.ident ∈ (ReadState.start waiting lastId isReconstructed).waiting.keys.finished :=
    (not_and_or.mp hbusy).imp_right not_not.mp
  obtain ⟨r, heq⟩ := readUnsealed_of_busy hbusy'
  have hops : (srv.registerKey req (.start waiting lastId isReconstructed) socket key).ops =
      if socket.self then [] else [(lastId + 1, req)] := rfl
  rw [handsOver_iff_of_ok (hread.trans heq), hops]
  cases socket.self with
  | true => exact iff_of_true ⟨List.forall_mem_nil _, fun _ => ⟨rfl, rfl⟩⟩ rfl
  | false => simp

/-- A read from another server is taken care of by its `GET` request. -/
theorem handsOver_of_remote (hfresh : srv.Fresh waiting (lastId + 1))
    (hnext : srv.Fresh waiting (lastId + 2)) {socket : PeerSocket} (hself : socket.self = false)
    (hread : srv.performDegradedRead req (.start waiting lastId isReconstructed) =
      srv.readUnsealed req (.start waiting lastId isReconstructed) socket key)
    (hidle : waiting.KeyIdle key) :
    srv.HandsOver req waiting lastId isReconstructed ↔
      (srv.NeedsOther req waiting → srv.Fetchable req) := by
  have hunsealed := hread.trans (readUnsealed_of_idle hidle.1 hidle.2)
  rw [hself, if_neg Bool.false_ne_true] at hunsealed
  set st := srv.registerKey req (.start waiting lastId isReconstructed) socket key
  have hregister : srv.Forwarding waiting lastId st := forwarding_registerKey hnext socket key
  -- the request is the one message
  have hforwarding : srv.Forwarding waiting lastId
      (req.readFrom st socket key (lastId + 1)).2 := by
    refine { hregister with asks := fun m hm id hasks => ?_ }
    have hget : m = .get socket (lastId + 1) req.listId req.chunkId key := List.mem_singleton.mp hm
    rw [hget] at hasks
    exact hasks.symm
  have hcovered : ∀ e ∈ (req.readFrom st socket key (lastId + 1)).2.ops,
      srv.Covered req waiting (req.readFrom st socket key (lastId + 1)).2 e.1 := by
    intro e he
    rw [hforwarding.ops e he]
    exact .sent _ (List.mem_append_right _ (List.mem_singleton_self _)) rfl
  have hok : srv.performDegradedRead req (.start waiting lastId isReconstructed) =
      .ok (srv.forwardSealed req (req.readFrom st socket key (lastId + 1)).2 true) := hunsealed
  have hhanded : srv.Handed waiting (req.readFrom st socket key (lastId + 1)).2 true :=
    hforwarding.handed hfresh hnext nofun
  rw [handsOver_iff_of_ok hok, hhanded.forwardSealed_iff]
  exact and_iff_right hcovered

theorem readLocally_of_object {dataSocket : PeerSocket}
    (hdata : srv.surviving req req.chunkId = some dataSocket)
    (hobject : srv.objectToForward req dataSocket key = some o) :
    srv.readLocally req st key requestId =
      .ok (true, req.redirections.foldl (srv.forwardKey req requestId o) { st with
        located := some (srv.findLocally req key).1
        ops := st.ops ++ [(requestId, req)] }) := by
  rw [ReadServer.readLocally]
  simp only [hdata, hobject]

theorem readLocally_of_no_object {dataSocket : PeerSocket}
    (hdata : srv.surviving req req.chunkId = some dataSocket)
    (hobject : srv.objectToForward req dataSocket key = none) :
    srv.readLocally req st key requestId =
      .ok (false, { st with
        located := some (srv.findLocally req key).1
        failures := st.failures ++ [(srv.findLocally req key).2] }) := by
  rw [ReadServer.readLocally]
  simp only [hdata, hobject]

/-- The request is alone on the list of its key. -/
theorem lookup_registerKey (hidle : waiting.KeyIdle key) (socket : PeerSocket) :
    (srv.registerKey req (.start waiting lastId isReconstructed) socket
      key).waiting.keys.lists.lookup key.ident = some [⟨srv.instanceId, lastId + 1, 0⟩] := by
  have hinsert : (srv.registerKey req (.start waiting lastId isReconstructed) socket
      key).waiting.keys = (waiting.keys.insert key.ident [⟨srv.instanceId, lastId + 1, 0⟩]).1 := rfl
  rw [hinsert, Waiting.insert_of_idle hidle.1 hidle.2]
  exact AList.lookup_insert _

theorem eq_of_listed_registerKey (hfresh : srv.Fresh waiting (lastId + 1))
    (hidle : waiting.KeyIdle key) {socket : PeerSocket} {k : Key.Ident}
    (h : srv.Listed (srv.registerKey req (.start waiting lastId isReconstructed) socket
      key).waiting.keys k (lastId + 1)) : k = key.ident := by
  by_contra hne
  have hinsert : (srv.registerKey req (.start waiting lastId isReconstructed) socket
      key).waiting.keys = (waiting.keys.insert key.ident [⟨srv.instanceId, lastId + 1, 0⟩]).1 := rfl
  obtain ⟨pids, hlookup, hpid⟩ := h
  rw [hinsert, Waiting.insert_of_idle hidle.1 hidle.2] at hlookup
  dsimp only at hlookup
  rw [AList.lookup_insert_ne hne] at hlookup
  exact hfresh.keys k ⟨pids, hlookup, hpid⟩

/-- A read from the own key-value store forwards what it finds. -/
theorem handsOver_of_own (hfresh : srv.Fresh waiting (lastId + 1))
    (hnext : srv.Fresh waiting (lastId + 2)) {socket : PeerSocket} (hself : socket.self = true)
    (hread : srv.performDegradedRead req (.start waiting lastId isReconstructed) =
      srv.readUnsealed req (.start waiting lastId isReconstructed) socket key)
    (hidle : waiting.KeyIdle key) {dataSocket : PeerSocket}
    (hdata : srv.surviving req req.chunkId = some dataSocket) :
    srv.HandsOver req waiting lastId isReconstructed ↔
      (∀ o, srv.objectToForward req dataSocket key = some o →
        req.redirections ≠ [] ∧ (Key.plain (o.key srv)).ident = key.ident) ∧
      (srv.NeedsOther req waiting → srv.Fetchable req) := by
  have hunsealed := hread.trans (readUnsealed_of_idle hidle.1 hidle.2)
  rw [hself, if_pos rfl] at hunsealed
  set reg := srv.registerKey req (.start waiting lastId isReconstructed) socket key
  have hregister : srv.Forwarding waiting lastId reg := forwarding_registerKey hnext socket key
  have hempty : reg.ops = [] := if_pos hself
  cases hobject : srv.objectToForward req dataSocket key with
  | none =>
    rw [readLocally_of_no_object hdata hobject] at hunsealed
    set st : ReadState := { reg with
      located := some (srv.findLocally req key).1
      failures := reg.failures ++ [(srv.findLocally req key).2] } with hst
    have hok : srv.performDegradedRead req (.start waiting lastId isReconstructed) =
        .ok (srv.forwardSealed req st false) := hunsealed
    have hforwarding : srv.Forwarding waiting lastId st := { hregister with }
    have hhanded : srv.Handed waiting st false := hforwarding.handed hfresh hnext fun _ => hempty
    rw [handsOver_iff_of_ok hok, hhanded.forwardSealed_iff]
    refine and_congr_left' (iff_of_true (fun e he => ?_) nofun)
    rw [hst, hempty] at he
    cases he
  | some o =>
    rw [readLocally_of_object hdata hobject] at hunsealed
    set st : ReadState := { reg with
      located := some (srv.findLocally req key).1
      ops := reg.ops ++ [(lastId + 1, req)] } with hst
    have hok : srv.performDegradedRead req (.start waiting lastId isReconstructed) = .ok
        (srv.forwardSealed req
          (req.redirections.foldl (srv.forwardKey req (lastId + 1) o) st) true) := hunsealed
    have hops : st.ops = [(lastId + 1, req)] := by
      rw [hst, hempty]
      rfl
    have hforwarding : srv.Forwarding waiting lastId st := by
      refine { hregister with ops := fun e he => ?_ }
      rw [hops] at he
      rw [List.mem_singleton.mp he]
    have hhanded : srv.Handed waiting
        (req.redirections.foldl (srv.forwardKey req (lastId + 1) o) st) true :=
      (hforwarding.foldl_forwardKey _).handed hfresh hnext nofun
    have hwaiting : st.waiting = reg.waiting := rfl
    have hother : ∀ k, srv.Listed st.waiting.keys k (lastId + 1) → k = key.ident := by
      rw [hwaiting]
      exact fun k hk => eq_of_listed_registerKey hfresh hidle hk
    have hlist : st.waiting.keys.lists.lookup key.ident =
        some [⟨srv.instanceId, lastId + 1, 0⟩] := by
      rw [hwaiting]
      exact lookup_registerKey hidle socket
    rw [handsOver_iff_of_ok hok, hhanded.forwardSealed_iff]
    refine and_congr_left' ?_
    rw [covered_foldl_forwardKey_iff hforwarding hops rfl hlist hother hfresh hidle]
    constructor
    · intro hforward o' ho'
      obtain rfl := Option.some.inj ho'
      exact hforward
    · intro hforward
      exact hforward o rfl

theorem handsOver_of_lost {socket : PeerSocket} (hself : socket.self = true)
    (hread : srv.performDegradedRead req (.start waiting lastId isReconstructed) =
      srv.readUnsealed req (.start waiting lastId isReconstructed) socket key)
    (hidle : waiting.KeyIdle key) (hdata : srv.surviving req req.chunkId = none) :
    srv.HandsOver req waiting lastId isReconstructed := by
  have hunsealed := hread.trans (readUnsealed_of_idle hidle.1 hidle.2)
  rw [hself, if_pos rfl, readLocally_of_none hdata] at hunsealed
  exact handsOver_of_error hunsealed

/-- What is left of a read from an unsealed chunk. -/
theorem handsOver_iff_of_unsealed (hfresh : srv.Fresh waiting (lastId + 1))
    (hnext : srv.Fresh waiting (lastId + 2)) {socket : PeerSocket}
    (hread : srv.performDegradedRead req (.start waiting lastId isReconstructed) =
      srv.readUnsealed req (.start waiting lastId isReconstructed) socket key) :
    srv.HandsOver req waiting lastId isReconstructed ↔
      srv.UnsealedReady req waiting socket key := by
  by_cases hidle : waiting.KeyIdle key
  · cases hself : socket.self with
    | false =>
      rw [handsOver_of_remote hfresh hnext hself hread hidle]
      constructor
      · intro hfetch
        exact ⟨fun _ => ⟨hidle, hfetch⟩, fun hown => absurd (hself.symm.trans hown) (by decide)⟩
      · intro hready
        exact (hready.remote hself).2
    | true =>
      cases hdata : srv.surviving req req.chunkId with
      | none =>
        refine iff_of_true (handsOver_of_lost hself hread hidle hdata) ⟨?_, ?_⟩
        · intro hremote
          exact absurd (hself.symm.trans hremote) (by decide)
        · intro _ _ dataSocket hsome
          cases hdata.symm.trans hsome
      | some dataSocket =>
        rw [handsOver_of_own hfresh hnext hself hread hidle hdata]
        constructor
        · intro hready
          refine ⟨fun hremote => absurd (hself.symm.trans hremote) (by decide), ?_⟩
          rintro - - dataSocket' hsome
          obtain rfl := Option.some.inj (hdata.symm.trans hsome)
          exact hready
        · intro hready
          exact hready.own hself hidle dataSocket hdata
  · rw [handsOver_of_busy hread hidle]
    constructor
    · intro hself
      refine ⟨fun hremote => absurd (hself.symm.trans hremote) (by decide), ?_⟩
      intro _ hidle'
      exact absurd hidle' hidle
    · intro hready
      by_contra hself
      exact hidle (hready.remote (Bool.eq_false_iff.mpr hself)).1

/-- A degraded read hands over every entry, and leaves none when it fails, if and only if no exit
that leaves an entry behind is taken. The ids of a read are new. -/
theorem handsOver_iff_readyToRead (waiting : DegradedWaiting) (lastId : ℕ) (isReconstructed : Bool)
    (hfresh : srv.Fresh waiting (lastId + 1)) (hnext : srv.Fresh waiting (lastId + 2)) :
    srv.HandsOver req waiting lastId isReconstructed ↔ srv.ReadyToRead req waiting := by
  cases hsealed : req.isSealed with
  | true =>
    have hunsealed : ∀ {p : Prop}, req.isSealed = false → p :=
      fun h => absurd (hsealed.symm.trans h) (by decide)
    by_cases hfew : sub32 (srv.dataChunkCount + srv.parityChunkCount) req.redirections.length <
        srv.dataChunkCount
    · have hread : srv.performDegradedRead req (.start waiting lastId isReconstructed) =
          .ok (false, .start waiting lastId isReconstructed) := by
        rw [ReadServer.performDegradedRead, if_pos hsealed, if_pos hfew]
      rw [handsOver_iff_of_ok hread]
      exact iff_of_true ⟨List.forall_mem_nil _, fun _ => ⟨rfl, rfl⟩⟩
        ⟨fun _ henough => absurd hfew henough, hunsealed⟩
    · rw [handsOver_iff_of_sealed hfresh hsealed hfew]
      exact ⟨fun h => ⟨fun _ _ => h, hunsealed⟩, fun h => h.sealedChunk hsealed hfew⟩
  | false =>
    have hnot : ∀ {p : Prop}, req.isSealed = true → p :=
      fun h => absurd (hsealed.symm.trans h) (by decide)
    rcases hsocket : srv.unsealedSocket req with - | - | socket
    · have hread : srv.performDegradedRead req (.start waiting lastId isReconstructed) =
          .ok (false, .start waiting lastId isReconstructed) := by
        rw [ReadServer.performDegradedRead, hsealed, if_neg Bool.false_ne_true, hsocket]
      rw [handsOver_iff_of_ok hread]
      refine iff_of_true ⟨List.forall_mem_nil _, fun _ => ⟨rfl, rfl⟩⟩
        ⟨hnot, fun _ _ _ hsome => ?_⟩
      cases hsocket.symm.trans hsome
    · have hread : srv.performDegradedRead req (.start waiting lastId isReconstructed) =
          .error .nullSocket := by
        rw [ReadServer.performDegradedRead, hsealed, if_neg Bool.false_ne_true, hsocket]
      refine iff_of_true (handsOver_of_error hread) ⟨hnot, fun _ _ _ hsome => ?_⟩
      cases hsocket.symm.trans hsome
    · cases hkey : req.op.key with
      | none =>
        have hread : srv.performDegradedRead req (.start waiting lastId isReconstructed) =
            .error .nullKey := by
          rw [ReadServer.performDegradedRead, hsealed, if_neg Bool.false_ne_true, hsocket, hkey]
        refine iff_of_true (handsOver_of_error hread) ⟨hnot, fun _ _ _ _ hsome => ?_⟩
        cases hkey.symm.trans hsome
      | some key =>
        have hread : srv.performDegradedRead req (.start waiting lastId isReconstructed) = _ :=
          performDegradedRead_of_unsealed hsealed hkey
        rw [hsocket] at hread
        rw [handsOver_iff_of_unsealed hfresh hnext hread]
        constructor
        · intro hready
          refine ⟨hnot, fun _ socket' key' hsome hkey' => ?_⟩
          obtain rfl := Option.some.inj (Option.some.inj (hsocket.symm.trans hsome))
          obtain rfl := Option.some.inj (hkey.symm.trans hkey')
          exact hready
        · intro hready
          exact hready.unsealedChunk hsealed socket key hsocket hkey

/-! ## A stripe that is reconstructed already -/

theorem fresh_empty (requestId : ℕ) : srv.Fresh .empty requestId where
  chunks _ h := nomatch h.choose_spec.1
  keys _ h := nomatch h.choose_spec.1

/-- A read from the lost chunk 0 when it is sealed. -/
def sealedRead : ReadRequest :=
  { readOf [125] 0 with isSealed := true, survivingChunkIds := [1, 2, 3] }

/-- The first read asks two other servers for their chunks. -/
theorem handsOver_firstRead : (serverOf 3).HandsOver sealedRead .empty 0 false := by
  refine (handsOver_iff_readyToRead .empty 0 false (fresh_empty 1) (fresh_empty 2)).mpr ⟨?_, nofun⟩
  intro _ _ _
  refine ⟨Finset.notMem_empty _, fun _ => ⟨by decide, ?_⟩⟩
  exact ⟨(1, ⟨1, false, true⟩), by decide, rfl⟩

/-- A read that comes when the stripe is reconstructed fails and leaves its entry behind. -/
theorem not_handsOver_finished :
    ¬ (serverOf 3).HandsOver sealedRead ⟨⟨∅, {stripeOf 0 0}⟩, .empty⟩ 0 false := by
  intro hover
  have hread : (serverOf 3).performDegradedRead sealedRead
      (.start ⟨⟨∅, {stripeOf 0 0}⟩, .empty⟩ 0 false) = .ok (false, (serverOf 3).registerStripe
        sealedRead (.start ⟨⟨∅, {stripeOf 0 0}⟩, .empty⟩ 0 false) true) := by
    rw [performDegradedRead_of_sealed rfl (by decide),
      readSealed_of_finished rfl rfl (Finset.mem_singleton_self _)]
  exact List.cons_ne_nil _ _ (hover.clean _ hread).1

end MemEC.Server
