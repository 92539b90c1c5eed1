import MemEC.Server.DegradedRead

/-!
# What a degraded read finds locally

An object of an unsealed chunk is looked for in the key map and then in the
parity chunk buffer. The degraded read looks for the plain form of the key of a
split and for the split form of a plain key, so that it finds nothing that a
`GET` request finds, except for a first split.
-/

namespace MemEC.Server

open MemEC.Lib MemEC.Common CuckooHash

variable {cfg : GlobalConfig} {shape : IndexShape} (srv : ReadServer cfg shape) (req : ReadRequest)

/-- What a `GET` request finds: one of a client in the key map, and one of another server in the
parity chunk buffer. -/
def ReadServer.normalLookup (listId : ℕ) (key : Key) : Option LocalObject :=
  match Map.lookup cfg srv.m srv.keys key.data with
  | some ptr => some (.stored ptr)
  | none => ((srv.buffered listId).find key).map .buffered

theorem ReadRequest.three_le_append (key : List UInt8) : 3 ≤ (key ++ req.behind).length := by
  rw [List.length_append, req.length_behind]
  exact Nat.le_add_left 3 _

/-- There is nothing to find for the key of a split, in either form. -/
structure ReadServer.NoSplit (listId : ℕ) (key : Key) : Prop where
  plain : Map.findObject cfg srv.m srv.keys (key.data.take key.size) = none
  lookup : Map.lookup cfg srv.m srv.keys key.data = none
  plain_buffered : (srv.buffered listId).find (.plain (key.data.take key.size)) = none
  buffered : (srv.buffered listId).find key = none

/-- There is nothing to find for a plain key but a first split, which is found as well with what
stands behind the key. -/
structure ReadServer.OnlyFirstSplit (key : Key) : Prop where
  plain : Map.findObject cfg srv.m srv.keys key.data = none
  split : ∀ h : 3 < key.data.length, Map.findLargeObject cfg srv.m srv.keys key.data h.le = none
  first : Map.findLargeObject cfg srv.m srv.keys (key.data ++ req.behind)
      (req.three_le_append key.data) =
    Map.findLargeObject cfg srv.m srv.keys (key.data ++ [0, 0, 0])
      (MemEC.Server.three_le_append key.data)
  buffered : Map.findLargeObject cfg srv.m srv.keys (key.data ++ req.behind)
      (req.three_le_append key.data) = none →
    (srv.buffered req.listId).find (splitKey (key.data ++ req.behind)
      (req.three_le_append key.data)) = none ∧ (srv.buffered req.listId).find key = none

/-- The key is one for which the wrong form makes no difference. -/
def ReadServer.SameInBothForms (key : Key) : Prop :=
  (key.isLarge = true → srv.NoSplit req.listId key) ∧
    (key.isLarge = false → srv.OnlyFirstSplit req key)

/-- The state in which the object of an unsealed chunk is read: the request waits for its key. -/
def ReadServer.registerKey (st : ReadState) (socket : PeerSocket) (key : Key) : ReadState :=
  { st with
    lastId := st.lastId + 1
    isReconstructed := false
    ops := if socket.self then st.ops else st.ops ++ [(st.lastId + 1, req)]
    waiting := (st.waiting.insertDegradedKey key srv.instanceId (st.lastId + 1)).1 }

/-! ## The two lookups -/

variable {srv req}

/-- An entry of the key map is found under keys of one form and size. -/
theorem form_eq_of_find {a b : Key} {ptr : ℕ} (ha : srv.keys.find cfg srv.m a = some ptr)
    (hb : srv.keys.find cfg srv.m b = some ptr) : a.size = b.size ∧ a.isLarge = b.isLarge := by
  have hequal : ∀ {k : Key}, srv.keys.find cfg srv.m k = some ptr →
      (KeyValue.key cfg srv.m ptr).size = k.size ∧
        (KeyValue.key cfg srv.m ptr).isLarge = k.isLarge := by
    intro k hk
    have heq := (find_eq_some hk).2
    rw [isEqual_index, Key.equal_iff] at heq
    exact ⟨heq.1, heq.2.1⟩
  exact ⟨(hequal ha).1.symm.trans (hequal hb).1, (hequal ha).2.symm.trans (hequal hb).2⟩

/-- An object of a parity chunk buffer is found under one key. -/
theorem ident_eq_of_find_buffered {listId : ℕ} {a b : Key} {keyValue : Memory}
    (ha : (srv.buffered listId).find a = some keyValue)
    (hb : (srv.buffered listId).find b = some keyValue) : a.ident = b.ident :=
  (srv.key_buffered listId a keyValue ha).symm.trans (srv.key_buffered listId b keyValue hb)

/-- Lookups of two keys that no object has both of agree when they find nothing. -/
theorem eq_iff_of_disjoint {α : Type} {a b : Option α} (h : ∀ x, a = some x → b ≠ some x) :
    a = b ↔ a = none ∧ b = none := by
  constructor
  · intro heq
    cases ha : a with
    | some x => exact absurd (heq.symm.trans ha) (h x ha)
    | none => exact ⟨rfl, heq.symm.trans ha⟩
  · rintro ⟨ha, hb⟩
    rw [ha, hb]

/-- The two lookups find the same when they find the same in the key map, and if nothing there, the
same in the parity chunk buffer. -/
theorem eq_iff_of_fallback {a b : Option ℕ} {x y : Option Memory} :
    (match a with
        | some ptr => some (LocalObject.stored ptr)
        | none => x.map .buffered) =
      (match b with
        | some ptr => some (LocalObject.stored ptr)
        | none => y.map .buffered) ↔
      a = b ∧ (a = none → x = y) := by
  cases a <;> cases b <;> cases x <;> cases y <;> simp

theorem findInMap_of_large {key : Key} (h : key.isLarge = true) :
    (srv.findInMap req key).1 = Map.findObject cfg srv.m srv.keys (key.data.take key.size) ∧
      ((srv.findInMap req key).1 = none →
        (srv.findInMap req key).2 = .plain (key.data.take key.size)) := by
  rw [ReadServer.findInMap, if_pos h]
  cases Map.findObject cfg srv.m srv.keys (key.data.take key.size) with
  | some ptr => exact ⟨rfl, fun hnone => nomatch hnone⟩
  | none => exact ⟨rfl, fun _ => rfl⟩

theorem findInMap_of_plain {key : Key} (h : key.isLarge = false) :
    (srv.findInMap req key).1 = Map.findLargeObject cfg srv.m srv.keys (key.data ++ req.behind)
        (req.three_le_append key.data) ∧
      ((srv.findInMap req key).1 = none → (srv.findInMap req key).2 =
        splitKey (key.data ++ req.behind) (req.three_le_append key.data)) := by
  rw [ReadServer.findInMap, h, if_neg Bool.false_ne_true]
  dsimp only
  cases Map.findLargeObject cfg srv.m srv.keys (key.data ++ req.behind)
    (req.three_le_append key.data) with
  | some ptr => exact ⟨rfl, fun hnone => nomatch hnone⟩
  | none => exact ⟨rfl, fun _ => rfl⟩

theorem findLocally_eq (key : Key) : (srv.findLocally req key).1 =
    match (srv.findInMap req key).1 with
    | some ptr => some (.stored ptr)
    | none => ((srv.buffered req.listId).find (srv.findInMap req key).2).map .buffered := by
  rw [ReadServer.findLocally]
  cases h : srv.findInMap req key with
  | mk found mykey => cases found <;> rfl

/-- What the lookup of a request finds. -/
theorem lookup_cases {data : List UInt8} {ptr : ℕ}
    (h : Map.lookup cfg srv.m srv.keys data = some ptr) :
    srv.keys.find cfg srv.m (.plain data) = some ptr ∨
      (∃ hlen : 3 < data.length, srv.keys.find cfg srv.m (splitKey data hlen.le) = some ptr) ∨
      srv.keys.find cfg srv.m (splitKey (data ++ [0, 0, 0]) (three_le_append data)) = some ptr := by
  rw [Map.lookup] at h
  split at h
  · next found hfound =>
    obtain rfl := Option.some.inj h
    exact Or.inl hfound
  · split at h
    · next found hfound =>
      obtain rfl := Option.some.inj h
      split_ifs at hfound with hlen
      exact Or.inr (Or.inl ⟨hlen, hfound⟩)
    · exact Or.inr (Or.inr h)

theorem findLocally_iff_of_large {key : Key} (h : key.isLarge = true) :
    (srv.findLocally req key).1 = srv.normalLookup req.listId key ↔ srv.NoSplit req.listId key := by
  have hsize : (Key.plain (key.data.take key.size)).size = key.size := by
    have hlen := key.length_data
    rw [Key.extent, h, if_pos rfl] at hlen
    simp only [Key.plain, List.length_take]
    omega
  have hdata : key.data.length = key.size + 3 := by
    rw [key.length_data, Key.extent, h, if_pos rfl]
  have hmap : (srv.findInMap req key).1 = _ := (findInMap_of_large h).1
  have hkey : (srv.findInMap req key).1 = none → _ := (findInMap_of_large h).2
  rw [findLocally_eq, ReadServer.normalLookup, eq_iff_of_fallback]
  -- the plain key differs in size or form from all keys that the lookup tries
  have hdisjoint : ∀ ptr, (srv.findInMap req key).1 = some ptr →
      Map.lookup cfg srv.m srv.keys key.data ≠ some ptr := by
    intro ptr hptr hlookup
    rw [hmap] at hptr
    have hplain : srv.keys.find cfg srv.m (.plain (key.data.take key.size)) = some ptr := hptr
    rcases lookup_cases hlookup with hfound | ⟨hlen, hfound⟩ | hfound
    · have hsizes := (form_eq_of_find hplain hfound).1
      rw [hsize] at hsizes
      simp only [Key.plain] at hsizes
      omega
    · exact absurd (form_eq_of_find hplain hfound).2 Bool.false_ne_true
    · exact absurd (form_eq_of_find hplain hfound).2 Bool.false_ne_true
  have hbuffered : ∀ keyValue,
      (srv.buffered req.listId).find (.plain (key.data.take key.size)) = some keyValue →
        (srv.buffered req.listId).find key ≠ some keyValue := by
    intro keyValue hplain hfound
    have hident := congrArg Key.Ident.isLarge (ident_eq_of_find_buffered hplain hfound)
    exact absurd (hident.trans h) Bool.false_ne_true
  constructor
  · rintro ⟨heq, hfallback⟩
    obtain ⟨hnone, hlookup⟩ := (eq_iff_of_disjoint hdisjoint).mp heq
    have hvalues := hfallback hnone
    rw [hkey hnone] at hvalues
    obtain ⟨hplain, hfull⟩ := (eq_iff_of_disjoint hbuffered).mp hvalues
    exact ⟨hmap.symm.trans hnone, hlookup, hplain, hfull⟩
  · intro hno
    have hnone := hmap.trans hno.plain
    refine ⟨hnone.trans hno.lookup.symm, fun _ => ?_⟩
    rw [hkey hnone, hno.plain_buffered, hno.buffered]

/-- Without a plain object and a split with these bytes, the lookup is for a first split. -/
theorem lookup_of_none {data : List UInt8} (hplain : Map.findObject cfg srv.m srv.keys data = none)
    (hsplit : ∀ h : 3 < data.length, Map.findLargeObject cfg srv.m srv.keys data h.le = none) :
    Map.lookup cfg srv.m srv.keys data =
      Map.findLargeObject cfg srv.m srv.keys (data ++ [0, 0, 0]) (three_le_append data) := by
  rw [Map.lookup, hplain]
  dsimp only
  split_ifs with hlen
  · rw [hsplit hlen]
  · rfl

theorem findLocally_iff_of_plain {key : Key} (h : key.isLarge = false) :
    (srv.findLocally req key).1 = srv.normalLookup req.listId key ↔ srv.OnlyFirstSplit req key := by
  have hmap : (srv.findInMap req key).1 = _ := (findInMap_of_plain h).1
  have hkey : (srv.findInMap req key).1 = none → _ := (findInMap_of_plain h).2
  rw [findLocally_eq, ReadServer.normalLookup, eq_iff_of_fallback]
  have hbehind := req.length_behind
  have hbuffered : ∀ keyValue,
      (srv.buffered req.listId).find (splitKey (key.data ++ req.behind)
        (req.three_le_append key.data)) = some keyValue →
          (srv.buffered req.listId).find key ≠ some keyValue := by
    intro keyValue hsplit hfound
    have hident := congrArg Key.Ident.isLarge (ident_eq_of_find_buffered hsplit hfound)
    exact absurd (hident.trans h).symm Bool.false_ne_true
  constructor
  · rintro ⟨heq, hfallback⟩
    rw [hmap] at heq
    have hplain : Map.findObject cfg srv.m srv.keys key.data = none := by
      by_contra hne
      obtain ⟨ptr, hptr⟩ := Option.ne_none_iff_exists'.mp hne
      have hlookup : Map.lookup cfg srv.m srv.keys key.data = some ptr := by
        rw [Map.lookup, hptr]
      exact absurd (form_eq_of_find (heq.trans hlookup) hptr).2.symm Bool.false_ne_true
    have hsplit : ∀ hlen : 3 < key.data.length,
        Map.findLargeObject cfg srv.m srv.keys key.data hlen.le = none := by
      intro hlen
      by_contra hne
      obtain ⟨ptr, hptr⟩ := Option.ne_none_iff_exists'.mp hne
      have hlookup : Map.lookup cfg srv.m srv.keys key.data = some ptr := by
        rw [Map.lookup, hplain]
        dsimp only
        rw [dif_pos hlen, hptr]
      have hsizes := (form_eq_of_find (heq.trans hlookup) hptr).1
      simp only [splitKey, List.length_append, hbehind] at hsizes
      omega
    refine ⟨hplain, hsplit, heq.trans (lookup_of_none hplain hsplit), fun hnone => ?_⟩
    have hvalues := hfallback (hmap.trans hnone)
    rw [hkey (hmap.trans hnone)] at hvalues
    exact (eq_iff_of_disjoint hbuffered).mp hvalues
  · intro honly
    rw [hmap, lookup_of_none honly.plain honly.split]
    refine ⟨honly.first, fun hnone => ?_⟩
    obtain ⟨hsplit, hfull⟩ := honly.buffered hnone
    rw [hkey (hmap.trans hnone), hsplit, hfull]

/-- The local lookup of a degraded read and the lookup of a `GET` request find the same object
exactly when the form of the key makes no difference. -/
theorem findLocally_eq_normalLookup_iff (key : Key) :
    (srv.findLocally req key).1 = srv.normalLookup req.listId key ↔
      srv.SameInBothForms req key := by
  cases h : key.isLarge with
  | true =>
    rw [findLocally_iff_of_large h, ReadServer.SameInBothForms, h]
    simp
  | false =>
    rw [findLocally_iff_of_plain h, ReadServer.SameInBothForms, h]
    simp

/-! ## The states of a read -/

variable {st : ReadState}

theorem foldl_eraseDegradedOp_located (instanceId : ℕ) (pids : List PendingOp) (st : ReadState) :
    (pids.foldl (ReadState.eraseDegradedOp instanceId) st).located = st.located := by
  induction pids generalizing st with
  | nil => rfl
  | cons pid pids ih => exact ih _

theorem forwardKey_located (requestId : ℕ) (o : LocalObject) (st : ReadState) (e : Redirection) :
    (srv.forwardKey req requestId o st e).located = st.located := by
  rw [ReadServer.forwardKey]
  split_ifs
  · rw [ReadServer.forwardKeyToSelf]
    split
    · exact foldl_eraseDegradedOp_located _ _ _
    · rfl
  · rfl

theorem foldl_forwardKey_located (requestId : ℕ) (o : LocalObject) (redirections : List Redirection)
    (st : ReadState) :
    (redirections.foldl (srv.forwardKey req requestId o) st).located = st.located := by
  induction redirections generalizing st with
  | nil => rfl
  | cons e redirections ih => exact (ih _).trans (forwardKey_located requestId o st e)

theorem forwardSealed_located (success : Bool) :
    (srv.forwardSealed req st success).2.located = st.located := by
  rw [ReadServer.forwardSealed]
  split_ifs
  · rfl
  · split
    · rfl
    · dsimp only
      split <;> rfl

theorem readLocally_of_none (h : srv.surviving req req.chunkId = none) (key : Key)
    (requestId : ℕ) : srv.readLocally req st key requestId = .error .nullSocket := by
  rw [ReadServer.readLocally]
  simp only [h]

theorem readLocally_of_some {socket : PeerSocket}
    (h : srv.surviving req req.chunkId = some socket) (key : Key) (requestId : ℕ) :
    ∃ success st', srv.readLocally req st key requestId = .ok (success, st') ∧
      st'.located = some (srv.findLocally req key).1 := by
  rw [ReadServer.readLocally]
  simp only [h]
  split
  · exact ⟨_, _, rfl, foldl_forwardKey_located _ _ _ _⟩
  · exact ⟨_, _, rfl, rfl⟩

theorem readUnsealed_of_idle {socket : PeerSocket} {key : Key}
    (hidle : st.waiting.keys.lists.lookup key.ident = none)
    (hunfinished : key.ident ∉ st.waiting.keys.finished) :
    srv.readUnsealed req st socket key =
      ((if socket.self then
          srv.readLocally req (srv.registerKey req st socket key) key (st.lastId + 1)
        else .ok (req.readFrom (srv.registerKey req st socket key) socket key (st.lastId + 1))) >>=
        fun r => .ok (srv.forwardSealed req r.2 r.1)) := by
  have hstart : (st.waiting.insertDegradedKey key srv.instanceId (st.lastId + 1)).2 = .start := by
    rw [DegradedWaiting.insertDegradedKey, Waiting.insert_of_idle hidle hunfinished]
  rw [ReadServer.readUnsealed]
  simp only [hstart, ReadServer.registerKey]
  split_ifs <;> rfl

theorem readUnsealed_of_busy {socket : PeerSocket} {key : Key}
    (hbusy : st.waiting.keys.lists.lookup key.ident ≠ none ∨
      key.ident ∈ st.waiting.keys.finished) :
    ∃ isReconstructed, srv.readUnsealed req st socket key =
      .ok (false, { srv.registerKey req st socket key with isReconstructed }) := by
  rw [ReadServer.readUnsealed]
  rcases Waiting.insert_cases st.waiting.keys key.ident [⟨srv.instanceId, st.lastId + 1, 0⟩] with
    ⟨_, _, heq⟩ | ⟨_, _, heq⟩ | ⟨hnone, hfin, _⟩
  · have hwait : (st.waiting.insertDegradedKey key srv.instanceId (st.lastId + 1)).2 = .wait := by
      rw [DegradedWaiting.insertDegradedKey, heq]
    simp only [hwait]
    exact ⟨false, rfl⟩
  · have hdone : (st.waiting.insertDegradedKey key srv.instanceId (st.lastId + 1)).2 =
        .finished := by
      rw [DegradedWaiting.insertDegradedKey, heq]
    simp only [hdone]
    exact ⟨true, rfl⟩
  · exact absurd hbusy (not_or.mpr ⟨not_not.mpr hnone, hfin⟩)

theorem performDegradedRead_of_unsealed {key : Key} (hsealed : req.isSealed = false)
    (hkey : req.op.key = some key) :
    srv.performDegradedRead req st =
      match srv.unsealedSocket req with
      | none => .ok (false, st)
      | some none => .error .nullSocket
      | some (some socket) => srv.readUnsealed req st socket key := by
  rw [ReadServer.performDegradedRead, hsealed, if_neg Bool.false_ne_true]
  cases srv.unsealedSocket req with
  | none => rfl
  | some socket =>
    cases socket with
    | none => rfl
    | some socket => simp only [hkey]

/-! ## Reads that serve a request like a `GET` request -/

variable (srv req)

/-- This server has the chunk, or all parity chunks seem to be lost, or one of the parity servers
survives that are tried from the request id on. -/
def ReadServer.FindsServer : Prop :=
  (∃ socket, srv.surviving req req.chunkId = some socket ∧ socket.self = true) ∨
    sub32 srv.parityChunkCount (srv.lostParity req) = 0 ∨
    ∃ i < srv.parityChunkCount, srv.surviving req (srv.dataChunkCount +
      u32 (req.parentRequestId + i) % srv.parityChunkCount) ≠ none

/-- The request is the first one for its key, and this server is the one to ask. -/
structure ReadServer.ServesLocally (waiting : DegradedWaiting) (key : Key) : Prop where
  self : ∃ socket, srv.unsealedSocket req = some (some socket) ∧ socket.self = true
  idle : waiting.keys.lists.lookup key.ident = none
  unfinished : key.ident ∉ waiting.keys.finished

/-- No null pointer is taken for a socket, and what is found locally is what a `GET` request
finds. -/
structure ReadServer.ReadsLikeGet (st : ReadState) (key : Key) : Prop where
  socket : srv.performDegradedRead req st ≠ .error .nullSocket
  found : ∀ success st', srv.performDegradedRead req st = .ok (success, st') →
    ∀ found, st'.located = some found → found = srv.normalLookup req.listId key

variable {srv req}

theorem unsealedSocket_ne_null_iff :
    srv.unsealedSocket req ≠ some none ↔ srv.FindsServer req := by
  have hparity : (if sub32 srv.parityChunkCount (srv.lostParity req) = 0 then none
      else some ((List.range srv.parityChunkCount).findSome? fun i => srv.surviving req
        (srv.dataChunkCount + u32 (req.parentRequestId + i) % srv.parityChunkCount))) ≠ some none ↔
      sub32 srv.parityChunkCount (srv.lostParity req) = 0 ∨
        ∃ i < srv.parityChunkCount, srv.surviving req (srv.dataChunkCount +
          u32 (req.parentRequestId + i) % srv.parityChunkCount) ≠ none := by
    split_ifs with hlost
    · simp [hlost]
    · simp [hlost, List.findSome?_eq_none_iff]
  rw [ReadServer.unsealedSocket, ReadServer.FindsServer]
  cases hchunk : srv.surviving req req.chunkId with
  | none => simpa using hparity
  | some socket =>
    cases hself : socket.self with
    | true => simp [hself]
    | false => simpa [hself] using hparity

/-- A read that has no local lookup is as a `GET` request. -/
theorem ReadServer.ReadsLikeGet.of_ok {key : Key} {success : Bool} {st' : ReadState}
    (h : srv.performDegradedRead req st = .ok (success, st')) (hlocated : st'.located = none) :
    srv.ReadsLikeGet req st key := by
  constructor
  · rw [h]
    nofun
  · intro success' st'' h' found hfound
    obtain ⟨-, rfl⟩ := Prod.mk.inj (Except.ok.inj (h.symm.trans h'))
    rw [hlocated] at hfound
    cases hfound

/-- A read that comes to the local lookup finds what the lookup finds, unless the server of the
chunk is lost. -/
theorem performDegradedRead_of_servesLocally {waiting : DegradedWaiting} {key : Key} (lastId : ℕ)
    (isReconstructed : Bool) (hsealed : req.isSealed = false) (hkey : req.op.key = some key)
    (hserves : srv.ServesLocally req waiting key) :
    (srv.surviving req req.chunkId = none →
      srv.performDegradedRead req (.start waiting lastId isReconstructed) = .error .nullSocket) ∧
    ∀ dataSocket, srv.surviving req req.chunkId = some dataSocket → ∃ success st',
      srv.performDegradedRead req (.start waiting lastId isReconstructed) = .ok (success, st') ∧
        st'.located = some (srv.findLocally req key).1 := by
  obtain ⟨⟨socket, hsocket, hself⟩, hlist, hfin⟩ := hserves
  have hread : srv.performDegradedRead req (.start waiting lastId isReconstructed) = _ :=
    performDegradedRead_of_unsealed hsealed hkey
  rw [hsocket] at hread
  have hunsealed := hread.trans (readUnsealed_of_idle hlist hfin)
  rw [hself, if_pos rfl] at hunsealed
  constructor
  · intro hchunk
    rw [readLocally_of_none hchunk] at hunsealed
    exact hunsealed
  · intro dataSocket hchunk
    obtain ⟨success, st', hlocally, hlocated⟩ : ∃ success st',
        srv.readLocally req (srv.registerKey req (.start waiting lastId isReconstructed) socket key)
          key ((ReadState.start waiting lastId isReconstructed).lastId + 1) = .ok (success, st') ∧
            st'.located = some (srv.findLocally req key).1 :=
      readLocally_of_some hchunk key _
    rw [hlocally] at hunsealed
    exact ⟨_, _, hunsealed, (forwardSealed_located success).trans hlocated⟩

/-- Any other read that finds a server to ask has no local lookup. -/
theorem performDegradedRead_of_not_servesLocally {waiting : DegradedWaiting} {key : Key}
    (lastId : ℕ) (isReconstructed : Bool) (hsealed : req.isSealed = false)
    (hkey : req.op.key = some key) (hfinds : srv.unsealedSocket req ≠ some none)
    (hserves : ¬ srv.ServesLocally req waiting key) :
    ∃ success st', srv.performDegradedRead req (.start waiting lastId isReconstructed) =
      .ok (success, st') ∧ st'.located = none := by
  have hread : srv.performDegradedRead req (.start waiting lastId isReconstructed) = _ :=
    performDegradedRead_of_unsealed hsealed hkey
  rcases hsocket : srv.unsealedSocket req with - | - | socket
  · rw [hsocket] at hread
    exact ⟨_, _, hread, rfl⟩
  · exact absurd hsocket hfinds
  · rw [hsocket] at hread
    by_cases hidle : waiting.keys.lists.lookup key.ident = none ∧
        key.ident ∉ waiting.keys.finished
    · have hunsealed := hread.trans (readUnsealed_of_idle hidle.1 hidle.2)
      have hself : ¬ socket.self = true :=
        fun hself => hserves ⟨⟨socket, hsocket, hself⟩, hidle.1, hidle.2⟩
      rw [if_neg hself] at hunsealed
      exact ⟨_, _, hunsealed, forwardSealed_located true⟩
    · have hbusy : (ReadState.start waiting lastId isReconstructed).waiting.keys.lists.lookup
            key.ident ≠ none ∨
          key.ident ∈ (ReadState.start waiting lastId isReconstructed).waiting.keys.finished :=
        (not_and_or.mp hidle).imp_right not_not.mp
      obtain ⟨isReconstructed', hwaits⟩ := readUnsealed_of_busy hbusy
      exact ⟨_, _, hread.trans hwaits, rfl⟩

/-- What is found locally decides. -/
theorem readsLikeGet_iff_of_located {key : Key} {success : Bool} {st' : ReadState}
    (h : srv.performDegradedRead req st = .ok (success, st'))
    (hlocated : st'.located = some (srv.findLocally req key).1) :
    srv.ReadsLikeGet req st key ↔ srv.SameInBothForms req key := by
  rw [← findLocally_eq_normalLookup_iff]
  constructor
  · intro hreads
    exact hreads.found _ _ h _ hlocated
  · intro heq
    refine ⟨by rw [h]; nofun, fun success' st'' h' found hfound => ?_⟩
    obtain ⟨-, rfl⟩ := Prod.mk.inj (Except.ok.inj (h.symm.trans h'))
    obtain rfl := Option.some.inj (hlocated.symm.trans hfound)
    exact heq

/-- A degraded read from an unsealed chunk uses no socket of a lost server and finds what a `GET`
request finds, if and only if it finds a server to ask, and when it looks locally, the server of the
chunk is not lost and the form of the key makes no difference. -/
theorem readsLikeGet_iff (waiting : DegradedWaiting) (lastId : ℕ) (isReconstructed : Bool)
    {key : Key} (hsealed : req.isSealed = false) (hkey : req.op.key = some key) :
    srv.ReadsLikeGet req (.start waiting lastId isReconstructed) key ↔
      srv.FindsServer req ∧ (srv.ServesLocally req waiting key →
        (srv.surviving req req.chunkId).isSome ∧ srv.SameInBothForms req key) := by
  by_cases hfinds : srv.FindsServer req
  · rw [and_iff_right hfinds]
    by_cases hserves : srv.ServesLocally req waiting key
    · obtain ⟨hlost, hkept⟩ := performDegradedRead_of_servesLocally lastId isReconstructed hsealed
        hkey hserves
      cases hchunk : srv.surviving req req.chunkId with
      | none =>
        refine iff_of_false (fun hreads => hreads.socket (hlost hchunk)) fun hcond => ?_
        exact Bool.false_ne_true (hcond hserves).1
      | some dataSocket =>
        obtain ⟨success, st', hread, hlocated⟩ := hkept dataSocket hchunk
        rw [readsLikeGet_iff_of_located hread hlocated]
        exact ⟨fun hsame _ => ⟨rfl, hsame⟩, fun hcond => (hcond hserves).2⟩
    · obtain ⟨success, st', hread, hlocated⟩ := performDegradedRead_of_not_servesLocally lastId
        isReconstructed hsealed hkey (unsealedSocket_ne_null_iff.mpr hfinds) hserves
      exact iff_of_true (.of_ok hread hlocated) fun h => absurd h hserves
  · have hnull : srv.unsealedSocket req = some none :=
      not_not.mp (mt unsealedSocket_ne_null_iff.mp hfinds)
    have hread : srv.performDegradedRead req (.start waiting lastId isReconstructed) = _ :=
      performDegradedRead_of_unsealed hsealed hkey
    rw [hnull] at hread
    exact iff_of_false (fun hreads => hreads.socket hread) fun hcond => hfinds hcond.1

/-! ## A data server and a parity server -/

/-- An object of a chunk that is not sealed yet. -/
def unsealedObject : Object .smallest := .plain [123] [118] (by decide) (by decide)

def unsealedMemory : Memory := .place 32 unsealedObject.bytes

/-- The key map with the object. -/
def unsealedKeys : CuckooHash IndexShape.default.toTableShape :=
  (((CuckooHash.init IndexShape.default.toTableShape).insert .smallest unsealedMemory (fun _ => 0)
    (.plain [123]) 32).map Prod.fst).getD (.init _)

/-- The server of chunk `own` of a list with two data and two parity chunks. -/
def serverOf (own : ℕ) : ReadServer .smallest .default where
  instanceId := 1
  dataChunkCount := 2
  parityChunkCount := 2
  sockets _ i := ⟨i, i = own, true⟩
  ownChunkId _ := own
  m := unsealedMemory
  keys := unsealedKeys
  buffered _ := ∅
  dmap := .empty
  eq_ownChunkId _ _ h := of_decide_eq_true h
  key_buffered _ _ _ h := nomatch h

/-- A read of the object when chunk `lost` is lost, which is redirected to the server of chunk 3. -/
def readOf (key : List UInt8) (lost : ℕ) : ReadRequest where
  op := .get (.plain key)
  parentInstanceId := 9
  parentRequestId := 0
  listId := 0
  stripeId := 0
  chunkId := 0
  isSealed := false
  redirections := [⟨(0, lost), (0, 3)⟩]
  ongoingAtChunk := 3
  survivingChunkIds := []
  behind := [0, 0, 0]
  length_behind := rfl

theorem servesLocally_sample {own lost : ℕ} {key : List UInt8}
    (h : ((serverOf own).unsealedSocket (readOf key lost)).join.any PeerSocket.self = true) :
    (serverOf own).ServesLocally (readOf key lost) .empty (.plain key) where
  self := by
    obtain ⟨socket, hsocket, hself⟩ := (Option.any_eq_true _ _).mp h
    exact ⟨socket, Option.join_eq_some_iff.mp hsocket, hself⟩
  idle := rfl
  unfinished := Finset.notMem_empty _

theorem readsLikeGet_iff_sample :
    (serverOf 0).ReadsLikeGet (readOf [123] 2) (.start .empty 0 false) (.plain [123]) ↔
      (serverOf 0).FindsServer (readOf [123] 2) ∧
        ((serverOf 0).ServesLocally (readOf [123] 2) .empty (.plain [123]) →
          ((serverOf 0).surviving (readOf [123] 2) 0).isSome ∧
            (serverOf 0).SameInBothForms (readOf [123] 2) (.plain [123])) :=
  readsLikeGet_iff .empty 0 false rfl rfl

/-- The server of the data chunk does not find its own object. -/
theorem not_readsLikeGet_dataServer :
    (serverOf 0).normalLookup 0 (.plain [123]) = some (.stored 32) ∧
      ¬ (serverOf 0).ReadsLikeGet (readOf [123] 2) (.start .empty 0 false) (.plain [123]) := by
  have hfound : Map.findObject .smallest (serverOf 0).m (serverOf 0).keys [123] = some 32 := by
    decide +kernel
  have hlookup : Map.lookup .smallest (serverOf 0).m (serverOf 0).keys [123] = some 32 := by
    decide +kernel
  constructor
  · rw [ReadServer.normalLookup]
    have hdata : (Key.plain [123]).data = [123] := rfl
    rw [hdata, hlookup]
  · intro hreads
    have hserves : (serverOf 0).ServesLocally (readOf [123] 2) .empty (.plain [123]) :=
      servesLocally_sample (by decide)
    obtain ⟨success, st', hread, hlocated⟩ :=
      (performDegradedRead_of_servesLocally 0 false rfl rfl hserves).2 ⟨0, true, true⟩ rfl
    have hplain := (((readsLikeGet_iff_of_located hread hlocated).mp hreads).2 rfl).plain
    cases hfound.symm.trans hplain

/-- A parity server that is asked for an object of a lost data server follows a null pointer. -/
theorem nullSocket_parityServer :
    (serverOf 2).performDegradedRead (readOf [124] 0) (.start .empty 0 false) =
      .error .nullSocket := by
  have hserves : (serverOf 2).ServesLocally (readOf [124] 0) .empty (.plain [124]) :=
    servesLocally_sample (by decide)
  exact (performDegradedRead_of_servesLocally 0 false rfl rfl hserves).1 rfl

end MemEC.Server
