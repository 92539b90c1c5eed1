import MemEC.Common.ChunkPool
import MemEC.Lib.Run
import Mathlib.Data.List.MinMax

/-!
# The key map of the coordinator

For every server the coordinator keeps a map from keys to the last operation
that was reported. A report carries the timestamp that the server gave to the
operation, and reports may arrive in any order. A deletion of a key without an
entry leaves a tombstone, which `findMetadataByKey` does not tell from a live
entry.
-/

namespace MemEC.Common

/-- The opcodes of key operations. -/
inductive Opcode
  | set
  | degradedSet
  | delete
  | remappingLock
  | other
deriving DecidableEq

def Opcode.isSet : Opcode → Bool
  | .set | .degradedSet => true
  | _ => false

/-- `OpMetadata`. -/
structure OpMetadata extends Metadata where
  opcode : Opcode
  timestamp : ℕ
deriving DecidableEq

end MemEC.Common

namespace MemEC.Coordinator

open MemEC.Lib MemEC.Common

/-- The key map of a server, with the keys that are locked for a remapping, and the maximum stripe
ids of all stripe lists. -/
structure Map where
  keys : KeyMap OpMetadata
  lockedKeys : KeyMap Unit
  stripes : ℕ → ℕ

namespace Map

def empty : Map := ⟨∅, ∅, fun _ => 0⟩

/-- `updateMaxStripeId`. -/
def updateMaxStripeId (m : Map) (listId stripeId : ℕ) : Map :=
  if m.stripes listId < stripeId then
    { m with stripes := Function.update m.stripes listId stripeId }
  else m

/-- The entry of a key that has none; its lock is released. -/
def insertEntry (m : Map) (key : Key) (op : OpMetadata) : Map × Bool :=
  let (keys, inserted) := m.keys.insertNew key op
  ({ m with keys, lockedKeys := m.lockedKeys.eraseKey key }, inserted)

/-- The entry of a key that has one, for SET and DEGRADED_SET. -/
def replaceEntry (m : Map) (key : Key) (entry op : OpMetadata) : Map × Bool :=
  if op.timestamp < entry.timestamp then
    if entry.opcode.isSet then ({ m with keys := m.keys.assign key op }, true)
    else if entry.opcode = .delete then ({ m with keys := m.keys.eraseKey key }, true)
    else (m, false)
  else ({ m with keys := m.keys.assign key op }, true)

/-- The `switch` of `insertKey`. -/
def applyOp (m : Map) (key : Key) (op : OpMetadata) : Map × Bool :=
  match op.opcode, m.keys.find key with
  | .set, some entry | .degradedSet, some entry => m.replaceEntry key entry op
  | .delete, some _ => ({ m with keys := m.keys.eraseKey key }, true)
  | .set, none | .degradedSet, none | .delete, none => m.insertEntry key op
  | .remappingLock, none =>
    let (lockedKeys, inserted) := m.lockedKeys.insertNew key ()
    ({ m with lockedKeys }, inserted)
  | .remappingLock, some _ | .other, _ => (m, false)

/-- `insertKey`. -/
def insertKey (m : Map) (key : Key) (op : OpMetadata) : Map × Bool :=
  let (m, ret) := m.applyOp key op
  (m.updateMaxStripeId op.listId op.stripeId, ret)

/-- `findMetadataByKey`. -/
def findMetadataByKey (m : Map) (key : Key) : Option Metadata :=
  (m.keys.find key).map OpMetadata.toMetadata

/-- What a record makes of the entry of its key. -/
def mergeEntry (entry : Option OpMetadata) (op : OpMetadata) : Option OpMetadata :=
  match op.opcode, entry with
  | .set, some e | .degradedSet, some e =>
    if op.timestamp < e.timestamp then
      if e.opcode.isSet then some op else if e.opcode = .delete then none else some e
    else some op
  | .delete, some _ => none
  | .set, none | .degradedSet, none | .delete, none => some op
  | .remappingLock, e | .other, e => e

theorem keys_updateMaxStripeId (m : Map) (listId stripeId : ℕ) :
    (m.updateMaxStripeId listId stripeId).keys = m.keys := by
  unfold updateMaxStripeId
  split_ifs <;> rfl

theorem find_insertEntry {m : Map} {key : Key} (h : m.keys.find key = none) (op : OpMetadata)
    (k : Key) : (m.insertEntry key op).1.keys.find k =
      if k.ident = key.ident then some op else m.keys.find k := by
  simp only [insertEntry, KeyMap.insertNew_of_none h, KeyMap.find_assign]

theorem find_eq_ite {m : Map} {key : Key} {v : Option OpMetadata} (h : m.keys.find key = v)
    (k : Key) : m.keys.find k = if k.ident = key.ident then v else m.keys.find k := by
  split_ifs with hk
  · rw [← h]
    exact m.keys.find_congr hk
  · rfl

theorem find_replaceEntry {m : Map} {key : Key} {entry : OpMetadata}
    (h : m.keys.find key = some entry) (op : OpMetadata) (k : Key) :
    (m.replaceEntry key entry op).1.keys.find k = if k.ident = key.ident then
      (if op.timestamp < entry.timestamp then
        if entry.opcode.isSet then some op else if entry.opcode = .delete then none else some entry
      else some op) else m.keys.find k := by
  unfold replaceEntry
  by_cases hlt : op.timestamp < entry.timestamp
  · by_cases hset : entry.opcode.isSet = true
    · simp only [if_pos hlt, if_pos hset, KeyMap.find_assign]
    · by_cases hdel : entry.opcode = .delete
      · simp only [if_pos hlt, if_neg hset, if_pos hdel, KeyMap.find_eraseKey]
      · simp only [if_pos hlt, if_neg hset, if_neg hdel]
        exact find_eq_ite h k
  · simp only [if_neg hlt, KeyMap.find_assign]

/-- A record changes the entry of its own key only. -/
theorem find_insertKey (m : Map) (key k : Key) (op : OpMetadata) :
    (m.insertKey key op).1.keys.find k =
      if k.ident = key.ident then mergeEntry (m.keys.find key) op else m.keys.find k := by
  simp only [insertKey, keys_updateMaxStripeId]
  unfold applyOp mergeEntry
  cases op.opcode <;> cases hfind : m.keys.find key
  case set.none | degradedSet.none | delete.none => exact find_insertEntry hfind op k
  case set.some | degradedSet.some => exact find_replaceEntry hfind op k
  case delete.some => exact KeyMap.find_eraseKey ..
  case remappingLock.none | remappingLock.some | other.none | other.some =>
    exact find_eq_ite hfind k

end Map

/-! ## Records in any order -/

/-- A record of a key operation, as a heartbeat or a client's backup reports it. -/
structure Record where
  key : Key
  op : OpMetadata
deriving DecidableEq

namespace Map

/-- The map after the records arrived one after the other. -/
def receive (rs : List Record) : Map := run (fun m r => (m.insertKey r.key r.op).1) empty rs

/-- The operation on `k` with the largest timestamp. -/
def newest (k : Key) (rs : List Record) : Option OpMetadata :=
  ((rs.filter fun r => r.key = k).map Record.op).argmax OpMetadata.timestamp

/-- `op` is the operation on `k` with the largest timestamp. -/
def IsNewest (k : Key) (rs : List Record) (op : OpMetadata) : Prop :=
  ⟨k, op⟩ ∈ rs ∧ ∀ r ∈ rs, r.key = k → r.op.timestamp ≤ op.timestamp

/-- A key is found if and only if its newest record is a SET, and then at the position of it. -/
def Merged (keys : Set Key) (rs : List Record) : Prop :=
  ∀ k ∈ keys, ∀ md, (receive rs).findMetadataByKey k = some md ↔
    ∃ op, IsNewest k rs op ∧ op.opcode.isSet = true ∧ op.toMetadata = md

/-- SET, DEGRADED_SET and DELETE records of the keys; those of one key have distinct
timestamps. -/
structure Reports (keys : Set Key) (rs : List Record) : Prop where
  mem : ∀ r ∈ rs, r.key ∈ keys
  opcode : ∀ r ∈ rs, r.op.opcode.isSet = true ∨ r.op.opcode = .delete
  distinct : rs.Pairwise fun r r' => r.key = r'.key → r.op.timestamp ≠ r'.op.timestamp

/-- A record that comes in time: it is newer than every record of its key, or a SET like the newest
one; and a DELETE finds a SET as the newest record. -/
def InOrder (before : List Record) (r : Record) : Prop :=
  (∀ op, IsNewest r.key before op → op.timestamp < r.op.timestamp ∨
    (op.opcode.isSet = true ∧ r.op.opcode.isSet = true ∧ op.toMetadata = r.op.toMetadata)) ∧
  (r.op.opcode = .delete → ∃ op, IsNewest r.key before op ∧ op.opcode.isSet = true)

variable {keys : Set Key} {rs : List Record} {r : Record} {k : Key}

theorem Reports.take (h : Reports keys rs) (n : ℕ) : Reports keys (rs.take n) where
  mem r hr := h.mem r (List.mem_of_mem_take hr)
  opcode r hr := h.opcode r (List.mem_of_mem_take hr)
  distinct := h.distinct.sublist (List.take_sublist n rs)

theorem receive_concat (rs : List Record) (r : Record) :
    receive (rs ++ [r]) = ((receive rs).insertKey r.key r.op).1 := run_concat rs r

/-- Two records of one key with the same timestamp are the same. -/
theorem Reports.op_eq (h : Reports keys rs) {a b : OpMetadata} (ha : ⟨k, a⟩ ∈ rs)
    (hb : ⟨k, b⟩ ∈ rs) (hab : a.timestamp = b.timestamp) : a = b := by
  by_contra hne
  have hne' : (⟨k, a⟩ : Record) ≠ ⟨k, b⟩ := fun he => hne (congrArg Record.op he)
  have hsymm : Std.Symm fun r r' : Record => r.key = r'.key → r.op.timestamp ≠ r'.op.timestamp :=
    ⟨fun _ _ hrr hk ht => hrr hk.symm ht.symm⟩
  exact h.distinct.forall ha hb hne' rfl hab

theorem newest_eq_some_iff (h : Reports keys rs) {op : OpMetadata} :
    newest k rs = some op ↔ IsNewest k rs op := by
  have hmem : ∀ a, a ∈ (rs.filter fun r => r.key = k).map Record.op ↔ ⟨k, a⟩ ∈ rs := by
    intro a
    simp only [List.mem_map, List.mem_filter, decide_eq_true_eq]
    constructor
    · rintro ⟨r, ⟨hr, rfl⟩, rfl⟩
      exact hr
    · intro ha
      exact ⟨_, ⟨ha, rfl⟩, rfl⟩
  unfold newest
  rw [List.argmax_eq_some_iff]
  simp only [hmem]
  constructor
  · rintro ⟨hop, hmax, -⟩
    refine ⟨hop, fun r hr hk => hmax r.op ?_⟩
    rwa [← hk]
  · rintro ⟨hop, hmax⟩
    refine ⟨hop, fun a ha => hmax ⟨k, a⟩ ha rfl, fun a ha hle => ?_⟩
    obtain rfl := h.op_eq hop ha (le_antisymm hle (hmax ⟨k, a⟩ ha rfl))
    exact le_rfl

/-- The newest operation after another one. -/
def newer (n : Option OpMetadata) (op : OpMetadata) : OpMetadata :=
  match n with
  | none => op
  | some o => if o.timestamp < op.timestamp then op else o

theorem newest_concat (rs : List Record) (r : Record) (k : Key) :
    newest k (rs ++ [r]) = if r.key = k then some (newer (newest k rs) r.op) else newest k rs := by
  unfold newest
  rw [List.filter_append, List.map_append]
  by_cases hk : r.key = k
  · have hone : ([r].filter fun r => r.key = k).map Record.op = [r.op] := by simp [hk]
    rw [hone, List.argmax_concat, if_pos hk]
    cases ((rs.filter fun r => r.key = k).map Record.op).argmax OpMetadata.timestamp with
    | none => rfl
    | some o =>
      dsimp only [newer]
      split_ifs <;> rfl
  · have hnone : ([r].filter fun r => r.key = k).map Record.op = [] := by simp [hk]
    rw [hnone, List.append_nil, if_neg hk]

/-- The position that the newest operation gives to its key. -/
def position (n : Option OpMetadata) : Option Metadata :=
  n.bind fun op => if op.opcode.isSet then some op.toMetadata else none

theorem merged_iff (h : Reports keys rs) : Merged keys rs ↔
    ∀ k ∈ keys, (receive rs).findMetadataByKey k = position (newest k rs) := by
  refine forall₂_congr fun k _ => ?_
  have hposition : ∀ md, position (newest k rs) = some md ↔
      ∃ op, IsNewest k rs op ∧ op.opcode.isSet = true ∧ op.toMetadata = md := by
    intro md
    simp only [position, Option.bind_eq_some_iff, newest_eq_some_iff h]
    refine exists_congr fun op => and_congr_right fun _ => ?_
    split_ifs with hset
    · simp [hset]
    · simp [hset]
  simp only [← hposition]
  exact ⟨fun hfind => Option.ext hfind, fun hfind md => by rw [hfind]⟩

/-- The entry of a key as it has to be for its newest operation: an entry of a SET at the same
position, or none. -/
def Fits (entry n : Option OpMetadata) : Prop :=
  (∀ e, entry = some e → e.opcode.isSet = true) ∧ entry.map OpMetadata.toMetadata = position n

/-- `InOrder`, in terms of the newest operation. -/
def Ordered (n : Option OpMetadata) (op : OpMetadata) : Prop :=
  (∀ o, n = some o → o.timestamp < op.timestamp ∨
    (o.opcode.isSet = true ∧ op.opcode.isSet = true ∧ o.toMetadata = op.toMetadata)) ∧
  (op.opcode = .delete → ∃ o, n = some o ∧ o.opcode.isSet = true)

theorem inOrder_iff (h : Reports keys rs) : InOrder rs r ↔ Ordered (newest r.key rs) r.op := by
  simp only [InOrder, Ordered, newest_eq_some_iff h]

/-- What fits no operation, or one that is not a SET, is no entry. -/
theorem Fits.eq_none {entry n : Option OpMetadata} (h : Fits entry n) (hn : position n = none) :
    entry = none := by
  have hmap := h.2
  rwa [hn, Option.map_eq_none_iff] at hmap

/-- What fits a SET is an entry of a SET. -/
theorem Fits.eq_some {entry : Option OpMetadata} {o : OpMetadata} (h : Fits entry (some o))
    (ho : o.opcode.isSet = true) : ∃ e, entry = some e ∧ e.opcode.isSet = true := by
  have hmap := h.2
  rw [position, Option.bind_some, if_pos ho, Option.map_eq_some_iff] at hmap
  obtain ⟨e, he, -⟩ := hmap
  exact ⟨e, he, h.1 e he⟩

theorem fits_some {op o : OpMetadata} (hop : op.opcode.isSet = true)
    (ho : o.opcode.isSet = true) (heq : o.toMetadata = op.toMetadata) :
    Fits (some op) (some o) := by
  constructor
  · intro e he
    obtain rfl := Option.some.inj he
    exact hop
  · rw [position, Option.bind_some, if_pos ho, heq]
    rfl

theorem position_of_not_set {o : OpMetadata} (ho : ¬o.opcode.isSet = true) :
    position (some o) = none := by
  rw [position, Option.bind_some, if_neg ho]

theorem position_of_set {o : OpMetadata} (ho : o.opcode.isSet = true) :
    position (some o) = some o.toMetadata := by
  rw [position, Option.bind_some, if_pos ho]

/-- A SET takes the place of an entry of a SET. -/
theorem mergeEntry_set {entry : Option OpMetadata} {op : OpMetadata}
    (hop : op.opcode.isSet = true) (he : ∀ e, entry = some e → e.opcode.isSet = true) :
    mergeEntry entry op = some op := by
  have hsome : ∀ e, entry = some e → (if op.timestamp < e.timestamp then
      if e.opcode.isSet then some op else if e.opcode = .delete then none else some e
      else some op) = some op := by
    intro e he'
    rw [if_pos (he e he'), ite_self]
  unfold mergeEntry
  cases hopcode : op.opcode with
  | set | degradedSet =>
    cases entry with
    | none => rfl
    | some e => exact hsome e rfl
  | delete | remappingLock | other =>
    rw [hopcode] at hop
    cases hop

theorem mergeEntry_delete {op : OpMetadata} (hop : op.opcode = .delete) (entry : Option OpMetadata) :
    mergeEntry entry op = if entry = none then some op else none := by
  unfold mergeEntry
  rw [hop]
  cases entry <;> rfl

/-- A record that comes in order leaves an entry that fits. -/
theorem Ordered.fits {entry n : Option OpMetadata} {op : OpMetadata} (hord : Ordered n op)
    (h : Fits entry n) (hop : op.opcode.isSet = true ∨ op.opcode = .delete) :
    Fits (mergeEntry entry op) (some (newer n op)) := by
  rcases hop with hset | hdel
  · rw [mergeEntry_set hset h.1]
    cases n with
    | none => exact fits_some hset hset rfl
    | some o =>
      dsimp only [newer]
      split_ifs with hlt
      · exact fits_some hset hset rfl
      · obtain ⟨ho, -, heq⟩ := (hord.1 o rfl).resolve_left hlt
        exact fits_some hset ho heq
  · obtain ⟨o, rfl, ho⟩ := hord.2 hdel
    obtain ⟨e, rfl, -⟩ := h.eq_some ho
    have hnot : ¬op.opcode.isSet = true := by
      rw [hdel]
      exact Bool.false_ne_true
    have hlt := (hord.1 o rfl).resolve_right fun hr => hnot hr.2.1
    rw [mergeEntry_delete hdel, if_neg (Option.some_ne_none e)]
    dsimp only [newer]
    rw [if_pos hlt]
    constructor
    · intro e' he'
      cases he'
    · rw [position_of_not_set hnot]
      rfl

/-- A record after which the entry gives the right position came in order. -/
theorem Fits.ordered {entry n : Option OpMetadata} {op : OpMetadata} (h : Fits entry n)
    (hop : op.opcode.isSet = true ∨ op.opcode = .delete)
    (hne : ∀ o, n = some o → o.timestamp ≠ op.timestamp)
    (hfind : (mergeEntry entry op).map OpMetadata.toMetadata = position (some (newer n op))) :
    Ordered n op := by
  rcases hop with hset | hdel
  · rw [mergeEntry_set hset h.1] at hfind
    constructor
    · rintro o rfl
      by_cases hlt : o.timestamp < op.timestamp
      · exact Or.inl hlt
      · dsimp only [newer] at hfind
        rw [if_neg hlt] at hfind
        by_cases ho : o.opcode.isSet = true
        · rw [position_of_set ho] at hfind
          exact Or.inr ⟨ho, hset, (Option.some.inj hfind).symm⟩
        · rw [position_of_not_set ho] at hfind
          cases hfind
    · intro hdel
      rw [hdel] at hset
      cases hset
  · -- A tombstone is found, and neither the old nor the new record is a SET.
    have hnot : ¬op.opcode.isSet = true := by
      rw [hdel]
      exact Bool.false_ne_true
    rw [mergeEntry_delete hdel] at hfind
    have hnew : ∀ o, n = some o → ¬o.opcode.isSet = true → False := by
      rintro o rfl ho
      rw [if_pos (h.eq_none (position_of_not_set ho))] at hfind
      dsimp only [newer] at hfind
      split_ifs at hfind
      · rw [position_of_not_set hnot] at hfind
        cases hfind
      · rw [position_of_not_set ho] at hfind
        cases hfind
    cases n with
    | none =>
      rw [if_pos (h.eq_none rfl)] at hfind
      dsimp only [newer] at hfind
      rw [position_of_not_set hnot] at hfind
      cases hfind
    | some o =>
      have ho : o.opcode.isSet = true := by
        by_contra hn
        exact hnew o rfl hn
      obtain ⟨e, rfl, -⟩ := h.eq_some ho
      rw [if_neg (Option.some_ne_none e)] at hfind
      constructor
      · rintro _ ⟨⟩
        left
        by_contra hlt
        dsimp only [newer] at hfind
        rw [if_neg hlt, position_of_set ho] at hfind
        cases hfind
      · exact fun _ => ⟨o, rfl, ho⟩

/-- Every entry fits the newest operation on its key. -/
def Consistent (keys : Set Key) (rs : List Record) : Prop :=
  ∀ k ∈ keys, Fits ((receive rs).keys.find k) (newest k rs)

theorem consistent_nil (keys : Set Key) : Consistent keys [] := by
  intro k _
  constructor
  · intro e he
    cases he
  · rfl

theorem Consistent.merged (h : Consistent keys rs) (hrs : Reports keys rs) : Merged keys rs :=
  (merged_iff hrs).mpr fun k hk => (h k hk).2

/-- The entry of the key of a record after it, and the newest operation. -/
theorem find_receive_concat (hkeys : Set.InjOn Key.ident keys) (hr : r.key ∈ keys) (hk : k ∈ keys) :
    (receive (rs ++ [r])).keys.find k = if r.key = k then
      mergeEntry ((receive rs).keys.find k) r.op else (receive rs).keys.find k := by
  rw [receive_concat, find_insertKey]
  by_cases h : r.key = k
  · rw [if_pos h, h, if_pos rfl]
  · rw [if_neg h, if_neg fun hident => h (hkeys hr hk hident.symm)]

theorem Consistent.concat (hkeys : Set.InjOn Key.ident keys) (h : Consistent keys rs)
    (hrs : Reports keys (rs ++ [r])) (hord : Ordered (newest r.key rs) r.op) :
    Consistent keys (rs ++ [r]) := by
  have hr : r ∈ rs ++ [r] := List.mem_append_right rs (List.mem_singleton_self r)
  intro k hk
  rw [find_receive_concat hkeys (hrs.mem r hr) hk, newest_concat]
  split_ifs with hrk
  · rw [hrk] at hord
    exact hord.fits (h k hk) (hrs.opcode r hr)
  · exact h k hk

/-- A record after which the keys are still found rightly came in order. -/
theorem Consistent.ordered (hkeys : Set.InjOn Key.ident keys) (h : Consistent keys rs)
    (hrs : Reports keys (rs ++ [r])) (hm : Merged keys (rs ++ [r])) :
    Ordered (newest r.key rs) r.op := by
  have hr : r ∈ rs ++ [r] := List.mem_append_right rs (List.mem_singleton_self r)
  have hfind := (merged_iff hrs).mp hm r.key (hrs.mem r hr)
  rw [newest_concat, if_pos rfl, findMetadataByKey,
    find_receive_concat hkeys (hrs.mem r hr) (hrs.mem r hr), if_pos rfl] at hfind
  refine (h r.key (hrs.mem r hr)).ordered (hrs.opcode r hr) (fun o ho => ?_) hfind
  have hrs' : Reports keys rs := by
    have htake := hrs.take rs.length
    rwa [List.take_left] at htake
  have hmem := ((newest_eq_some_iff hrs').mp ho).1
  exact (List.pairwise_append.mp hrs.distinct).2.2 _ hmem r (List.mem_singleton_self r) rfl

/-- After every record the keys are found rightly, if and only if every record came in order. -/
theorem merged_iff_inOrder (keys : Set Key) (hkeys : Set.InjOn Key.ident keys) (rs : List Record)
    (hrs : Reports keys rs) : (∀ n, Merged keys (rs.take n)) ↔
      ∀ n r, rs[n]? = some r → InOrder (rs.take n) r := by
  have htake : ∀ n r, rs[n]? = some r → rs.take (n + 1) = rs.take n ++ [r] := by
    intro n r hr
    rw [List.take_add_one, hr]
    rfl
  constructor
  · intro h
    have hcons : ∀ n, Consistent keys (rs.take n) := by
      intro n
      induction n with
      | zero => exact consistent_nil keys
      | succ n ih =>
        cases hr : rs[n]? with
        | none =>
          rw [List.take_add_one, hr]
          simpa using ih
        | some r =>
          have hrs' := hrs.take (n + 1)
          have hm := h (n + 1)
          rw [htake n r hr] at hrs' hm ⊢
          exact ih.concat hkeys hrs' (ih.ordered hkeys hrs' hm)
    intro n r hr
    have hrs' := hrs.take (n + 1)
    have hm := h (n + 1)
    rw [htake n r hr] at hrs' hm
    exact (inOrder_iff (hrs.take n)).mpr ((hcons n).ordered hkeys hrs' hm)
  · intro h n
    refine Consistent.merged ?_ (hrs.take n)
    induction n with
    | zero => exact consistent_nil keys
    | succ n ih =>
      cases hr : rs[n]? with
      | none =>
        rw [List.take_add_one, hr]
        simpa using ih
      | some r =>
        have hrs' := hrs.take (n + 1)
        rw [htake n r hr] at hrs' ⊢
        exact ih.concat hkeys hrs' ((inOrder_iff (hrs.take n)).mp (h n r hr))

/-- A SET, DELETE or DEGRADED_SET of the key `a`. -/
def sampleRecord (opcode : Opcode) (stripeId timestamp : ℕ) : Record :=
  ⟨.plain [0x61], ⟨⟨0, stripeId, 0⟩, opcode, timestamp⟩⟩

/-- The older of two SETs arrives last. -/
def sampleLate : List Record := [sampleRecord .set 1 2, sampleRecord .set 0 1]

/-- It replaces the newer one. -/
theorem not_merged_of_late_set :
    ¬∀ (keys : Set Key) (rs : List Record), Set.InjOn Key.ident keys → Reports keys rs →
      Merged keys rs := by
  intro h
  have hrs : Reports {.plain [0x61]} sampleLate := by
    constructor
    · intro r hr
      simp only [sampleLate, List.mem_cons, List.not_mem_nil, or_false] at hr
      rcases hr with rfl | rfl <;> rfl
    · decide
    · decide
  have hm := (merged_iff hrs).mp (h _ _ (Set.injOn_singleton _ _) hrs) _ rfl
  revert hm
  decide +kernel

def sampleRecords : List Record :=
  [sampleRecord .set 0 1, sampleRecord .delete 0 2, sampleRecord .degradedSet 3 4]

theorem merged_iff_inOrder_sample : (∀ n, Merged {.plain [0x61]} (sampleRecords.take n)) ↔
    ∀ n r, sampleRecords[n]? = some r → InOrder (sampleRecords.take n) r := by
  refine merged_iff_inOrder _ (Set.injOn_singleton _ _) sampleRecords ?_
  constructor
  · intro r hr
    simp only [sampleRecords, List.mem_cons, List.not_mem_nil, or_false] at hr
    rcases hr with rfl | rfl | rfl <;> rfl
  · decide
  · decide

end Map

end MemEC.Coordinator
