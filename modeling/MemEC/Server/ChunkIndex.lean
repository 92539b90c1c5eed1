import MemEC.Common.DeleteObject
import MemEC.Server.Map

/-!
# The index of a registered chunk

An object enters the key map with its own key when it is stored. `Map::setChunk`
walks over the headers of a chunk instead, and inserts every object with the
bytes of its key, without a split offset. Deleted objects are inserted with the
empty key.
-/

namespace MemEC.Server

open MemEC.Lib MemEC.Common Slots CuckooHash

variable {cfg : GlobalConfig} {shape : IndexShape} {rand : ℕ → ℕ}

/-- The data at `data` is that of a chunk with these objects. -/
structure HoldsAt (m : Memory) (data : ℕ) (objs : List (Object cfg)) : Prop where
  chunk : ChunkHolds (fun i => m (data + i)) objs
  visible : ∀ o ∈ objs, o.Visible

theorem placed_add (data off : ℕ) (objs : List (Object cfg)) :
    placed (data + off) objs = (placed off objs).map fun p => (data + p.1, p.2) := by
  induction objs generalizing off with
  | nil => rfl
  | cons o objs ih => rw [placed, placed, List.map_cons, Nat.add_assoc, ih]

namespace HoldsAt

variable {m : Memory} {data : ℕ} {objs : List (Object cfg)} {p : ℕ × Object cfg}

theorem holds (h : HoldsAt m data objs) (hp : p ∈ placed data objs) : m.Holds p.1 p.2.bytes := by
  have hview := h.chunk.holds
  have hlayout : m.Holds data (layout objs) := by
    apply Memory.holds_iff.mpr
    intro j hj
    have hbyte := Memory.holds_iff.mp hview j hj
    rwa [Nat.zero_add] at hbyte
  exact holds_placed hlayout hp

theorem visible_of_mem (h : HoldsAt m data objs) (hp : p ∈ placed data objs) : p.2.Visible :=
  h.visible p.2 (snd_mem_of_mem_placed hp)

/-- The loop of `setChunk` goes over the objects. -/
theorem chunkObjects_eq (h : HoldsAt m data objs) :
    Map.chunkObjects cfg m data = (placed data objs).map Prod.fst := by
  have hfold : ∀ (ps : List (ℕ × Object cfg)) (acc : List ℕ),
      ps.foldl (fun ptrs p => ptrs ++ [data + p.1]) acc = acc ++ ps.map fun p => data + p.1 := by
    intro ps
    induction ps with
    | nil => simp
    | cons p ps ih =>
      intro acc
      rw [List.foldl_cons, ih, List.map_cons, List.append_assoc, List.singleton_append]
  have hplaced := placed_add data 0 objs
  rw [Nat.add_zero] at hplaced
  rw [Map.chunkObjects, h.chunk.scan_eq _ h.visible, hfold, hplaced, List.map_map]
  rfl

theorem chunkKey_eq (h : HoldsAt m data objs) (hp : p ∈ placed data objs) :
    Map.chunkKey cfg m p.1 = .plain p.2.key := by
  have hholds := h.holds hp
  have hkey : m.read (p.1 + 4) p.2.key.length = p.2.key := by
    rw [Object.bytes, List.append_assoc, Memory.holds_append, Memory.holds_append,
      Object.length_header, Object.keyBytes, Memory.holds_append] at hholds
    exact hholds.2.1.1
  apply Key.ext
  · rfl
  · simp only [Map.chunkKey, Object.deserialize_eq (h.holds hp)]
    exact hkey

theorem key_eq (h : HoldsAt m data objs) (hp : p ∈ placed data objs) :
    KeyValue.key cfg m p.1 = p.2.mapKey := by
  simp only [KeyValue.key, Object.deserialize_eq (h.holds hp)]
  exact Object.ofMemory_eq (h.holds hp)

/-- The objects of a chunk are at different addresses. -/
theorem eq_of_fst_eq (h : HoldsAt m data objs) {q : ℕ × Object cfg} (hp : p ∈ placed data objs)
    (hq : q ∈ placed data objs) (heq : p.1 = q.1) : p = q := by
  have hnodup : ((placed data objs).map Prod.fst).Nodup := by
    apply List.pairwise_map.mpr
    refine (pairwise_placed data objs).imp_of_mem fun ha _ hle => ?_
    have hsize := (h.visible_of_mem ha).lt_size
    omega
  exact List.inj_on_of_nodup_map hnodup hp hq heq

theorem place (data : ℕ) (hfits : (layout objs).length ≤ cfg.chunkSize)
    (hv : ∀ o ∈ objs, o.Visible) : HoldsAt (Memory.place data (layout objs)) data objs := by
  have hview : (fun i => Memory.place data (layout objs) (data + i)) =
      Memory.place 0 (layout objs) := by
    funext i
    by_cases hi : i < (layout objs).length
    · have hzero := @Memory.place_apply 0 _ _ hi
      rw [Nat.zero_add] at hzero
      rw [Memory.place_apply hi, hzero]
    · rw [Memory.place_apply_out (Or.inr (by omega)), Memory.place_apply_out (Or.inr (by omega))]
  constructor
  · rw [hview]
    exact ChunkHolds.place hfits
  · exact hv

end HoldsAt

/-! ## Lookups -/

theorem Key.hashValue_plain (key : List UInt8) :
    (Key.plain key).hashValue = HashFunc.hash key := by
  rw [Key.hashValue, if_neg]
  · rfl
  · rintro ⟨hlarge, -⟩
    cases hlarge

theorem three_le_keyBytes {o : Object cfg} (h : o.isLarge = true) : 3 ≤ o.keyBytes.length := by
  rw [Object.length_keyBytes, h, if_pos rfl]
  exact Nat.le_add_left 3 _

/-- A split offset of zero is not hashed. -/
theorem hashValue_mapKey {o : Object cfg} (h : o.isLarge = true → o.splitOffset = 0) :
    o.mapKey.hashValue = HashFunc.hash o.key := by
  unfold Object.mapKey
  split_ifs with hlarge
  · rw [h hlarge, Key.hashValue, if_pos]
    · simp [Key.split]
    · refine ⟨rfl, ?_⟩
      simp only [Key.split, List.drop_left]
      decide
  · exact Key.hashValue_plain o.key

/-- The hash is all that an insertion takes from the key. -/
theorem insert_congr (m : Memory) (rand : ℕ → ℕ) (keys : CuckooHash shape.toTableShape)
    {key key' : Key} (h : key.hashValue = key'.hashValue) (ptr : ℕ) :
    keys.insert cfg m rand key ptr = keys.insert cfg m rand key' ptr := by
  unfold CuckooHash.insert
  rw [h]

namespace Map

/-- The lookup that is for the object: `findLargeObject` for a split, `findObject` for another. -/
def findOf (cfg : GlobalConfig) (m : Memory) (keys : CuckooHash shape.toTableShape)
    (o : Object cfg) : Option ℕ :=
  if h : o.isLarge = true then findLargeObject cfg m keys o.keyBytes (three_le_keyBytes h)
  else findObject cfg m keys o.key

theorem findOf_eq (m : Memory) (keys : CuckooHash shape.toTableShape) (o : Object cfg) :
    findOf cfg m keys o = keys.find cfg m o.mapKey := by
  unfold findOf
  split_ifs with h
  · have hkey : splitKey o.keyBytes (three_le_keyBytes h) = o.mapKey :=
      Key.ext (by rw [Object.mapKey_isLarge, h]; rfl) (Object.mapKey_data o).symm
    rw [findLargeObject, hkey]
  · rw [findObject, Object.mapKey, if_neg h]

/-- The first bucket in which `setChunk` looks for room for an object. -/
def chunkBucket (shape : IndexShape) (o : Object cfg) : ℕ := shape.bucket₁ (HashFunc.hash o.key)

end Map

/-! ## The objects of a chunk in the map -/

namespace KeyMapState

open Map

/-- Deleted objects have the two buckets of the empty key for themselves. -/
structure Apart (s : KeyMapState shape) (ps : List (ℕ × Object cfg)) : Prop where
  live : ∀ p ∈ ps, p.2.Live → ¬shape.Homes (HashFunc.hash []) (chunkBucket shape p.2)
  deleted : ∀ p ∈ ps, ¬p.2.Live → relocationHash cfg shape.toTableShape s.m p.1 = HashFunc.hash []
  entries : ∀ a, shape.Homes (HashFunc.hash []) a.1 → s.keys.buckets a ≠ 0 →
    relocationHash cfg shape.toTableShape s.m (s.keys.buckets a) = HashFunc.hash []

/-- The live ones of these objects have room in their first buckets. -/
structure Space (s : KeyMapState shape) (ps : List (ℕ × Object cfg)) : Prop where
  ptr_ne : ∀ p ∈ ps, p.1 ≠ 0
  free : ∀ i, s.keys.buckets.used i +
    ps.countP (fun p => p.2.Live ∧ chunkBucket shape p.2 = i) ≤ 4
  apart : (∃ p ∈ ps, ¬p.2.Live) → s.Apart ps

/-- What is added for these objects: live ones go to their first buckets. -/
def Registered (shape : IndexShape) (ps : List (ℕ × Object cfg)) (ptr i : ℕ) : Prop :=
  ∃ p ∈ ps, p.1 = ptr ∧ (p.2.Live → i = chunkBucket shape p.2)

/-- A live object goes to its first bucket. -/
theorem Space.setChunkStep_live {s : KeyMapState shape} {p : ℕ × Object cfg}
    {ps : List (ℕ × Object cfg)} (h : s.Space (p :: ps)) (hlive : p.2.Live)
    (hkey : chunkKey cfg s.m p.1 = .plain p.2.key) (rand : ℕ → ℕ) :
    ∃ s' j, setChunkStep cfg rand s p.1 = some s' ∧
      s'.m = s.m ∧ s.keys.buckets (chunkBucket shape p.2, j) = 0 ∧
      s'.keys.buckets = s.keys.buckets.put (chunkBucket shape p.2, j) p.1 ∧ s'.Space ps := by
  have hcount : ∀ i, (p :: ps).countP (fun p => decide (p.2.Live ∧ chunkBucket shape p.2 = i)) =
      ps.countP (fun p => decide (p.2.Live ∧ chunkBucket shape p.2 = i)) +
        if i = chunkBucket shape p.2 then 1 else 0 := by
    intro i
    rw [List.countP_cons]
    congr 1
    simp only [hlive, true_and, decide_eq_true_eq, eq_comm (a := i)]
  have hfree := h.free (chunkBucket shape p.2)
  rw [hcount, if_pos rfl] at hfree
  have hbucket : shape.bucket₁ (Key.plain p.2.key).hashValue = chunkBucket shape p.2 := by
    rw [Key.hashValue_plain]
    rfl
  have hnotfull : ¬s.keys.buckets.Full (shape.bucket₁ (Key.plain p.2.key).hashValue) := by
    rw [hbucket]
    apply not_full_of_used_lt
    rw [Fintype.card_fin]
    omega
  obtain ⟨j, hj, hinsert⟩ := insert_of_not_full cfg s.m rand hnotfull p.1
  rw [hbucket] at hj hinsert
  have hstep : setChunkStep cfg rand s p.1 = some ⟨{ s.keys with
      buckets := s.keys.buckets.put (chunkBucket shape p.2, j) p.1 }, s.m, p.1 :: s.stored⟩ := by
    rw [setChunkStep, insertKey, hkey, hinsert]
    rfl
  refine ⟨_, j, hstep, rfl, hj, rfl, ?_⟩
  constructor
  · exact fun q hq => h.ptr_ne q (List.mem_cons_of_mem p hq)
  · intro i
    have hi := h.free i
    rw [hcount] at hi
    dsimp only
    rw [used_put hj (h.ptr_ne p List.mem_cons_self)]
    dsimp only
    omega
  · rintro ⟨q, hq, hdeleted⟩
    have hapart := h.apart ⟨q, List.mem_cons_of_mem p hq, hdeleted⟩
    constructor
    · exact fun q hq => hapart.live q (List.mem_cons_of_mem p hq)
    · exact fun q hq => hapart.deleted q (List.mem_cons_of_mem p hq)
    · intro a ha hne
      dsimp only at hne ⊢
      have hother : a ≠ (chunkBucket shape p.2, j) := by
        rintro rfl
        exact hapart.live p List.mem_cons_self hlive ha
      rw [put_of_ne _ _ hother] at hne ⊢
      exact hapart.entries a ha hne

/-- A deleted object goes to one of the buckets of the empty key, if there is room. -/
theorem Space.setChunkStep_deleted {s : KeyMapState shape} {p : ℕ × Object cfg}
    {ps : List (ℕ × Object cfg)} (h : s.Space (p :: ps)) (hdeleted : ¬p.2.Live)
    (hkey : chunkKey cfg s.m p.1 = .plain p.2.key) (rand : ℕ → ℕ) :
    ∃ s', setChunkStep cfg rand s p.1 = some s' ∧
      s'.m = s.m ∧ Extended (fun q i => q = p.1 ∧ shape.Homes (HashFunc.hash []) i)
        s.keys.buckets s'.keys.buckets ∧ s'.Space ps := by
  have hapart := h.apart ⟨p, List.mem_cons_self, hdeleted⟩
  have hempty : p.2.key = [] := not_not.mp hdeleted
  have hhash : (Key.plain p.2.key).hashValue = HashFunc.hash [] := by
    rw [Key.hashValue_plain, hempty]
  have hlt : HashFunc.hash [] < 2 ^ 32 := HashFunc.hash_lt []
  have hclosed : Closed (altOf cfg shape.toTableShape s.m) (shape.Homes (HashFunc.hash []))
      s.keys.buckets := by
    constructor
    · intro a ha hne
      unfold altOf
      rw [hapart.entries a ha hne]
      exact ha.alt shape.toTableShape hlt
    · intro q i hi
      apply shape.altIndex_altIndex
      rcases hi with rfl | rfl
      · exact shape.bucket₁_lt hlt
      · exact shape.bucket₂_lt _
  obtain ⟨keys, ok, hinsert, hinserted⟩ := insert_spec cfg s.m rand s.keys (Key.plain p.2.key) p.1
    hclosed (by rw [hhash]; exact Or.inr rfl)
  rw [hhash] at hinserted
  have hextended := hinserted.extended hclosed fun i hi => hi
  have hstep : setChunkStep cfg rand s p.1 =
      some ⟨keys, s.m, if ok then p.1 :: s.stored else s.stored⟩ := by
    rw [setChunkStep, insertKey, hkey, hinsert]
    rfl
  refine ⟨_, hstep, rfl, hextended, ?_⟩
  constructor
  · exact fun q hq => h.ptr_ne q (List.mem_cons_of_mem p hq)
  · intro i
    have hi := h.free i
    rw [List.countP_cons_of_neg (by simp [hdeleted])] at hi
    by_cases hhome : shape.Homes (HashFunc.hash []) i
    · have hnone : ps.countP (fun q => decide (q.2.Live ∧ chunkBucket shape q.2 = i)) = 0 := by
        apply List.countP_eq_zero.mpr
        intro q hq hlive
        rw [decide_eq_true_eq] at hlive
        exact hapart.live q (List.mem_cons_of_mem p hq) hlive.1 (hlive.2 ▸ hhome)
      have hle := used_le keys.buckets i
      rw [Fintype.card_fin] at hle
      rw [hnone]
      exact hle
    · have hsame : ∀ j, keys.buckets (i, j) = s.keys.buckets (i, j) := by
        intro j
        by_cases hne : s.keys.buckets (i, j) = 0
        · by_contra hnew
          rw [hne] at hnew
          exact hhome (hextended.added _ hne hnew).2
        · exact hextended.kept _ hne
      have hused : keys.buckets.used i = s.keys.buckets.used i := by
        simp only [used, hsame]
      dsimp only
      rwa [hused]
  · intro _
    constructor
    · exact fun q hq => hapart.live q (List.mem_cons_of_mem p hq)
    · exact fun q hq => hapart.deleted q (List.mem_cons_of_mem p hq)
    · intro a ha hne
      by_cases hold : s.keys.buckets a = 0
      · dsimp only
        rw [(hextended.added a hold hne).1]
        exact hapart.deleted p List.mem_cons_self hdeleted
      · dsimp only
        rw [hextended.kept a hold]
        exact hapart.entries a ha hold

/-- The loop of `setChunk` puts every live object into its first bucket, and displaces nothing. -/
theorem Space.setChunk {s : KeyMapState shape} {ps : List (ℕ × Object cfg)} (h : s.Space ps)
    (hkey : ∀ p ∈ ps, chunkKey cfg s.m p.1 = .plain p.2.key) (rand : ℕ → ℕ) :
    ∃ s', tryRun (setChunkStep cfg rand) s (ps.map Prod.fst) = some s' ∧ s'.m = s.m ∧
      Extended (Registered shape ps) s.keys.buckets s'.keys.buckets ∧
      ∀ p ∈ ps, p.2.Live → ∃ j, s'.keys.buckets (chunkBucket shape p.2, j) = p.1 := by
  induction ps generalizing s with
  | nil => exact ⟨s, rfl, rfl, Extended.refl _, fun p hp => absurd hp List.not_mem_nil⟩
  | cons p ps ih =>
    have hmono : ∀ q i, Registered shape ps q i → Registered shape (p :: ps) q i :=
      fun q i ⟨r, hr, hq⟩ => ⟨r, List.mem_cons_of_mem p hr, hq⟩
    have hkeys : ∀ q ∈ ps, chunkKey cfg s.m q.1 = .plain q.2.key :=
      fun q hq => hkey q (List.mem_cons_of_mem p hq)
    by_cases hlive : p.2.Live
    · obtain ⟨s₁, j, hs₁, hm₁, hfree, hput, hspace⟩ :=
        h.setChunkStep_live hlive (hkey p List.mem_cons_self) rand
      rw [← hm₁] at hkeys
      obtain ⟨s', hs', hm', hextended, hthere⟩ := ih hspace hkeys
      have hfirst : Extended (Registered shape (p :: ps)) s.keys.buckets s₁.keys.buckets := by
        rw [hput]
        exact Extended.put hfree ⟨p, List.mem_cons_self, rfl, fun _ => rfl⟩
      have hin : s₁.keys.buckets (chunkBucket shape p.2, j) = p.1 := by
        rw [hput, put_self]
      refine ⟨s', ?_, hm'.trans hm₁, hfirst.trans (hextended.mono hmono), ?_⟩
      · rw [List.map_cons, tryRun_cons, hs₁]
        exact hs'
      · intro q hq hq'
        rcases List.mem_cons.mp hq with rfl | hq
        · have hne := h.ptr_ne q List.mem_cons_self
          exact ⟨j, (hextended.kept _ (by rwa [hin])).trans hin⟩
        · exact hthere q hq hq'
    · obtain ⟨s₁, hs₁, hm₁, hput, hspace⟩ :=
        h.setChunkStep_deleted hlive (hkey p List.mem_cons_self) rand
      rw [← hm₁] at hkeys
      obtain ⟨s', hs', hm', hextended, hthere⟩ := ih hspace hkeys
      have hfirst : Extended (Registered shape (p :: ps)) s.keys.buckets s₁.keys.buckets :=
        hput.mono fun q i hq => ⟨p, List.mem_cons_self, hq.1.symm, fun h => absurd h hlive⟩
      refine ⟨s', ?_, hm'.trans hm₁, hfirst.trans (hextended.mono hmono), ?_⟩
      · rw [List.map_cons, tryRun_cons, hs₁]
        exact hs'
      · intro q hq hq'
        rcases List.mem_cons.mp hq with rfl | hq
        · exact absurd hq' hlive
        · exact hthere q hq hq'

/-- The map has room for the objects of a chunk, which it does not know yet, and no other entry
passes for one of them. -/
structure Room (s : KeyMapState shape) (ps : List (ℕ × Object cfg)) : Prop extends s.Space ps where
  fresh : ∀ p ∈ ps, ¬s.keys.buckets.Has p.1
  alone : ∀ p ∈ ps, p.2.Live → ∀ ptr, s.keys.buckets.Has ptr ∨ ptr ∈ ps.map Prod.fst →
    (s.ownKey cfg ptr).equal p.2.mapKey = true → ptr = p.1

/-- With room, `setChunk` makes a live object findable exactly when the bucket of its key without
a split offset is one of the buckets that the lookup looks into. -/
theorem findOf_setChunk {s : KeyMapState shape} {data : ℕ} {objs : List (Object cfg)}
    (hat : HoldsAt s.m data objs) (hroom : s.Room (placed data objs)) (rand : ℕ → ℕ) :
    ∃ s', step cfg rand s (.setChunk data) = some s' ∧
      ∀ p ∈ livePlaced cfg data objs, (findOf cfg s'.m s'.keys p.2 = some p.1 ↔
        shape.Homes p.2.mapKey.hashValue (chunkBucket shape p.2)) := by
  obtain ⟨s', hs', hm', hextended, hthere⟩ :=
    hroom.toSpace.setChunk (fun p hp => hat.chunkKey_eq hp) rand
  refine ⟨s', ?_, ?_⟩
  · rw [step, hat.chunkObjects_eq]
    exact hs'
  · intro p hp
    obtain ⟨hp, hlive⟩ := List.mem_filter.mp hp
    rw [decide_eq_true_eq] at hlive
    rw [findOf_eq, hm']
    constructor
    · intro hfind
      obtain ⟨a, hhome, ha⟩ := exists_home_of_find hfind
      -- The slot with the object has been filled now, and so it is of the first bucket.
      have hfree : s.keys.buckets a = 0 := by
        by_contra hne
        exact hroom.fresh p hp ⟨hroom.ptr_ne p hp, a, by rw [← hextended.kept a hne, ha]⟩
      obtain ⟨q, hq, hqp, hbucket⟩ := hextended.added a hfree (by
        rw [ha]
        exact hroom.ptr_ne p hp)
      rw [ha] at hqp
      obtain rfl := hat.eq_of_fst_eq hq hp hqp
      rwa [← hbucket hlive]
    · intro hhome
      obtain ⟨j, hj⟩ := hthere p hp hlive
      have hne : s'.keys.buckets (chunkBucket shape p.2, j) ≠ 0 := by
        rw [hj]
        exact hroom.ptr_ne p hp
      rw [← hj]
      apply find_of_home hhome hne
      · rw [hj, isEqual_index, hat.key_eq hp]
        exact (Key.equal_iff _ _).mpr ⟨rfl, rfl, rfl⟩
      · rintro ptr ⟨hptr, a, rfl⟩ hequal
        rw [isEqual_index] at hequal
        rw [hj]
        apply hroom.alone p hp hlive _ _ hequal
        by_cases hold : s.keys.buckets a = 0
        · obtain ⟨q, hq, hqa, -⟩ := hextended.added a hold hptr
          exact Or.inr (hqa ▸ List.mem_map_of_mem hq)
        · rw [hextended.kept a hold]
          exact Or.inl ⟨hold, a, rfl⟩

/-- `insertKey`, as when the object is stored. -/
def insertOwn (cfg : GlobalConfig) (rand : ℕ → ℕ) (s : KeyMapState shape) (ptr : ℕ) :
    Option (KeyMapState shape) := insertKey cfg rand s (s.ownKey cfg ptr) ptr

theorem insertOwn_m {s s' : KeyMapState shape} {ptr : ℕ}
    (h : insertOwn cfg rand s ptr = some s') : s'.m = s.m := by
  unfold insertOwn insertKey at h
  obtain ⟨r, -, rfl⟩ := Option.map_eq_some_iff.mp h
  rfl

/-- Without later splits, a round of the loop inserts the object with its own key. -/
theorem setChunkStep_eq_insertOwn {s : KeyMapState shape} {data : ℕ} {objs : List (Object cfg)}
    (hat : HoldsAt s.m data objs) {p : ℕ × Object cfg} (hp : p ∈ placed data objs)
    (h : p.2.isLarge = true → p.2.splitOffset = 0) :
    setChunkStep cfg rand s p.1 = insertOwn cfg rand s p.1 := by
  have hhash : (chunkKey cfg s.m p.1).hashValue = (s.ownKey cfg p.1).hashValue := by
    rw [ownKey, hat.chunkKey_eq hp, hat.key_eq hp, Key.hashValue_plain, hashValue_mapKey h]
  unfold setChunkStep insertOwn insertKey
  rw [insert_congr s.m rand s.keys hhash p.1]

/-- Without later splits, `setChunk` does what the insertions of its objects do, in any map. -/
theorem setChunk_eq_insertOwn {s : KeyMapState shape} {data : ℕ} {objs : List (Object cfg)}
    (hat : HoldsAt s.m data objs) (h : ∀ o ∈ objs, o.isLarge = true → o.splitOffset = 0) :
    step cfg rand s (.setChunk data) =
      tryRun (insertOwn cfg rand) s ((placed data objs).map Prod.fst) := by
  have hfirst : ∀ p ∈ placed data objs, p.2.isLarge = true → p.2.splitOffset = 0 :=
    fun p hp => h p.2 (snd_mem_of_mem_placed hp)
  suffices hrun : ∀ (ps : List (ℕ × Object cfg)), (∀ p ∈ ps, p ∈ placed data objs) →
      ∀ s' : KeyMapState shape, s'.m = s.m →
      tryRun (setChunkStep cfg rand) s' (ps.map Prod.fst) =
        tryRun (insertOwn cfg rand) s' (ps.map Prod.fst) by
    rw [step, hat.chunkObjects_eq]
    exact hrun (placed data objs) (fun p hp => hp) s rfl
  intro ps
  induction ps with
  | nil =>
    intro _ s' _
    rw [List.map_nil, tryRun_nil, tryRun_nil]
  | cons p ps ih =>
    intro hps s' hm
    have hp := hps p List.mem_cons_self
    have hat' : HoldsAt s'.m data objs := by
      rwa [hm]
    rw [List.map_cons, tryRun_cons, tryRun_cons, setChunkStep_eq_insertOwn hat' hp (hfirst p hp)]
    cases hs : insertOwn cfg rand s' p.1 with
    | none => rw [Option.bind_none, Option.bind_none]
    | some s'' =>
      rw [Option.bind_some, Option.bind_some]
      exact ih (fun q hq => hps q (List.mem_cons_of_mem p hq)) s'' ((insertOwn_m hs).trans hm)

/-- A chunk without later splits gets the index that the insertions of its objects make, in any
map. With room in the map, all live objects of a chunk are findable exactly when for each later
split the bucket of the key alone is one of the buckets of the key with the split offset. -/
theorem setChunk_finds_iff {s : KeyMapState shape} {data : ℕ} {objs : List (Object cfg)}
    (hat : HoldsAt s.m data objs) (rand : ℕ → ℕ) :
    ((∀ o ∈ objs, o.isLarge = true → o.splitOffset = 0) →
      step cfg rand s (.setChunk data) =
        tryRun (insertOwn cfg rand) s ((placed data objs).map Prod.fst)) ∧
    (s.Room (placed data objs) → ∃ s', step cfg rand s (.setChunk data) = some s' ∧
      ((∀ p ∈ livePlaced cfg data objs, findOf cfg s'.m s'.keys p.2 = some p.1) ↔
        ∀ p ∈ livePlaced cfg data objs, p.2.isLarge = true → p.2.splitOffset ≠ 0 →
          shape.Homes p.2.mapKey.hashValue (chunkBucket shape p.2))) := by
  refine ⟨setChunk_eq_insertOwn hat, fun hroom => ?_⟩
  obtain ⟨s', hs', hfinds⟩ := findOf_setChunk hat hroom rand
  refine ⟨s', hs', ?_⟩
  constructor
  · intro hall p hp _ _
    exact (hfinds p hp).mp (hall p hp)
  · intro hall p hp
    apply (hfinds p hp).mpr
    by_cases hlater : p.2.isLarge = true ∧ p.2.splitOffset ≠ 0
    · exact hall p hp hlater.1 hlater.2
    · have hfirst : p.2.isLarge = true → p.2.splitOffset = 0 :=
        fun hlarge => not_not.mp fun hne => hlater ⟨hlarge, hne⟩
      rw [hashValue_mapKey hfirst]
      exact Or.inl rfl

/-! ## Chunks in an empty map -/

theorem used_init (i : ℕ) : (CuckooHash.init shape.toTableShape).buckets.used i = 0 := by
  apply Finset.card_eq_zero.mpr
  apply Finset.filter_eq_empty_iff.mpr
  intro j _ hne
  exact hne rfl

/-- Up to four objects with different keys have room in an empty map. -/
theorem room_start {m : Memory} {ps : List (ℕ × Object cfg)} (hptr : ∀ p ∈ ps, p.1 ≠ 0)
    (hlength : ps.length ≤ 4)
    (halone : ∀ p ∈ ps, p.2.Live → ∀ ptr ∈ ps.map Prod.fst,
      (KeyValue.key cfg m ptr).equal p.2.mapKey = true → ptr = p.1)
    (hlive : ∀ p ∈ ps, p.2.Live → ¬shape.Homes (HashFunc.hash []) (chunkBucket shape p.2))
    (hdeleted : ∀ p ∈ ps, ¬p.2.Live →
      relocationHash cfg shape.toTableShape m p.1 = HashFunc.hash []) :
    (start shape m).Room ps where
  ptr_ne := hptr
  free := by
    intro i
    have hcount := List.countP_le_length (l := ps)
      (p := fun p => decide (p.2.Live ∧ chunkBucket shape p.2 = i))
    have hused : (start shape m).keys.buckets.used i = 0 := used_init i
    rw [hused]
    omega
  apart _ := ⟨hlive, hdeleted, fun _ _ hne => absurd rfl hne⟩
  fresh := by
    rintro p - ⟨hne, a, ha⟩
    exact hne ha.symm
  alone := by
    intro p hp hp' ptr hptr'
    rcases hptr' with ⟨hne, a, ha⟩ | hmem
    · exact absurd ha.symm hne
    · exact halone p hp hp' ptr hmem

/-- A plain object and a deleted one of one byte. -/
def plainObjects : List (Object .smallest) :=
  [.plain [107] [118] (by decide) (by decide), .plain [] [0] (by decide) (by decide)]

theorem finds_plainObjects : ∃ s, step .smallest (fun _ => 0)
      (start .default (Memory.place 32 (layout plainObjects))) (.setChunk 32) = some s ∧
    ∀ p ∈ livePlaced .smallest 32 plainObjects, findOf .smallest s.m s.keys p.2 = some p.1 := by
  have hat : HoldsAt (start .default (Memory.place 32 (layout plainObjects))).m 32 plainObjects :=
    HoldsAt.place 32 (by decide) (by decide)
  have hroom : (start .default (Memory.place 32 (layout plainObjects))).Room
      (placed 32 plainObjects) := by
    apply room_start
    · decide
    · decide
    · decide +kernel
    · decide +kernel
    · decide +kernel
  obtain ⟨s, hs, hfinds⟩ := (setChunk_finds_iff hat fun _ => 0).2 hroom
  refine ⟨s, hs, hfinds.mpr ?_⟩
  decide +kernel

/-- The second split of an object with a value of 28 bytes. -/
def laterSplit : Object .smallest where
  key := [107]
  valueSize := 28
  splitOffset := 24
  payload := [1, 2, 3, 4]
  length_key := by decide
  valueSize_lt := by decide
  splitOffset_lt := by decide
  splitOffset_eq := by decide
  room := by decide
  length_payload := by decide

def laterSplitMemory : Memory := .place 32 (layout [laterSplit])

/-- The split is found when it has been inserted with its own key, and not after `setChunk`. -/
theorem not_finds_laterSplit : HoldsAt laterSplitMemory 32 [laterSplit] ∧
    (start .default laterSplitMemory).Room (placed 32 [laterSplit]) ∧
    (∃ s, insertOwn .smallest (fun _ => 0) (start .default laterSplitMemory) 32 = some s ∧
      findOf .smallest s.m s.keys laterSplit = some 32) ∧
    ∃ s, step .smallest (fun _ => 0) (start .default laterSplitMemory) (.setChunk 32) = some s ∧
      findOf .smallest s.m s.keys laterSplit = none := by
  have hown : (insertOwn .smallest (fun _ => 0) (start .default laterSplitMemory) 32).any
      (fun s => findOf .smallest s.m s.keys laterSplit == some 32) = true := by
    decide +kernel
  have hset : (step .smallest (fun _ => 0) (start .default laterSplitMemory) (.setChunk 32)).any
      (fun s => findOf .smallest s.m s.keys laterSplit == none) = true := by
    decide +kernel
  obtain ⟨s, hs, hfound⟩ := (Option.any_eq_true _ _).mp hown
  obtain ⟨s', hs', hlost⟩ := (Option.any_eq_true _ _).mp hset
  refine ⟨HoldsAt.place 32 (by decide) (by decide), ?_, ⟨s, hs, eq_of_beq hfound⟩,
    s', hs', eq_of_beq hlost⟩
  apply room_start
  · decide
  · decide
  · decide +kernel
  · decide +kernel
  · decide +kernel

end KeyMapState

end MemEC.Server
