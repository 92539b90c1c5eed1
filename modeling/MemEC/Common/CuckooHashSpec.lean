import MemEC.Common.CuckooHash

/-!
# What the operations of the cuckoo hash table do to its slots

`find` and `del` only look at the two buckets of a key. `insert` either takes a
free slot of one of them or makes one by displacements that start from the
second one; the path that it records stays a path while entries are moved, and
an entry that is no longer where the path says ends the moves early.
-/

namespace MemEC.Common

open MemEC.Lib Slots

/-! ## Hashes and buckets -/

theorem HashFunc.hash_lt (data : List UInt8) : HashFunc.hash data < 2 ^ 32 := by
  have hfold : ∀ h < 2 ^ 32, data.foldl (fun h c => u32 (u32 (h * 388650179) + signExtend c)) h <
      2 ^ 32 := by
    induction data with
    | nil => exact fun h hh => hh
    | cons c data ih => exact fun h _ => ih _ (Nat.mod_lt _ (by norm_num))
  exact Nat.xor_lt_two_pow (hfold 388650013 (by norm_num)) (by norm_num)

theorem Key.hashValue_lt (key : Key) : key.hashValue < 2 ^ 32 := by
  unfold Key.hashValue
  split_ifs
  · exact HashFunc.hash_lt _
  · exact HashFunc.hash_lt _

namespace TableShape

variable (shape : TableShape)

theorem altIndex_eq (index tag : ℕ) : shape.altIndex index tag =
    (index % shape.size) ^^^ (u32 ((tag &&& 0xff) * 0x5bd1e995) % shape.size) := by
  unfold altIndex size
  rw [Nat.and_two_pow_sub_one_eq_mod, Nat.xor_mod_two_pow]

theorem altIndex_lt (index tag : ℕ) : shape.altIndex index tag < shape.size := by
  unfold altIndex size
  rw [Nat.and_two_pow_sub_one_eq_mod]
  exact Nat.mod_lt _ (Nat.two_pow_pos _)

/-- The other bucket of the other bucket. -/
theorem altIndex_altIndex {index : ℕ} (h : index < shape.size) (tag : ℕ) :
    shape.altIndex (shape.altIndex index tag) tag = index := by
  rw [shape.altIndex_eq (shape.altIndex index tag), Nat.mod_eq_of_lt (shape.altIndex_lt _ _),
    shape.altIndex_eq, Nat.xor_assoc, Nat.xor_self, Nat.xor_zero, Nat.mod_eq_of_lt h]

theorem bucket₁_lt {hashValue : ℕ} (h : hashValue < 2 ^ 32) :
    shape.bucket₁ hashValue < shape.size := by
  have hp := shape.hashPower_lt
  have hsplit : 2 ^ 32 = 2 ^ shape.hashPower * 2 ^ (32 - shape.hashPower) := by
    rw [← Nat.pow_add]
    congr 1
    omega
  unfold bucket₁ indexHash size
  rw [Nat.shiftRight_eq_div_pow]
  exact Nat.div_lt_of_lt_mul (by rwa [Nat.mul_comm, ← hsplit])

theorem bucket₂_lt (hashValue : ℕ) : shape.bucket₂ hashValue < shape.size :=
  shape.altIndex_lt _ _

/-- The tag of a hash leads from each of its buckets to the other one. -/
theorem Homes.alt {hashValue bucket : ℕ} (hlt : hashValue < 2 ^ 32)
    (h : shape.Homes hashValue bucket) :
    shape.Homes hashValue (shape.altIndex bucket (tagHash hashValue)) := by
  rcases h with rfl | rfl
  · exact Or.inr rfl
  · exact Or.inl (shape.altIndex_altIndex (shape.bucket₁_lt hlt) _)

end TableShape

namespace CuckooHash

variable {cfg : GlobalConfig} {shape : TableShape} {m : Memory} {rand : ℕ → ℕ}
  {t : CuckooHash shape} {R : ℕ → Prop} {key : Key}

theorem closed_reach_altOf (b : Slots ℕ (Fin 4) ℕ) (hashValue : ℕ) :
    Closed (altOf cfg shape m) (Reach (altOf cfg shape m) b (shape.bucket₂ hashValue)) b :=
  closed_reach (shape.bucket₂_lt hashValue) (fun _ _ => shape.altIndex_lt _ _)
    (fun _ _ h => shape.altIndex_altIndex h _)

/-! ## Looking through a bucket -/

theorem buckets_of_emptySlot {i : ℕ} {j : Fin 4} (h : t.emptySlot i = some j) :
    t.buckets (i, j) = 0 := by
  have hj := List.find?_some h
  rwa [decide_eq_true_eq] at hj

theorem full_of_emptySlot {i : ℕ} (h : t.emptySlot i = none) : t.buckets.Full i := by
  intro j hj
  have hn := List.find?_eq_none.mp h j (List.mem_finRange j)
  rw [decide_eq_true_eq] at hn
  exact hn hj

theorem of_slotOf_some {i : ℕ} {j : Fin 4} (h : t.slotOf cfg m i key = some j) :
    t.buckets (i, j) ≠ 0 ∧ isEqual cfg shape m key (t.buckets (i, j)) = true := by
  have hj := List.find?_some h
  rwa [Bool.and_eq_true, decide_eq_true_eq] at hj

theorem of_slotOf_none {i : ℕ} (h : t.slotOf cfg m i key = none) (j : Fin 4)
    (hj : t.buckets (i, j) ≠ 0) : isEqual cfg shape m key (t.buckets (i, j)) = false := by
  have hn := List.find?_eq_none.mp h j (List.mem_finRange j)
  rw [Bool.and_eq_true, decide_eq_true_eq, not_and, Bool.not_eq_true] at hn
  exact hn hj

/-- What is found is an entry in one of the buckets that has the key. -/
theorem find_eq_some {ptr : ℕ} (h : t.find cfg m key = some ptr) :
    t.buckets.Has ptr ∧ isEqual cfg shape m key ptr = true := by
  simp only [find] at h
  split at h
  · next j hj =>
    obtain ⟨hne, heq⟩ := of_slotOf_some hj
    obtain rfl := Option.some.inj h
    exact ⟨⟨hne, _, rfl⟩, heq⟩
  · rw [Option.map_eq_some_iff] at h
    obtain ⟨j, hj, rfl⟩ := h
    obtain ⟨hne, heq⟩ := of_slotOf_some hj
    exact ⟨⟨hne, _, rfl⟩, heq⟩

/-- What is found is in one of the buckets of the key. -/
theorem exists_home_of_find {ptr : ℕ} (h : t.find cfg m key = some ptr) :
    ∃ a : ℕ × Fin 4, shape.Homes key.hashValue a.1 ∧ t.buckets a = ptr := by
  simp only [find] at h
  split at h
  · next j _ => exact ⟨(_, j), Or.inl rfl, Option.some.inj h⟩
  · rw [Option.map_eq_some_iff] at h
    obtain ⟨j, -, hj⟩ := h
    exact ⟨(_, j), Or.inr rfl, hj⟩

/-- When nothing is found, no entry in the buckets has the key. -/
theorem find_eq_none {a : ℕ × Fin 4} (h : t.find cfg m key = none)
    (ha : shape.Homes key.hashValue a.1) (hne : t.buckets a ≠ 0) :
    isEqual cfg shape m key (t.buckets a) = false := by
  simp only [find] at h
  split at h
  · cases h
  · next h₁ =>
    rw [Option.map_eq_none_iff] at h
    obtain ⟨i, j⟩ := a
    rcases ha with ha | ha
    · obtain rfl : i = shape.bucket₁ key.hashValue := ha
      exact of_slotOf_none h₁ j hne
    · obtain rfl : i = shape.bucket₂ key.hashValue := ha
      exact of_slotOf_none h j hne

/-- The only entry with the key is found, if it is in one of the buckets. -/
theorem find_of_home {a : ℕ × Fin 4} (ha : shape.Homes key.hashValue a.1) (hne : t.buckets a ≠ 0)
    (heq : isEqual cfg shape m key (t.buckets a) = true)
    (honly : ∀ ptr, t.buckets.Has ptr → isEqual cfg shape m key ptr = true → ptr = t.buckets a) :
    t.find cfg m key = some (t.buckets a) := by
  cases hfind : t.find cfg m key with
  | none => exact absurd (find_eq_none hfind ha hne) (by rw [heq]; decide)
  | some ptr =>
    obtain ⟨hhas, hptr⟩ := find_eq_some hfind
    rw [honly ptr hhas hptr]

/-- What was found is still found when slots have been freed and the keys of the entries that are
left are as they were. -/
theorem find_of_kept {t' : CuckooHash shape} {m' : Memory} {ptr : ℕ}
    (hkept : ∀ a, t'.buckets a ≠ 0 → t'.buckets a = t.buckets a ∧
      isEqual cfg shape m' key (t.buckets a) = isEqual cfg shape m key (t.buckets a))
    (hptr : ∀ a, t.buckets a = ptr → t'.buckets a = ptr) (hfind : t.find cfg m key = some ptr) :
    t'.find cfg m' key = some ptr := by
  have hnone : ∀ i, t.slotOf cfg m i key = none → t'.slotOf cfg m' i key = none := by
    intro i h
    refine List.find?_eq_none.mpr fun j _ hj => ?_
    rw [Bool.and_eq_true, decide_eq_true_eq] at hj
    obtain ⟨hslot, heq⟩ := hkept (i, j) hj.1
    rw [hslot] at hj
    have hfalse := of_slotOf_none h j hj.1
    rw [← heq, hj.2] at hfalse
    cases hfalse
  have hsome : ∀ i j, t.slotOf cfg m i key = some j → t.buckets (i, j) = ptr →
      t'.slotOf cfg m' i key = some j := by
    intro i j h hj
    have hslot := hptr (i, j) hj
    obtain ⟨hne, hequal⟩ := of_slotOf_some h
    obtain ⟨-, as, bs, hsplit, hbefore⟩ := List.find?_eq_some_iff_append.mp h
    refine List.find?_eq_some_iff_append.mpr ⟨?_, as, bs, hsplit, fun k hk => ?_⟩
    · have heq := (hkept (i, j) (by rw [hslot, ← hj]; exact hne)).2
      rw [Bool.and_eq_true, decide_eq_true_eq, hslot, ← hj]
      exact ⟨hne, heq.trans hequal⟩
    · have hfalse := hbefore k hk
      rw [Bool.not_eq_true'] at hfalse ⊢
      by_contra htrue
      rw [Bool.not_eq_false, Bool.and_eq_true, decide_eq_true_eq] at htrue
      obtain ⟨hkeep, heq⟩ := hkept (i, k) htrue.1
      rw [hkeep, heq] at htrue
      rw [Bool.and_eq_false_iff, decide_eq_false_iff_not, htrue.2] at hfalse
      rcases hfalse with hzero | hequal
      · exact hzero htrue.1
      · cases hequal
  simp only [find] at hfind ⊢
  cases h₁ : t.slotOf cfg m (shape.bucket₁ key.hashValue) key with
  | some j =>
    rw [h₁] at hfind
    have hj := Option.some.inj hfind
    rw [hsome _ j h₁ hj]
    exact congrArg some (hptr _ hj)
  | none =>
    rw [h₁] at hfind
    rw [hnone _ h₁]
    obtain ⟨j, h₂, hj⟩ := Option.map_eq_some_iff.mp hfind
    rw [hsome _ j h₂ hj]
    exact congrArg some (hptr _ hj)

/-- A deletion frees a slot with the entry that `find` returns, if there is one. -/
theorem del_cases (cfg : GlobalConfig) (m : Memory) (t : CuckooHash shape) (key : Key) :
    (∃ a, t.find cfg m key = some (t.buckets a) ∧
        (t.del cfg m key).buckets = t.buckets.put a 0) ∨
      (t.find cfg m key = none ∧ (t.del cfg m key).buckets = t.buckets) := by
  cases h₁ : t.slotOf cfg m (shape.bucket₁ key.hashValue) key with
  | some j =>
    refine Or.inl ⟨(shape.bucket₁ key.hashValue, j), ?_, ?_⟩
    · simp only [find, h₁]
    · simp only [del, tryDel, h₁, if_true]
  | none =>
    cases h₂ : t.slotOf cfg m (shape.bucket₂ key.hashValue) key with
    | some j =>
      refine Or.inl ⟨(shape.bucket₂ key.hashValue, j), ?_, ?_⟩
      · simp only [find, h₁, h₂, Option.map_some]
      · simp only [del, tryDel, h₁, h₂, Bool.false_eq_true, if_false]
    | none =>
      right
      constructor
      · simp only [find, h₁, h₂, Option.map_none]
      · simp only [del, tryDel, h₁, h₂, Bool.false_eq_true, if_false]

/-! ## Paths -/

/-- `cp` is a path to `depth`: each of its entries can go to the next bucket. -/
structure PathTo (cfg : GlobalConfig) (m : Memory) (R : ℕ → Prop) (t : CuckooHash shape)
    (depth : ℕ) : Prop where
  bucket : ∀ e ≤ depth, R (t.cp e).bucket
  ptr_ne : ∀ e < depth, (t.cp e).ptr ≠ 0
  next : ∀ e < depth, (t.cp (e + 1)).bucket = altOf cfg shape m (t.cp e).ptr (t.cp e).bucket

theorem PathTo.mono {depth depth' : ℕ} (h : PathTo cfg m R t depth) (hle : depth' ≤ depth) :
    PathTo cfg m R t depth' where
  bucket e he := h.bucket e (he.trans hle)
  ptr_ne e he := h.ptr_ne e (he.trans_le hle)
  next e he := h.next e (he.trans_le hle)

/-- A kick records an entry of a full bucket and goes on to its other bucket. -/
theorem PathTo.kick {depth : ℕ} (h : PathTo cfg m R t depth)
    (hclosed : Closed (altOf cfg shape m) R t.buckets)
    (hfull : t.buckets.Full (t.cp depth).bucket) (rand : ℕ → ℕ) :
    PathTo cfg m R (t.kick cfg m rand depth) (depth + 1) := by
  set j : Fin 4 := ⟨rand t.randCalls % 4, Nat.mod_lt _ (Nat.succ_pos 3)⟩
  have hold : ∀ e < depth, (t.kick cfg m rand depth).cp e = t.cp e := by
    intro e he
    simp only [CuckooHash.kick]
    rw [Function.update_of_ne (by omega), Function.update_of_ne (by omega)]
  have hat : (t.kick cfg m rand depth).cp depth =
      ⟨(t.cp depth).bucket, j, t.buckets ((t.cp depth).bucket, j)⟩ := by
    simp only [CuckooHash.kick]
    rw [Function.update_of_ne (by omega), Function.update_self]
  have hnew : ((t.kick cfg m rand depth).cp (depth + 1)).bucket =
      altOf cfg shape m (t.buckets ((t.cp depth).bucket, j)) (t.cp depth).bucket := by
    simp only [CuckooHash.kick]
    rw [Function.update_self]
  constructor
  · intro e he
    rcases Nat.lt_trichotomy e depth with hlt | rfl | hgt
    · rw [hold e hlt]
      exact h.bucket e hlt.le
    · rw [hat]
      exact h.bucket e le_rfl
    · obtain rfl : e = depth + 1 := by omega
      rw [hnew]
      exact hclosed.closed (_, j) (h.bucket depth le_rfl) (hfull j)
  · intro e he
    rcases Nat.lt_succ_iff_lt_or_eq.mp he with hlt | rfl
    · rw [hold e hlt]
      exact h.ptr_ne e hlt
    · rw [hat]
      exact hfull j
  · intro e he
    rcases Nat.lt_succ_iff_lt_or_eq.mp he with hlt | rfl
    · rw [hold e hlt]
      rcases Nat.lt_or_ge (e + 1) depth with hlt' | hge
      · rw [hold _ hlt']
        exact h.next e hlt
      · obtain rfl : depth = e + 1 := by omega
        rw [hat]
        exact h.next e hlt
    · rw [hat, hnew]

/-- What a search leaves: the slots as they were, and a path to a free slot if it found one. -/
structure Searched (cfg : GlobalConfig) (m : Memory) (R : ℕ → Prop) (depth : ℕ)
    (t t' : CuckooHash shape) (found : Option ℕ) : Prop where
  buckets : t'.buckets = t.buckets
  start : (t'.cp 0).bucket = (t.cp 0).bucket
  path : ∀ current, found = some current → PathTo cfg m R t' current ∧
    t'.buckets (t'.cp current).position = 0 ∧
    current + t.kickCount = depth + t'.kickCount ∧ t'.kickCount ≤ 500

theorem cpSearchLoop_spec (hclosed : Closed (altOf cfg shape m) R t.buckets) (left : ℕ)
    {depth : ℕ} (h : PathTo cfg m R t depth) :
    Searched cfg m R depth t (cpSearchLoop cfg m rand left t depth).1
      (cpSearchLoop cfg m rand left t depth).2 := by
  induction left generalizing t depth with
  | zero => exact ⟨rfl, rfl, fun _ hc => absurd hc (Option.some_ne_none _).symm⟩
  | succ left ih =>
    simp only [cpSearchLoop]
    split_ifs with hkick
    · cases hempty : t.emptySlot (t.cp depth).bucket with
      | some j =>
        have hbucket : ∀ e, (Function.update t.cp depth { t.cp depth with slot := j } e).bucket =
            (t.cp e).bucket ∧ (Function.update t.cp depth { t.cp depth with slot := j } e).ptr =
            (t.cp e).ptr := by
          intro e
          rw [Function.update_apply]
          split_ifs with he
          · rw [he]
            exact ⟨rfl, rfl⟩
          · exact ⟨rfl, rfl⟩
        refine ⟨rfl, (hbucket 0).1, fun current hc => ?_⟩
        obtain rfl := Option.some.inj hc
        refine ⟨⟨fun e he => ?_, fun e he => ?_, fun e he => ?_⟩, ?_, rfl, hkick.le⟩
        · rw [(hbucket e).1]
          exact h.bucket e he
        · rw [(hbucket e).2]
          exact h.ptr_ne e he
        · rw [(hbucket _).1, (hbucket _).1, (hbucket _).2]
          exact h.next e he
        · simp only [Function.update_self]
          exact buckets_of_emptySlot hempty
      | none =>
        have hpath := h.kick hclosed (full_of_emptySlot hempty) rand
        have hclosed' : Closed (altOf cfg shape m) R (t.kick cfg m rand depth).buckets := hclosed
        obtain ⟨hb, hs, hp⟩ := ih hclosed' hpath
        dsimp only
        refine ⟨hb, hs.trans ?_, fun current hc => ?_⟩
        · simp only [CuckooHash.kick]
          rw [Function.update_of_ne (by omega), Function.update_apply]
          split_ifs with hd
          · rw [hd]
          · rfl
        · obtain ⟨hpath', hfree, hcount, hle⟩ := hp current hc
          refine ⟨hpath', hfree, ?_, hle⟩
          have hkicks : (t.kick cfg m rand depth).kickCount = t.kickCount + 1 := rfl
          rw [hkicks] at hcount
          omega
    · exact ⟨rfl, rfl, fun _ hc => absurd hc (Option.some_ne_none _).symm⟩

/-- What the moves along a path leave: displacements, and a free slot where the path begins if
they went through. -/
theorem cpBackmove_spec (hclosed : Closed (altOf cfg shape m) R t.buckets) {depth : ℕ}
    (h : PathTo cfg m R t depth)
    (hfree : t.buckets (t.cp depth).position = 0) :
    ∃ t' d, cpBackmove depth t = some (t', d) ∧ d ≤ depth ∧
      Displaced (altOf cfg shape m) R t.buckets t'.buckets ∧ t'.cp = t.cp ∧
      t'.kickCount = t.kickCount ∧
      (d = 0 → t'.buckets (t'.cp 0).position = 0) := by
  induction depth generalizing t with
  | zero => exact ⟨t, 0, rfl, le_rfl, Relation.ReflTransGen.refl, rfl, rfl, fun _ => hfree⟩
  | succ depth ih =>
    simp only [cpBackmove]
    by_cases hstale : t.buckets (t.cp depth).position = (t.cp depth).ptr
    · rw [if_neg (not_not.mpr hstale), if_neg (not_not.mpr hfree)]
      have hne : t.buckets (t.cp depth).position ≠ 0 := by
        rw [hstale]
        exact h.ptr_ne depth (Nat.lt_succ_self depth)
      set moved := t.buckets.move (t.cp depth).position (t.cp (depth + 1)).position
      have hstep : Step (altOf cfg shape m) R t.buckets moved := by
        refine ⟨_, _, h.bucket depth (Nat.le_succ depth), hne, hfree, ?_, rfl⟩
        rw [hstale]
        exact h.next depth (Nat.lt_succ_self depth)
      have hpath := h.mono (Nat.le_succ depth)
      set t₁ : CuckooHash shape := { t with buckets := moved }
      have hclosed' : Closed (altOf cfg shape m) R t₁.buckets := hclosed.step hstep
      have hpath' : PathTo cfg m R t₁ depth := ⟨hpath.bucket, hpath.ptr_ne, hpath.next⟩
      have hfree' : moved (t.cp depth).position = 0 := by
        simp only [moved, move_apply, if_true]
      obtain ⟨t', d, ht', hd, hdisplaced, hrest⟩ :=
        ih hclosed' hpath' hfree'
      exact ⟨t', d, ht', hd.trans (Nat.le_succ depth), hdisplaced.head hstep, hrest⟩
    · rw [if_pos hstale]
      exact ⟨t, depth + 1, rfl, le_rfl, Relation.ReflTransGen.refl, rfl, rfl,
        fun hd => absurd hd (Nat.succ_ne_zero depth)⟩

/-- `cuckoo` comes to an end, and no assertion fails. -/
theorem cuckooLoop_spec (hclosed : Closed (altOf cfg shape m) R t.buckets) {fuel depth : ℕ}
    (h : PathTo cfg m R t depth) (hfuel : depth + (500 - t.kickCount) < fuel) :
    ∃ t' ok, cuckooLoop cfg m rand fuel t depth = some (t', ok) ∧
      Displaced (altOf cfg shape m) R t.buckets t'.buckets ∧
      (t'.cp 0).bucket = (t.cp 0).bucket ∧
      (ok = true → ¬t'.buckets.Full (t'.cp 0).bucket) := by
  induction fuel generalizing t depth with
  | zero => exact absurd hfuel (Nat.not_lt_zero _)
  | succ fuel ih =>
    have hsearch : Searched cfg m R depth t (t.cpSearch cfg m rand depth).1
        (t.cpSearch cfg m rand depth).2 := cpSearchLoop_spec hclosed (499 - depth) h
    simp only [cuckooLoop]
    rcases hresult : t.cpSearch cfg m rand depth with ⟨t₁, found⟩
    rw [hresult] at hsearch
    obtain ⟨hbuckets, hstart, hfound⟩ := hsearch
    rw [← hbuckets] at hclosed
    cases found with
    | none =>
      refine ⟨t₁, false, rfl, ?_, hstart, fun hf => absurd hf Bool.false_ne_true⟩
      rw [← hbuckets]
      exact Relation.ReflTransGen.refl
    | some current =>
      obtain ⟨hpath, hfree, hcount, hle⟩ := hfound current rfl
      obtain ⟨t₂, d, hmove, hd, hdisplaced, hcp, hkick, hslot⟩ :=
        cpBackmove_spec hclosed hpath hfree
      rw [hbuckets] at hdisplaced
      simp only [hmove]
      cases d with
      | zero =>
        refine ⟨t₂, true, rfl, hdisplaced, by rw [hcp, hstart], fun _ hfull => ?_⟩
        exact hfull _ (hslot rfl)
      | succ d =>
        have hclosed₂ : Closed (altOf cfg shape m) R t₂.buckets := by
          rw [hbuckets] at hclosed
          exact hclosed.displaced hdisplaced
        have hpath₂ : PathTo cfg m R t₂ d := by
          have hsame := hpath.mono (Nat.le_of_succ_le hd)
          exact ⟨by rw [hcp]; exact hsame.bucket, by rw [hcp]; exact hsame.ptr_ne,
            by rw [hcp]; exact hsame.next⟩
        obtain ⟨t', ok, ht', hdisplaced', hstart', hok⟩ := ih hclosed₂ hpath₂ (by omega)
        exact ⟨t', ok, ht', hdisplaced.trans hdisplaced', by rw [hstart', hcp, hstart], hok⟩

/-! ## Insertion -/

theorem tryAdd_of_full {i : ℕ} (h : t.buckets.Full i) (ptr : ℕ) : t.tryAdd ptr i = (t, false) := by
  unfold tryAdd
  cases hempty : t.emptySlot i with
  | none => rfl
  | some j => exact absurd (buckets_of_emptySlot hempty) (h j)

theorem tryAdd_of_not_full {i : ℕ} (h : ¬t.buckets.Full i) (ptr : ℕ) :
    ∃ j, t.buckets (i, j) = 0 ∧
      t.tryAdd ptr i = ({ t with buckets := t.buckets.put (i, j) ptr }, true) := by
  unfold tryAdd
  cases hempty : t.emptySlot i with
  | none => exact absurd (full_of_emptySlot hempty) h
  | some j => exact ⟨j, buckets_of_emptySlot hempty, rfl⟩

/-- With room in the first bucket, the entry goes there and nothing else changes. -/
theorem insert_of_not_full (cfg : GlobalConfig) (m : Memory) (rand : ℕ → ℕ) {t : CuckooHash shape}
    {key : Key} (h : ¬t.buckets.Full (shape.bucket₁ key.hashValue)) (ptr : ℕ) :
    ∃ j, t.buckets (shape.bucket₁ key.hashValue, j) = 0 ∧ t.insert cfg m rand key ptr =
      some ({ t with buckets := t.buckets.put (shape.bucket₁ key.hashValue, j) ptr }, true) := by
  obtain ⟨j, hj, hadd⟩ := tryAdd_of_not_full h ptr
  refine ⟨j, hj, ?_⟩
  unfold insert
  dsimp only
  rw [hadd]

theorem insert_spec (cfg : GlobalConfig) (m : Memory) (rand : ℕ → ℕ) (t : CuckooHash shape)
    (key : Key) (ptr : ℕ) {R : ℕ → Prop} (hclosed : Closed (altOf cfg shape m) R t.buckets)
    (hR : R (shape.bucket₂ key.hashValue)) :
    ∃ t' ok, t.insert cfg m rand key ptr = some (t', ok) ∧
      Inserted (altOf cfg shape m) R (shape.bucket₁ key.hashValue) (shape.bucket₂ key.hashValue)
        ptr t.buckets t'.buckets ok := by
  simp only [insert]
  by_cases h₁ : t.buckets.Full (shape.bucket₁ key.hashValue)
  · by_cases h₂ : t.buckets.Full (shape.bucket₂ key.hashValue)
    · rw [tryAdd_of_full h₁]
      simp only
      rw [tryAdd_of_full h₂]
      simp only [cuckoo]
      set start : CuckooHash shape := { t with
        kickCount := 0
        cp := Function.update t.cp 0 { t.cp 0 with bucket := shape.bucket₂ key.hashValue } }
      have hbucket : (start.cp 0).bucket = shape.bucket₂ key.hashValue := by
        simp only [start, Function.update_self]
      have hpath : PathTo cfg m R start 0 := by
        constructor
        · intro e he
          obtain rfl := Nat.le_zero.mp he
          rwa [hbucket]
        · exact fun e he => absurd he (Nat.not_lt_zero e)
        · exact fun e he => absurd he (Nat.not_lt_zero e)
      have hkick : start.kickCount = 0 := rfl
      have hclosed' : Closed (altOf cfg shape m) R start.buckets := hclosed
      have hloop : ∃ t' ok, cuckooLoop cfg m rand 501 start 0 = some (t', ok) ∧
          Displaced (altOf cfg shape m) R t.buckets t'.buckets ∧
          (t'.cp 0).bucket = (start.cp 0).bucket ∧
          (ok = true → ¬t'.buckets.Full (t'.cp 0).bucket) := 
            cuckooLoop_spec hclosed' hpath (by omega)
      obtain ⟨t', ok, ht', hdisplaced, hstart, hok⟩ := hloop
      simp only [ht']
      rw [hbucket] at hstart
      cases ok with
      | false => exact ⟨t', false, rfl, .failed _ ⟨h₁, h₂⟩ hdisplaced⟩
      | true =>
        obtain ⟨j, hj, hadd⟩ := tryAdd_of_not_full (hok rfl) ptr
        simp only [hadd]
        exact ⟨_, true, rfl, .displaced _ _ ⟨h₁, h₂⟩ hdisplaced hstart hj⟩
    · rw [tryAdd_of_full h₁]
      obtain ⟨j, hj, hadd⟩ := tryAdd_of_not_full h₂ ptr
      simp only [hadd]
      exact ⟨_, true, rfl, .free _ (Or.inr rfl) hj⟩
  · obtain ⟨j, hj, hadd⟩ := tryAdd_of_not_full h₁ ptr
    rw [hadd]
    exact ⟨_, true, rfl, .free _ (Or.inl rfl) hj⟩

end CuckooHash

end MemEC.Common
