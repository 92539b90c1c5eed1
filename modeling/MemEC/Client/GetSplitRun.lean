import MemEC.Client.GetSplit

/-!
# A large value comes back as it was set

Each split is in one place: its request is on the way, a worker has looked up the
entry for it, or it is stored. What is stored agrees with the value, and the flags
name the splits that are stored. As the loop asks for each split once, the last
split that is stored, and no other, completes the flags.
-/

namespace MemEC.Client

open MemEC.Lib MemEC.Common LargeObjectUtil

variable {cfg : GlobalConfig}

namespace SplitGet

variable (o : LargeObject cfg)

/-! ## The splits -/

theorem isLarge_value : isLarge cfg o.key.length o.value.length = true :=
  (o.isLarge_iff o.length_value).mpr o.splitSize_add_lt

theorem numOfSplit_eq : numOfSplit cfg o.key.length o.value.length = some o.numOfSplit := by
  have hpos := o.splitSize_pos
  unfold numOfSplit
  dsimp only
  rw [if_pos (isLarge_value o), o.splitSize_eq (isLarge_value o), if_neg hpos.ne']
  have hdiv := Nat.div_add_mod' o.value.length o.splitSize
  have hmod := Nat.mod_lt o.value.length hpos
  congr 1
  symm
  unfold LargeObject.numOfSplit
  split_ifs with hzero
  · apply Nat.div_eq_of_lt_le
    · rw [Nat.add_zero]
      omega
    · rw [Nat.add_zero, Nat.succ_mul]
      omega
  · apply Nat.div_eq_of_lt_le
    · rw [Nat.succ_mul]
      omega
    · rw [Nat.succ_mul, Nat.succ_mul]
      omega

theorem one_lt_numOfSplit : 1 < o.numOfSplit := by
  have hlt : o.splitSize < o.value.length := by
    have := o.splitSize_add_lt
    omega
  have hone := o.lt_numOfSplit hlt
  rwa [Nat.div_self o.splitSize_pos] at hone

theorem numOfSplit_mul_ge : o.value.length ≤ o.numOfSplit * o.splitSize := by
  by_contra hlt
  have hlast := o.lt_numOfSplit (not_le.mp hlt)
  rw [Nat.mul_div_cancel _ o.splitSize_pos] at hlast
  exact absurd hlast (lt_irrefl _)

theorem getValueOffsetAtSplit_eq {i : ℕ} (hi : i < o.numOfSplit) :
    getValueOffsetAtSplit cfg o.key.length o.value.length i = i * o.splitSize := by
  have hlt := o.mul_splitSize_lt hi
  have hv := o.length_value
  unfold getValueOffsetAtSplit
  rw [if_pos (isLarge_value o), o.splitSize_eq (isLarge_value o), u32_eq (by omega)]

/-- The message for a split. -/
def splitMessage (i : ℕ) : KeyValueMessage :=
  ⟨o.key, o.value.length, i * o.splitSize, o.split i⟩

/-- A message that is made from the part of the value in a split, or from what is behind it. -/
theorem generateKeyValueHeader_eq {i : ℕ} (hi : i < o.numOfSplit) {value : List UInt8}
    (hvalue : value.take (min ((i + 1) * o.splitSize) o.value.length - i * o.splitSize) =
      o.split i) :
    generateKeyValueHeader o.key o.value.length value (i * o.splitSize) o.splitSize =
      splitMessage o i := by
  have hpos := o.splitSize_pos
  have hlarge := o.splitSize_add_lt
  have hlt := o.mul_splitSize_lt hi
  have hv := o.length_value
  rw [Nat.succ_mul] at hvalue
  unfold generateKeyValueHeader splitMessage
  dsimp only
  rw [if_neg (by omega), Nat.mod_eq_of_lt (by omega), u32_eq (by omega),
    sub32_eq (by omega) (by omega), ← hvalue]
  congr 2
  split_ifs <;> omega

theorem handleSetRequest_eq : handleSetRequest cfg o.key o.value =
    some ((List.range o.numOfSplit).map fun i => (i, splitMessage o i)) := by
  unfold handleSetRequest
  rw [numOfSplit_eq, Option.map_some, o.splitSize_eq (isLarge_value o)]
  congr 1
  apply List.map_congr_left
  intro i hi
  have hi' := List.mem_range.mp hi
  dsimp only
  rw [getValueOffsetAtSplit_eq o hi', generateKeyValueHeader_eq o hi']
  unfold LargeObject.split slice
  rw [List.take_eq_take_iff, List.length_drop]
  omega

theorem resGet_eq {i : ℕ} (hi : i < o.numOfSplit) : resGet cfg (splitMessage o i) =
    splitMessage o i := by
  unfold resGet
  change generateKeyValueHeader o.key o.value.length (o.split i) (i * o.splitSize)
    (if isLarge cfg o.key.length o.value.length then _ else 0) = _
  rw [if_pos (isLarge_value o)]
  change generateKeyValueHeader o.key o.value.length (o.split i) (i * o.splitSize)
    (splitSize cfg o.key.length o.value.length) = _
  rw [o.splitSize_eq (isLarge_value o), generateKeyValueHeader_eq o hi]
  rw [← o.length_split, List.take_length]

/-! ## What the servers find -/

variable (dataServer : List UInt8 → ℕ → ℕ)

/-- What the servers hold after the SET. -/
def storedSplits : Stored :=
  (List.range o.numOfSplit).map fun i => (dataServer o.key i, splitMessage o i)

/-- The key of the request for a split. -/
def requestKey (i : ℕ) : List UInt8 := if i = 0 then o.key else splitKey o.key (i * o.splitSize)

theorem mapKey_splitMessage (i : ℕ) :
    (splitMessage o i).mapKey cfg = Key.split o.key (i * o.splitSize) := by
  unfold KeyValueMessage.mapKey splitMessage
  dsimp only
  rw [if_pos (isLarge_value o)]

theorem find?_storedSplits (server : ℕ) (k : Key) : (storedSplits o dataServer).find?
    (fun p => p.1 = server ∧ k = p.2.mapKey cfg) =
    ((List.range o.numOfSplit).find? fun j =>
      dataServer o.key j = server ∧ k = Key.split o.key (j * o.splitSize)).map
        fun j => (dataServer o.key j, splitMessage o j) := by
  unfold storedSplits
  rw [List.find?_map]
  simp only [Function.comp_def, mapKey_splitMessage]

theorem find?_storedSplits_eq_none (server : ℕ) {k : Key} (h : ((List.range o.numOfSplit).find?
    fun j => k = Key.split o.key (j * o.splitSize)) = none) : (storedSplits o dataServer).find?
      (fun p => p.1 = server ∧ k = p.2.mapKey cfg) = none := by
  rw [find?_storedSplits, List.find?_eq_none.mpr]
  · rfl
  · intro j hj hboth
    apply List.find?_eq_none.mp h j hj
    rw [decide_eq_true_eq] at hboth ⊢
    exact hboth.2

theorem findObject_storedSplits {key : List UInt8} {i : ℕ} (h : o.findSplit key = some i) :
    findObject cfg (storedSplits o dataServer) (dataServer o.key i) key =
      some (splitMessage o i) := by
  apply findSome?_eq_some_of_imp h
  · intro k hk
    rw [find?_storedSplits_eq_none o dataServer _ hk]
    rfl
  · intro k hk
    have hkey := List.find?_some hk
    rw [decide_eq_true_eq] at hkey
    have hfind := find?_eq_some_of_imp (p := fun j => decide (dataServer o.key j =
      dataServer o.key i ∧ k = Key.split o.key (j * o.splitSize))) hk (by simp) (by simp [hkey])
    rw [find?_storedSplits, hfind]
    rfl

theorem findObject_eq_none {key : List UInt8} (h : o.findSplit key = none) (server : ℕ) :
    findObject cfg (storedSplits o dataServer) server key = none := by
  unfold findObject
  apply List.findSome?_eq_none_iff.mpr
  intro k hk
  rw [find?_storedSplits_eq_none o dataServer _ (List.findSome?_eq_none_iff.mp h k hk)]
  rfl

theorem findSplit_requestKey (hpos : 0 < o.key.length) (hle : o.key.length ≤ 252) {i : ℕ}
    (hi : i < o.numOfSplit) : o.findSplit (requestKey o i) = some i := by
  unfold requestKey
  split_ifs with hzero
  · rw [hzero, o.findSplit_key]
  · exact o.findSplit_splitKey hi hpos hle

/-! ## The buffer -/

/-- A buffer in which the splits of `t`, and no others, are marked, and agree with the value. -/
structure HoldsSplits (b : SplitBuffer) (t : List ℕ) : Prop where
  flags : b.flags = (List.range o.numOfSplit).map fun i => decide (i ∈ t)
  length_value : b.value.length = o.value.length
  split_eq : ∀ i ∈ t, slice b.value (i * o.splitSize) ((i + 1) * o.splitSize) = o.split i

theorem holdsSplits_new : HoldsSplits o ⟨List.replicate o.numOfSplit false,
    List.replicate o.value.length 0⟩ [] := by
  constructor
  · simp
  · simp
  · simp

variable {o} {b : SplitBuffer} {t : List ℕ}

theorem HoldsSplits.insert (h : HoldsSplits o b t) {i : ℕ} (hi : i < o.numOfSplit) (hnew : i ∉ t) :
    HoldsSplits o ⟨b.flags.set i true, patch b.value (i * o.splitSize) (o.split i)⟩ (t ++ [i]) := by
  have hlt := o.mul_splitSize_lt hi
  have hlength := o.length_split i
  have hfit : i * o.splitSize + (o.split i).length ≤ b.value.length := by
    rw [h.length_value]
    omega
  constructor
  · rw [h.flags]
    apply List.ext_getElem
    · simp
    · intro j hj _
      rw [List.length_set, List.length_map, List.length_range] at hj
      rw [List.getElem_set]
      by_cases hij : i = j
      · simp [hij]
      · simp [hij, Ne.symm hij]
  · rw [length_patch, h.length_value]
  · intro j hj
    rcases List.mem_append.mp hj with hj | hj
    · have hne : i ≠ j := fun heq => hnew (heq ▸ hj)
      rw [slice_patch_of_disjoint _ hfit, h.split_eq j hj]
      rcases Nat.lt_or_gt_of_ne hne with hlt' | hlt'
      · left
        have hmul : (i + 1) * o.splitSize ≤ j * o.splitSize :=
          Nat.mul_le_mul_right o.splitSize hlt'
        have hstep : (i + 1) * o.splitSize = i * o.splitSize + o.splitSize := Nat.succ_mul _ _
        omega
      · right
        exact Nat.mul_le_mul_right o.splitSize hlt'
    · obtain rfl := List.mem_singleton.mp hj
      rw [slice_patch _ hfit]
      have hmul : (j + 1) * o.splitSize = j * o.splitSize + o.splitSize := Nat.succ_mul _ _
      have hend : min (j * o.splitSize + (o.split j).length) ((j + 1) * o.splitSize) -
          j * o.splitSize = (o.split j).length := by
        omega
      rw [Nat.max_self, hend, Nat.sub_self, slice_length, patch_eq_of_length_eq]
      rw [length_slice, hlength, h.length_value]

/-- When all splits are there, the buffer is the value. -/
theorem HoldsSplits.value_eq (h : HoldsSplits o b t) (hall : ∀ i < o.numOfSplit, i ∈ t) :
    b.value = o.value := by
  apply List.ext_getElem?
  intro p
  by_cases hp : p < o.value.length
  · have hindex := o.lt_numOfSplit hp
    have hle := Nat.div_mul_le_self p o.splitSize
    have hlt : p < (p / o.splitSize + 1) * o.splitSize :=
      (Nat.div_lt_iff_lt_mul o.splitSize_pos).mp (Nat.lt_succ_self _)
    have hsplit := congrArg (fun l => l[p - p / o.splitSize * o.splitSize]?)
      (h.split_eq _ (hall _ hindex))
    unfold LargeObject.split at hsplit
    simp only [getElem?_slice] at hsplit
    rwa [Nat.add_sub_cancel' hle, if_pos hlt, if_pos hlt] at hsplit
  · rw [List.getElem?_eq_none (by rw [h.length_value]; omega),
      List.getElem?_eq_none (by omega)]

theorem HoldsSplits.all_flags_iff (h : HoldsSplits o b t) :
    b.flags.all id = true ↔ ∀ i < o.numOfSplit, i ∈ t := by
  rw [h.flags]
  simp

variable (o) in
theorem getSplitIndex_value (i : ℕ) :
    getSplitIndex cfg o.key.length o.value.length (i * o.splitSize) = (i, true) := by
  have hne : o.value.length ≠ 0 := (Nat.zero_le _).trans_lt o.splitSize_add_lt |>.ne'
  unfold getSplitIndex
  rw [if_neg hne]
  dsimp only
  rw [if_pos (isLarge_value o), o.splitSize_eq (isLarge_value o),
    Nat.mul_div_cancel _ o.splitSize_pos]

variable (o) in
/-- A split under the lock. -/
theorem storeSplit_eq {s : SplitGet} (hb : s.buffer = some b) {i : ℕ} (hi : i < o.numOfSplit) :
    s.storeSplit cfg (splitMessage o i) =
      let b : SplitBuffer := ⟨b.flags.set i true, patch b.value (i * o.splitSize) (o.split i)⟩
      let s := { s with buffer := some b, stored := s.stored ++ [i * o.splitSize] }
      if i = 0 then
        { s with loops := s.loops ++ [⟨o.key, o.value.length, o.splitSize, 1 * o.splitSize⟩] }
      else if b.flags.all id then { s with completed := s.completed + 1 } else s := by
  have hlt := o.mul_splitSize_lt hi
  have hpos := o.splitSize_pos
  have hv := o.length_value
  have hlarge := o.splitSize_add_lt
  have hlength := o.length_split i
  have hnext : (i + 1) * o.splitSize = i * o.splitSize + o.splitSize := Nat.succ_mul _ _
  have hsize : (if o.value.length < u32 (i * o.splitSize + o.splitSize) then
      sub32 o.value.length (i * o.splitSize) else o.splitSize) = (o.split i).length := by
    rw [u32_eq (by omega), sub32_eq (by omega) (by omega)]
    split_ifs <;> omega
  unfold storeSplit splitMessage
  rw [hb]
  dsimp only
  rw [o.splitSize_eq (isLarge_value o), getSplitIndex_value o i, hsize, List.take_length]
  by_cases hzero : i = 0
  · subst hzero
    have hfirst : (o.split 0).length = 1 * o.splitSize := by omega
    rw [if_pos (Nat.zero_mul _), if_pos rfl, hfirst, Nat.one_mul]
  · rw [if_neg (Nat.mul_ne_zero hzero hpos.ne'), if_neg hzero]

/-! ## The steps, with what they are about -/

section

variable {dataServer} {stored : Stored} {s : SplitGet} {j : ℕ}

theorem step_respond_eq {key : List UInt8} {server : ℕ} (h : s.requests[j]? = some (key, server)) :
    s.step cfg dataServer stored (.respond j) =
      { s with requests := s.requests.eraseIdx j }.handleGetResponse cfg dataServer stored key
        server := by
  unfold step
  dsimp only
  rw [h]

theorem step_store_eq {header : KeyValueMessage} (h : s.found[j]? = some header) :
    s.step cfg dataServer stored (.store j) =
      { s with found := s.found.eraseIdx j }.storeSplit cfg header := by
  unfold step
  dsimp only
  rw [h]

theorem step_send_eq {l : SplitLoop} (h : s.loops[j]? = some l) :
    s.step cfg dataServer stored (.send j) =
      if l.sOffset < l.valueSize then
        { s with
          loops := s.loops.set j { l with sOffset := u32 (l.sOffset + l.splitSize) }
          }.requestSplit cfg dataServer (splitKey l.key l.sOffset)
      else { s with loops := s.loops.eraseIdx j } := by
  unfold step
  dsimp only
  rw [h]

end

/-! ## Where the splits are -/

variable (o) in
/-- Where the loop of the worker of the first split stands when `asked` splits were asked for. -/
def LoopAt (loops : List SplitLoop) (asked : ℕ) (t : List ℕ) : Prop :=
  loops = [] ∧ asked = 1 ∧ t = [] ∨
  0 ∈ t ∧ loops = [⟨o.key, o.value.length, o.splitSize, asked * o.splitSize⟩] ∨
  0 ∈ t ∧ loops = [] ∧ asked = o.numOfSplit

variable (o) in
/-- The splits that were asked for are on the way (`q`), found (`f`) or stored (`t`). -/
structure Placed (s : SplitGet) (asked : ℕ) (q f t : List ℕ) : Prop where
  requests : s.requests = q.map fun i => (requestKey o i, dataServer o.key i)
  found : s.found = f.map (splitMessage o)
  stored : s.stored = t.map (· * o.splitSize)
  perm : (q ++ f ++ t).Perm (List.range asked)
  asked_le : asked ≤ o.numOfSplit
  loopAt : LoopAt o s.loops asked t
  running : s.crashed = false
  count : s.completed + s.answers.length = if t.length = o.numOfSplit then 1 else 0
  answers : s.answers = [] ∨ s.answers = [some o.value]
  pending : s.pending = true ↔ s.answers = []
  buffer : s.pending = true → f = [] ∧ t = [] ∧ s.buffer = none ∨
    ∃ b, s.buffer = some b ∧ HoldsSplits o b t

variable {dataServer} {s : SplitGet} {asked : ℕ} {q f : List ℕ}

/-- As many splits as there are, are all of them. -/
theorem length_eq_iff (hperm : (q ++ f ++ t).Perm (List.range asked))
    (hle : asked ≤ o.numOfSplit) : t.length = o.numOfSplit ↔ ∀ i < o.numOfSplit, i ∈ t := by
  have hnodup : t.Nodup := (hperm.nodup_iff.mpr List.nodup_range).of_append_right
  have hsub : t.toFinset ⊆ Finset.range o.numOfSplit := by
    intro i hi
    have hrange := hperm.mem_iff.mp (List.mem_append_right (q ++ f) (List.mem_toFinset.mp hi))
    exact Finset.mem_range.mpr ((List.mem_range.mp hrange).trans_le hle)
  constructor
  · intro hlength i hi
    have hcard : (Finset.range o.numOfSplit).card ≤ t.toFinset.card := by
      rw [List.toFinset_card_of_nodup hnodup, Finset.card_range, hlength]
    have heq := Finset.eq_of_subset_of_card_le hsub hcard
    rw [← List.mem_toFinset, heq]
    exact Finset.mem_range.mpr hi
  · intro hall
    have heq : t.toFinset = Finset.range o.numOfSplit := by
      apply hsub.antisymm
      intro i hi
      exact List.mem_toFinset.mpr (hall i (Finset.mem_range.mp hi))
    rw [← List.toFinset_card_of_nodup hnodup, heq, Finset.card_range]

namespace Placed

theorem length_add (h : Placed o dataServer s asked q f t) :
    q.length + f.length + t.length = asked := by
  simpa [Nat.add_assoc] using h.perm.length_eq

theorem nodup (h : Placed o dataServer s asked q f t) : (q ++ f ++ t).Nodup :=
  h.perm.nodup_iff.mpr List.nodup_range

theorem lt_of_mem (h : Placed o dataServer s asked q f t) {i : ℕ} (hi : i ∈ q ++ f ++ t) :
    i < o.numOfSplit :=
  (List.mem_range.mp (h.perm.mem_iff.mp hi)).trans_le h.asked_le

/-- As long as some split is not stored, the application waits. -/
theorem waiting (h : Placed o dataServer s asked q f t) (hne : q ++ f ≠ []) :
    t.length ≠ o.numOfSplit ∧ s.completed = 0 ∧ s.answers = [] ∧ s.pending = true := by
  have hlength := h.length_add
  have hle := h.asked_le
  have hpos := List.length_pos_iff.mpr hne
  rw [List.length_append] at hpos
  have hcount := h.count
  rw [if_neg (by omega)] at hcount
  have hanswers : s.answers = [] := List.eq_nil_of_length_eq_zero (by omega)
  exact ⟨by omega, by omega, hanswers, h.pending.mpr hanswers⟩

theorem delivered (h : Placed o dataServer s asked q f t) : s.Delivered cfg o.key o.value := by
  constructor
  · exact h.running
  · exact h.answers
  · intro hanswers n hn i hi
    obtain rfl : o.numOfSplit = n := Option.some.inj ((numOfSplit_eq o).symm.trans hn)
    have hpos := List.length_pos_iff.mpr hanswers
    have hcount := h.count
    have hall : t.length = o.numOfSplit := by
      by_contra hne
      rw [if_neg hne] at hcount
      omega
    rw [getValueOffsetAtSplit_eq o hi, h.stored]
    exact List.mem_map_of_mem (f := (· * o.splitSize)) 
      ((length_eq_iff h.perm h.asked_le).mp hall i hi)
  · intro hrequests hfound hloops hcompleted
    have hq : q = [] := by simpa [hrequests] using h.requests
    have hf : f = [] := by simpa [hfound] using h.found
    subst hq hf
    have hlength := h.length_add
    have hall : t.length = o.numOfSplit := by
      rcases h.loopAt with ⟨-, hone, ht⟩ | ⟨-, hloop⟩ | ⟨-, -, hasked⟩
      · subst ht
        simp at hlength
        omega
      · rw [hloops] at hloop
        exact absurd hloop (by simp)
      · simpa [hasked] using hlength
    have hcount := h.count
    rw [if_pos hall, hcompleted, Nat.zero_add] at hcount
    rcases h.answers with hanswers | hanswers
    · rw [hanswers] at hcount
      exact absurd hcount (by simp)
    · exact hanswers

end Placed

theorem start_placed : Placed o dataServer (start dataServer o.key) 1 [0] [] [] := by
  have hone := one_lt_numOfSplit o
  constructor
  · simp [start, requestKey]
  · rfl
  · rfl
  · exact List.Perm.refl _
  · exact hone.le
  · exact .inl ⟨rfl, rfl, rfl⟩
  · rfl
  · rw [List.length_nil, if_neg (by omega)]
    rfl
  · exact .inl rfl
  · simp [start]
  · exact fun _ => .inl ⟨rfl, rfl, rfl⟩

/-! ## The steps -/

namespace Placed

theorem respond (h : Placed o dataServer s asked q f t) {j i : ℕ} (hj : q[j]? = some i)
    (hfound : o.findSplit (requestKey o i) = some i) :
    Placed o dataServer (s.step cfg dataServer (storedSplits o dataServer) (.respond j)) asked
      (q.eraseIdx j) (f ++ [i]) t := by
  have hrequest : s.requests[j]? = some (requestKey o i, dataServer o.key i) := by
    rw [h.requests, List.getElem?_map, hj]
    rfl
  rw [step_respond_eq hrequest]
  have hmem : i ∈ q := List.mem_of_getElem? hj
  have hi : i < o.numOfSplit :=
    h.lt_of_mem (List.mem_append_left _ (List.mem_append_left _ hmem))
  obtain ⟨-, -, -, hpending⟩ := h.waiting (List.append_ne_nil_of_left_ne_nil
    (List.ne_nil_of_mem hmem) f)
  have hfind := findObject_storedSplits o dataServer hfound
  unfold handleGetResponse
  rw [hfind]
  dsimp only
  rw [resGet_eq o hi]
  have hlarge : isLarge cfg (splitMessage o i).key.length (splitMessage o i).valueSize = true :=
    isLarge_value o
  have hnum : numOfSplit cfg (splitMessage o i).key.length (splitMessage o i).valueSize =
      some o.numOfSplit := numOfSplit_eq o
  rw [if_pos hlarge, hnum]
  dsimp only
  rw [if_pos hpending]
  constructor
  · dsimp only
    rw [h.requests, List.eraseIdx_map]
  · dsimp only
    rw [h.found, List.map_append]
    rfl
  · exact h.stored
  · have hq := perm_eraseIdx_of_getElem? hj
    have hmove : (q.eraseIdx j ++ (f ++ [i]) ++ t).Perm (q ++ f ++ t) := by
      apply List.Perm.append_right
      calc List.Perm (q.eraseIdx j ++ (f ++ [i])) (q.eraseIdx j ++ ([i] ++ f)) :=
            List.perm_append_comm.append_left _
        List.Perm _ (i :: q.eraseIdx j ++ f) := List.perm_middle
        List.Perm _ (q ++ f) := hq.symm.append_right f
    exact hmove.trans h.perm
  · exact h.asked_le
  · exact h.loopAt
  · exact h.running
  · exact h.count
  · exact h.answers
  · exact h.pending
  · intro _
    right
    rcases h.buffer hpending with ⟨-, rfl, hnone⟩ | ⟨b, hb, hholds⟩
    · exact ⟨_, by dsimp only; rw [hnone]; rfl, holdsSplits_new o⟩
    · exact ⟨b, by dsimp only; rw [hb]; rfl, hholds⟩

theorem store (h : Placed o dataServer s asked q f t) {j i : ℕ} (hj : f[j]? = some i) :
    Placed o dataServer (s.step cfg dataServer (storedSplits o dataServer) (.store j)) asked q
      (f.eraseIdx j) (t ++ [i]) := by
  have hheader : s.found[j]? = some (splitMessage o i) := by
    rw [h.found, List.getElem?_map, hj]
    rfl
  rw [step_store_eq hheader]
  have hmem : i ∈ f := List.mem_of_getElem? hj
  have hi : i < o.numOfSplit :=
    h.lt_of_mem (List.mem_append_left _ (List.mem_append_right _ hmem))
  have hperm : (q ++ f.eraseIdx j ++ (t ++ [i])).Perm (q ++ f ++ t) := by
    rw [List.append_assoc, List.append_assoc]
    apply List.Perm.append_left
    calc List.Perm (f.eraseIdx j ++ (t ++ [i])) (f.eraseIdx j ++ ([i] ++ t)) :=
          List.perm_append_comm.append_left _
      List.Perm _ (i :: f.eraseIdx j ++ t) := List.perm_middle
      List.Perm _ (f ++ t) := (perm_eraseIdx_of_getElem? hj).symm.append_right t
  have hnew : i ∉ t := by
    intro ht
    have hnodup := h.nodup
    rw [List.append_assoc] at hnodup
    exact (List.disjoint_of_nodup_append hnodup.of_append_right) hmem ht
  obtain ⟨hlength, hcompleted, hanswers, hpending⟩ := h.waiting
    (List.append_ne_nil_of_right_ne_nil q (List.ne_nil_of_mem hmem))
  obtain ⟨b, hb, hholds⟩ : ∃ b, s.buffer = some b ∧ HoldsSplits o b t := by
    rcases h.buffer hpending with ⟨rfl, -, -⟩ | hbuffer
    · exact absurd hmem List.not_mem_nil
    · exact hbuffer
  have hnew' := hholds.insert hi hnew
  have hloop : LoopAt o (if i = 0 then s.loops ++
      [⟨o.key, o.value.length, o.splitSize, 1 * o.splitSize⟩] else s.loops) asked (t ++ [i]) := by
    split_ifs with hzero
    · subst hzero
      right
      left
      rcases h.loopAt with ⟨hloops, rfl, rfl⟩ | ⟨hin, -⟩ | ⟨hin, -⟩
      · rw [hloops]
        exact ⟨by simp, rfl⟩
      · exact absurd hin hnew
      · exact absurd hin hnew
    · rcases h.loopAt with ⟨-, rfl, -⟩ | ⟨hin, hloops⟩ | ⟨hin, hloops⟩
      · have hrange := h.perm.mem_iff.mp (List.mem_append_left t (List.mem_append_right q hmem))
        exact absurd (List.mem_range.mp hrange) (by omega)
      · exact .inr (.inl ⟨List.mem_append_left _ hin, hloops⟩)
      · exact .inr (.inr ⟨List.mem_append_left _ hin, hloops⟩)
  have hplaced : ∀ loops completed, LoopAt o loops asked (t ++ [i]) →
      (completed = if (t ++ [i]).length = o.numOfSplit then 1 else 0) →
      Placed o dataServer { s with
        found := s.found.eraseIdx j
        buffer := some ⟨b.flags.set i true, patch b.value (i * o.splitSize) (o.split i)⟩
        stored := s.stored ++ [i * o.splitSize]
        loops
        completed } asked q (f.eraseIdx j) (t ++ [i]) := by
    intro loops completed hloops hcount
    constructor
    · exact h.requests
    · dsimp only
      rw [h.found, List.eraseIdx_map]
    · dsimp only
      rw [h.stored, List.map_append]
      rfl
    · exact hperm.trans h.perm
    · exact h.asked_le
    · exact hloops
    · exact h.running
    · dsimp only
      rw [hanswers, List.length_nil, Nat.add_zero, hcount]
    · exact h.answers
    · exact h.pending
    · exact fun _ => .inr ⟨_, rfl, hnew'⟩
  have hall : (t ++ [i]).length = o.numOfSplit ↔ (b.flags.set i true).all id = true := by
    rw [hnew'.all_flags_iff]
    exact length_eq_iff (hperm.trans h.perm) h.asked_le
  rw [storeSplit_eq o (s := { s with found := s.found.eraseIdx j }) hb hi]
  dsimp only
  by_cases hzero : i = 0
  · rw [if_pos hzero] at hloop ⊢
    apply hplaced _ _ hloop
    have hone := one_lt_numOfSplit o
    have ht : t = [] := by
      subst hzero
      rcases h.loopAt with ⟨-, -, ht⟩ | ⟨hin, -⟩ | ⟨hin, -⟩
      · exact ht
      · exact absurd hin hnew
      · exact absurd hin hnew
    rw [ht, List.nil_append, List.length_singleton, if_neg hone.ne, hcompleted]
  · rw [if_neg hzero] at hloop ⊢
    split_ifs with hflags
    · apply hplaced _ _ hloop
      rw [if_pos (hall.mpr hflags), hcompleted]
    · apply hplaced _ _ hloop
      rw [if_neg (mt hall.mp hflags), hcompleted]

/-- The next split is asked for. -/
theorem send (h : Placed o dataServer s asked q f t) (hpos : 0 < o.key.length)
    (hle : o.key.length ≤ 252) (hlt : asked < o.numOfSplit) (hin : 0 ∈ t) :
    Placed o dataServer ({ s with
      loops := [⟨o.key, o.value.length, o.splitSize, u32 (asked * o.splitSize + o.splitSize)⟩]
      }.requestSplit cfg dataServer (splitKey o.key (asked * o.splitSize))) (asked + 1)
      (q ++ [asked]) f t := by
  have hoffset := o.mul_splitSize_lt hlt
  have hv := o.length_value
  have hroom := o.room
  have hc := cfg.chunkSize_le
  have hsize : o.splitSize < 2 ^ 24 := by
    have := o.splitSize_add_lt
    omega
  have hne : asked ≠ 0 := by
    have hrange := h.perm.mem_iff.mp (List.mem_append_right (q ++ f) hin)
    exact (List.mem_range.mp hrange).ne'
  have hkey : requestKey o asked = splitKey o.key (asked * o.splitSize) := if_neg hne
  have hsplit := splitKey_eq hle (asked * o.splitSize)
  have hlength : (splitKey o.key (asked * o.splitSize)).length = o.key.length + 3 := by
    rw [hsplit, List.length_append, length_beBytes]
  have htake : (splitKey o.key (asked * o.splitSize)).take o.key.length = o.key := by
    rw [hsplit, List.take_left]
  have hdrop : (splitKey o.key (asked * o.splitSize)).drop o.key.length =
      beBytes 3 (asked * o.splitSize) := by
    rw [hsplit, List.drop_left]
  unfold requestSplit
  rw [if_neg (by omega)]
  dsimp only
  rw [hlength, Nat.add_sub_cancel, htake, hdrop, ofBe_beBytes (by omega),
    o.getSplitIndex_eq (by omega), Nat.mul_div_cancel _ o.splitSize_pos, u32_eq (by omega)]
  constructor
  · dsimp only
    rw [h.requests, List.map_append, List.map_singleton, hkey]
  · exact h.found
  · exact h.stored
  · rw [List.range_succ]
    have hmove : (q ++ [asked] ++ f ++ t).Perm (q ++ f ++ t ++ [asked]) := by
      simp only [List.append_assoc]
      apply List.Perm.append_left
      rw [← List.append_assoc f t]
      exact List.perm_append_comm
    exact hmove.trans (h.perm.append_right _)
  · exact hlt
  · right
    left
    refine ⟨hin, ?_⟩
    rw [Nat.succ_mul]
  · exact h.running
  · exact h.count
  · exact h.answers
  · exact h.pending
  · exact h.buffer

/-- The loop ends. -/
theorem sent (h : Placed o dataServer s asked q f t) (hasked : asked = o.numOfSplit)
    (hin : 0 ∈ t) : Placed o dataServer { s with loops := [] } asked q f t :=
  { h with loopAt := .inr (.inr ⟨hin, rfl, hasked⟩) }

theorem answer (h : Placed o dataServer s asked q f t) {completed : ℕ}
    (hcompleted : s.completed = completed + 1) :
    ∃ b, s.pending = true ∧ s.buffer = some b ∧ b.value = o.value ∧
      Placed o dataServer { s with
        completed
        pending := false
        answers := s.answers ++ [some o.value]
        buffer := none } asked q f t := by
  have hcount := h.count
  have hall : t.length = o.numOfSplit := by
    by_contra hne
    rw [if_neg hne] at hcount
    omega
  rw [if_pos hall] at hcount
  have hanswers : s.answers = [] := List.eq_nil_of_length_eq_zero (by omega)
  have hpending := h.pending.mpr hanswers
  have hone := one_lt_numOfSplit o
  obtain ⟨b, hb, hholds⟩ : ∃ b, s.buffer = some b ∧ HoldsSplits o b t := by
    rcases h.buffer hpending with ⟨-, rfl, -⟩ | hbuffer
    · rw [List.length_nil] at hall
      omega
    · exact hbuffer
  refine ⟨b, hpending, hb, hholds.value_eq ((length_eq_iff h.perm h.asked_le).mp hall), ?_⟩
  constructor
  · exact h.requests
  · exact h.found
  · exact h.stored
  · exact h.perm
  · exact h.asked_le
  · exact h.loopAt
  · exact h.running
  · dsimp only
    rw [if_pos hall, hanswers, List.nil_append, List.length_singleton]
    omega
  · right
    dsimp only
    rw [hanswers, List.nil_append]
  · simp
  · intro hfalse
    exact absurd hfalse Bool.false_ne_true

theorem step (h : Placed o dataServer s asked q f t) (hpos : 0 < o.key.length)
    (hle : o.key.length ≤ 252) (action : GetAction) : ∃ asked q f t,
    Placed o dataServer (s.step cfg dataServer (storedSplits o dataServer) action) asked q f t := by
  cases action with
  | respond j =>
    cases hj : q[j]? with
    | none =>
      have hrequest : s.requests[j]? = none := by
        rw [h.requests, List.getElem?_map, hj]
        rfl
      unfold SplitGet.step
      dsimp only
      rw [hrequest]
      exact ⟨_, _, _, _, h⟩
    | some i =>
      have hi : i < o.numOfSplit := h.lt_of_mem
        (List.mem_append_left _ (List.mem_append_left _ (List.mem_of_getElem? hj)))
      exact ⟨_, _, _, _, h.respond hj (findSplit_requestKey o hpos hle hi)⟩
  | store j =>
    cases hj : f[j]? with
    | none =>
      have hheader : s.found[j]? = none := by
        rw [h.found, List.getElem?_map, hj]
        rfl
      unfold SplitGet.step
      dsimp only
      rw [hheader]
      exact ⟨_, _, _, _, h⟩
    | some i => exact ⟨_, _, _, _, h.store hj⟩
  | send j =>
    unfold SplitGet.step
    dsimp only
    rcases h.loopAt with ⟨hloops, -⟩ | ⟨hin, hloops⟩ | ⟨-, hloops, -⟩
    · rw [hloops]
      exact ⟨_, _, _, _, h⟩
    · rw [hloops]
      cases j with
      | zero =>
        dsimp only [List.getElem?_cons_zero, List.set_cons_zero, List.eraseIdx_cons_zero]
        have hasked := h.asked_le
        have hge := numOfSplit_mul_ge o
        split_ifs with hmore
        · have hlt : asked < o.numOfSplit := by
            by_contra hnot
            have hmul := Nat.mul_le_mul_right o.splitSize (not_lt.mp hnot)
            omega
          exact ⟨_, _, _, _, h.send hpos hle hlt hin⟩
        · have hlast : asked = o.numOfSplit := by
            by_contra hnot
            have hlt := o.mul_splitSize_lt (lt_of_le_of_ne hasked hnot)
            omega
          exact ⟨_, _, _, _, h.sent hlast hin⟩
      | succ j => exact ⟨_, _, _, _, h⟩
    · rw [hloops]
      exact ⟨_, _, _, _, h⟩
  | answer =>
    unfold SplitGet.step
    dsimp only
    cases hcompleted : s.completed with
    | zero => exact ⟨_, _, _, _, h⟩
    | succ completed =>
      obtain ⟨b, hpending, hb, hvalue, hnext⟩ := h.answer hcompleted
      dsimp only
      rw [if_pos hpending, hb]
      unfold respondApplication
      dsimp only
      rw [if_pos hpending, hvalue]
      exact ⟨_, _, _, _, hnext⟩

end Placed

/-! ## Runs -/

variable (o dataServer) in
def Tracked (s : SplitGet) : Prop := ∃ asked q f t, Placed o dataServer s asked q f t

theorem delivered_of_run (hpos : 0 < o.key.length) (hle : o.key.length ≤ 252)
    (actions : List GetAction) :
    (run (step cfg dataServer (storedSplits o dataServer)) (start dataServer o.key)
      actions).Delivered cfg o.key o.value := by
  have hstart : Tracked o dataServer (start dataServer o.key) := ⟨_, _, _, _, start_placed⟩
  have hstep : ∀ s action, Tracked o dataServer s →
      Tracked o dataServer (s.step cfg dataServer (storedSplits o dataServer) action) := by
    rintro s action ⟨asked, q, f, t, h⟩
    exact h.step hpos hle action
  obtain ⟨asked, q, f, t, h⟩ := run_invariant hstart hstep actions
  exact h.delivered

variable (o dataServer) in
/-- The worker of the first split has stored it, and is about to ask for the second one. -/
theorem first_placed : Placed o dataServer (run (step cfg dataServer (storedSplits o dataServer))
      (start dataServer o.key) [.respond 0, .store 0]) 1 [] [] [0] ∧
    (run (step cfg dataServer (storedSplits o dataServer)) (start dataServer o.key)
      [.respond 0, .store 0]).loops = [⟨o.key, o.value.length, o.splitSize, 1 * o.splitSize⟩] := by
  have hone := one_lt_numOfSplit o
  have hstart : Placed o dataServer (start dataServer o.key) 1 [0] [] [] := start_placed
  have hkey : o.findSplit (requestKey o 0) = some 0 := by
    rw [requestKey, if_pos rfl]
    exact o.findSplit_key
  have hrespond := hstart.respond (j := 0) rfl hkey
  have hstore : Placed o dataServer (run (step cfg dataServer (storedSplits o dataServer))
      (start dataServer o.key) [.respond 0, .store 0]) 1 [] [] [0] := hrespond.store (j := 0) rfl
  refine ⟨hstore, ?_⟩
  rcases hstore.loopAt with ⟨-, -, ht⟩ | ⟨-, hloops⟩ | ⟨-, -, hasked⟩
  · exact absurd ht (by simp)
  · exact hloops
  · omega

variable (dataServer) in
/-- The key of the second split does not fit into the key size, so the look-up of its server goes
beyond all bounds. -/
theorem crashed_of_long_key (hlong : 252 < o.key.length) :
    (run (step cfg dataServer (storedSplits o dataServer)) (start dataServer o.key)
      ([.respond 0, .store 0] ++ [.send 0])).crashed = true := by
  obtain ⟨-, hloops⟩ := first_placed o dataServer
  have hlt : 1 * o.splitSize < o.value.length := o.mul_splitSize_lt (one_lt_numOfSplit o)
  have hkey := length_splitKey_lt hlong o.length_key_le (1 * o.splitSize)
  rw [run_append]
  generalize run (step cfg dataServer (storedSplits o dataServer)) (start dataServer o.key)
    [.respond 0, .store 0] = s at hloops ⊢
  have hloop : s.loops[0]? = some ⟨o.key, o.value.length, o.splitSize, 1 * o.splitSize⟩ := by
    rw [hloops]
    rfl
  rw [run_cons, run_nil, step_send_eq hloop, if_pos hlt]
  unfold requestSplit
  rw [if_pos hkey]

/-- The server of the key itself does not find it. -/
theorem answers_of_missing {key : List UInt8} (hmissing : o.findSplit key = none)
    (hrequests : s.requests = [(key, dataServer key 0)]) (hpending : s.pending = true)
    (hanswers : s.answers = []) :
    (s.step cfg dataServer (storedSplits o dataServer) (.respond 0)).answers = [none] ∧
      (s.step cfg dataServer (storedSplits o dataServer) (.respond 0)).requests = [] := by
  have hrequest : s.requests[0]? = some (key, dataServer key 0) := by
    rw [hrequests]
    rfl
  rw [step_respond_eq hrequest]
  unfold handleGetResponse
  rw [findObject_eq_none o dataServer hmissing]
  dsimp only
  rw [if_neg (not_not.mpr rfl)]
  unfold respondApplication
  dsimp only
  rw [if_pos hpending, hrequests, hanswers]
  exact ⟨rfl, rfl⟩

/-- A request for a key that no server finds fails, if need be after another try. -/
theorem failed_of_missing {key : List UInt8} {server : ℕ} (hrequests : s.requests = [(key, server)])
    (hmissing : o.findSplit key = none) (hpending : s.pending = true) (hanswers : s.answers = []) :
    (run (step cfg dataServer (storedSplits o dataServer)) s
      [.respond 0, .respond 0]).answers = [none] := by
  rw [run_cons, run_cons, run_nil]
  by_cases hserver : dataServer key 0 = server
  · subst hserver
    obtain ⟨hnone, hempty⟩ := answers_of_missing hmissing hrequests hpending hanswers
    generalize s.step cfg dataServer (storedSplits o dataServer) (.respond 0) = s' at hnone hempty ⊢
    unfold step
    dsimp only
    rw [hempty]
    exact hnone
  · have hrequest : s.requests[0]? = some (key, server) := by
      rw [hrequests]
      rfl
    rw [step_respond_eq hrequest]
    unfold handleGetResponse
    rw [findObject_eq_none o dataServer hmissing]
    dsimp only
    rw [if_pos hserver, hrequests]
    exact (answers_of_missing (s := { s with requests := [(key, dataServer key 0)] }) hmissing rfl
      hpending hanswers).1

variable (dataServer) in
/-- A server does not look for a split when the key of a request has three bytes. -/
theorem failed_of_empty_key (hempty : o.key.length = 0) :
    (run (step cfg dataServer (storedSplits o dataServer)) (start dataServer o.key)
      ([.respond 0, .store 0] ++ [.send 0, .respond 0, .respond 0])).answers = [none] := by
  obtain ⟨hplaced, hloops⟩ := first_placed o dataServer
  have hone := one_lt_numOfSplit o
  have hlt : 1 * o.splitSize < o.value.length := o.mul_splitSize_lt hone
  have hlength : (splitKey o.key (1 * o.splitSize)).length = 3 := by
    rw [splitKey_eq (by omega), List.length_append, length_beBytes, hempty]
  have hmissing : o.findSplit (splitKey o.key (1 * o.splitSize)) = none :=
    o.findSplit_eq_none (by omega) (by omega)
  have hcount := hplaced.count
  rw [List.length_singleton, if_neg hone.ne] at hcount
  have hrequests : (run (step cfg dataServer (storedSplits o dataServer)) (start dataServer o.key)
      [.respond 0, .store 0]).requests = [] := hplaced.requests
  have hanswers : (run (step cfg dataServer (storedSplits o dataServer)) (start dataServer o.key)
      [.respond 0, .store 0]).answers = [] := List.eq_nil_of_length_eq_zero (by omega)
  have hpending := hplaced.pending.mpr hanswers
  rw [run_append]
  generalize run (step cfg dataServer (storedSplits o dataServer)) (start dataServer o.key)
    [.respond 0, .store 0] = s at hloops hrequests hanswers hpending ⊢
  have hloop : s.loops[0]? = some ⟨o.key, o.value.length, o.splitSize, 1 * o.splitSize⟩ := by
    rw [hloops]
    rfl
  rw [run_cons, step_send_eq hloop, if_pos hlt]
  unfold requestSplit
  dsimp only
  rw [if_neg (by omega), hrequests, List.nil_append]
  exact failed_of_missing (o := o) rfl hmissing hpending hanswers

end SplitGet

/-! ## Keys without room for a split -/

section

variable {dataServer : List UInt8 → ℕ → ℕ} {key value : List UInt8}

/-- The only message of a SET when the split size has wrapped around. -/
def wholeMessage (key value : List UInt8) : KeyValueMessage := ⟨key, value.length, 0, value⟩

/-- A split size that has wrapped around. -/
structure Wrapped (cfg : GlobalConfig) (key value : List UInt8) : Prop where
  large : isLarge cfg key.length value.length = true
  lt_splitSize : value.length < splitSize cfg key.length value.length
  splitSize_lt : splitSize cfg key.length value.length < 2 ^ 32
  value_pos : 0 < value.length

namespace Wrapped

variable (h : Wrapped cfg key value)

include h

theorem numOfSplit_eq : numOfSplit cfg key.length value.length = some 1 := by
  have hlt := h.lt_splitSize
  have hpos := h.value_pos
  unfold numOfSplit
  dsimp only
  rw [if_pos h.large, if_neg (by omega), Nat.div_eq_of_lt hlt, Nat.mod_eq_of_lt hlt,
    if_neg hpos.ne']

theorem generateKeyValueHeader_eq : generateKeyValueHeader key value.length value 0
    (splitSize cfg key.length value.length) = wholeMessage key value := by
  have hlt := h.lt_splitSize
  have hsplit := h.splitSize_lt
  unfold generateKeyValueHeader
  dsimp only
  rw [if_neg (by omega), Nat.zero_add, u32_eq hsplit, if_pos hlt,
    sub32_eq (by omega) (Nat.zero_le _), Nat.sub_zero, List.take_length]
  rfl

theorem handleSetRequest_eq :
    handleSetRequest cfg key value = some [(0, wholeMessage key value)] := by
  have hoffset : getValueOffsetAtSplit cfg key.length value.length 0 = 0 := by
    unfold getValueOffsetAtSplit
    rw [if_pos h.large, Nat.zero_mul]
    rfl
  unfold handleSetRequest
  rw [h.numOfSplit_eq, Option.map_some, List.range_one, List.map_singleton, hoffset]
  dsimp only
  rw [List.drop_zero, h.generateKeyValueHeader_eq]

theorem resGet_eq : resGet cfg (wholeMessage key value) = wholeMessage key value := by
  unfold resGet
  change generateKeyValueHeader key value.length value 0
    (if isLarge cfg key.length value.length then _ else 0) = _
  rw [if_pos h.large]
  exact h.generateKeyValueHeader_eq

theorem findObject_eq (server : ℕ) :
    findObject cfg [(server, wholeMessage key value)] server key =
      some (wholeMessage key value) := by
  have hkey : (wholeMessage key value).mapKey cfg = Key.split key 0 := by
    unfold KeyValueMessage.mapKey wholeMessage
    dsimp only
    rw [if_pos h.large]
  have hplain : Key.plain key ≠ Key.split key 0 :=
    fun heq => absurd (congrArg Key.isLarge heq) Bool.false_ne_true
  unfold findObject lookupKeys
  split_ifs with hlen
  · have hsize : (⟨key.length - 3, true, key, by rw [Key.extent, if_pos rfl]; omega⟩ : Key) ≠
        Key.split key 0 := by
      intro heq
      have hsize := congrArg Key.size heq
      dsimp only [Key.split] at hsize
      omega
    simp [hkey, hplain, hsize]
  · simp [hkey, hplain]

/-- Nobody answers the application when the value is one split: the worker that stores the first
split only asks for the others. -/
theorem not_delivered (dataServer : List UInt8 → ℕ → ℕ) :
    ¬ (run (SplitGet.step cfg dataServer [(dataServer key 0, wholeMessage key value)])
      (SplitGet.start dataServer key) [.respond 0, .store 0, .send 0]).Delivered cfg key value := by
  have hv := h.lt_splitSize
  have hsplit := h.splitSize_lt
  have hpos := h.value_pos
  have hindex : getSplitIndex cfg key.length value.length 0 = (0, true) := by
    unfold getSplitIndex
    rw [if_neg hpos.ne']
    dsimp only
    rw [if_pos h.large, Nat.zero_div]
  have hsize : (if value.length < u32 (0 + splitSize cfg key.length value.length) then
      sub32 value.length 0 else splitSize cfg key.length value.length) = value.length := by
    rw [Nat.zero_add, u32_eq hsplit, if_pos hv, sub32_eq (by omega) (Nat.zero_le _), Nat.sub_zero]
  have hrespond : (SplitGet.start dataServer key).step cfg dataServer
      [(dataServer key 0, wholeMessage key value)] (.respond 0) =
      { SplitGet.start dataServer key with
        requests := []
        buffer := some ⟨[false], List.replicate value.length 0⟩
        found := [wholeMessage key value] } := by
    rw [SplitGet.step_respond_eq (s := SplitGet.start dataServer key) rfl]
    unfold SplitGet.handleGetResponse
    rw [h.findObject_eq]
    dsimp only
    rw [h.resGet_eq]
    have hlarge : isLarge cfg (wholeMessage key value).key.length
        (wholeMessage key value).valueSize = true := h.large
    have hnum : numOfSplit cfg (wholeMessage key value).key.length
        (wholeMessage key value).valueSize = some 1 := h.numOfSplit_eq
    rw [if_pos hlarge, hnum]
    rfl
  obtain ⟨b, hstore⟩ : ∃ b, ((SplitGet.start dataServer key).step cfg dataServer
      [(dataServer key 0, wholeMessage key value)] (.respond 0)).step cfg dataServer
      [(dataServer key 0, wholeMessage key value)] (.store 0) =
      { SplitGet.start dataServer key with
        requests := []
        buffer := some b
        stored := [0]
        loops := [⟨key, value.length, value.length, value.length⟩] } := by
    rw [hrespond, SplitGet.step_store_eq rfl]
    unfold SplitGet.storeSplit wholeMessage
    dsimp only
    rw [hindex, hsize, if_pos rfl]
    exact ⟨_, rfl⟩
  intro hdelivered
  rw [run_cons, run_cons, run_cons, run_nil, hstore, SplitGet.step_send_eq rfl,
    if_neg (lt_irrefl _)] at hdelivered
  have hanswers := hdelivered.finished rfl rfl rfl rfl
  exact absurd hanswers (by simp [SplitGet.start])

end Wrapped

/-- When the rest of a chunk behind the key is no more than a split offset, the split size is zero,
and nothing is set, or it has wrapped around. -/
theorem set_of_no_room (hfit : key.length + 4 ≤ cfg.chunkSize)
    (hroom : cfg.chunkSize ≤ key.length + 7) (hv : value.length < 2 ^ 24)
    (hlarge : cfg.chunkSize < 4 + key.length + value.length) :
    handleSetRequest cfg key value = none ∨ Wrapped cfg key value := by
  have hc := cfg.chunkSize_le
  have hl : isLarge cfg key.length value.length = true := by
    unfold isLarge
    rw [decide_eq_true_eq, u32_eq (by omega)]
    omega
  have hsize : splitSize cfg key.length value.length = sub32 (cfg.chunkSize - 4 - key.length) 3 := by
    unfold splitSize
    rw [if_pos hl, sub32_eq (a := cfg.chunkSize) (by omega) (by omega),
      sub32_eq (a := cfg.chunkSize - 4) (by omega) (by omega)]
  unfold sub32 u32 at hsize
  by_cases hzero : splitSize cfg key.length value.length = 0
  · left
    unfold handleSetRequest numOfSplit
    dsimp only
    rw [if_pos hl, if_pos hzero]
    rfl
  · right
    constructor
    · exact hl
    · omega
    · omega
    · omega

theorem not_setAndGot_of_no_room (dataServer : List UInt8 → ℕ → ℕ)
    (hfit : key.length + 4 ≤ cfg.chunkSize) (hroom : cfg.chunkSize ≤ key.length + 7)
    (hv : value.length < 2 ^ 24) (hlarge : cfg.chunkSize < 4 + key.length + value.length) :
    ¬ SetAndGot cfg dataServer key value := by
  rintro ⟨messages, hset, hrun⟩
  rcases set_of_no_room hfit hroom hv hlarge with hnone | hwrapped
  · exact absurd (hnone.symm.trans hset) (by simp)
  · obtain rfl := Option.some.inj (hwrapped.handleSetRequest_eq.symm.trans hset)
    exact hwrapped.not_delivered dataServer (hrun _)

end

/-! ## Keys with room for a split -/

section

variable (o : LargeObject cfg) (dataServer : List UInt8 → ℕ → ℕ)

/-- A SET leaves the splits at their servers. -/
theorem setAndGot_iff_run : SetAndGot cfg dataServer o.key o.value ↔ ∀ actions,
    (run (SplitGet.step cfg dataServer (SplitGet.storedSplits o dataServer))
      (SplitGet.start dataServer o.key) actions).Delivered cfg o.key o.value := by
  have hmap : ((List.range o.numOfSplit).map fun i => (i, SplitGet.splitMessage o i)).map
      (fun p => (dataServer o.key p.1, p.2)) = SplitGet.storedSplits o dataServer := by
    rw [List.map_map]
    rfl
  unfold SetAndGot
  rw [SplitGet.handleSetRequest_eq]
  constructor
  · rintro ⟨messages, hset, hrun⟩
    obtain rfl := Option.some.inj hset
    rwa [hmap] at hrun
  · intro hrun
    refine ⟨_, rfl, ?_⟩
    rwa [hmap]

theorem setAndGot_of_fits (hpos : 0 < o.key.length) (hle : o.key.length ≤ 252) :
    SetAndGot cfg dataServer o.key o.value :=
  (setAndGot_iff_run o dataServer).mpr (SplitGet.delivered_of_run hpos hle)

theorem not_setAndGot_of_empty_key (hempty : o.key.length = 0) :
    ¬ SetAndGot cfg dataServer o.key o.value := by
  rw [setAndGot_iff_run]
  intro hrun
  have hanswers := SplitGet.failed_of_empty_key dataServer hempty
  rcases (hrun _).once with honce | honce
  · exact absurd (hanswers.symm.trans honce) (by simp)
  · exact absurd (hanswers.symm.trans honce) (by simp)

theorem not_setAndGot_of_long_key (hlong : 252 < o.key.length) :
    ¬ SetAndGot cfg dataServer o.key o.value := by
  rw [setAndGot_iff_run]
  intro hrun
  have hcrashed := SplitGet.crashed_of_long_key dataServer hlong
  exact absurd (hcrashed.symm.trans (hrun _).running) (by simp)

end

/-- For every large value, every placement and every run of a GET: the value comes back as it was
set exactly when the key leaves room for a split in a chunk, has bytes, and has a size that fits into
a byte together with a split offset. -/
theorem setAndGot_iff (dataServer : List UInt8 → ℕ → ℕ) {key value : List UInt8}
    (hkey : key.length ≤ cfg.keySize) (hv : value.length < 2 ^ 24)
    (hlarge : cfg.chunkSize < 4 + key.length + value.length) :
    SetAndGot cfg dataServer key value ↔
      key.length + 7 < cfg.chunkSize ∧ 0 < key.length ∧ key.length ≤ 252 := by
  have hfit := cfg.keySize_add_le
  by_cases hroom : key.length + 7 < cfg.chunkSize
  · let o : LargeObject cfg := ⟨key, value, hkey, hlarge, hv, hroom⟩
    constructor
    · intro h
      refine ⟨hroom, ?_, ?_⟩
      · by_contra hempty
        exact not_setAndGot_of_empty_key o dataServer (Nat.eq_zero_of_not_pos hempty) h
      · by_contra hlong
        exact not_setAndGot_of_long_key o dataServer (not_le.mp hlong) h
    · rintro ⟨-, hpos, hle⟩
      exact setAndGot_of_fits o dataServer hpos hle
  · constructor
    · intro h
      exact absurd h (not_setAndGot_of_no_room dataServer (by omega) (by omega) hv hlarge)
    · exact fun h => absurd h.1 hroom

/-- Chunks of 4096 bytes, and keys of up to 255 bytes. -/
def sampleConfig : GlobalConfig where
  keySize := 255
  chunkSize := 4096
  le_keySize := GlobalConfig.smallest.keySize_le
  keySize_le := le_rfl
  le_chunkSize := by norm_num
  chunkSize_mod := rfl
  keySize_add_le := by norm_num
  chunkSize_le := by norm_num

theorem setAndGot_iff_sample : SetAndGot sampleConfig (fun _ i => i % 4) (List.replicate 8 1)
    (List.replicate 10000 2) := by
  apply (setAndGot_iff (fun _ i => i % 4) _ _ _).mpr
  · rw [List.length_replicate]
    decide
  · rw [List.length_replicate]
    decide
  · rw [List.length_replicate]
    decide
  · rw [List.length_replicate, List.length_replicate]
    decide

/-- A key of 253 bytes. -/
theorem not_setAndGot_sample : ¬ SetAndGot sampleConfig (fun _ i => i % 4) (List.replicate 253 1)
    (List.replicate 10000 2) := by
  let o : LargeObject sampleConfig :=
    { key := List.replicate 253 1
      value := List.replicate 10000 2
      length_key := by
        rw [List.length_replicate]
        decide
      large := by
        rw [List.length_replicate, List.length_replicate]
        decide
      length_value := by
        rw [List.length_replicate]
        decide
      room := by
        rw [List.length_replicate]
        decide }
  apply not_setAndGot_of_long_key o
  rw [List.length_replicate]
  decide

end MemEC.Client
