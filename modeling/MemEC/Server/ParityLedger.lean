import MemEC.Server.ParityChunkBufferSpec

/-!
# What a parity server has to keep track of

An object is known to a parity server in four ways: not at all, from its SET
alone, from the SEAL_CHUNK request that lists it alone, or from both. Updates
may come for it as soon as it is known. The ledger says for every object in
which phase it is and which changes of it have come, and so what has to be in
the parity by then.

`Tracks` connects the buffer to the ledger. For each message there is a lemma
that the buffer follows the ledger, in whatever order messages come, and
whatever else (`extra`) is in the parity.
-/

namespace MemEC.Server

open MemEC.Lib MemEC.Common KeyValue

variable {cfg : GlobalConfig}

/-- An object at its place in a data chunk. -/
structure Item (cfg : GlobalConfig) where
  stripeId : ℕ
  chunkId : ℕ
  offset : ℕ
  object : Object cfg
deriving DecidableEq

namespace Item

variable (x : Item cfg)

def key : Key := x.object.mapKey

/-- The record that lists the object in a SEAL_CHUNK request. -/
def sealRecord : SealRecord := ⟨x.key, x.offset⟩

/-- The object in an otherwise zero data chunk. -/
def placed : Memory := .place x.offset x.object.bytes

/-- A change of the data chunk of the object, as a change of the stripes. -/
def inject : Memory →+ (ℕ → ℕ → Memory) :=
  (AddMonoidHom.single (fun _ : ℕ => ℕ → Memory) x.stripeId).comp
    (AddMonoidHom.single (fun _ : ℕ => Memory) x.chunkId)

theorem inject_apply (m : Memory) :
    x.inject m = Pi.single x.stripeId (Pi.single x.chunkId m) := rfl

/-- Where the payload of the object starts in the data chunk. -/
def payloadOffset : ℕ := x.offset + (4 + x.object.keyBytes.length)

theorem payloadOffset_add : x.payloadOffset + x.object.payload.length =
    x.offset + x.object.size := by
  have h := x.object.size_eq
  have hk := x.object.length_keyBytes
  unfold payloadOffset
  omega

/-- The UPDATE message for a change of the value. -/
def updateHeader (valueUpdateOffset : ℕ) (valueUpdate : List UInt8) : ChunkKeyValueUpdateHeader where
  stripeId := x.stripeId
  chunkId := x.chunkId
  key := x.key
  valueUpdateOffset := valueUpdateOffset
  chunkUpdateOffset := getChunkUpdateOffset x.offset x.object.key.length valueUpdateOffset
    x.object.isLarge
  valueUpdate := valueUpdate

theorem chunkUpdateOffset_eq {v : ℕ} (hv : v ≤ x.object.payload.length)
    (hfits : x.offset + x.object.size ≤ cfg.chunkSize) :
    getChunkUpdateOffset x.offset x.object.key.length v x.object.isLarge = x.payloadOffset + v := by
  have hk := x.object.length_keyBytes
  have hadd := x.payloadOffset_add
  have hc := cfg.chunkSize_le
  unfold payloadOffset at hadd ⊢
  rw [getChunkUpdateOffset, u32_eq (by omega)]
  omega

/-- What the message changes in an otherwise zero data chunk. -/
def revision (valueUpdateOffset : ℕ) (valueUpdate : List UInt8) : Memory :=
  .place (x.payloadOffset + valueUpdateOffset) valueUpdate

theorem supportedOn_placed : x.placed.SupportedOn x.offset x.object.size :=
  Memory.supportedOn_place _ _

end Item

/-- What a parity server may know of an object. -/
inductive Phase
  | unknown
  | stored
  | awaited
  | folded
deriving DecidableEq

/-- The phase of an object, whether updates of it have come, and what they change in the data
chunk. -/
structure ItemState where
  phase : Phase
  revised : Bool
  delta : Memory

namespace ItemState

variable (x : Item cfg) (st : ItemState)

/-- The SET comes. -/
def arrive : ItemState :=
  match st.phase with
  | .unknown => { st with phase := .stored }
  | .awaited => { st with phase := .folded }
  | _ => st

/-- The SEAL_CHUNK request that lists the object comes. -/
def list : ItemState :=
  match st.phase with
  | .unknown => { st with phase := .awaited }
  | .stored => { st with phase := .folded }
  | _ => st

/-- An update comes. -/
def revise (m : Memory) : ItemState := { st with revised := true, delta := st.delta + m }

/-- What has to be in the parity of the object. -/
def content : Memory :=
  match st.phase with
  | .awaited => st.delta
  | .folded => x.placed + st.delta
  | _ => 0

/-- The object as it has to be stored in `keys`. -/
def record : Memory := .window x.offset 0 x.object.size (x.placed + st.delta)

end ItemState

/-- The state of every object. -/
abbrev Ledger (cfg : GlobalConfig) := Item cfg → ItemState

namespace Ledger

/-- Nothing has come yet. -/
def init : Ledger cfg := fun _ => ⟨.unknown, false, 0⟩

/-- Something comes for an object. -/
def change (l : Ledger cfg) (x : Item cfg) (f : ItemState → ItemState) : Ledger cfg :=
  Function.update l x (f (l x))

@[simp] theorem change_same (l : Ledger cfg) (x : Item cfg) (f : ItemState → ItemState) :
    l.change x f x = f (l x) := Function.update_self _ _ _

theorem change_of_ne (l : Ledger cfg) {x y : Item cfg} (h : y ≠ x) (f : ItemState → ItemState) :
    l.change x f y = l y := Function.update_of_ne h _ _

/-- An update comes. -/
def revise (l : Ledger cfg) (x : Item cfg) (m : Memory) : Ledger cfg :=
  l.change x fun st => st.revise m

/-- A SEAL_CHUNK request that lists these objects comes. -/
def listAll (l : Ledger cfg) (xs : List (Item cfg)) : Ledger cfg :=
  xs.foldl (fun l x => l.change x .list) l

/-- The data of the stripes as far as they have to be in the parity. -/
def data (items : List (Item cfg)) (l : Ledger cfg) : ℕ → ℕ → Memory :=
  (items.map fun x => x.inject ((l x).content x)).sum

theorem data_init (items : List (Item cfg)) : data items init = 0 := by
  refine List.sum_eq_zero fun m hm => ?_
  obtain ⟨x, -, rfl⟩ := List.mem_map.mp hm
  exact map_zero x.inject

theorem data_change {items : List (Item cfg)} {l : Ledger cfg} {x : Item cfg}
    {f : ItemState → ItemState} (hnodup : items.Nodup) (hx : x ∈ items) {m : Memory}
    (hm : (f (l x)).content x = (l x).content x + m) :
    data items (l.change x f) = data items l + x.inject m := by
  have hother : ∀ ys : List (Item cfg), x ∉ ys →
      data ys (l.change x f) = data ys l := by
    intro ys hys
    refine congrArg List.sum (List.map_congr_left fun y hy => ?_)
    have hne : y ≠ x := by
      rintro rfl
      exact hys hy
    rw [change_of_ne l hne]
  obtain ⟨as, bs, rfl⟩ := List.append_of_mem hx
  have hsplit : ∀ l : Ledger cfg, data (as ++ x :: bs) l =
      data as l + (x.inject ((l x).content x) + data bs l) := by
    intro l
    simp only [data, List.map_append, List.map_cons, List.sum_append, List.sum_cons]
  obtain ⟨-, hbs, hdisj⟩ := List.nodup_append.mp hnodup
  have has : x ∉ as := fun h => hdisj x h x List.mem_cons_self rfl
  rw [hsplit, hsplit, hother as has, hother bs (List.nodup_cons.mp hbs).1, change_same, hm,
    map_add]
  abel

end Ledger

/-- The buffer knows of the object what the ledger says. An update that comes for an object in the
parity leaves a pending request behind. -/
def Agrees (b : ParityChunkBuffer cfg) (x : Item cfg) (st : ItemState) : Prop :=
  match st.phase with
  | .unknown => b.keys.find x.key = none ∧ b.pending.find x.key = none ∧
      b.folded.count x.key = 0 ∧ st.delta = 0
  | .stored => b.keys.find x.key = some (st.record x) ∧ b.pending.find x.key = none ∧
      b.folded.count x.key = 0 ∧
      st.delta.SupportedOn x.payloadOffset x.object.payload.length
  | .awaited => b.keys.find x.key = none ∧
      b.pending.find x.key = some (.prtSeal x.stripeId x.offset) ∧ b.folded.count x.key = 0
  | .folded => b.keys.find x.key = none ∧ (b.pending.find x.key = none ∨
      st.revised = true ∧ ∃ offset length buf,
        b.pending.find x.key = some (.prtUpdate offset length buf)) ∧ b.folded.count x.key = 1

theorem Agrees.congr {b b' : ParityChunkBuffer cfg} {x : Item cfg} {st : ItemState}
    (h : Agrees b x st) (hk : b'.keys.find x.key = b.keys.find x.key)
    (hp : b'.pending.find x.key = b.pending.find x.key)
    (hf : b'.folded.count x.key = b.folded.count x.key) : Agrees b' x st := by
  unfold Agrees at h ⊢
  rw [hk, hp, hf]
  exact h

/-- The objects fit at their places, and the maps of the server tell their keys apart. -/
structure Catalogued (c : Coding cfg) (items : List (Item cfg)) : Prop where
  idents : (items.map fun x => x.key.ident).Nodup
  fits : ∀ x ∈ items, x.offset + x.object.size ≤ cfg.chunkSize
  chunkId_lt : ∀ x ∈ items, x.chunkId < c.dataChunkCount

namespace Catalogued

variable {c : Coding cfg} {items : List (Item cfg)} {x y : Item cfg}

theorem nodup (h : Catalogued c items) : items.Nodup := List.Nodup.of_map _ h.idents

theorem ident_ne (h : Catalogued c items) (hx : x ∈ items) (hy : y ∈ items) (hne : y ≠ x) :
    y.key.ident ≠ x.key.ident :=
  fun hi => hne (List.inj_on_of_nodup_map h.idents hy hx hi)

end Catalogued

/-- The buffer follows the ledger, and its parity chunks are those of `data`. -/
structure Tracks (c : Coding cfg) (chunkId : ℕ) (items : List (Item cfg)) (l : Ledger cfg)
    (data : ℕ → ℕ → Memory) (b : ParityChunkBuffer cfg) : Prop where
  coding : b.coding = c
  chunkId : b.chunkId = chunkId
  agrees : ∀ x ∈ items, Agrees b x (l x)
  encodes : b.Encodes data

namespace Tracks

variable {c : Coding cfg} {chunkId : ℕ} {items : List (Item cfg)} {l : Ledger cfg}
  {data : ℕ → ℕ → Memory} {b b' : ParityChunkBuffer cfg} {x : Item cfg}

/-- A step that touches one object only. -/
theorem change (h : Tracks c chunkId items l data b) (hc : Catalogued c items) (hx : x ∈ items)
    {data' : ℕ → ℕ → Memory} (f : ItemState → ItemState) (hcoding : b'.coding = b.coding)
    (hid : b'.chunkId = b.chunkId)
    (hk : ∀ k : Key, k.ident ≠ x.key.ident → b'.keys.find k = b.keys.find k)
    (hp : ∀ k : Key, k.ident ≠ x.key.ident → b'.pending.find k = b.pending.find k)
    (hf : ∀ k : Key, k.ident ≠ x.key.ident → b'.folded.count k = b.folded.count k)
    (hself : Agrees b' x (f (l x))) (hencodes : b'.Encodes data') :
    Tracks c chunkId items (l.change x f) data' b' where
  coding := hcoding.trans h.coding
  chunkId := hid.trans h.chunkId
  encodes := hencodes
  agrees := by
    intro y hy
    by_cases hyx : y = x
    · subst hyx
      rwa [Ledger.change_same]
    · have hne := hc.ident_ne hx hy hyx
      rw [l.change_of_ne hyx]
      exact (h.agrees y hy).congr (hk _ hne) (hp _ hne) (hf _ hne)

end Tracks

theorem count_concat_of_ne {ks : List Key} {k k' : Key} (h : k.ident ≠ k'.ident) :
    (ks ++ [k']).count k = ks.count k := by
  have hne : k' ≠ k := by
    rintro rfl
    exact h rfl
  rw [List.count_append, List.count_singleton, if_neg (by simpa using hne), Nat.add_zero]

/-- A new object that is not awaited is stored. -/
theorem ItemState.record_new (x : Item cfg) {st : ItemState} (h : st.delta = 0) :
    st.record x = .place 0 x.object.bytes := by
  have hlen : 0 + x.object.bytes.length ≤ x.object.size := by
    rw [Nat.zero_add]
    rfl
  have hw := Memory.window_place x.offset 0 hlen
  rw [ItemState.record, h, add_zero]
  exact hw

/-- A placed object is zero outside the range that the code encodes. -/
theorem Item.placed_of_out (x : Item cfg) (hfits : x.offset + x.object.size ≤ cfg.chunkSize) (i : ℕ)
    (hi : i < cfg.chunkSize) (hout : i < x.offset ∨
      x.offset + u32 (4 + x.object.key.length + x.object.valueSize) ≤ i) : x.placed i = 0 := by
  have hlarge := x.object.isLarge_iff
  have hsz := x.object.size_eq
  have hv := x.object.valueSize_lt
  have hkey := x.object.length_key
  rw [u32_eq (by omega)] at hout
  refine x.supportedOn_placed i ?_
  cases hl : x.object.isLarge with
  | true =>
    have := hlarge.mp hl
    omega
  | false =>
    have := x.object.payload_of_plain hl
    rw [hl] at hsz
    simp only [Bool.false_eq_true, if_false] at hsz
    omega

namespace Tracks

variable {c : Coding cfg} {chunkId : ℕ} {items : List (Item cfg)} {l : Ledger cfg}
  {extra : ℕ → ℕ → Memory} {b : ParityChunkBuffer cfg} {x : Item cfg}

/-- An object that is neither stored nor listed is stored. -/
theorem arrive_unknown (h : Tracks c chunkId items l (l.data items + extra) b)
    (hc : Catalogued c items) (hx : x ∈ items) (hphase : (l x).phase = .unknown) :
    ∃ b', b.handleSetRequest x.object.bytes x.chunkId = some b' ∧
      Tracks c chunkId items (l.change x .arrive) ((l.change x .arrive).data items + extra) b' := by
  have hagrees := h.agrees x hx
  simp only [Agrees, hphase] at hagrees
  obtain ⟨hk, hp, hf, hdelta⟩ := hagrees
  have harrive : (l x).arrive = { l x with phase := .stored } := by
    simp only [ItemState.arrive, hphase]
  have hdata : (l.change x .arrive).data items = l.data items := by
    rw [Ledger.data_change hc.nodup hx (m := 0), map_zero, add_zero]
    simp only [harrive, ItemState.content, hphase, add_zero]
  refine ⟨{ b with keys := b.keys.assign x.key (.place 0 x.object.bytes) }, ?_, ?_⟩
  · have hk' : b.keys.find x.object.mapKey = none := hk
    have hp' : b.pending.find x.object.mapKey = none := hp
    rw [b.handleSetRequest_eq, hk', hp', KeyMap.insertNew_of_none hk']
    rfl
  · rw [hdata]
    refine h.change hc hx .arrive rfl rfl (fun k hne => ?_) (fun _ _ => rfl) (fun _ _ => rfl)
      ?_ h.encodes
    · rw [KeyMap.find_assign, if_neg hne]
    · rw [harrive]
      refine ⟨?_, hp, hf, ?_⟩
      · rw [KeyMap.find_assign, if_pos rfl]
        exact congrArg some (ItemState.record_new x hdelta).symm
      · simp only [hdelta]
        exact Memory.supportedOn_zero _ _

/-- A listed object is folded into the parity at its place. -/
theorem arrive_awaited (h : Tracks c chunkId items l (l.data items + extra) b)
    (hc : Catalogued c items) (hx : x ∈ items) (hphase : (l x).phase = .awaited) :
    ∃ b', b.handleSetRequest x.object.bytes x.chunkId = some b' ∧
      Tracks c chunkId items (l.change x .arrive) ((l.change x .arrive).data items + extra) b' := by
  have hagrees := h.agrees x hx
  simp only [Agrees, hphase] at hagrees
  obtain ⟨hk, hp, hf⟩ := hagrees
  have harrive : (l x).arrive = { l x with phase := .folded } := by
    simp only [ItemState.arrive, hphase]
  have hdata : (l.change x .arrive).data items = l.data items + x.inject x.placed := by
    apply Ledger.data_change hc.nodup hx
    simp only [harrive, ItemState.content, hphase]
    exact add_comm _ _
  set b₁ : ParityChunkBuffer cfg := { b with
    pending := b.pending.eraseKey x.key
    folded := b.folded ++ [x.key] } with hb₁
  have hcoding : b₁.coding = c := h.coding
  have hv := x.object.valueSize_lt
  have hkey := x.object.length_key
  have hfits := hc.fits x hx
  refine ⟨b₁.applyDelta x.stripeId x.chunkId (b₁.coding.parityOf b₁.parityIndex x.chunkId
    x.placed) false true, ?_, ?_⟩
  · have hk' : b.keys.find x.object.mapKey = none := hk
    have hp' : b.pending.find x.object.mapKey = some (.prtSeal x.stripeId x.offset) := hp
    rw [b.handleSetRequest_eq, hk', hp']
    refine ParityChunkBuffer.update_eq _ _ _ ?_ (by omega) ?_ (x.placed_of_out hfits)
    · rw [h.coding]
      exact hc.chunkId_lt x hx
    · rw [u32_eq (by omega)]
      omega
  · rw [hdata, Item.inject_apply, add_right_comm]
    refine h.change hc hx .arrive rfl rfl (fun _ _ => rfl) (fun k hne => ?_) (fun k hne => ?_) ?_
      (ParityChunkBuffer.Encodes.applyDelta (b := b₁) h.encodes _ _ _ _ _)
    · exact (KeyMap.find_eraseKey _ _ _).trans (if_neg hne)
    · exact count_concat_of_ne hne
    · rw [harrive]
      refine ⟨hk, Or.inl ?_, ?_⟩
      · exact (KeyMap.find_eraseKey _ _ _).trans (if_pos rfl)
      · change (b.folded ++ [x.key]).count x.key = 1
        rw [List.count_append, hf, List.count_singleton_self]

/-- The SET of an object that has not come before. -/
theorem arrive (h : Tracks c chunkId items l (l.data items + extra) b) (hc : Catalogued c items)
    (hx : x ∈ items) (hnew : (l x).phase = .unknown ∨ (l x).phase = .awaited) :
    ∃ b', b.handleSetRequest x.object.bytes x.chunkId = some b' ∧
      Tracks c chunkId items (l.change x .arrive) ((l.change x .arrive).data items + extra) b' := by
  rcases hnew with hphase | hphase
  · exact h.arrive_unknown hc hx hphase
  · exact h.arrive_awaited hc hx hphase

end Tracks

/-! ## SEAL_CHUNK -/

/-- A stored object begins with the header and the key of the object. -/
theorem ItemState.holds_record (x : Item cfg) {st : ItemState}
    (h : st.delta.SupportedOn x.payloadOffset x.object.payload.length) :
    (st.record x).Holds 0 (x.object.header ++ x.object.keyBytes) := by
  have hlen : (x.object.header ++ x.object.keyBytes).length = 4 + x.object.keyBytes.length := by
    rw [List.length_append, Object.length_header]
  have hsize : x.object.bytes.length = 4 + x.object.keyBytes.length + x.object.payload.length := by
    rw [Object.bytes, List.length_append, hlen]
  refine Memory.holds_iff.mpr fun j hj => ?_
  have hj' : j < x.object.bytes.length := by omega
  have hzero : st.delta (x.offset + j) = 0 := h _ (by unfold Item.payloadOffset; omega)
  have hbyte : x.placed (x.offset + j) = x.object.bytes[j] := Memory.place_apply hj'
  have hw : st.record x j = (x.placed + st.delta) (x.offset + j) := by
    rw [ItemState.record, Memory.window, if_pos ⟨Nat.zero_le j, by rwa [Nat.zero_add]⟩,
      Nat.sub_zero, Nat.add_comm]
  rw [Nat.zero_add, hw, Memory.add_apply, hzero, UInt8.xor_zero, hbyte]
  exact List.getElem_append_left hj

namespace Tracks

variable {c : Coding cfg} {chunkId : ℕ} {items : List (Item cfg)}

/-- In the loop of `seal`, what is to be added to the parity is in the scratch chunk. -/
structure Sealing (c : Coding cfg) (chunkId : ℕ) (items : List (Item cfg)) (l : Ledger cfg)
    (extra data : ℕ → ℕ → Memory) (sid cid : ℕ) (s : ParityChunkBuffer.SealLoop cfg) : Prop where
  tracks : Tracks c chunkId items l data s.buffer
  data_eq : l.data items + extra = data + Pi.single sid (Pi.single cid s.data)
  support : s.data.SupportedOn 0 s.curPos
  curPos_le : s.curPos ≤ cfg.chunkSize

variable {l : Ledger cfg} {extra data : ℕ → ℕ → Memory} {sid cid : ℕ}
  {s : ParityChunkBuffer.SealLoop cfg} {x : Item cfg}

/-- A record of an object that has not come is kept. -/
theorem Sealing.defer (h : Sealing c chunkId items l extra data sid cid s) (hc : Catalogued c items)
    (hx : x ∈ items) (hs : x.stripeId = sid) (hphase : (l x).phase = .unknown) :
    Sealing c chunkId items (l.change x .list) extra data sid cid
      (ParityChunkBuffer.sealStep sid s x.sealRecord) ∧
      (ParityChunkBuffer.sealStep sid s x.sealRecord).curPos = s.curPos := by
  have hagrees := h.tracks.agrees x hx
  simp only [Agrees, hphase] at hagrees
  obtain ⟨hk, hp, hf, hdelta⟩ := hagrees
  have hlist : (l x).list = { l x with phase := .awaited } := by
    simp only [ItemState.list, hphase]
  have hstep : ParityChunkBuffer.sealStep sid s x.sealRecord =
      { s with
        buffer := { s.buffer with pending := s.buffer.pending.assign x.key (.prtSeal sid x.offset) }
        ret := s.ret } := by
    simp only [ParityChunkBuffer.sealStep, Item.sealRecord, hk, hp, KeyMap.insertNew_of_none hp,
      Option.isNone_none, Bool.and_true]
  rw [hstep]
  refine ⟨⟨?_, ?_, h.support, h.curPos_le⟩, rfl⟩
  · refine h.tracks.change hc hx .list rfl rfl (fun _ _ => rfl) (fun k hne => ?_) (fun _ _ => rfl)
      ?_ h.tracks.encodes
    · rw [KeyMap.find_assign, if_neg hne]
    · rw [hlist]
      refine ⟨hk, ?_, hf⟩
      rw [KeyMap.find_assign, if_pos rfl, hs]
  · rw [Ledger.data_change hc.nodup hx (m := 0), map_zero, add_zero, h.data_eq]
    simp only [hlist, ItemState.content, hphase, hdelta, add_zero]

/-- A stored object is copied to its place in the scratch chunk. -/
theorem Sealing.fold (h : Sealing c chunkId items l extra data sid cid s) (hc : Catalogued c items)
    (hx : x ∈ items) (hs : x.stripeId = sid) (hcid : x.chunkId = cid)
    (hphase : (l x).phase = .stored) (hpos : s.curPos ≤ x.offset) :
    Sealing c chunkId items (l.change x .list) extra data sid cid
      (ParityChunkBuffer.sealStep sid s x.sealRecord) ∧
      (ParityChunkBuffer.sealStep sid s x.sealRecord).curPos = x.offset + x.object.size := by
  have hagrees := h.tracks.agrees x hx
  simp only [Agrees, hphase] at hagrees
  obtain ⟨hk, hp, hf, hsupport⟩ := hagrees
  have hlist : (l x).list = { l x with phase := .folded } := by
    simp only [ItemState.list, hphase]
  have hfits := hc.fits x hx
  have hpay := x.payloadOffset_add
  have hsize : sizeAt cfg ((l x).record x) 0 = x.object.size :=
    Object.sizeAt_of_header (ItemState.holds_record x hsupport)
  have hwhole : (x.placed + (l x).delta).SupportedOn x.offset x.object.size :=
    x.supportedOn_placed.add (hsupport.mono (by unfold Item.payloadOffset; omega) (by omega))
  have hcopy : s.data.copy x.offset ((l x).record x) 0 x.object.size =
      s.data + (x.placed + (l x).delta) := by
    rw [Memory.copy_eq_write, Memory.write_eq_add_place (fun i hi _ => h.support i (by omega))]
    exact congrArg (s.data + ·) hwhole.place_read_window
  have hc24 := cfg.chunkSize_le
  have hstep : ParityChunkBuffer.sealStep sid s x.sealRecord =
      { buffer := { s.buffer with
          keys := s.buffer.keys.eraseKey x.key
          folded := s.buffer.folded ++ [x.key] }
        data := s.data + (x.placed + (l x).delta)
        curPos := x.offset + x.object.size
        ret := s.ret } := by
    simp only [ParityChunkBuffer.sealStep, Item.sealRecord, hk, hp, hsize, hcopy,
      Option.isNone_none, Bool.and_true, u32_eq (show x.offset + x.object.size < 2 ^ 32 by omega)]
  rw [hstep]
  refine ⟨⟨?_, ?_, ?_, hfits⟩, rfl⟩
  · refine h.tracks.change hc hx .list rfl rfl (fun k hne => ?_) (fun _ _ => rfl) (fun k hne => ?_)
      ?_ h.tracks.encodes
    · rw [KeyMap.find_eraseKey, if_neg hne]
    · exact count_concat_of_ne hne
    · rw [hlist]
      refine ⟨?_, Or.inl hp, ?_⟩
      · rw [KeyMap.find_eraseKey, if_pos rfl]
      · rw [List.count_append, hf, List.count_singleton_self]
  · rw [Ledger.data_change hc.nodup hx (m := x.placed + (l x).delta), add_right_comm, h.data_eq,
      x.inject_apply, hs, hcid, add_assoc, ← Pi.single_add, ← Pi.single_add]
    simp only [hlist, ItemState.content, hphase, zero_add]
  · refine (h.support.mono (Nat.zero_le _) ?_).add (hwhole.mono (Nat.zero_le _) ?_)
    · simp only
      omega
    · simp only
      omega

theorem Sealing.step (h : Sealing c chunkId items l extra data sid cid s) (hc : Catalogued c items)
    (hx : x ∈ items) (hs : x.stripeId = sid) (hcid : x.chunkId = cid)
    (hphase : (l x).phase = .unknown ∨ (l x).phase = .stored) (hpos : s.curPos ≤ x.offset) :
    Sealing c chunkId items (l.change x .list) extra data sid cid
      (ParityChunkBuffer.sealStep sid s x.sealRecord) ∧
      (ParityChunkBuffer.sealStep sid s x.sealRecord).curPos ≤ x.offset + x.object.size := by
  rcases hphase with hphase | hphase
  · obtain ⟨h', hcur⟩ := h.defer hc hx hs hphase
    exact ⟨h', by omega⟩
  · obtain ⟨h', hcur⟩ := h.fold hc hx hs hcid hphase hpos
    exact ⟨h', hcur.le⟩

/-- The loop over the records of a chunk, whose objects stand one behind the other. -/
theorem Sealing.loop (h : Sealing c chunkId items l extra data sid cid s) (hc : Catalogued c items)
    {xs : List (Item cfg)} (hxs : ∀ x ∈ xs, x ∈ items ∧ x.stripeId = sid ∧ x.chunkId = cid)
    (hnodup : xs.Nodup) (hphase : ∀ x ∈ xs, (l x).phase = .unknown ∨ (l x).phase = .stored)
    (hpos : ∀ x ∈ xs, s.curPos ≤ x.offset)
    (horder : xs.Pairwise fun x y => x.offset + x.object.size ≤ y.offset) :
    Sealing c chunkId items (l.listAll xs) extra data sid cid
      ((xs.map Item.sealRecord).foldl (ParityChunkBuffer.sealStep sid) s) := by
  induction xs generalizing l s with
  | nil => exact h
  | cons x xs ih =>
    obtain ⟨hx, hs, hcid⟩ := hxs x List.mem_cons_self
    obtain ⟨hnotin, hnodup⟩ := List.nodup_cons.mp hnodup
    obtain ⟨hfirst, horder⟩ := List.pairwise_cons.mp horder
    obtain ⟨h', hcur⟩ := h.step hc hx hs hcid (hphase x List.mem_cons_self)
      (hpos x List.mem_cons_self)
    refine ih h' (fun y hy => hxs y (List.mem_cons_of_mem _ hy)) hnodup (fun y hy => ?_)
      (fun y hy => hcur.trans (hfirst y hy)) horder
    have hne : y ≠ x := by
      rintro rfl
      exact hnotin hy
    simp only [l.change_of_ne hne]
    exact hphase y (List.mem_cons_of_mem _ hy)

/-- The SEAL_CHUNK request of a chunk that has not been sealed before. -/
theorem list {b : ParityChunkBuffer cfg} (h : Tracks c chunkId items l (l.data items + extra) b)
    (hc : Catalogued c items) {request : SealRequest} {xs : List (Item cfg)}
    (hrecords : request.records = xs.map Item.sealRecord) (hcount : request.count = xs.length)
    (hxs : ∀ x ∈ xs, x ∈ items ∧ x.stripeId = request.stripeId ∧ x.chunkId = request.chunkId)
    (hcid : request.chunkId < c.dataChunkCount) (hnodup : xs.Nodup)
    (hphase : ∀ x ∈ xs, (l x).phase = .unknown ∨ (l x).phase = .stored)
    (horder : xs.Pairwise fun x y => x.offset + x.object.size ≤ y.offset) :
    ∃ b', (b.sealChunk request).map Prod.fst = some b' ∧
      Tracks c chunkId items (l.listAll xs) ((l.listAll xs).data items + extra) b' := by
  have hstart : Sealing c chunkId items l extra (l.data items + extra) request.stripeId
      request.chunkId ⟨b, 0, 0, true⟩ := by
    refine ⟨h, ?_, Memory.supportedOn_zero _ _, Nat.zero_le _⟩
    rw [Pi.single_zero, Pi.single_zero, add_zero]
  have hend := hstart.loop hc hxs hnodup hphase (fun _ _ => Nat.zero_le _) horder
  rw [← hrecords] at hend
  set s := request.records.foldl (ParityChunkBuffer.sealStep request.stripeId) ⟨b, 0, 0, true⟩
  have hcoding := hend.tracks.coding
  have hcur := hend.curPos_le
  have hc24 := cfg.chunkSize_le
  have hchunk : request.chunkId < s.buffer.coding.dataChunkCount := by rwa [hcoding]
  have hsize : s.curPos < 2 ^ 24 + 259 := by omega
  have hupdate := ParityChunkBuffer.update_eq request.stripeId true false hchunk
    (Nat.zero_le cfg.chunkSize) hsize (fun i _ hi => hend.support i (by omega))
  refine ⟨s.buffer.applyDelta request.stripeId request.chunkId (s.buffer.coding.parityOf
    s.buffer.parityIndex request.chunkId s.data) true false, ?_, ?_⟩
  · have hlen : request.records.length = request.count := by
      rw [hrecords, List.length_map, hcount]
    simp only [ParityChunkBuffer.sealChunk, if_pos hlen]
    rw [hupdate]
    rfl
  · rw [hend.data_eq]
    refine ⟨hcoding, hend.tracks.chunkId, fun x hx => ?_, ?_⟩
    · exact (hend.tracks.agrees x hx).congr rfl rfl rfl
    · exact hend.tracks.encodes.applyDelta _ _ _ _ _

end Tracks

/-! ## UPDATE -/

/-- An update of the stored object. -/
theorem ItemState.record_revise (x : Item cfg) (st : ItemState) {v : ℕ} {delta : List UInt8}
    (hv : v + delta.length ≤ x.object.payload.length) :
    (st.revise (x.revision v delta)).record x =
      (st.record x).xorInto (4 + x.object.keyBytes.length + v) (.place 0 delta) 0 delta.length := by
  have hadd := x.payloadOffset_add
  have hin : 4 + x.object.keyBytes.length + v + delta.length ≤ x.object.size := by
    unfold Item.payloadOffset at hadd
    omega
  have hmove := Memory.window_place x.offset 0 hin
  have hdelta : Memory.window 0 (4 + x.object.keyBytes.length + v) delta.length (.place 0 delta) =
      .place (4 + x.object.keyBytes.length + v) delta :=
    Memory.window_place 0 _ (Nat.zero_add delta.length).le
  have hoff : x.payloadOffset + v = x.offset + (4 + x.object.keyBytes.length + v) := by
    unfold Item.payloadOffset
    omega
  rw [Memory.xorInto_eq_add]
  calc (st.revise (x.revision v delta)).record x
      = Memory.window x.offset 0 x.object.size
          (x.placed + st.delta + .place (x.payloadOffset + v) delta) := by
        rw [add_assoc]
        rfl
    _ = st.record x + Memory.window x.offset 0 x.object.size
          (.place (x.payloadOffset + v) delta) := Memory.window_add _ _ _ _ _
    _ = st.record x + .place (4 + x.object.keyBytes.length + v) delta := by
        rw [hoff, hmove, Nat.zero_add]
    _ = _ := by
        rw [hdelta]

namespace Tracks

variable {c : Coding cfg} {chunkId : ℕ} {items : List (Item cfg)} {l : Ledger cfg}
  {extra : ℕ → ℕ → Memory} {b : ParityChunkBuffer cfg} {x : Item cfg}

/-- An update of an object that is stored. -/
theorem revise_stored (h : Tracks c chunkId items l (l.data items + extra) b)
    (hc : Catalogued c items) (hx : x ∈ items) (hphase : (l x).phase = .stored) {v : ℕ}
    {delta : List UInt8}
    (hv : v + delta.length ≤ x.object.payload.length) :
    ∃ b', b.handleUpdateRequest (x.updateHeader v delta) = some b' ∧
      Tracks c chunkId items (l.revise x (x.revision v delta))
        ((l.revise x (x.revision v delta)).data items + extra) b' := by
  have hagrees := h.agrees x hx
  simp only [Agrees, hphase] at hagrees
  obtain ⟨hk, hp, hf, hsupport⟩ := hagrees
  have hdata : (l.revise x (x.revision v delta)).data items = l.data items := by
    rw [Ledger.revise, Ledger.data_change hc.nodup hx (m := 0), map_zero, add_zero]
    simp only [ItemState.revise, ItemState.content, hphase, add_zero]
  have hrecord := ItemState.record_revise x (l x) hv
  set record := ((l x).revise (x.revision v delta)).record x
  refine ⟨{ b with keys := b.keys.assign x.key record }, ?_, ?_⟩
  · rw [hrecord]
    exact ParityChunkBuffer.handleUpdateRequest_of_some (o := x.object) rfl hk
  · rw [hdata]
    refine h.change hc hx _ rfl rfl (fun k hne => ?_) (fun _ _ => rfl) (fun _ _ => rfl) ?_
      h.encodes
    · rw [KeyMap.find_assign, if_neg hne]
    · simp only [Agrees, ItemState.revise, hphase]
      refine ⟨?_, hp, hf, ?_⟩
      · rw [KeyMap.find_assign, if_pos rfl]
        rfl
      · refine hsupport.add ((Memory.supportedOn_place _ _).mono (by omega) ?_)
        omega

/-- A delta of an object that has been listed goes to the parity chunk. An update leaves a pending
request behind, unless one is there. -/
theorem revise_chunk (h : Tracks c chunkId items l (l.data items + extra) b)
    (hc : Catalogued c items) (hx : x ∈ items)
    (hphase : (l x).phase = .awaited ∨ (l x).phase = .folded) {b' : ParityChunkBuffer cfg}
    {m : Memory} (hcoding : b'.coding = b.coding) (hid : b'.chunkId = b.chunkId)
    (hkeys : b'.keys = b.keys) (hfolded : b'.folded = b.folded)
    (hpending : b'.pending = b.pending ∨ ∃ offset length buf,
      b'.pending = (b.pending.insertNew x.key (.prtUpdate offset length buf)).1)
    (hencodes : b'.Encodes (l.data items + extra + x.inject m)) :
    Tracks c chunkId items (l.revise x m) ((l.revise x m).data items + extra) b' := by
  have hdata : (l.revise x m).data items = l.data items + x.inject m := by
    apply Ledger.data_change hc.nodup hx
    rcases hphase with hphase | hphase
    · simp only [ItemState.revise, ItemState.content, hphase]
    · simp only [ItemState.revise, ItemState.content, hphase, add_assoc]
  have hagrees := h.agrees x hx
  rw [hdata, add_right_comm]
  refine h.change hc hx _ hcoding hid (fun k _ => by rw [hkeys]) (fun k hne => ?_)
    (fun k _ => by rw [hfolded]) ?_ hencodes
  · rcases hpending with hpending | ⟨offset, length, buf, hpending⟩
    · rw [hpending]
    · rw [hpending, KeyMap.find_insertNew]
      exact if_neg fun hk' => hne hk'.1
  · -- The pending request of the seal stays; one of an update is new or stays.
    rcases hphase with hphase | hphase
    · simp only [Agrees, ItemState.revise, hphase] at hagrees ⊢
      obtain ⟨hk, hp, hf⟩ := hagrees
      refine ⟨by rw [hkeys, hk], ?_, by rw [hfolded, hf]⟩
      rcases hpending with hpending | ⟨offset, length, buf, hpending⟩
      · rw [hpending, hp]
      · rw [hpending]
        exact (congrArg (fun m : KeyMap PendingRequest × Bool => m.1.find x.key)
          (KeyMap.insertNew_of_some hp _)).trans hp
    · simp only [Agrees, ItemState.revise, hphase] at hagrees ⊢
      obtain ⟨hk, hp, hf⟩ := hagrees
      refine ⟨by rw [hkeys, hk], ?_, by rw [hfolded, hf]⟩
      rcases hpending with hpending | ⟨offset, length, buf, hpending⟩
      · rw [hpending]
        exact hp.imp_right fun hp => ⟨trivial, hp.2⟩
      · refine Or.inr ⟨trivial, ?_⟩
        rw [hpending]
        rcases hp with hp | ⟨-, offset', length', buf', hp⟩
        · exact ⟨_, _, _, (KeyMap.find_insertNew _ _ _ _).trans (if_pos ⟨rfl, hp⟩)⟩
        · refine ⟨offset', length', buf', ?_⟩
          exact (congrArg (fun m : KeyMap PendingRequest × Bool => m.1.find x.key)
            (KeyMap.insertNew_of_some hp _)).trans hp

/-- What has been listed is not stored. -/
theorem find_of_listed (h : Tracks c chunkId items l (l.data items + extra) b) (hx : x ∈ items)
    (hphase : (l x).phase = .awaited ∨ (l x).phase = .folded) : b.keys.find x.key = none := by
  have hagrees := h.agrees x hx
  rcases hphase with hphase | hphase
  · simp only [Agrees, hphase] at hagrees
    exact hagrees.1
  · simp only [Agrees, hphase] at hagrees
    exact hagrees.1

/-- An update of an object that has been listed. -/
theorem revise_listed (h : Tracks c chunkId items l (l.data items + extra) b)
    (hc : Catalogued c items) (hx : x ∈ items)
    (hphase : (l x).phase = .awaited ∨ (l x).phase = .folded) {v : ℕ} {delta : List UInt8}
    (hv : v + delta.length ≤ x.object.payload.length) :
    ∃ b', b.handleUpdateRequest (x.updateHeader v delta) = some b' ∧
      Tracks c chunkId items (l.revise x (x.revision v delta))
        ((l.revise x (x.revision v delta)).data items + extra) b' := by
  have hfits := hc.fits x hx
  have hadd := x.payloadOffset_add
  have hoff : (x.updateHeader v delta).chunkUpdateOffset = x.payloadOffset + v :=
    x.chunkUpdateOffset_eq (by omega) hfits
  obtain ⟨b', hb', hcoding, hid, hkeys, hfolded, hpending, hencodes⟩ :=
    ParityChunkBuffer.handleUpdateRequest_eq (x.updateHeader v delta) h.encodes
      (h.find_of_listed hx hphase) (by rw [h.coding]; exact hc.chunkId_lt x hx)
      (by rw [hoff]; simp only [Item.updateHeader]; omega)
  rw [hoff] at hencodes
  exact ⟨b', hb', h.revise_chunk hc hx hphase hcoding hid hkeys hfolded
    (Or.inr ⟨_, _, _, hpending⟩) hencodes⟩

/-- An update of an object of which the server knows. -/
theorem revise (h : Tracks c chunkId items l (l.data items + extra) b) (hc : Catalogued c items)
    (hx : x ∈ items) (hknown : (l x).phase ≠ .unknown) {v : ℕ} {delta : List UInt8}
    (hv : v + delta.length ≤ x.object.payload.length) :
    ∃ b', b.handleUpdateRequest (x.updateHeader v delta) = some b' ∧
      Tracks c chunkId items (l.revise x (x.revision v delta))
        ((l.revise x (x.revision v delta)).data items + extra) b' := by
  cases hphase : (l x).phase with
  | unknown => exact absurd hphase hknown
  | stored => exact h.revise_stored hc hx hphase hv
  | awaited => exact h.revise_listed hc hx (Or.inl hphase) hv
  | folded => exact h.revise_listed hc hx (Or.inr hphase) hv

end Tracks

end MemEC.Server
