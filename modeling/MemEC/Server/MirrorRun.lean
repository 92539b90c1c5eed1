import MemEC.Common.Mirroring
import MemEC.Server.ParityCoder
import MemEC.Server.ParityRun

/-!
# The parity chunks of a mirror

With `RAID1Coding` a parity chunk is to equal the one data chunk of its stripe.
It does so as long as each change of the data chunk that comes is copied as a
whole.
-/

namespace MemEC.Server

open MemEC.Lib MemEC.Common KeyValue

variable {cfg : GlobalConfig}

namespace ParityChunkBuffer

variable (cfg) in
/-- `RAID1Coding` as a coder. -/
def mirrorCoder (data : ℕ → Memory) (parity : Memory) (_index _startOff _endOff : ℕ) : Memory :=
  RAID1Coding.encode cfg data parity

variable (cfg) in
/-- What `update` does to the parity chunk of a stripe. -/
def mirrorDelta (parity : Memory) (stripeId : ℕ) : Option ChunkDelta → Memory
  | some d => if stripeId = d.stripeId then
      parity.xorInto 0 (RAID1Coding.encode cfg (Pi.single d.chunkId d.dataChunk) 0) 0 cfg.chunkSize
    else parity
  | none => parity

/-- A message changes the parity chunks by the change that it brings. -/
theorem handleBy_chunk {b b' : ParityChunkBuffer cfg} {m : Message}
    (h : b.handleBy (mirrorCoder cfg) m = some b') (s : ℕ) : (b'.getWrapper s).chunk =
      mirrorDelta cfg (b.getWrapper s).chunk s (b.deltaOf m) := by
  rcases handleBy_cases h with ⟨hdelta, hsame⟩ | ⟨d, startOff, endOff, hdelta, hsame⟩
  · rw [hsame.getWrapper, hdelta]
    rfl
  · rw [hsame.getWrapper, hdelta, getWrapper_applyDelta, getWrapper_prepared]
    rfl

end ParityChunkBuffer

/-! ## Runs -/

/-- The message is about the data chunk of a stripe, of which a mirror has one. -/
def Message.OnDataChunk : Message → Prop
  | .set _ chunkId => chunkId = 0
  | .update header => header.chunkId = 0
  | .delete _ => True
  | .sealChunk request => request.chunkId = 0

/-- The buffer of a mirror, and what the changes that have come make of the data chunks. -/
structure MirroredStripes (cfg : GlobalConfig) where
  buffer : ParityChunkBuffer cfg
  data : ℕ → Memory

namespace MirroredStripes

open ParityChunkBuffer

/-- A list that nothing has come for. `raid5 1` stands for stripes with one data chunk. -/
def fresh (cfg : GlobalConfig) (listId parity : ℕ) : MirroredStripes cfg :=
  ⟨.fresh (.raid5 1) listId parity, 0⟩

/-- A message comes. -/
def handle (s : MirroredStripes cfg) (m : Message) : Option (MirroredStripes cfg) :=
  (s.buffer.handleBy (mirrorCoder cfg) m).map fun buffer =>
    ⟨buffer, s.data + match s.buffer.deltaOf m with
      | some d => Pi.single d.stripeId d.dataChunk
      | none => 0⟩

/-- Messages come one after the other. -/
def receiveAll (s : MirroredStripes cfg) (ms : List Message) : Option (MirroredStripes cfg) :=
  ms.foldlM handle s

/-- Each parity chunk equals the data chunk of its stripe. -/
def Mirrored (s : MirroredStripes cfg) : Prop :=
  ∀ stripeId, SameChunk cfg (s.buffer.getWrapper stripeId).chunk (s.data stripeId)

/-- The change that the message brings is copied as a whole. -/
def Copies (s : MirroredStripes cfg) (m : Message) : Prop :=
  ∀ d, s.buffer.deltaOf m = some d → RAID1Coding.Copied cfg d.dataChunk

theorem mirrored_fresh (listId parity : ℕ) : (fresh cfg listId parity).Mirrored :=
  fun _ _ _ => rfl

variable {s s' : MirroredStripes cfg} {m : Message}

theorem deltaOf_onDataChunk {b : ParityChunkBuffer cfg} {d : ChunkDelta} (hm : m.OnDataChunk)
    (h : b.deltaOf m = some d) : d.chunkId = 0 := by
  cases m with
  | set body chunkId =>
    simp only [deltaOf] at h
    split at h
    · cases h
    · split_ifs at h
      split at h
      · cases h
        exact hm
      · cases h
  | update header =>
    simp only [deltaOf] at h
    split_ifs at h
    cases h
    exact hm
  | delete key => cases h
  | sealChunk request =>
    cases h
    exact hm

/-- One message leaves the mirror a mirror when nothing of its change lies where the headers in the
change do not reach. -/
theorem mirrored_handle_iff (h : s.Mirrored) (hm : m.OnDataChunk) (hs : s.handle m = some s') :
    s'.Mirrored ↔ ∀ d, s.buffer.deltaOf m = some d →
      ∀ i, ChunkUtil.dataSize cfg d.dataChunk ≤ i → i < cfg.chunkSize → d.dataChunk i = 0 := by
  obtain ⟨buffer, hb, rfl⟩ := Option.map_eq_some_iff.mp hs
  unfold Mirrored
  simp only [handleBy_chunk hb]
  cases hd : s.buffer.deltaOf m with
  | none =>
    refine iff_of_true (fun stripeId => ?_) (fun d hsome => by cases hsome)
    dsimp only [mirrorDelta]
    rw [add_zero]
    exact h stripeId
  | some d =>
    obtain ⟨stripeId, chunkId, dataChunk⟩ := d
    obtain rfl : chunkId = 0 := deltaOf_onDataChunk hm hd
    simp only [Option.some.injEq, forall_eq']
    have hdata : (Pi.single 0 dataChunk : ℕ → Memory) 0 = dataChunk := Pi.single_eq_same ..
    have hcopy : SameChunk cfg (RAID1Coding.encode cfg (Pi.single 0 dataChunk) 0)
        ((Pi.single 0 dataChunk : ℕ → Memory) 0) ↔ _ := RAID1Coding.sameChunk_encode_iff _
    rw [hdata] at hcopy
    rw [← hcopy]
    have hnew : ∀ s₁, (s.data + Pi.single stripeId dataChunk : ℕ → Memory) s₁ =
        s.data s₁ + if s₁ = stripeId then dataChunk else 0 := by
      intro s₁
      rw [Pi.add_apply, Pi.single_apply]
    simp only [hnew]
    -- The other stripes stay as they are.
    have hother : ∀ s₁, s₁ ≠ stripeId →
        SameChunk cfg (mirrorDelta cfg (s.buffer.getWrapper s₁).chunk s₁
          (some ⟨stripeId, 0, dataChunk⟩))
          (s.data s₁ + if s₁ = stripeId then dataChunk else 0) := by
      intro s₁ hne
      rw [if_neg hne, add_zero, mirrorDelta, if_neg hne]
      exact h s₁
    have hsame : SameChunk cfg (mirrorDelta cfg (s.buffer.getWrapper stripeId).chunk stripeId
        (some ⟨stripeId, 0, dataChunk⟩))
          (s.data stripeId + if stripeId = stripeId then dataChunk else 0) ↔
        SameChunk cfg (RAID1Coding.encode cfg (Pi.single 0 dataChunk) 0) dataChunk := by
      rw [if_pos rfl, mirrorDelta, if_pos rfl, Memory.xorInto_eq_add]
      apply forall₂_congr
      intro i hi
      rw [Memory.add_apply, Memory.add_apply, h stripeId i hi, UInt8.xor_right_inj, Memory.window,
        if_pos (by omega), Nat.sub_zero, Nat.add_zero]
    constructor
    · intro hall
      exact hsame.mp (hall stripeId)
    · intro hcopied s₁
      by_cases hs₁ : s₁ = stripeId
      · subst hs₁
        exact hsame.mpr hcopied
      · exact hother s₁ hs₁

theorem mirrored_run (h : s.Mirrored) {ms : List Message} (hms : ∀ m ∈ ms, m.OnDataChunk)
    (hcopies : ∀ as m bs s₁, ms = as ++ m :: bs → s.receiveAll as = some s₁ → s₁.Copies m)
    (hs : s.receiveAll ms = some s') : s'.Mirrored := by
  induction ms generalizing s with
  | nil =>
    cases hs
    exact h
  | cons m ms ih =>
    unfold receiveAll at hs
    rw [List.foldlM_cons] at hs
    obtain ⟨s₁, hfirst, hrest⟩ := Option.bind_eq_some_iff.mp hs
    have hcopied := hcopies [] m ms s rfl rfl
    have h₁ : s₁.Mirrored :=
      (mirrored_handle_iff h (hms m List.mem_cons_self) hfirst).mpr fun d hd => (hcopied d hd).rest
    apply ih h₁ (fun m' hm' => hms m' (List.mem_cons_of_mem m hm')) ?_ hrest
    intro as m' bs s₂ hsplit has
    apply hcopies (m :: as) m' bs s₂ (by rw [hsplit]; rfl)
    unfold receiveAll
    rw [List.foldlM_cons, hfirst]
    exact has

/-- The parity chunks of a mirror equal the data chunks in every run each of whose changes is copied
as a whole. -/
theorem mirrored_of_copies (listId parity : ℕ) {ms : List Message}
    (hms : ∀ m ∈ ms, m.OnDataChunk) (hcopies : ∀ as m bs s, ms = as ++ m :: bs →
      (fresh cfg listId parity).receiveAll as = some s → s.Copies m) {s : MirroredStripes cfg}
    (hs : (fresh cfg listId parity).receiveAll ms = some s) : s.Mirrored :=
  mirrored_run (mirrored_fresh listId parity) hms hcopies hs

/-- An object that is stored and then sealed. -/
def setAndSeal : List Message :=
  [.set [1, 0, 0, 1, 107, 118] 0, .sealChunk ⟨0, 0, 0, 1, [1, 0, 0, 0, 0, 0, 107]⟩]

theorem mirrored_of_setAndSeal :
    ∃ s, (fresh .smallest 0 0).receiveAll setAndSeal = some s ∧ s.Mirrored := by
  have hsome : ((fresh .smallest 0 0).receiveAll setAndSeal).isSome = true := by
    decide +kernel
  have hcopied : ((fresh .smallest 0 0).receiveAll (setAndSeal.take 1)).all (fun s =>
      (s.buffer.deltaOf (.sealChunk ⟨0, 0, 0, 1, [1, 0, 0, 0, 0, 0, 107]⟩)).all fun d =>
        decide (RAID1Coding.Copied .smallest d.dataChunk)) = true := by
    decide +kernel
  obtain ⟨s, hs⟩ := Option.isSome_iff_exists.mp hsome
  refine ⟨s, hs, mirrored_of_copies 0 0 ?_ ?_ hs⟩
  · simp [setAndSeal, Message.OnDataChunk]
  · intro as m bs s₁ hsplit has
    rcases as with _ | ⟨m₁, _ | ⟨m₂, as⟩⟩
    · cases hsplit
      cases has
      have hnone : (fresh .smallest 0 0).buffer.deltaOf (.set [1, 0, 0, 1, 107, 118] 0) = none := by
        decide +kernel
      intro d hd
      rw [hnone] at hd
      cases hd
    · cases hsplit
      have has' : (fresh .smallest 0 0).receiveAll (setAndSeal.take 1) = some s₁ := has
      rw [has'] at hcopied
      intro d hd
      rw [Option.all_some, hd, Option.all_some] at hcopied
      exact of_decide_eq_true hcopied
    · have hlen := congrArg List.length hsplit
      simp [setAndSeal] at hlen

/-- A change of one byte of an object that is in the data chunk. -/
def updateByte : Message := .update ⟨0, 0, .plain [107], 0, 8, [1]⟩

/-- The change does not begin with a header, and the parity chunk stays as it was. -/
theorem not_mirrored_of_updateByte : ¬∀ (cfg : GlobalConfig) (listId parity : ℕ)
    (ms : List Message) (s : MirroredStripes cfg), (∀ m ∈ ms, m.OnDataChunk) →
    (fresh cfg listId parity).receiveAll ms = some s → s.Mirrored := by
  intro h
  have hbytes : ((fresh .smallest 0 0).receiveAll [updateByte]).any (fun s =>
      decide ((s.buffer.getWrapper 0).chunk 8 = 0 ∧ s.data 0 8 = 1)) = true := by
    decide +kernel
  obtain ⟨s, hs, hbyte⟩ := (Option.any_eq_true _ _).mp hbytes
  obtain ⟨hparity, hdata⟩ := of_decide_eq_true hbyte
  have hms : ∀ m ∈ [updateByte], m.OnDataChunk := by
    simp [updateByte, Message.OnDataChunk]
  have hsame := h .smallest 0 0 [updateByte] s hms hs 0 8 (by decide)
  rw [hparity, hdata] at hsame
  exact absurd hsame (by decide)

end MirroredStripes

end MemEC.Server
