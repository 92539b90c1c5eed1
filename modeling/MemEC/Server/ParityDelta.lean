import MemEC.Common.CodingContract
import MemEC.Server.ParityChunkBufferSpec

/-!
# Parity deltas

An update of a data chunk reaches a parity chunk as the code of a stripe that
is zero but for the delta, encoded over the range of the delta alone. The
symbols that the encoder leaves out for the range contribute nothing, and the
XOR of the result with the old parity chunk is the code of the new stripe.
-/

namespace MemEC.Server

open MemEC.Lib MemEC.Common

variable {cfg : GlobalConfig}

/-- The stripe that is zero but for `delta`. -/
def deltaStripe (chunkId offset : ℕ) (delta : List UInt8) : ℕ → Memory :=
  Pi.single chunkId (.place offset delta)

/-- The stripe after `delta` has been XOR-ed into the bytes at `offset` of a data chunk. -/
def updateStripe (data : ℕ → Memory) (chunkId offset : ℕ) (delta : List UInt8) : ℕ → Memory :=
  Function.update data chunkId
    ((data chunkId).xorInto offset (.place 0 delta) 0 delta.length)

theorem updateStripe_eq_add (data : ℕ → Memory) (chunkId offset : ℕ) (delta : List UInt8) :
    updateStripe data chunkId offset delta = data + deltaStripe chunkId offset delta := by
  have hwindow : Memory.window 0 offset delta.length (.place 0 delta) = .place offset delta := by
    have hfits : 0 + delta.length ≤ delta.length := (Nat.zero_add _).le
    have hplace := Memory.window_place 0 offset hfits
    rwa [Nat.add_zero, Nat.add_zero] at hplace
  funext i
  by_cases hi : i = chunkId
  · subst hi
    simp only [updateStripe, deltaStripe, Function.update_self, Pi.add_apply, Pi.single_eq_same]
    rw [Memory.xorInto_eq_add, hwindow]
  · simp only [updateStripe, deltaStripe, Function.update_of_ne hi, Pi.add_apply,
      Pi.single_eq_of_ne hi, add_zero]

namespace ParityChunkBuffer

variable {b : ParityChunkBuffer cfg} {chunkId offset : ℕ} {delta : List UInt8}

/-- The range leaves out nothing that the parity of the delta depends on. -/
theorem encode_deltaStripe (hk : chunkId < b.coding.dataChunkCount)
    (hrange : offset + delta.length ≤ cfg.chunkSize) :
    b.coding.encode (deltaStripe chunkId offset delta) 0 b.parityIndex
        (u32 (offset + chunkId * cfg.chunkSize))
        (u32 (u32 (offset + chunkId * cfg.chunkSize) + delta.length)) =
      b.coding.parity b.parityIndex (deltaStripe chunkId offset delta) := by
  have hc := cfg.chunkSize_le
  have hstart : offset ≤ cfg.chunkSize := by omega
  have hsize : delta.length < 2 ^ 24 + 259 := by omega
  exact b.coding.encode_single hk hstart hsize (fun i _ hi => Memory.place_apply_out hi) _

/-- The XOR of the delta's code with the old parity chunk is the code of the new stripe. -/
theorem updateChunk_encode (stripeId : ℕ) (data : ℕ → Memory)
    (hk : chunkId < b.coding.dataChunkCount) (hrange : offset + delta.length ≤ cfg.chunkSize)
    (hold : SameChunk cfg (b.getWrapper stripeId).chunk
      (b.coding.encode data 0 b.parityIndex 0 0)) :
    b.coding.encode (deltaStripe chunkId offset delta) 0 b.parityIndex
        (u32 (offset + chunkId * cfg.chunkSize))
        (u32 (u32 (offset + chunkId * cfg.chunkSize) + delta.length)) =
      b.coding.encode (deltaStripe chunkId offset delta) 0 b.parityIndex 0 0 ∧
    ∃ b', b.updateChunk stripeId chunkId offset delta false = some b' ∧
      SameChunk cfg (b'.getWrapper stripeId).chunk
        (b.coding.encode (updateStripe data chunkId offset delta) 0 b.parityIndex 0 0) ∧
      ∀ s, s ≠ stripeId → (b'.getWrapper s).chunk = (b.getWrapper s).chunk := by
  have hdelta := encode_deltaStripe (b := b) hk hrange
  constructor
  · exact hdelta
  · simp only [updateChunk, update, Bool.false_and, Bool.false_eq_true, if_false]
    unfold deltaStripe at hdelta
    rw [hdelta]
    refine ⟨_, rfl, fun i hi => ?_, fun s hs => ?_⟩
    · have hnew : b.coding.encode (updateStripe data chunkId offset delta) 0 b.parityIndex 0 0 =
          b.coding.encode data 0 b.parityIndex 0 0 +
            b.coding.parity b.parityIndex (deltaStripe chunkId offset delta) := by
        rw [updateStripe_eq_add]
        exact map_add (b.coding.parity b.parityIndex) _ _
      rw [getWrapper_applyDelta, if_pos rfl, hnew, Memory.add_apply, ← hold i hi]
      simp [Memory.xorInto, hi, deltaStripe]
    · rw [getWrapper_applyDelta, if_neg hs]

/-- RDP over two data chunks of two symbols each. -/
def rdpOfTwo : RDPCoding .smallest := ⟨2, 3, 16, rfl, by norm_num⟩

/-- The buffer of the diagonal parity of one stripe. -/
def diagonalParityOf (data : ℕ → Memory) : ParityChunkBuffer .smallest where
  coding := .rdp rdpOfTwo
  listId := 0
  chunkId := 3
  chunks := AList.singleton 0 ⟨[false, false], rdpOfTwo.encode data 0 2 0 0⟩
  keys := ∅
  pending := ∅
  getChunkBuffer := ∅
  folded := []
  isParity := by decide

/-- An update of three bytes across the two symbols of the second chunk. -/
theorem updateChunk_encode_diagonal :
    ∃ b', (diagonalParityOf fun i => .place i [7, 9]).updateChunk 0 1 15 [1, 2, 3] false =
        some b' ∧
      SameChunk .smallest (b'.getWrapper 0).chunk (rdpOfTwo.encode
        (updateStripe (fun i => .place i [7, 9]) 1 15 [1, 2, 3]) 0 2 0 0) := by
  have hk : 1 < (diagonalParityOf fun i => .place i [7, 9]).coding.dataChunkCount := by decide
  have hrange : 15 + [(1 : UInt8), 2, 3].length ≤ GlobalConfig.smallest.chunkSize := by decide
  obtain ⟨-, b', hb', hsame, -⟩ :=
    updateChunk_encode 0 (fun i => .place i [7, 9]) hk hrange (SameChunk.refl _)
  exact ⟨b', hb', hsame⟩

end ParityChunkBuffer

end MemEC.Server
