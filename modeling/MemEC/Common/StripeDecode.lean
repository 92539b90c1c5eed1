import MemEC.Common.EvenOddRestore
import MemEC.Common.RDPRestore

/-!
# Decoding a stripe with any code

`Coding::decode` of RAID-5, RDP and EVENODD. As many chunks of a stripe may be
lost as it has parity chunks.
-/

namespace MemEC.Common

open MemEC.Lib

variable {cfg : GlobalConfig}

namespace Coding

/-- The number of parity chunks of a stripe. -/
def parityChunkCount : Coding cfg → ℕ
  | raid5 _ => 1
  | rdp _ => 2
  | evenOdd _ => 2

/-- `Coding::decode`. -/
def decode : Coding cfg → (ℕ → Memory) → (ℕ → Bool) → Bool × (ℕ → Memory)
  | raid5 k, chunks, bitmap => RAID5Coding.decode cfg (k + 1) chunks bitmap
  | rdp c, chunks, bitmap => c.decode chunks bitmap
  | evenOdd c, chunks, bitmap => EvenOddCoding.decode c chunks bitmap

/-- `Coding::instantiate` has made the coder. -/
def Instantiated : Coding cfg → Prop
  | raid5 _ => True
  | rdp c => ∃ k, ∃ hk : k ≤ 254, RDPCoding.construct cfg k hk = some c
  | evenOdd c => ∃ k, ∃ hk : k ≤ 254, EvenOddCoding.construct cfg k hk = some c

/-- Lost chunks that were cleared come back. -/
theorem decode_stripe {c : Coding cfg} (hc : c.Instantiated) (data chunks : ℕ → Memory)
    (bitmap : ℕ → Bool)
    (h : ∀ i < c.dataChunkCount + c.parityChunkCount, SameChunk cfg (chunks i)
      (if bitmap i then stripeChunk c.encode c.dataChunkCount data i else 0))
    (hpos : 0 < (lostChunks (c.dataChunkCount + c.parityChunkCount) bitmap).length)
    (hle : (lostChunks (c.dataChunkCount + c.parityChunkCount) bitmap).length ≤
      c.parityChunkCount) :
    ∀ i < c.dataChunkCount + c.parityChunkCount, SameChunk cfg ((c.decode chunks bitmap).2 i)
      (stripeChunk c.encode c.dataChunkCount data i) := by
  cases c with
  | raid5 k => exact RAID5Coding.decode_stripe data chunks bitmap h hpos hle
  | rdp c =>
    obtain ⟨k, hk, hconstruct⟩ := hc
    obtain ⟨rfl, hprime, hkp⟩ := RDPCoding.construct_spec hconstruct
    exact (RDPCoding.decode_stripe hprime hkp data chunks bitmap h hle).2
  | evenOdd c =>
    obtain ⟨k, hk, hconstruct⟩ := hc
    obtain ⟨rfl, hprime, hkp, hp⟩ := EvenOddCoding.construct_spec hconstruct
    exact (EvenOddCoding.decode_stripe hprime hp hkp data chunks bitmap h hle).2

end Coding

end MemEC.Common
