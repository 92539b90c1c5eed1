import MemEC.Server.GetChunkCollect

/-!
# Reconstructions

From the first request to the decoding. The chunks that a server decodes are
those of one stripe, in which the data chunks marked as sealed are there and
all the others are zero, when its own chunk takes part, no request for a
parity chunk fails and all the parity chunks have sealed the same data chunks.
-/

namespace MemEC.Server

open MemEC.Lib MemEC.Common

variable {cfg : GlobalConfig} {k m : ℕ}

/-- The data chunks of a stripe of which those in `sealed` have been sealed. -/
def sealedData (data : ℕ → Memory) (sealed : ℕ → Bool) (i : ℕ) : Memory :=
  if sealed i then data i else 0

/-- The decoded chunks are those of the stripe of the data chunks that are marked as sealed. -/
def DecodedStripe.Consistent (c : CodingContract cfg k m) (data : ℕ → Memory)
    (stripe : DecodedStripe) : Prop :=
  ∀ i < k + m, SameChunk cfg (stripe.chunks i)
    (stripeChunk c.encode k (sealedData data stripe.trueSeal) i)

/-- The requests a reconstruction begins with: those of `performDegradedRead`, one of which may be
for the server's own chunk, and those of `handleReconstructionRequest`, which come with it. -/
inductive Opened (k m : ℕ) : List ChunkRequest → Prop
  | degraded (chunkIds : List ℕ) (self : Option ℕ) : chunkIds.Nodup → chunkIds.length = k →
      (∀ i ∈ chunkIds, i < k + m) →
      Opened k m (chunkIds.map fun i => ⟨i, none, false, self = some i, none⟩)
  | recovery (chunkIds : List ℕ) (myChunkId : ℕ) (chunk : ChunkRef) :
      (chunkIds ++ [myChunkId]).Nodup → (chunkIds ++ [myChunkId]).length = k →
      (∀ i ∈ chunkIds ++ [myChunkId], i < k + m) →
      Opened k m (chunkIds.map (fun i => ⟨i, none, false, false, none⟩) ++
        [⟨myChunkId, some chunk, false, false, none⟩])

/-- A server answers with its chunk if it is sealed, and with the seal indicators of a parity
chunk. -/
def GetChunkResponse.Truthful (c : CodingContract cfg k m) (data : ℕ → Memory) :
    GetChunkResponse → Prop
  | success chunkId offset bytes sealIndicator =>
    (chunkId < k → bytes ≠ [] → SameChunk cfg (Memory.place offset bytes) (data chunkId)) ∧
    (k ≤ chunkId → sealIndicator.length = k ∧ SameChunk cfg (Memory.place offset bytes)
      (c.encode (sealedData data fun i => sealIndicator.getD i false) 0 (chunkId - k + 1) 0 0))
  | failure _ => True

/-- The server's own chunk, when it is sealed. -/
def OwnTruthful (cfg : GlobalConfig) (data : ℕ → Memory) (own : Option OwnChunk)
    (reqs : List ChunkRequest) : Prop :=
  ∀ q ∈ reqs, q.self = true → ∀ o, own = some o → o.isSealed = true →
    SameChunk cfg (o.backup.getD o.data) (data q.chunkId)

/-- The response is to a request that is pending. -/
def Asked (reqs : List ChunkRequest) (r : GetChunkResponse) : Prop :=
  ∃ q ∈ reqs, q.chunkId = r.chunkId ∧ q.self = false

def ownSealed (own : Option OwnChunk) : Bool := (own.map OwnChunk.isSealed).getD false

/-- Whether chunk `i` counts as sealed: a lost one does. -/
def CountsAsSealed (own : Option OwnChunk) (reqs : List ChunkRequest) (i : ℕ) (isSealed : Bool) :
    Prop :=
  (∀ q ∈ reqs, q.chunkId = i → isSealed = if q.self then ownSealed own else q.isSealed) ∧
    ((∀ q ∈ reqs, q.chunkId ≠ i) → isSealed = true)

/-- The answers fit together: the server's own chunk takes part if a parity chunk holds data, and
what is sealed in one parity chunk is sealed in all of them. -/
structure Settled (k m : ℕ) (own : Option OwnChunk) (answers : List ChunkRequest) : Prop where
  /-- There is a buffer for every chunk to be reconstructed. -/
  room : m ≤ k
  /-- Something is left to be reconstructed. -/
  lost : ∃ i < k + m, (∀ q ∈ answers, q.chunkId ≠ i) ∧
    (i < k → ∀ p ∈ answers, k ≤ p.chunkId → p.seals i = true)
  /-- The server holds a data chunk. -/
  self_data : ∀ q ∈ answers, q.self = true → q.chunkId < k
  self_there : ∀ p ∈ answers, k ≤ p.chunkId → p.HoldsData → ∃ q ∈ answers, q.self = true
  /-- What the parity chunks have sealed of this server is sealed. -/
  self_sealed : ∀ p ∈ answers, k ≤ p.chunkId → p.HoldsData → ∀ q ∈ answers, q.self = true →
    p.seals q.chunkId = true → ownSealed own = true
  agree : ∀ p ∈ answers, k ≤ p.chunkId → ∀ p' ∈ answers, k ≤ p'.chunkId → ∀ i < k,
    p.seals i = p'.seals i
  /-- Parity chunks without data are as the data chunks. -/
  empty : (∀ p ∈ answers, k ≤ p.chunkId → ¬ p.HoldsData) → ∀ p ∈ answers, k ≤ p.chunkId →
    ∀ i < k, CountsAsSealed own answers i (p.seals i)
  /-- A data chunk that is there is known to be sealed. -/
  data_sealed : ∀ q ∈ answers, q.chunkId < k → q.self = false → q.HoldsData → q.isSealed = true

/-- The condition on a response: no request for a parity chunk fails, and when the last chunk is
there, the answers fit together. -/
structure OrderlyResponse (k m : ℕ) (own : Option OwnChunk) (reqs : List ChunkRequest)
    (r : GetChunkResponse) : Prop where
  found : ParityFound k r
  settled : (∀ q ∈ reqs.map (answered k r), q.Answered) → Settled k m own (reqs.map (answered k r))

/-- The states a reconstruction goes through while every response meets the condition. The sealed
data chunks of the stripe are `data`. -/
inductive Gathers (c : CodingContract cfg k m) (data : ℕ → Memory) : GatheringServer → Prop
  | opened (reqs : List ChunkRequest) (trueSeal : ℕ → Bool) : Opened k m reqs →
      Gathers c data ⟨reqs, trueSeal, 0⟩
  | step {s s' : GatheringServer} {own : Option OwnChunk} {r : GetChunkResponse}
      {out : GetChunkOutcome} : Gathers c data s → Asked s.getChunk r → r.Truthful c data →
      OwnTruthful cfg data own s.getChunk → OrderlyResponse k m own s.getChunk r →
      handleGetChunkResponse c own s r = .ok (s', out) → Gathers c data s'

/-! ## What the requests know -/

/-- A request has the chunk it was made for. -/
structure Faithful (c : CodingContract cfg k m) (data : ℕ → Memory) (req : ChunkRequest) :
    Prop where
  zeros : req.chunkId < k → req.chunk = some .zeros → req.isSealed = false
  sealed : req.chunkId < k → req.isSealed = true → ∀ bytes, req.chunk = some (.chunk bytes) →
    SameChunk cfg bytes (data req.chunkId)
  parity : k ≤ req.chunkId → ∀ chunk, req.chunk = some chunk →
    (chunk = .zeros ∨ req.sealIndicator ≠ none) → SameChunk cfg (chunk.content 0)
      (c.encode (sealedData data req.seals) 0 (req.chunkId - k + 1) 0 0)
  row : k ≤ req.chunkId → ∀ row, req.sealIndicator = some row → row.length = k

/-- What holds of the pending requests at any time. -/
structure GatheringServer.Inv (c : CodingContract cfg k m) (data : ℕ → Memory)
    (s : GatheringServer) : Prop where
  distinct : Distinct s.getChunk
  bound : ∀ q ∈ s.getChunk, q.chunkId < k + m
  count : s.getChunk = [] ∨ s.getChunk.length = k
  faithful : ∀ q ∈ s.getChunk, Faithful c data q
  /-- Where the server's own chunk takes part, all the others come with responses. -/
  indicated : (∃ q ∈ s.getChunk, q.self = true) → ∀ p ∈ s.getChunk, k ≤ p.chunkId →
    p.chunk ≠ none → p.sealIndicator ≠ none
  zeros : s.zeros = 0

section Step

variable {c : CodingContract cfg k m} {data : ℕ → Memory}

theorem sealedData_congr {sealed sealed' : ℕ → Bool} (h : ∀ i < k, sealed i = sealed' i) (i : ℕ)
    (hi : i < k) : SameChunk cfg (sealedData data sealed i) (sealedData data sealed' i) := by
  unfold sealedData
  rw [h i hi]
  exact SameChunk.refl _

/-- A request that nothing has been stored in. -/
theorem Faithful.fresh {req : ChunkRequest} (hseal : req.isSealed = false)
    (hrow : req.sealIndicator = none) : Faithful c data req where
  zeros _ _ := hseal
  sealed _ ht := by simp [hseal] at ht
  parity hge chunk hchunk hor := by
    have hz : chunk = .zeros := hor.resolve_right fun hne => hne hrow
    have hnone : sealedData data req.seals = 0 := by
      funext i
      simp [sealedData, ChunkRequest.seals, hrow]
    rw [hz, hnone]
    exact (c.encode_zero _).symm
  row _ row hsome := by simp [hrow] at hsome

theorem Opened.inv {reqs : List ChunkRequest} (h : Opened k m reqs) (trueSeal : ℕ → Bool) :
    GatheringServer.Inv c data ⟨reqs, trueSeal, 0⟩ := by
  cases h with
  | degraded chunkIds self hnodup hlen hlt =>
    constructor
    · apply List.pairwise_map.mpr
      apply List.Pairwise.imp _ hnodup
      intro i j hne
      refine ⟨hne, fun hboth => hne ?_⟩
      simp only [decide_eq_true_eq] at hboth
      exact Option.some.inj (hboth.1.symm.trans hboth.2)
    · simpa using hlt
    · exact Or.inr (by simpa using hlen)
    · intro q hq
      obtain ⟨i, -, rfl⟩ := List.mem_map.mp hq
      exact Faithful.fresh rfl rfl
    · intro _ p hp _ hne
      obtain ⟨i, -, rfl⟩ := List.mem_map.mp hp
      exact absurd rfl hne
    · rfl
  | recovery chunkIds myChunkId chunk hnodup hlen hlt =>
    have hself : ∀ q ∈ chunkIds.map (fun i => (⟨i, none, false, false, none⟩ : ChunkRequest)) ++
        [⟨myChunkId, some chunk, false, false, none⟩],
        q.self = false ∧ q.isSealed = false ∧ q.sealIndicator = none := by
      intro q hq
      rcases List.mem_append.mp hq with hq | hq
      · obtain ⟨i, -, rfl⟩ := List.mem_map.mp hq
        exact ⟨rfl, rfl, rfl⟩
      · rw [List.mem_singleton] at hq
        subst hq
        exact ⟨rfl, rfl, rfl⟩
    constructor
    · have hids : ((chunkIds.map (fun i => (⟨i, none, false, false, none⟩ : ChunkRequest)) ++
          [(⟨myChunkId, some chunk, false, false, none⟩ : ChunkRequest)]).map
            ChunkRequest.chunkId).Nodup := by
        simpa [Function.comp_def] using hnodup
      apply List.Pairwise.imp_of_mem _ (List.pairwise_map.mp hids)
      intro q q' hq _ hne
      refine ⟨hne, fun hboth => ?_⟩
      rw [(hself q hq).1] at hboth
      exact absurd hboth.1 Bool.false_ne_true
    · intro q hq
      rcases List.mem_append.mp hq with hq | hq
      · obtain ⟨i, hi, rfl⟩ := List.mem_map.mp hq
        exact hlt i (List.mem_append_left _ hi)
      · rw [List.mem_singleton] at hq
        subst hq
        exact hlt myChunkId (by simp)
    · exact Or.inr (by simpa using hlen)
    · intro q hq
      exact Faithful.fresh (hself q hq).2.1 (hself q hq).2.2
    · rintro ⟨q, hq, hs⟩
      rw [(hself q hq).1] at hs
      contradiction
    · rfl

/-- A truthful response keeps the request faithful. -/
theorem Faithful.store {req : ChunkRequest} {r : GetChunkResponse} (h : Faithful c data req)
    (htrue : r.Truthful c data) (hfound : ParityFound k r) :
    Faithful c data (answered k r req) := by
  by_cases hid : req.chunkId = r.chunkId
  · cases r with
    | success chunkId offset bytes sealIndicator =>
      have hid' : req.chunkId = chunkId := hid
      subst hid'
      have heq : answered k (.success req.chunkId offset bytes sealIndicator) req =
          { req with
            chunk := some (if bytes.isEmpty then .zeros else .chunk (Memory.place offset bytes))
            isSealed := !bytes.isEmpty
            sealIndicator := if req.chunkId < k then req.sealIndicator else some sealIndicator } :=
        if_pos rfl
      rw [heq]
      constructor
      · intro _ hz
        cases hb : bytes.isEmpty with
        | true => rfl
        | false => simp [hb] at hz
      · intro hlt hs bytes' hc
        have hb : bytes.isEmpty = false := by simpa using hs
        simp only [hb, Bool.false_eq_true, if_false, Option.some.injEq, ChunkRef.chunk.injEq] at hc
        subst hc
        exact htrue.1 hlt (List.isEmpty_eq_false_iff.mp hb)
      · intro hge chunk hc _
        have hseals : ChunkRequest.seals { req with
            chunk := some (if bytes.isEmpty then .zeros else .chunk (Memory.place offset bytes))
            isSealed := !bytes.isEmpty
            sealIndicator := if req.chunkId < k then req.sealIndicator else some sealIndicator } =
            fun i => sealIndicator.getD i false := by
          funext i
          have hge' : ¬ req.chunkId < k := Nat.not_lt.mpr hge
          simp [ChunkRequest.seals, hge']
        rw [hseals]
        have hcontent : chunk.content 0 = Memory.place offset bytes := by
          rw [← Option.some.inj hc]
          cases bytes with
          | nil => exact (Memory.write_nil 0 offset).symm
          | cons byte bytes => rfl
        rw [hcontent]
        exact (htrue.2 hge).2
      · intro hge row hrow
        have hge' : ¬ req.chunkId < k := Nat.not_lt.mpr hge
        simp only [hge', if_false, Option.some.injEq] at hrow
        subst hrow
        exact (htrue.2 hge).1
    | failure chunkId =>
      have hid' : req.chunkId = chunkId := hid
      subst hid'
      have hlt : req.chunkId < k := hfound
      have heq : answered k (.failure req.chunkId) req =
          { req with chunk := some .zeros, isSealed := false } := if_pos rfl
      rw [heq]
      exact ⟨fun _ _ => rfl, fun _ hs => absurd hs Bool.false_ne_true,
        fun hge => absurd hlt (Nat.not_lt.mpr hge), fun hge => absurd hlt (Nat.not_lt.mpr hge)⟩
  · rw [answered_of_ne hid]
    exact h

theorem GatheringServer.Inv.store {s : GatheringServer} {r : GetChunkResponse}
    (h : s.Inv c data) (htrue : r.Truthful c data) (hfound : ParityFound k r)
    (trueSeal : ℕ → Bool) :
    GatheringServer.Inv c data ⟨s.getChunk.map (answered k r), trueSeal, s.zeros⟩ where
  distinct := by
    refine List.pairwise_map.mpr (h.distinct.imp fun {q q'} hd => ?_)
    simpa only [answered_chunkId, answered_self] using hd
  bound q hq := by
    obtain ⟨q', hq', rfl⟩ := List.mem_map.mp hq
    rw [answered_chunkId]
    exact h.bound q' hq'
  count := by
    rcases h.count with hnil | hlen
    · exact Or.inl (by simp [hnil])
    · exact Or.inr (by simpa using hlen)
  faithful q hq := by
    obtain ⟨q', hq', rfl⟩ := List.mem_map.mp hq
    exact (h.faithful q' hq').store htrue hfound
  indicated := by
    rintro ⟨q, hq, hs⟩ p hp hge hne
    obtain ⟨q', hq', rfl⟩ := List.mem_map.mp hq
    obtain ⟨p', hp', rfl⟩ := List.mem_map.mp hp
    rw [answered_self] at hs
    rw [answered_chunkId] at hge
    by_cases hid : p'.chunkId = r.chunkId
    · cases r with
      | success chunkId offset bytes sealIndicator =>
        have hge' : ¬ p'.chunkId < k := Nat.not_lt.mpr hge
        rw [answered, if_pos hid]
        simp [hge']
      | failure chunkId =>
        have hlt : chunkId < k := hfound
        have hid' : p'.chunkId = chunkId := hid
        omega
    · rw [answered_of_ne hid] at hne ⊢
      exact h.indicated ⟨q', hq', hs⟩ p' hp' hge hne
  zeros := h.zeros

/-! ## The last response -/

/-- The parity chunks in the stripe buffer are those of the answers. -/
structure HoldsParities (k : ℕ) (answers : List ChunkRequest) (b : StripeBuffer) : Prop where
  absent : ∀ i, k ≤ i → (∀ q ∈ answers, q.chunkId ≠ i) → b.chunks i = none
  there : ∀ q ∈ answers, k ≤ q.chunkId → b.chunks q.chunkId = q.chunk ∧ q.chunk ≠ none ∧
    b.sealIndicators (q.chunkId - k) = q.sealIndicator

/-- The parity chunks whose answers came with seal indicators. -/
def Indicated (k : ℕ) (answers : List ChunkRequest) : Prop :=
  ∀ p ∈ answers, k ≤ p.chunkId → ∃ row, p.sealIndicator = some row ∧ row.length = k

namespace HoldsParities

variable {answers : List ChunkRequest} {b : StripeBuffer} {j : ℕ}

theorem exists_of_hasParity (h : HoldsParities k answers b) (hp : b.hasParity k j = true) :
    ∃ p ∈ answers, p.chunkId = k + j := by
  by_contra hnone
  push Not at hnone
  unfold StripeBuffer.hasParity at hp
  rw [h.absent (k + j) (Nat.le_add_right _ _) hnone] at hp
  contradiction

theorem holdsParity_iff (h : HoldsParities k answers b) {p : ChunkRequest} (hp : p ∈ answers)
    (hid : p.chunkId = k + j) : b.holdsParity k j = true ↔ p.HoldsData := by
  have hchunk := (h.there p hp (by omega)).1
  unfold StripeBuffer.holdsParity ChunkRequest.HoldsData
  rw [← hid, hchunk]
  cases p.chunk with
  | none => simp
  | some chunk => cases chunk <;> simp

theorem exists_of_holdsParity (h : HoldsParities k answers b) (hj : b.holdsParity k j = true) :
    ∃ p ∈ answers, p.chunkId = k + j ∧ p.HoldsData := by
  obtain ⟨p, hp, hid⟩ := h.exists_of_hasParity (StripeBuffer.hasParity_of_holdsParity hj)
  exact ⟨p, hp, hid, (h.holdsParity_iff hp hid).mp hj⟩

theorem hasParity (h : HoldsParities k answers b) {p : ChunkRequest} (hp : p ∈ answers)
    (hid : p.chunkId = k + j) : b.hasParity k j = true := by
  obtain ⟨hchunk, hne, -⟩ := h.there p hp (by omega)
  unfold StripeBuffer.hasParity
  rw [← hid, hchunk]
  exact Option.isSome_iff_ne_none.mpr hne

theorem sealAt (h : HoldsParities k answers b) {p : ChunkRequest} (hp : p ∈ answers)
    (hid : p.chunkId = k + j) (i : ℕ) : b.sealAt j i = p.seals i := by
  have hrow := (h.there p hp (by omega)).2.2
  rw [hid, Nat.add_sub_cancel_left] at hrow
  unfold StripeBuffer.sealAt ChunkRequest.seals
  rw [hrow]

theorem hasSeals (h : HoldsParities k answers b) (hind : Indicated k answers)
    {p : ChunkRequest} (hp : p ∈ answers) (hid : p.chunkId = k + j) : b.HasSeals k j := by
  obtain ⟨row, hrow, hlen⟩ := hind p hp (by omega)
  have hthere := (h.there p hp (by omega)).2.2
  rw [hid, Nat.add_sub_cancel_left] at hthere
  exact ⟨row, hthere.trans hrow, hlen⟩

/-- A parity chunk that holds data is not there without the server's own chunk. -/
theorem hasSeals_of_holdsParity {own : Option OwnChunk} (h : HoldsParities k answers b)
    (hset : Settled k m own answers)
    (hind : (∃ q ∈ answers, q.self = true) → Indicated k answers) :
    ∀ j < m, b.holdsParity k j = true → b.HasSeals k j := by
  intro j _ hj
  obtain ⟨p, hp, hid, hdata⟩ := h.exists_of_holdsParity hj
  exact h.hasSeals (hind (hset.self_there p hp (by omega) hdata)) hp hid

end HoldsParities

/-- All answers are in the stripe buffer, the server's own chunk as well. -/
structure Gathered (c : CodingContract cfg k m) (data : ℕ → Memory) (own : Option OwnChunk)
    (answers : List ChunkRequest) (b : StripeBuffer) : Prop where
  parities : HoldsParities k answers b
  lost : ∀ i < k, (∀ q ∈ answers, q.chunkId ≠ i) → b.chunks i = none ∧ b.trueSeal i = true
  there : ∀ q ∈ answers, q.chunkId < k → ∃ chunk, b.chunks q.chunkId = some chunk ∧
    SameChunk cfg (chunk.content 0) (sealedData data b.trueSeal q.chunkId)
  trueSeal : ∀ q ∈ answers, q.chunkId < k →
    b.trueSeal q.chunkId = if q.self then ownSealed own else q.isSealed

variable {own : Option OwnChunk} {answers : List ChunkRequest} {b : StripeBuffer}

/-- The pointer to the server's own chunk. -/
def ownChunkRef (own : Option OwnChunk) : ChunkRef :=
  match own with
  | none => .zeros
  | some own => if own.isSealed then .chunk (own.backup.getD own.data) else .zeros

theorem takeOwnChunk_eq {self : ℕ} (hself : b.selfIt = some self) (hlt : self < k) :
    takeOwnChunk k own b = .ok ((b.setTrueSeal self (ownSealed own)).setChunk self
      (ownChunkRef own)) := by
  unfold takeOwnChunk ownSealed ownChunkRef
  rw [hself]
  simp only [if_pos hlt]
  cases own with
  | none => rfl
  | some own =>
    cases ho : own.isSealed <;> simp [ho]

theorem ownChunkRef_content {sealedChunk : Memory} (h : ∀ o, own = some o → o.isSealed = true →
    SameChunk cfg (o.backup.getD o.data) sealedChunk) :
    SameChunk cfg ((ownChunkRef own).content 0) (if ownSealed own then sealedChunk else 0) := by
  cases own with
  | none => exact SameChunk.refl 0
  | some o =>
    cases hs : o.isSealed with
    | false => simpa [ownChunkRef, ownSealed, hs, ChunkRef.content] using SameChunk.refl 0
    | true => simpa [ownChunkRef, ownSealed, hs, ChunkRef.content] using h o rfl hs

theorem Collected.holdsParities (h : Collected k answers b) (hall : ∀ q ∈ answers, q.Answered)
    (hself : ∀ q ∈ answers, q.self = true → q.chunkId < k) :
    HoldsParities k answers (markLost k b) where
  absent i _ hi := h.absent i hi
  there q hq hge := by
    have hf : q.self = false := Bool.eq_false_iff.mpr fun hs => by
      have := hself q hq hs
      omega
    have hne : q.chunk ≠ none := (hall q hq).resolve_left (by simp [hf])
    refine ⟨?_, hne, h.sealIndicator q hq hf hne hge⟩
    have hchunk : b.chunks q.chunkId = q.held := h.chunk q hq
    simp only [ChunkRequest.held, hf, Bool.false_eq_true, if_false] at hchunk
    exact hchunk

/-- The stripe buffer before the server's own chunk is looked at. -/
theorem Collected.markLost_trueSeal (h : Collected k answers b)
    (hall : ∀ q ∈ answers, q.Answered) {q : ChunkRequest} (hq : q ∈ answers)
    (hf : q.self = false) (hlt : q.chunkId < k) :
    (markLost k b).trueSeal q.chunkId = q.isSealed := by
  have hne : q.chunk ≠ none := (hall q hq).resolve_left (by simp [hf])
  have hchunk : b.chunks q.chunkId = q.chunk := by
    simpa [ChunkRequest.held, hf] using h.chunk q hq
  have hsome : (b.chunks q.chunkId).isNone = false := by
    rw [hchunk]
    cases hc : q.chunk with
    | none => exact absurd hc hne
    | some chunk => rfl
  simp only [markLost, hsome, Bool.false_eq_true, and_false, if_false]
  exact h.trueSeal q hq hf hne hlt

/-- The server's own chunk completes the stripe buffer. -/
theorem Collected.gathered (h : Collected k answers b) (hall : ∀ q ∈ answers, q.Answered)
    (hdistinct : Distinct answers) (hfaithful : ∀ q ∈ answers, Faithful c data q)
    (hown : OwnTruthful cfg data own answers) (hset : Settled k m own answers) :
    ∃ b', takeOwnChunk k own (markLost k b) = .ok b' ∧ Gathered c data own answers b' := by
  have hpar := h.holdsParities hall hset.self_data
  -- A data chunk that another server answered with is there as it is marked.
  have hdata : ∀ q ∈ answers, q.self = false → q.chunkId < k → ∃ chunk,
      (markLost k b).chunks q.chunkId = some chunk ∧
        SameChunk cfg (chunk.content 0) (if q.isSealed then data q.chunkId else 0) := by
    intro q hq hf hlt
    have hne : q.chunk ≠ none := (hall q hq).resolve_left (by simp [hf])
    obtain ⟨chunk, hc⟩ := Option.ne_none_iff_exists'.mp hne
    have hchunk : (markLost k b).chunks q.chunkId = q.chunk := by
      have hheld : (markLost k b).chunks q.chunkId = q.held := h.chunk q hq
      simpa [ChunkRequest.held, hf] using hheld
    refine ⟨chunk, hchunk.trans hc, ?_⟩
    cases chunk with
    | zeros =>
      rw [(hfaithful q hq).zeros hlt hc]
      exact SameChunk.refl 0
    | chunk bytes =>
      have hs := hset.data_sealed q hq hlt hf ⟨bytes, hc⟩
      rw [hs, if_pos rfl]
      exact (hfaithful q hq).sealed hlt hs bytes hc
  have hlost : ∀ i < k, (∀ q ∈ answers, q.chunkId ≠ i) →
      (markLost k b).chunks i = none ∧ (markLost k b).trueSeal i = true := by
    intro i hi hne
    have hnone := h.absent i hne
    exact ⟨hnone, by simp [markLost, hi, hnone]⟩
  by_cases hself : ∃ q ∈ answers, q.self = true
  · obtain ⟨o, ho, hos⟩ := hself
    have hlt := hset.self_data o ho hos
    have hsel : (markLost k b).selfIt = some o.chunkId := h.selfIt o ho hos
    refine ⟨_, takeOwnChunk_eq hsel hlt, ?_⟩
    -- Nothing changes for the other chunks.
    have hchunks : ∀ i, i ≠ o.chunkId → (((markLost k b).setTrueSeal o.chunkId
        (ownSealed own)).setChunk o.chunkId (ownChunkRef own)).chunks i =
          (markLost k b).chunks i := fun i hi => Function.update_of_ne hi _ _
    have hseals : ∀ i, i ≠ o.chunkId → (((markLost k b).setTrueSeal o.chunkId
        (ownSealed own)).setChunk o.chunkId (ownChunkRef own)).trueSeal i =
          (markLost k b).trueSeal i := fun i hi => Function.update_of_ne hi _ _
    have hother : ∀ q ∈ answers, q.self = false → q.chunkId ≠ o.chunkId := by
      intro q hq hf
      refine (hdistinct.apart hq ho ?_).1
      rintro rfl
      rw [hos] at hf
      contradiction
    have hone : ∀ q ∈ answers, q.self = true → q = o := by
      intro q hq hs
      by_contra hne
      exact (hdistinct.apart hq ho hne).2 ⟨hs, hos⟩
    constructor
    · constructor
      · intro i hge hi
        rw [hchunks i (by omega)]
        exact hpar.absent i hge hi
      · intro q hq hge
        rw [hchunks _ (by omega)]
        exact hpar.there q hq hge
    · intro i hi hne
      rw [hchunks i (Ne.symm (hne o ho)), hseals i (Ne.symm (hne o ho))]
      exact hlost i hi hne
    · intro q hq hlt'
      cases hf : q.self with
      | false =>
        obtain ⟨chunk, hchunk, hsame⟩ := hdata q hq hf hlt'
        refine ⟨chunk, (hchunks _ (hother q hq hf)).trans hchunk, ?_⟩
        unfold sealedData
        rw [hseals _ (hother q hq hf), h.markLost_trueSeal hall hq hf hlt']
        exact hsame
      | true =>
        rw [hone q hq hf]
        refine ⟨ownChunkRef own, Function.update_self _ _ _, ?_⟩
        unfold sealedData
        rw [StripeBuffer.setChunk_trueSeal]
        simp only [StripeBuffer.setTrueSeal, Function.update_self]
        exact ownChunkRef_content fun own' heq => hown o ho hos own' heq
    · intro q hq hlt'
      cases hf : q.self with
      | false =>
        rw [hseals _ (hother q hq hf), h.markLost_trueSeal hall hq hf hlt']
        rfl
      | true =>
        rw [hone q hq hf]
        exact Function.update_self _ _ _
  · push Not at hself
    have hnone : (markLost k b).selfIt = none := by
      refine h.selfIt_none fun q hq => ?_
      simpa using hself q hq
    refine ⟨markLost k b, by unfold takeOwnChunk; rw [hnone], hpar, hlost, ?_, ?_⟩
    · intro q hq hlt
      have hf : q.self = false := by simpa using hself q hq
      obtain ⟨chunk, hchunk, hsame⟩ := hdata q hq hf hlt
      refine ⟨chunk, hchunk, ?_⟩
      unfold sealedData
      rw [h.markLost_trueSeal hall hq hf hlt]
      exact hsame
    · intro q hq hlt
      have hf : q.self = false := by simpa using hself q hq
      rw [h.markLost_trueSeal hall hq hf hlt, hf]
      rfl

/-- When no chunk is asked for again, the data servers have sealed what the parity chunks have. -/
theorem Collected.askedAgain (h : Collected k answers b) (hall : ∀ q ∈ answers, q.Answered)
    (hdistinct : Distinct answers) (hbound : ∀ q ∈ answers, q.chunkId < k + m)
    (hind : (∃ q ∈ answers, q.self = true) → Indicated k answers)
    (hset : Settled k m own answers) :
    ∃ known again, sealedAtParities k m (markLost k b) = .ok known ∧
      chunksToAskAgain k m (markLost k b) known = .ok again ∧
      (again = [] → ∀ p ∈ answers, k ≤ p.chunkId → p.HoldsData → ∀ q ∈ answers, q.chunkId < k →
        q.self = false → p.seals q.chunkId = true → q.isSealed = true) := by
  have hpar := h.holdsParities hall hset.self_data
  obtain ⟨known, hknown, hiff⟩ :=
    sealedAtParities_spec (hpar.hasSeals_of_holdsParity hset hind)
  have hany : ∀ p ∈ answers, k ≤ p.chunkId → p.HoldsData → ∃ j < m, p.chunkId = k + j ∧
      (markLost k b).holdsParity k j = true := by
    intro p hp hge hdata
    have hlt := hbound p hp
    have hid : p.chunkId = k + (p.chunkId - k) := by omega
    exact ⟨p.chunkId - k, by omega, hid, (hpar.holdsParity_iff hp hid).mpr hdata⟩
  cases hcond : (List.range m).any ((markLost k b).holdsParity k) && decide (0 < k) with
  | false =>
    refine ⟨known, [], hknown, ?_, fun _ p hp hge hdata q hq hlt => ?_⟩
    · unfold chunksToAskAgain
      rw [hcond]
      rfl
    · obtain ⟨j, hj, -, hholds⟩ := hany p hp hge hdata
      have htrue :
          ((List.range m).any ((markLost k b).holdsParity k) && decide (0 < k)) = true := by
        have hpos : 0 < k := by omega
        simp only [Bool.and_eq_true, List.any_eq_true, List.mem_range, decide_eq_true_eq]
        exact ⟨⟨j, hj, hholds⟩, hpos⟩
      rw [hcond] at htrue
      contradiction
  | true =>
    obtain ⟨hsome, -⟩ := Bool.and_eq_true_iff.mp hcond
    obtain ⟨j, -, hj⟩ := List.any_eq_true.mp hsome
    obtain ⟨p, hp, hid, hdata⟩ := hpar.exists_of_holdsParity hj
    obtain ⟨o, ho, hos⟩ := hset.self_there p hp (by omega) hdata
    have hself : (markLost k b).selfIt = some o.chunkId := h.selfIt o ho hos
    refine ⟨known, (List.range k).filter fun i => i ≠ o.chunkId &&
      ((markLost k b).chunks i).isSome && known i && !(markLost k b).trueSeal i, hknown, ?_,
      fun hnil p' hp' hge' hdata' q hq hlt hf hs => ?_⟩
    · unfold chunksToAskAgain
      rw [hcond, hself]
      rfl
    · rw [List.filter_eq_nil_iff] at hnil
      have hq' := hnil q.chunkId (List.mem_range.mpr hlt)
      have hne : q.chunkId ≠ o.chunkId := by
        refine (hdistinct.apart hq ho ?_).1
        rintro rfl
        rw [hos] at hf
        contradiction
      have hthere : ((markLost k b).chunks q.chunkId).isSome = true := by
        have hheld : (markLost k b).chunks q.chunkId = q.held := h.chunk q hq
        rw [hheld, ChunkRequest.held, hf, if_neg Bool.false_ne_true]
        exact Option.isSome_iff_ne_none.mpr ((hall q hq).resolve_left (by simp [hf]))
      obtain ⟨j', hj', hid', hholds'⟩ := hany p' hp' hge' hdata'
      have hkn : known q.chunkId = true := by
        rw [hiff q.chunkId hlt]
        exact ⟨j', hj', hholds', (hpar.sealAt hp' hid' _).trans hs⟩
      rw [← h.markLost_trueSeal hall hq hf hlt]
      simpa [hne, hthere, hkn] using hq'

theorem dropUnsealed_eq_self {sealed : ℕ → Bool} (h : ∀ i < k, sealed i = b.trueSeal i) :
    dropUnsealed k b sealed = b := by
  have hchunks : (dropUnsealed k b sealed).chunks = b.chunks := by
    funext i
    exact if_neg fun hi => hi.2 (h i hi.1)
  have hseals : (dropUnsealed k b sealed).trueSeal = b.trueSeal := by
    funext i
    by_cases hi : i < k
    · exact (if_pos hi).trans (h i hi)
    · exact if_neg hi
  calc dropUnsealed k b sealed = { b with
      chunks := (dropUnsealed k b sealed).chunks
      trueSeal := (dropUnsealed k b sealed).trueSeal } := rfl
    _ = b := by rw [hchunks, hseals]

/-- The data chunks that count as sealed in the end: those the parity chunks have. -/
structure FinalSeals (k : ℕ) (answers : List ChunkRequest) (b : StripeBuffer)
    (sealed : ℕ → Bool) : Prop where
  parity : ∀ p ∈ answers, k ≤ p.chunkId → ∀ i < k, p.seals i = sealed i
  none_there : (∀ p ∈ answers, p.chunkId < k) → ∀ i < k, sealed i = b.trueSeal i
  sealed_of : ∀ i < k, sealed i = true → b.trueSeal i = true

/-- The check of the seal indicators and `forceSeal` leave the data chunks that are sealed in the
parity chunks. -/
theorem Gathered.finalSeals (hg : Gathered c data own answers b)
    (hbound : ∀ q ∈ answers, q.chunkId < k + m)
    (hind : (∃ q ∈ answers, q.self = true) → Indicated k answers)
    (hset : Settled k m own answers)
    (hask : ∀ p ∈ answers, k ≤ p.chunkId → p.HoldsData → ∀ q ∈ answers, q.chunkId < k →
      q.self = false → p.seals q.chunkId = true → q.isSealed = true) :
    ∃ sealed valid, FinalSeals k answers b sealed ∧ sealsAgree k m b = .ok valid ∧
      ((if valid then pure (b, 0) else forceSeal k cfg c.encode m b 0) :
        Except Fault (StripeBuffer × Memory)) = .ok (dropUnsealed k b sealed, 0) := by
  have hpar := hg.parities
  obtain ⟨valid, hvalid, hiff⟩ := sealsAgree_spec (hpar.hasSeals_of_holdsParity hset hind)
  have hthere : ∀ i, (∃ q ∈ answers, q.chunkId = i) ∨ ∀ q ∈ answers, q.chunkId ≠ i := by
    intro i
    by_cases hi : ∃ q ∈ answers, q.chunkId = i
    · exact Or.inl hi
    · exact Or.inr fun q hq hid => hi ⟨q, hq, hid⟩
  by_cases hp0 : ∃ p0 ∈ answers, k ≤ p0.chunkId
  · obtain ⟨p0, hp0, hge0⟩ := hp0
    have hsame : ∀ p ∈ answers, k ≤ p.chunkId → ∀ i < k, p.seals i = p0.seals i :=
      fun p hp hge => hset.agree p hp hge p0 hp0 hge0
    by_cases hholder : ∃ p ∈ answers, k ≤ p.chunkId ∧ p.HoldsData
    · -- A parity chunk that holds data: its indicators are those of the stripe.
      obtain ⟨p, hp, hge, hdata⟩ := hholder
      have hsealed : ∀ i < k, p0.seals i = true → b.trueSeal i = true := by
        intro i hi hs
        rw [← hsame p hp hge i hi] at hs
        rcases hthere i with ⟨q, hq, rfl⟩ | hlost
        · rw [hg.trueSeal q hq hi]
          cases hf : q.self with
          | true => exact hset.self_sealed p hp hge hdata q hq hf hs
          | false => exact hask p hp hge hdata q hq hi hf hs
        · exact (hg.lost i hi hlost).2
      refine ⟨p0.seals, valid, ⟨hsame, fun hall => absurd (hall p0 hp0) (by omega), hsealed⟩,
        hvalid, ?_⟩
      cases hv : valid with
      | true =>
        have hid : p.chunkId = k + (p.chunkId - k) := by omega
        have hlt := hbound p hp
        rw [dropUnsealed_eq_self fun i hi => ?_]
        · rfl
        · rw [← hsame p hp hge i hi, ← hpar.sealAt hp hid i]
          exact hiff.mp hv i hi _ (by omega) ((hpar.holdsParity_iff hp hid).mpr hdata)
      | false =>
        have hindicated := hind (hset.self_there p hp hge hdata)
        have hseal : ParitiesSeal k m b p0.seals := by
          intro j _ hj
          obtain ⟨p', hp', hid'⟩ := hpar.exists_of_hasParity hj
          refine ⟨hpar.hasSeals hindicated hp' hid', fun i hi => ?_⟩
          rw [hpar.sealAt hp' hid' i]
          exact hsame p' hp' (by omega) i hi
        have hlt := hbound p hp
        refine forceSeal_spec hseal ⟨p.chunkId - k, by omega, ?_⟩ hsealed
        exact hpar.hasParity hp (by omega)
    · -- All parity chunks are empty, and known to be as the data chunks.
      have hempty : ∀ i < k, p0.seals i = b.trueSeal i := by
        intro i hi
        obtain ⟨hknown, hlost⟩ := hset.empty (fun p hp hge hdata => hholder ⟨p, hp, hge, hdata⟩)
          p0 hp0 hge0 i hi
        rcases hthere i with ⟨q, hq, rfl⟩ | hnone
        · rw [hg.trueSeal q hq hi]
          exact hknown q hq rfl
        · rw [(hg.lost i hi hnone).2]
          exact hlost hnone
      have hv : valid = true := by
        rw [hiff]
        intro i _ j _ hj
        obtain ⟨p, hp, hid, hdata⟩ := hpar.exists_of_holdsParity hj
        exact absurd ⟨p, hp, by omega, hdata⟩ hholder
      refine ⟨p0.seals, valid, ⟨hsame, fun hall => absurd (hall p0 hp0) (by omega),
        fun i hi hs => (hempty i hi).symm.trans hs⟩, hvalid, ?_⟩
      rw [hv, dropUnsealed_eq_self hempty]
      rfl
  · push Not at hp0
    have hv : valid = true := by
      rw [hiff]
      intro i _ j _ hj
      obtain ⟨p, hp, hid, -⟩ := hpar.exists_of_holdsParity hj
      have := hp0 p hp
      omega
    refine ⟨b.trueSeal, valid, ⟨fun p hp hge => ?_, fun _ _ _ => rfl, fun _ _ ht => ht⟩, hvalid, ?_⟩
    · exact absurd hge (Nat.not_le.mpr (hp0 p hp))
    · rw [hv, dropUnsealed_eq_self fun _ _ => rfl]
      rfl

/-- The lost chunks are those that nobody was asked for. -/
theorem length_lostChunks_le {bitmap : ℕ → Bool} (hlen : answers.length = k)
    (hdistinct : Distinct answers) (hbound : ∀ q ∈ answers, q.chunkId < k + m)
    (hthere : ∀ q ∈ answers, bitmap q.chunkId = true) :
    (lostChunks (k + m) bitmap).length ≤ m := by
  have hids : (answers.map ChunkRequest.chunkId).Nodup :=
    List.pairwise_map.mpr (List.Pairwise.imp (fun hd => hd.1) hdistinct)
  have hnodup : (lostChunks (k + m) bitmap ++ answers.map ChunkRequest.chunkId).Nodup := by
    refine List.Nodup.append (List.nodup_range.filter _) hids fun i hlost hmem => ?_
    obtain ⟨q, hq, rfl⟩ := List.mem_map.mp hmem
    rw [mem_lostChunks, hthere q hq] at hlost
    exact Bool.noConfusion hlost.2
  have hsub : lostChunks (k + m) bitmap ++ answers.map ChunkRequest.chunkId ⊆
      List.range (k + m) := by
    intro i hi
    rw [List.mem_range]
    rcases List.mem_append.mp hi with hlost | hmem
    · exact (mem_lostChunks.mp hlost).1
    · obtain ⟨q, hq, rfl⟩ := List.mem_map.mp hmem
      exact hbound q hq
  have hle := (hnodup.subperm hsub).length_le
  rw [List.length_append, List.length_map, List.length_range, hlen] at hle
  omega

/-- What is decoded is a stripe. -/
theorem Gathered.decode {sealed : ℕ → Bool} (hg : Gathered c data own answers b)
    (hlen : answers.length = k) (hdistinct : Distinct answers)
    (hbound : ∀ q ∈ answers, q.chunkId < k + m)
    (hfaithful : ∀ q ∈ answers, Faithful c data q)
    (hind : (∃ q ∈ answers, q.self = true) → Indicated k answers)
    (hset : Settled k m own answers) (hfinal : FinalSeals k answers b sealed) :
    ∃ stripe, decodeStripe k c (dropUnsealed k b sealed) 0 = .ok stripe ∧
      stripe.Consistent c data := by
  have hseal : ∀ i < k, (dropUnsealed k b sealed).trueSeal i = sealed i := fun i hi => if_pos hi
  have hkeep : ∀ i, ¬ (i < k ∧ sealed i ≠ b.trueSeal i) →
      (dropUnsealed k b sealed).chunks i = b.chunks i := fun i hi => if_neg hi
  have hdrop : ∀ i, i < k ∧ sealed i ≠ b.trueSeal i →
      (dropUnsealed k b sealed).chunks i = some .zeros := fun i hi => if_pos hi
  -- The answered chunks are there, as the stripe has them.
  have hhave : ∀ q ∈ answers, ∃ chunk,
      (dropUnsealed k b sealed).chunks q.chunkId = some chunk ∧ SameChunk cfg (chunk.content 0)
        (stripeChunk c.encode k (sealedData data (dropUnsealed k b sealed).trueSeal)
          q.chunkId) := by
    intro q hq
    by_cases hlt : q.chunkId < k
    · by_cases hne : sealed q.chunkId = b.trueSeal q.chunkId
      · obtain ⟨chunk, hchunk, hsame⟩ := hg.there q hq hlt
        refine ⟨chunk, (hkeep _ fun hi => hi.2 hne).trans hchunk, ?_⟩
        unfold stripeChunk sealedData at *
        rwa [if_pos hlt, hseal _ hlt, hne]
      · have hfalse : sealed q.chunkId = false := by
          by_contra ht
          rw [Bool.not_eq_false] at ht
          exact hne (ht.trans (hfinal.sealed_of _ hlt ht).symm)
        refine ⟨.zeros, hdrop _ ⟨hlt, hne⟩, ?_⟩
        unfold stripeChunk sealedData
        rw [if_pos hlt, hseal _ hlt, hfalse]
        exact SameChunk.refl 0
    · have hge : k ≤ q.chunkId := Nat.not_lt.mp hlt
      obtain ⟨hchunk, hne, -⟩ := hg.parities.there q hq hge
      obtain ⟨chunk, hc⟩ := Option.ne_none_iff_exists'.mp hne
      refine ⟨chunk, (hkeep _ fun hi => hlt hi.1).trans (hchunk.trans hc), ?_⟩
      have hor : chunk = .zeros ∨ q.sealIndicator ≠ none := by
        cases chunk with
        | zeros => exact Or.inl rfl
        | chunk bytes =>
          obtain ⟨row, hrow, -⟩ := hind (hset.self_there q hq hge ⟨bytes, hc⟩) q hq hge
          exact Or.inr (by simp [hrow])
      have hsame := (hfaithful q hq).parity hge chunk hc hor
      have hcongr : c.encode (sealedData data q.seals) 0 (q.chunkId - k + 1) 0 0 =
          c.encode (sealedData data (dropUnsealed k b sealed).trueSeal) 0
            (q.chunkId - k + 1) 0 0 :=
        c.encode_congr (sealedData_congr fun i hi =>
          (hfinal.parity q hq hge i hi).trans (hseal i hi).symm) _
      unfold stripeChunk
      rwa [if_neg hlt, ← hcongr]
  have hnone : ∀ i < k + m, (∀ q ∈ answers, q.chunkId ≠ i) →
      (dropUnsealed k b sealed).chunks i = none ∨
        ((dropUnsealed k b sealed).chunks i = some .zeros ∧ i < k ∧ sealed i = false) := by
    intro i _ hi
    by_cases hlt : i < k
    · obtain ⟨hchunk, htrue⟩ := hg.lost i hlt hi
      by_cases hne : sealed i = b.trueSeal i
      · exact Or.inl ((hkeep i fun h => h.2 hne).trans hchunk)
      · refine Or.inr ⟨hdrop i ⟨hlt, hne⟩, hlt, ?_⟩
        rw [htrue, Bool.not_eq_true] at hne
        exact hne
    · exact Or.inl ((hkeep i fun h => hlt h.1).trans
        (hg.parities.absent i (Nat.not_lt.mp hlt) hi))
  have hlost : 0 < (lostChunks (k + m) fun i =>
      ((dropUnsealed k b sealed).chunks i).isSome).length := by
    obtain ⟨i, hi, hne, hparity⟩ := hset.lost
    refine List.length_pos_of_mem (mem_lostChunks.mpr ⟨hi, ?_⟩)
    rcases hnone i hi hne with hn | ⟨-, hlt, hfalse⟩
    · rw [hn]
      rfl
    · exfalso
      have htrue : sealed i = true := by
        by_cases hp : ∃ p ∈ answers, k ≤ p.chunkId
        · obtain ⟨p, hp, hge⟩ := hp
          exact (hfinal.parity p hp hge i hlt).symm.trans (hparity hlt p hp hge)
        · push Not at hp
          exact (hfinal.none_there hp i hlt).trans (hg.lost i hlt hne).2
      rw [hfalse] at htrue
      contradiction
  have hthere : ∀ q ∈ answers, ((dropUnsealed k b sealed).chunks q.chunkId).isSome = true := by
    intro q hq
    obtain ⟨chunk, hchunk, -⟩ := hhave q hq
    rw [hchunk]
    rfl
  have hle : (lostChunks (k + m) fun i =>
      ((dropUnsealed k b sealed).chunks i).isSome).length ≤ m :=
    length_lostChunks_le hlen hdistinct hbound hthere
  have hroom := hset.room
  unfold decodeStripe
  rw [if_neg (by omega)]
  refine ⟨_, rfl, ?_⟩
  unfold DecodedStripe.Consistent
  refine c.decode_stripe _ _ _ (fun i hi => ?_) hlost hle
  by_cases hq : ∃ q ∈ answers, q.chunkId = i
  · obtain ⟨q, hq, rfl⟩ := hq
    obtain ⟨chunk, hchunk, hsame⟩ := hhave q hq
    simp only [hchunk, Option.map_some, Option.getD_some, Option.isSome_some, if_true]
    exact hsame
  · push Not at hq
    rcases hnone i hi hq with hn | ⟨hz, hlt, hfalse⟩
    · simp only [hn, Option.map_none, Option.getD_none, Option.isSome_none, Bool.false_eq_true,
        if_false]
      exact SameChunk.refl 0
    · simp only [hz, Option.map_some, Option.getD_some, Option.isSome_some, if_true, stripeChunk,
        hlt, sealedData, hseal i hlt, hfalse, Bool.false_eq_true, if_false]
      exact SameChunk.refl 0

theorem GatheringServer.Inv.indicated_of {s : GatheringServer} (h : s.Inv c data)
    (hall : ∀ q ∈ s.getChunk, q.Answered) (hset : Settled k m own s.getChunk) :
    (∃ q ∈ s.getChunk, q.self = true) → Indicated k s.getChunk := by
  intro hself p hp hge
  have hchunk : p.chunk ≠ none := by
    refine (hall p hp).resolve_left fun hs => ?_
    have := hset.self_data p hp hs
    omega
  obtain ⟨row, hrow⟩ := Option.ne_none_iff_exists'.mp (h.indicated hself p hp hge hchunk)
  exact ⟨row, hrow, (h.faithful p hp).row hge row hrow⟩

/-- A response that meets the condition is dealt with, and keeps the invariant. -/
theorem GatheringServer.Inv.handle {s : GatheringServer} {r : GetChunkResponse}
    (h : s.Inv c data) (hasked : Asked s.getChunk r) (htrue : r.Truthful c data)
    (hown : OwnTruthful cfg data own s.getChunk) (hord : OrderlyResponse k m own s.getChunk r) :
    ∃ s' out, handleGetChunkResponse c own s r = .ok (s', out) ∧ s'.Inv c data ∧
      (out = .discarded → False) ∧
      (out = .waiting → ∃ q ∈ s'.getChunk, ¬ q.Answered) ∧
      (∀ stripe, out = .decoded stripe → stripe.Consistent c data) := by
  have hinv := h.store htrue hord.found
  have hself : ∀ req ∈ s.getChunk, req.self = true → req.chunkId ≠ r.chunkId := by
    obtain ⟨q, hq, hid, hf⟩ := hasked
    intro req hreq hs
    rw [← hid]
    refine (h.distinct.apart hreq hq ?_).1
    rintro rfl
    rw [hs] at hf
    contradiction
  have hne : s.getChunk.isEmpty = false := by
    obtain ⟨q, hq, -⟩ := hasked
    rw [List.isEmpty_eq_false_iff]
    exact List.ne_nil_of_mem hq
  have hcollect := collectChunks_eq hord.found hself
    ⟨fun _ => none, fun _ => none, s.trueSeal, 0, none⟩
  have hcol : Collected k (s.getChunk.map (answered k r)) _ :=
    (hinv s.trueSeal).distinct.collected s.trueSeal
  generalize (s.getChunk.map (answered k r)).foldl (recordRequest k)
    ⟨fun _ => none, fun _ => none, s.trueSeal, 0, none⟩ = b at hcollect hcol
  unfold handleGetChunkResponse
  simp only [hne, Bool.false_eq_true, if_false, hcollect, except_ok_bind]
  by_cases hpending : b.pending = 0
  · have hall := hcol.pending.mp hpending
    have hset := hord.settled hall
    have hdistinct := (hinv s.trueSeal).distinct
    have hbound := (hinv s.trueSeal).bound
    have hfaithful := (hinv s.trueSeal).faithful
    have hlen : (s.getChunk.map (answered k r)).length = k := by
      rw [List.length_map]
      refine h.count.resolve_left fun hnil => ?_
      rw [hnil] at hne
      contradiction
    have hind := (hinv s.trueSeal).indicated_of hall hset
    have hown' : OwnTruthful cfg data own (s.getChunk.map (answered k r)) := by
      intro q hq hs
      obtain ⟨q', hq', rfl⟩ := List.mem_map.mp hq
      rw [answered_self] at hs
      rw [answered_chunkId]
      exact hown q' hq' hs
    obtain ⟨known, again, hknown, hagain, hask⟩ :=
      hcol.askedAgain hall hdistinct hbound hind hset
    simp only [hpending, ne_eq, not_true_eq_false, if_false, hknown, hagain, except_ok_bind]
    by_cases hnil : again = []
    · obtain ⟨b', htake, hgathered⟩ := hcol.gathered hall hdistinct hfaithful hown' hset
      obtain ⟨sealed, valid, hfinal, hvalid, hforce⟩ :=
        hgathered.finalSeals hbound hind hset (hask hnil)
      obtain ⟨stripe, hdecode, hconsistent⟩ :=
        hgathered.decode hlen hdistinct hbound hfaithful hind hset hfinal
      refine ⟨⟨[], (dropUnsealed k b' sealed).trueSeal, 0⟩, .decoded stripe, ?_, ?_, by simp,
        by simp, ?_⟩
      · simp only [hnil, not_true_eq_false, if_false, htake, hvalid, except_ok_bind, h.zeros]
        cases valid with
        | true =>
          have hb : (b', (0 : Memory)) = (dropUnsealed k b' sealed, 0) := Except.ok.inj hforce
          have hb' : b' = dropUnsealed k b' sealed := congrArg Prod.fst hb
          rw [← hb'] at hdecode ⊢
          simp only [if_true, pure_bind, hdecode, except_ok_bind]
          rfl
        | false =>
          simp only [Bool.false_eq_true, if_false] at hforce ⊢
          simp only [hforce, except_ok_bind, hdecode]
          rfl
      · exact ⟨List.Pairwise.nil, by simp, Or.inl rfl, by simp, by simp, rfl⟩
      · intro stripe' heq
        cases heq
        exact hconsistent
    · refine ⟨⟨s.getChunk.map (answered k r), (markLost k b).trueSeal, s.zeros⟩,
        .askedAgain again, ?_, hinv _, by simp, by simp, by simp⟩
      simp only [hnil, not_false_eq_true, if_true]
      rfl
  · refine ⟨⟨s.getChunk.map (answered k r), b.trueSeal, s.zeros⟩, .waiting, ?_, hinv _, ?_, ?_, ?_⟩
    · simp only [ne_eq, hpending, not_false_eq_true, if_true]
      rfl
    · simp
    · intro _
      by_contra hnone
      push Not at hnone
      exact hpending (hcol.pending.mpr hnone)
    · simp

theorem Gathers.inv {s : GatheringServer} (h : Gathers c data s) : s.Inv c data := by
  induction h with
  | opened reqs trueSeal hopen => exact hopen.inv trueSeal
  | step _ hasked htrue hown hord hhandle ih =>
    obtain ⟨s', out, hhandle', hinv, -⟩ := ih.handle hasked htrue hown hord
    rw [hhandle, Except.ok.injEq, Prod.mk.injEq] at hhandle'
    rw [hhandle'.1]
    exact hinv

/-- As long as the responses meet the condition, in whatever order they come, each one is dealt
with, the server waits only for chunks that are missing, and what it decodes is consistent. -/
theorem Gathers.handled {s : GatheringServer} {r : GetChunkResponse} (h : Gathers c data s)
    (hasked : Asked s.getChunk r) (htrue : r.Truthful c data)
    (hown : OwnTruthful cfg data own s.getChunk) (hord : OrderlyResponse k m own s.getChunk r) :
    ∃ s' out, handleGetChunkResponse c own s r = .ok (s', out) ∧ Gathers c data s' ∧
      out ≠ .discarded ∧ (out = .waiting → ∃ q ∈ s'.getChunk, ¬ q.Answered) ∧
      ∀ stripe, out = .decoded stripe → stripe.Consistent c data := by
  obtain ⟨s', out, hhandle, -, hkept, hwait, hdecoded⟩ := h.inv.handle hasked htrue hown hord
  exact ⟨s', out, hhandle, h.step hasked htrue hown hord hhandle, hkept, hwait, hdecoded⟩

end Step

/-! ## Two stripes -/

/-- Two data chunks of one byte each. -/
def sampleStripe (i : ℕ) : Memory :=
  if i = 0 then Memory.place 0 [1] else if i = 1 then Memory.place 0 [2] else 0

/-- The parity chunk of both. -/
def sampleParity : GetChunkResponse := .success 2 0 [3] [true, true]

/-- Chunk `0` is lost; chunk `1` is the server's own. -/
def sampleRequests : List ChunkRequest :=
  [1, 2].map fun i => ⟨i, none, false, some 1 = some i, none⟩

def sampleOwn : Option OwnChunk := some ⟨true, Memory.place 0 [2], none⟩

theorem sampleParity_truthful :
    sampleParity.Truthful (RAID5Coding.contract GlobalConfig.smallest 2) sampleStripe := by
  have hsum : ∀ i : Fin 32, (Memory.place 0 [3] i : UInt8) =
      RAID5Coding.encode GlobalConfig.smallest 3
        (sealedData sampleStripe fun i => [true, true].getD i false) 0 i := by
    decide +kernel
  exact ⟨fun hlt => absurd hlt (by decide), fun _ => ⟨rfl, fun i hi => hsum ⟨i, hi⟩⟩⟩

theorem sampleOwn_truthful :
    OwnTruthful GlobalConfig.smallest sampleStripe sampleOwn sampleRequests := by
  intro q hq hs o ho _
  cases ho
  have hid : q.chunkId = 1 := by
    simp only [sampleRequests, List.map_cons, List.map_nil, List.mem_cons, List.not_mem_nil,
      or_false] at hq
    rcases hq with rfl | rfl
    · rfl
    · simp at hs
  rw [hid]
  exact SameChunk.refl _

theorem sampleRequests_orderly : OrderlyResponse 2 1 sampleOwn sampleRequests sampleParity := by
  refine ⟨by simp [ParityFound, sampleParity], fun _ => ?_⟩
  have hanswers : sampleRequests.map (answered 2 sampleParity) =
      [⟨1, none, false, true, none⟩,
        ⟨2, some (.chunk (Memory.place 0 [3])), true, false, some [true, true]⟩] := rfl
  rw [hanswers]
  constructor
  · exact one_le_two
  · exact ⟨0, by simp, by simp, by simp [ChunkRequest.seals]⟩
  · simp
  · simp
  · simp [ownSealed, sampleOwn]
  · simp
  · simp [ChunkRequest.HoldsData]
  · simp

theorem Gathers.handled_sample :
    ∃ s' out, handleGetChunkResponse (RAID5Coding.contract GlobalConfig.smallest 2) sampleOwn
        ⟨sampleRequests, fun _ => false, 0⟩ sampleParity = .ok (s', out) ∧
      Gathers (RAID5Coding.contract GlobalConfig.smallest 2) sampleStripe s' ∧
      out ≠ .discarded ∧ (out = .waiting → ∃ q ∈ s'.getChunk, ¬ q.Answered) ∧
      ∀ stripe, out = .decoded stripe →
        stripe.Consistent (RAID5Coding.contract GlobalConfig.smallest 2) sampleStripe :=
  Gathers.handled (.opened _ _ (.degraded [1, 2] (some 1) (by decide) rfl (by decide)))
    ⟨_, .tail _ (.head _), rfl, rfl⟩ sampleParity_truthful sampleOwn_truthful
    sampleRequests_orderly

/-- In a recovery the server's own chunk is not marked as such, so that a parity chunk that holds
data makes the server follow the end of the pending set. -/
theorem not_handled_of_recovery : ∃ s : GatheringServer,
    Gathers (RAID5Coding.contract GlobalConfig.smallest 2) sampleStripe s ∧
    Asked s.getChunk sampleParity ∧
    sampleParity.Truthful (RAID5Coding.contract GlobalConfig.smallest 2) sampleStripe ∧
    OwnTruthful GlobalConfig.smallest sampleStripe none s.getChunk ∧
    handleGetChunkResponse (RAID5Coding.contract GlobalConfig.smallest 2) none s sampleParity =
      .error .endIterator := by
  refine ⟨⟨_, fun _ => false, 0⟩, .opened _ _ (.recovery [2] 1 (.chunk (Memory.place 0 [2]))
    (by decide) rfl (by decide)), ⟨_, .head _, rfl, rfl⟩, sampleParity_truthful,
    fun _ _ _ o ho => by simp at ho, rfl⟩

end MemEC.Server
