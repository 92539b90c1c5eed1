import MemEC.Server.GetChunkSeals

/-!
# The answers to the requests of a reconstruction

Storing a response changes the request it answers and no other one. The first
loop of the handler then fills the stripe buffer with what each request has,
whatever the order in which the answers came.
-/

namespace MemEC.Server

open MemEC.Lib MemEC.Common

variable (k : ℕ)

/-- The request once the response is stored. -/
def answered (r : GetChunkResponse) (req : ChunkRequest) : ChunkRequest :=
  if req.chunkId = r.chunkId then
    match r with
    | .success _ offset data sealIndicator =>
      { req with
        chunk := some (if data.isEmpty then .zeros else .chunk (Memory.place offset data))
        isSealed := !data.isEmpty
        sealIndicator := if req.chunkId < k then req.sealIndicator else some sealIndicator }
    | .failure _ => { req with chunk := some .zeros, isSealed := false }
  else req

namespace ChunkRequest

/-- The request needs no further answer. -/
def Answered (req : ChunkRequest) : Prop := req.self = true ∨ req.chunk ≠ none

/-- The chunk is there and is not `Coding::zeros`. -/
def HoldsData (req : ChunkRequest) : Prop := ∃ data, req.chunk = some (.chunk data)

/-- Data chunk `i` is sealed in this parity chunk. -/
def seals (req : ChunkRequest) (i : ℕ) : Bool := (req.sealIndicator.getD []).getD i false

/-- What the first loop puts into the stripe buffer. -/
def held (req : ChunkRequest) : Option ChunkRef := if req.self then some .zeros else req.chunk

end ChunkRequest

/-- The body of the first loop for a request that is not being answered. -/
def recordRequest (b : StripeBuffer) (req : ChunkRequest) : StripeBuffer :=
  if req.self then { b.setChunk req.chunkId .zeros with selfIt := some req.chunkId }
  else
    match req.chunk with
    | none => { b with pending := b.pending + 1 }
    | some chunk =>
      if req.chunkId < k then (b.setChunk req.chunkId chunk).setTrueSeal req.chunkId req.isSealed
      else (b.setChunk req.chunkId chunk).setSealIndicator (req.chunkId - k) req.sealIndicator

/-- No request for a parity chunk fails, and a parity chunk brings its indicators along. -/
def ParityFound : GetChunkResponse → Prop
  | .success chunkId _ _ sealIndicator => k ≤ chunkId → sealIndicator ≠ []
  | .failure chunkId => chunkId < k

variable {k}

theorem answered_chunkId (r : GetChunkResponse) (req : ChunkRequest) :
    (answered k r req).chunkId = req.chunkId := by
  unfold answered
  split
  · cases r <;> rfl
  · rfl

theorem answered_self (r : GetChunkResponse) (req : ChunkRequest) :
    (answered k r req).self = req.self := by
  unfold answered
  split
  · cases r <;> rfl
  · rfl

theorem answered_of_ne {r : GetChunkResponse} {req : ChunkRequest} (h : req.chunkId ≠ r.chunkId) :
    answered k r req = req := if_neg h

theorem visitRequest_eq {r : GetChunkResponse} {req : ChunkRequest} (hfound : ParityFound k r)
    (hself : req.self = true → req.chunkId ≠ r.chunkId) (b : StripeBuffer) :
    visitRequest k r b req = .ok (recordRequest k b (answered k r req), answered k r req) := by
  by_cases hid : req.chunkId = r.chunkId
  · have hf : req.self = false := Bool.eq_false_iff.mpr fun hs => hself hs hid
    unfold visitRequest
    rw [if_pos hid]
    cases r with
    | success chunkId offset data sealIndicator =>
      have hid' : req.chunkId = chunkId := hid
      subst hid'
      by_cases hlt : req.chunkId < k
      · cases hd : data.isEmpty <;>
          simp [storeResponse, answered, recordRequest, GetChunkResponse.chunkId, hf, hlt, hd] <;> rfl
      · have hne : sealIndicator.isEmpty = false := by
          rw [List.isEmpty_eq_false_iff]
          exact hfound (Nat.not_lt.mp hlt)
        cases hd : data.isEmpty <;>
          simp [storeResponse, answered, recordRequest, GetChunkResponse.chunkId, hf, hlt, hd,
            hne] <;> rfl
    | failure chunkId =>
      have hid' : req.chunkId = chunkId := hid
      subst hid'
      have hlt : req.chunkId < k := hfound
      simp [storeResponse, answered, recordRequest, GetChunkResponse.chunkId, hf, hlt]
      rfl
  · rw [answered_of_ne hid]
    unfold visitRequest recordRequest
    rw [if_neg hid]
    cases hs : req.self with
    | true => rfl
    | false =>
      cases hc : req.chunk with
      | none => rfl
      | some chunk =>
        simp only [Bool.false_eq_true, if_false]
        split_ifs <;> rfl

/-- The first loop records every request as it is after the response. -/
theorem collectChunks_eq {r : GetChunkResponse} {reqs : List ChunkRequest}
    (hfound : ParityFound k r)
    (hself : ∀ req ∈ reqs, req.self = true → req.chunkId ≠ r.chunkId) (b : StripeBuffer) :
    collectChunks k r b reqs = .ok ((reqs.map (answered k r)).foldl (recordRequest k) b,
      reqs.map (answered k r)) := by
  induction reqs generalizing b with
  | nil => rfl
  | cons req reqs ih =>
    have hrest := ih (fun q hq => hself q (.tail _ hq)) (recordRequest k b (answered k r req))
    unfold collectChunks
    rw [visitRequest_eq hfound (hself req (.head _)), except_ok_bind]
    simp only [hrest, except_ok_bind]
    rfl

/-- The stripe buffer holds what these requests have. -/
structure Collected (k : ℕ) (reqs : List ChunkRequest) (b : StripeBuffer) : Prop where
  absent : ∀ i, (∀ q ∈ reqs, q.chunkId ≠ i) → b.chunks i = none
  chunk : ∀ q ∈ reqs, b.chunks q.chunkId = q.held
  trueSeal : ∀ q ∈ reqs, q.self = false → q.chunk ≠ none → q.chunkId < k →
    b.trueSeal q.chunkId = q.isSealed
  sealIndicator : ∀ q ∈ reqs, q.self = false → q.chunk ≠ none → k ≤ q.chunkId →
    b.sealIndicators (q.chunkId - k) = q.sealIndicator
  selfIt : ∀ q ∈ reqs, q.self = true → b.selfIt = some q.chunkId
  selfIt_none : (∀ q ∈ reqs, q.self = false) → b.selfIt = none
  pending : b.pending = 0 ↔ ∀ q ∈ reqs, q.Answered

theorem Collected.nil (trueSeal : ℕ → Bool) :
    Collected k [] ⟨fun _ => none, fun _ => none, trueSeal, 0, none⟩ where
  absent _ _ := rfl
  chunk := by simp
  trueSeal := by simp
  sealIndicator := by simp
  selfIt := by simp
  selfIt_none _ := rfl
  pending := by simp

/-- One more request, for another chunk. -/
theorem Collected.record {reqs : List ChunkRequest} {b : StripeBuffer} {req : ChunkRequest}
    (h : Collected k reqs b) (hid : ∀ q ∈ reqs, q.chunkId ≠ req.chunkId)
    (hone : req.self = true → ∀ q ∈ reqs, q.self = false) :
    Collected k (reqs ++ [req]) (recordRequest k b req) := by
  have hsplit : ∀ {P : ChunkRequest → Prop}, (∀ q ∈ reqs ++ [req], P q) ↔
      (∀ q ∈ reqs, P q) ∧ P req := by
    intro P
    simp [or_imp, forall_and]
  cases hs : req.self with
  | true =>
    have hr : recordRequest k b req =
        { b.setChunk req.chunkId .zeros with selfIt := some req.chunkId } := by
      simp [recordRequest, hs]
    rw [hr]
    constructor
    · intro i hi
      rw [hsplit] at hi
      exact (Function.update_of_ne (Ne.symm hi.2) _ _).trans (h.absent i hi.1)
    · rw [hsplit]
      refine ⟨fun q hq => ?_, ?_⟩
      · exact (Function.update_of_ne (hid q hq) _ _).trans (h.chunk q hq)
      · simp [StripeBuffer.setChunk, ChunkRequest.held, hs]
    · rw [hsplit]
      exact ⟨h.trueSeal, fun hf => by simp [hs] at hf⟩
    · rw [hsplit]
      exact ⟨h.sealIndicator, fun hf => by simp [hs] at hf⟩
    · rw [hsplit]
      refine ⟨fun q hq hq' => ?_, fun _ => rfl⟩
      rw [hone hs q hq] at hq'
      contradiction
    · intro hnone
      have hf := hnone req (by simp)
      rw [hs] at hf
      contradiction
    · rw [hsplit]
      exact h.pending.trans ⟨fun ha => ⟨ha, Or.inl hs⟩, fun ha => ha.1⟩
  | false =>
    cases hc : req.chunk with
    | none =>
      have hr : recordRequest k b req = { b with pending := b.pending + 1 } := by
        simp [recordRequest, hs, hc]
      rw [hr]
      constructor
      · intro i hi
        rw [hsplit] at hi
        exact h.absent i hi.1
      · rw [hsplit]
        refine ⟨h.chunk, ?_⟩
        simp only [ChunkRequest.held, hs, hc, Bool.false_eq_true, if_false]
        exact h.absent _ hid
      · rw [hsplit]
        exact ⟨h.trueSeal, fun _ hne => absurd hc hne⟩
      · rw [hsplit]
        exact ⟨h.sealIndicator, fun _ hne => absurd hc hne⟩
      · rw [hsplit]
        exact ⟨h.selfIt, fun ht => by simp [hs] at ht⟩
      · intro hnone
        rw [hsplit] at hnone
        exact h.selfIt_none hnone.1
      · rw [hsplit]
        simp [ChunkRequest.Answered, hs, hc]
    | some chunk =>
      have hheld : req.held = some chunk := by simp [ChunkRequest.held, hs, hc]
      have hr : recordRequest k b req =
          if req.chunkId < k then
            (b.setChunk req.chunkId chunk).setTrueSeal req.chunkId req.isSealed
          else (b.setChunk req.chunkId chunk).setSealIndicator (req.chunkId - k)
            req.sealIndicator := by
        simp [recordRequest, hs, hc]
      have hchunks : (recordRequest k b req).chunks =
          Function.update b.chunks req.chunkId (some chunk) := by
        rw [hr]
        split_ifs <;> rfl
      have hself : (recordRequest k b req).selfIt = b.selfIt := by
        rw [hr]
        split_ifs <;> rfl
      have hpending : (recordRequest k b req).pending = b.pending := by
        rw [hr]
        split_ifs <;> rfl
      constructor
      · intro i hi
        rw [hsplit] at hi
        rw [hchunks, Function.update_of_ne (Ne.symm hi.2)]
        exact h.absent i hi.1
      · rw [hsplit, hchunks, Function.update_self]
        refine ⟨fun q hq => ?_, hheld.symm⟩
        rw [Function.update_of_ne (hid q hq)]
        exact h.chunk q hq
      · rw [hsplit, hr]
        split_ifs with hlt
        · refine ⟨fun q hq hq' hne hlt' => ?_, fun _ _ _ => Function.update_self _ _ _⟩
          exact (Function.update_of_ne (hid q hq) _ _).trans (h.trueSeal q hq hq' hne hlt')
        · exact ⟨h.trueSeal, fun _ _ hlt' => absurd hlt' hlt⟩
      · rw [hsplit, hr]
        split_ifs with hlt
        · exact ⟨h.sealIndicator, fun _ _ hge => absurd hlt (Nat.not_lt.mpr hge)⟩
        · refine ⟨fun q hq hq' hne hge => ?_, fun _ _ _ => Function.update_self _ _ _⟩
          have hne' : q.chunkId - k ≠ req.chunkId - k := by
            have := hid q hq
            omega
          exact (Function.update_of_ne hne' _ _).trans (h.sealIndicator q hq hq' hne hge)
      · rw [hsplit, hself]
        exact ⟨h.selfIt, fun ht => by simp [hs] at ht⟩
      · intro hnone
        rw [hsplit] at hnone
        rw [hself]
        exact h.selfIt_none hnone.1
      · rw [hsplit, hpending]
        simp [h.pending, ChunkRequest.Answered, hs, hc]

/-- No two requests are for the same chunk, and at most one is served by this server. -/
def Distinct (reqs : List ChunkRequest) : Prop :=
  reqs.Pairwise fun q q' => q.chunkId ≠ q'.chunkId ∧ ¬ (q.self = true ∧ q'.self = true)

theorem Distinct.apart {reqs : List ChunkRequest} (h : Distinct reqs) {q q' : ChunkRequest}
    (hq : q ∈ reqs) (hq' : q' ∈ reqs) (hne : q ≠ q') :
    q.chunkId ≠ q'.chunkId ∧ ¬ (q.self = true ∧ q'.self = true) := by
  have hsymm : Std.Symm fun q q' : ChunkRequest =>
      q.chunkId ≠ q'.chunkId ∧ ¬ (q.self = true ∧ q'.self = true) :=
    ⟨fun _ _ happ => ⟨happ.1.symm, fun hboth => happ.2 hboth.symm⟩⟩
  exact List.Pairwise.forall h hq hq' hne

theorem Distinct.collected {reqs : List ChunkRequest} (h : Distinct reqs) (trueSeal : ℕ → Bool) :
    Collected k reqs (reqs.foldl (recordRequest k)
      ⟨fun _ => none, fun _ => none, trueSeal, 0, none⟩) := by
  induction reqs using List.reverseRecOn with
  | nil => exact Collected.nil trueSeal
  | append_singleton reqs req ih =>
    obtain ⟨hreqs, -, hlast⟩ := List.pairwise_append.mp h
    rw [List.foldl_append]
    refine (ih hreqs).record (fun q hq => (hlast q hq req (by simp)).1) fun hs q hq => ?_
    exact Bool.eq_false_iff.mpr fun hq' => (hlast q hq req (by simp)).2 ⟨hq', hs⟩

end MemEC.Server
