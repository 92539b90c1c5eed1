import MemEC.Common.MultiFrame
import MemEC.Common.StripeListMembers
import MemEC.Lib.CyclicScan
import MemEC.Server.GetChunkRun

/-!
# Selecting the sources of lost chunks

A surviving server that is asked to reconstruct the chunks of some stripes needs
`k` chunks of each: its own one and `k - 1` of other servers. It goes round the
servers of the list, from one stripe to the next without starting anew, and
collects for each server the chunks that it asks for. These are sent in a batch
for each server when all stripes are done.

The sockets are those of one list, data servers first. That the request goes
into the pending map of reconstructions is modelled elsewhere.
-/

namespace MemEC.Server

open MemEC.Lib MemEC.Common

/-- `ServerPeerSocket`. -/
structure ServerPeerSocket where
  sockfd : ℕ
  self : Bool
  connected : Bool
  registered : Bool
deriving DecidableEq

/-- `ServerPeerSocket::ready`. -/
def ServerPeerSocket.ready (socket : ServerPeerSocket) : Bool :=
  socket.self || (socket.connected && socket.registered)

/-- An entry of `pending->serverPeers.getChunk`, with the socket of its key. Null pointers stand for
the server itself and for a chunk that is asked for. -/
structure SourceRequest where
  requestId : ℕ
  metadata : Metadata
  socket : Option ServerPeerSocket
  chunk : Option ChunkRef

/-- The entry, without what its key has. -/
def SourceRequest.request (r : SourceRequest) : ChunkRequest :=
  ⟨r.metadata.chunkId, r.chunk, false, false, none⟩

/-- What is registered, and what is collected in `requestIds` and `metadataList`. -/
structure Selection where
  getChunk : List SourceRequest
  batches : ℕ → List BatchChunk

/-- How a request is dealt with. -/
inductive ReconstructionOutcome
  /-- There are no stripes. -/
  | answered
  /-- `assert( myChunkId < ServerWorker::chunkCount )`. -/
  | assertion
  /-- The survivor check fails. -/
  | unrecoverable
  | selected (getChunk : List SourceRequest) (sent : List (ServerPeerSocket × List BatchChunk))

namespace ReconstructionOutcome

/-- The requests that are registered. -/
def registered : ReconstructionOutcome → List SourceRequest
  | selected getChunk _ => getChunk
  | _ => []

/-- The chunks in the batches, each with the server that it is asked from. -/
def carried : ReconstructionOutcome → List (ServerPeerSocket × BatchChunk)
  | selected _ sent => sent.flatMap fun batch => batch.2.map fun c => (batch.1, c)
  | _ => []

end ReconstructionOutcome

/-- A server of a list, and the sockets of the list. -/
structure SourceServer where
  chunkCount : ℕ
  dataChunkCount : ℕ
  socket : ℕ → ServerPeerSocket
  /-- `map->findChunkById`, and whether the chunk is sealed. -/
  findChunkById : ℕ → ℕ → ℕ → Option (Memory × Bool)
  /-- The IDs that `idGenerator->nextVal` returns. -/
  nextVal : ℕ → ℕ
  data_pos : 0 < dataChunkCount
  data_le : dataChunkCount ≤ chunkCount
  self_unique : ∀ i < chunkCount, ∀ j < chunkCount, (socket i).self = true →
    (socket j).self = true → i = j

namespace SourceServer

variable (s : SourceServer)

/-- The loop of the survivor check: `chunkCount` and `myChunkId`. -/
def checkSurvivors (lost : ℕ) : ℕ × ℕ :=
  (List.range s.chunkCount).foldl (fun r i =>
    if i = lost then r
    else
      (if (s.socket i).ready then r.1 + 1 else r.1, if (s.socket i).self then i else r.2))
    (0, s.chunkCount)

/-- The survivor check and the assertion before it pass. -/
def Survives (lost : ℕ) : Prop :=
  (s.checkSurvivors lost).2 < s.chunkCount ∧ s.dataChunkCount ≤ (s.checkSurvivors lost).1

/-- The servers that are used. -/
def usable (lost i : ℕ) : Bool := i ≠ lost && ((s.socket i).ready && !(s.socket i).self)

/-- Asks the server at position `chunkId` for its chunk. -/
def askServer (requestId listId stripeId : ℕ) (sel : Selection) (chunkId : ℕ) : Selection :=
  let metadata : Metadata := ⟨listId, stripeId, chunkId⟩
  { getChunk := sel.getChunk ++ [⟨requestId, metadata, some (s.socket chunkId), none⟩]
    batches := Function.update sel.batches chunkId
      (sel.batches chunkId ++ [⟨requestId, metadata⟩]) }

/-- The `while` loop, and the cursor `chunkId` after it. -/
def selectSources (lost requestId listId stripeId : ℕ) :
    ℕ → ℕ → ℕ → Selection → Option (Selection × ℕ)
  | 0, _, _, _ => none
  | fuel + 1, chunkCount, chunkId, sel =>
    if chunkCount < s.dataChunkCount - 1 then
      if s.usable lost chunkId then
        selectSources lost requestId listId stripeId fuel (chunkCount + 1)
          (cyclicNext s.chunkCount chunkId) (s.askServer requestId listId stripeId sel chunkId)
      else
        selectSources lost requestId listId stripeId fuel chunkCount
          (cyclicNext s.chunkCount chunkId) sel
    else some (sel, chunkId)

/-- The chunk of this server. One that is not sealed counts as empty. -/
def ownChunk (listId stripeId myChunkId : ℕ) : ChunkRef :=
  match s.findChunkById listId stripeId myChunkId with
  | some (data, true) => .chunk data
  | _ => .zeros

/-- Registers the chunk of this server. -/
def useOwn (requestId listId stripeId myChunkId : ℕ) (sel : Selection) : Selection :=
  { sel with
    getChunk := sel.getChunk ++ [⟨requestId, ⟨listId, stripeId, myChunkId⟩, none,
      some (s.ownChunk listId stripeId myChunkId)⟩] }

/-- The loop over the stripes. -/
def selectStripes (fuel lost myChunkId listId : ℕ) :
    ℕ → List ℕ → ℕ → Selection → Option Selection
  | _, [], _, sel => some sel
  | call, stripeId :: stripeIds, chunkId, sel =>
    (s.selectSources lost (s.nextVal call) listId stripeId fuel 0 chunkId sel).bind fun r =>
      selectStripes fuel lost myChunkId listId (call + 1) stripeIds r.2
        (s.useOwn (s.nextVal call) listId stripeId myChunkId r.1)

/-- The batches that are sent. -/
def batchGetChunks (sel : Selection) : List (ServerPeerSocket × List BatchChunk) :=
  (List.range s.chunkCount).filterMap fun i =>
    if 0 < (sel.batches i).length then some (s.socket i, sel.batches i) else none

/-- `handleReconstructionRequest`, with the stripes in the order of the iteration. -/
def handleReconstructionRequest (fuel listId lost : ℕ) (stripeIds : List ℕ) :
    Option ReconstructionOutcome :=
  if stripeIds.isEmpty then some .answered
  else
    let (chunkCount, myChunkId) := s.checkSurvivors lost
    if ¬myChunkId < s.chunkCount then some .assertion
    else if chunkCount < s.dataChunkCount then some .unrecoverable
    else
      (s.selectStripes fuel lost myChunkId listId 0 stripeIds 0 ⟨[], fun _ => []⟩).map fun sel =>
        .selected sel.getChunk (s.batchGetChunks sel)

/-! ## The survivor check -/

section Survivors

variable {s} {lost : ℕ}

/-- What the loop finds among the positions `l`. -/
theorem foldl_survivors (l : List ℕ) (r : ℕ × ℕ) :
    let r' := l.foldl (fun r i =>
      if i = lost then r
      else
        (if (s.socket i).ready then r.1 + 1 else r.1, if (s.socket i).self then i else r.2)) r
    r'.1 = r.1 + (l.filter fun i => i ≠ lost && (s.socket i).ready).length ∧
      (r'.2 = r.2 ∨ r'.2 ≠ lost ∧ (s.socket r'.2).self = true) := by
  induction l generalizing r with
  | nil => exact ⟨rfl, .inl rfl⟩
  | cons i l ih =>
    rw [List.foldl_cons, List.filter_cons]
    obtain ⟨hcount, hself⟩ := ih (if i = lost then r
      else (if (s.socket i).ready then r.1 + 1 else r.1, if (s.socket i).self then i else r.2))
    by_cases hlost : i = lost
    · have hskip : (decide (i ≠ lost) && (s.socket i).ready) = false := by
        rw [decide_eq_false (not_not.mpr hlost), Bool.false_and]
      rw [if_pos hlost] at hcount hself ⊢
      rw [if_neg (Bool.eq_false_iff.mp hskip)]
      exact ⟨hcount, hself⟩
    · have hready : (decide (i ≠ lost) && (s.socket i).ready) = (s.socket i).ready := by
        rw [decide_eq_true hlost, Bool.true_and]
      rw [if_neg hlost] at hcount hself ⊢
      rw [hready]
      constructor
      · rw [hcount]
        dsimp only
        split_ifs
        · rw [List.length_cons]
          omega
        · rfl
      · rcases hself with heq | hfound
        · by_cases hi : (s.socket i).self = true
          · rw [heq, if_pos hi]
            exact .inr ⟨hlost, hi⟩
          · rw [heq, if_neg hi]
            exact .inl rfl
        · exact .inr hfound

/-- This server is in the list, and holds another chunk than the lost one. -/
theorem Survives.self (h : s.Survives lost) :
    (s.checkSurvivors lost).2 ≠ lost ∧ (s.socket (s.checkSurvivors lost).2).self = true := by
  have hfold := (@foldl_survivors s lost (List.range s.chunkCount) (0, s.chunkCount)).2
  rcases hfold with heq | hfound
  · exact absurd heq h.1.ne
  · exact hfound

/-- There are enough servers to use. The check counts this server too, and no other position in the
list is its own. -/
theorem Survives.le_usable (h : s.Survives lost) :
    s.dataChunkCount - 1 ≤ ((List.range s.chunkCount).filter (s.usable lost)).length := by
  have hcount := (@foldl_survivors s lost (List.range s.chunkCount) (0, s.chunkCount)).1
  set ready := (List.range s.chunkCount).filter fun i => i ≠ lost && (s.socket i).ready with hready
  have hle : s.dataChunkCount ≤ ready.length := by
    have hcheck := h.2
    rw [checkSurvivors, hcount] at hcheck
    omega
  have hnodup : ready.Nodup := List.nodup_range.filter _
  have hsub : ready.erase (s.checkSurvivors lost).2 ⊆
      (List.range s.chunkCount).filter (s.usable lost) := by
    intro i hi
    obtain ⟨hne, hmem⟩ := hnodup.mem_erase_iff.mp hi
    obtain ⟨hlt, husable⟩ := List.mem_filter.mp hmem
    have hother : (s.socket i).self = false := by
      rw [Bool.eq_false_iff]
      exact fun hself => hne (s.self_unique i (List.mem_range.mp hlt) _ h.1 hself h.self.2)
    refine List.mem_filter.mpr ⟨hlt, ?_⟩
    rw [usable, hother, Bool.not_false, Bool.and_true]
    exact husable
  have hlength := (List.subperm_of_subset (hnodup.erase _) hsub).length_le
  have herase := ready.le_length_erase (a := (s.checkSurvivors lost).2)
  omega

end Survivors

/-! ## The selection -/

/-- The chunks that are asked for, each with the server. -/
def asked (getChunk : List SourceRequest) : List (ServerPeerSocket × BatchChunk) :=
  getChunk.filterMap fun r => r.socket.map fun socket => (socket, ⟨r.requestId, r.metadata⟩)

/-- The chunks that are collected for the servers. -/
def collected (sel : Selection) : List (ServerPeerSocket × BatchChunk) :=
  (List.range s.chunkCount).flatMap fun i => (sel.batches i).map fun c => (s.socket i, c)

/-- The requests that are registered for a stripe: for `k` chunks that are not the lost one, with
`k - 1` other servers that are ready, and with this server. -/
def Selects (lost listId requestId stripeId : ℕ) (reqs : List SourceRequest) : Prop :=
  ∃ chunkIds myChunkId,
    reqs = chunkIds.map (fun i =>
        ⟨requestId, ⟨listId, stripeId, i⟩, some (s.socket i), none⟩) ++
      [⟨requestId, ⟨listId, stripeId, myChunkId⟩, none,
        some (s.ownChunk listId stripeId myChunkId)⟩] ∧
    (chunkIds ++ [myChunkId]).length = s.dataChunkCount ∧ (chunkIds ++ [myChunkId]).Nodup ∧
    (∀ i ∈ chunkIds ++ [myChunkId], i < s.chunkCount ∧ i ≠ lost) ∧
    (∀ i ∈ chunkIds, (s.socket i).ready = true ∧ (s.socket i).self = false) ∧
    (s.socket myChunkId).self = true

section Selecting

variable {s} {lost requestId listId stripeId : ℕ} {sel : Selection}

/-- The loop is a cyclic scan. -/
theorem selectSources_eq (fuel chunkCount chunkId : ℕ) (sel : Selection) :
    s.selectSources lost requestId listId stripeId fuel chunkCount chunkId sel =
      (scan (s.usable lost) (cyclicNext s.chunkCount) fuel (s.dataChunkCount - 1 - chunkCount)
        chunkId).map
        fun r => (r.1.foldl (s.askServer requestId listId stripeId) sel, r.2) := by
  induction fuel generalizing chunkCount chunkId sel with
  | zero => rfl
  | succ fuel ih =>
    rw [selectSources]
    by_cases hlt : chunkCount < s.dataChunkCount - 1
    · obtain ⟨quota, hquota⟩ := Nat.exists_eq_add_of_lt hlt
      have hleft : s.dataChunkCount - 1 - chunkCount = quota + 1 := by omega
      have hleft' : s.dataChunkCount - 1 - (chunkCount + 1) = quota := by omega
      rw [if_pos hlt, ih, ih, hleft, hleft', scan]
      split_ifs
      · rw [Option.map_map]
        rfl
      · rfl
    · have hnone : s.dataChunkCount - 1 - chunkCount = 0 := by omega
      rw [if_neg hlt, hnone]
      rfl

theorem foldl_askServer_getChunk (l : List ℕ) (sel : Selection) :
    (l.foldl (s.askServer requestId listId stripeId) sel).getChunk =
      sel.getChunk ++ l.map fun i =>
        ⟨requestId, ⟨listId, stripeId, i⟩, some (s.socket i), none⟩ := by
  induction l generalizing sel with
  | nil => rw [List.foldl_nil, List.map_nil, List.append_nil]
  | cons i l ih =>
    rw [List.foldl_cons, ih, askServer, List.append_assoc]
    rfl

theorem batches_askServer (sel : Selection) (i : ℕ) :
    (s.askServer requestId listId stripeId sel i).batches =
      Function.update sel.batches i (sel.batches i ++ [⟨requestId, ⟨listId, stripeId, i⟩⟩]) := rfl

/-- What is registered with other servers is what is collected for them. -/
theorem collected_askServer {i : ℕ} (hi : i < s.chunkCount)
    (h : (s.collected sel).Perm (asked sel.getChunk)) :
    (s.collected (s.askServer requestId listId stripeId sel i)).Perm
      (asked (s.askServer requestId listId stripeId sel i).getChunk) := by
  have hcollected : (s.collected (s.askServer requestId listId stripeId sel i)).Perm
      (s.collected sel ++ [(s.socket i, ⟨requestId, ⟨listId, stripeId, i⟩⟩)]) := by
    refine flatMap_perm_append List.nodup_range (List.mem_range.mpr hi) ?_ fun j hj => ?_
    · rw [batches_askServer, Function.update_self, List.map_append]
      rfl
    · rw [batches_askServer, Function.update_of_ne hj]
  refine hcollected.trans ?_
  rw [asked, askServer, List.filterMap_append]
  exact h.append_right _

theorem collected_foldl_askServer {l : List ℕ} (hl : ∀ i ∈ l, i < s.chunkCount)
    (h : (s.collected sel).Perm (asked sel.getChunk)) :
    (s.collected (l.foldl (s.askServer requestId listId stripeId) sel)).Perm
      (asked (l.foldl (s.askServer requestId listId stripeId) sel).getChunk) := by
  induction l generalizing sel with
  | nil => exact h
  | cons i l ih =>
    exact ih (fun j hj => hl j (List.mem_cons_of_mem _ hj))
      (collected_askServer (hl i List.mem_cons_self) h)

/-- The chunk of this server is not collected. -/
theorem collected_useOwn {myChunkId : ℕ} (h : (s.collected sel).Perm (asked sel.getChunk)) :
    (s.collected (s.useOwn requestId listId stripeId myChunkId sel)).Perm
      (asked (s.useOwn requestId listId stripeId myChunkId sel).getChunk) := by
  change (s.collected sel).Perm (asked (sel.getChunk ++ [_]))
  rw [asked, List.filterMap_append]
  change (s.collected sel).Perm (asked sel.getChunk ++ [])
  rwa [List.append_nil]

/-- One stripe, wherever the cursor stands. -/
theorem selectSources_spec (h : s.Survives lost) {fuel chunkId : ℕ} (hfuel : s.chunkCount < fuel)
    (hcursor : chunkId < s.chunkCount) (hsel : (s.collected sel).Perm (asked sel.getChunk)) :
    ∃ r : Selection × ℕ,
      s.selectSources lost requestId listId stripeId fuel 0 chunkId sel = some r ∧
      r.2 < s.chunkCount ∧
      let sel' := s.useOwn requestId listId stripeId (s.checkSurvivors lost).2 r.1
      (s.collected sel').Perm (asked sel'.getChunk) ∧
      ∃ reqs, sel'.getChunk = sel.getChunk ++ reqs ∧
        s.Selects lost listId requestId stripeId reqs := by
  obtain ⟨l, j, hscan, hnodup, hlength, hl, hj⟩ := scan_cyclicNext hcursor h.le_usable hfuel
  have husable : ∀ i ∈ l, i ≠ lost ∧ (s.socket i).ready = true ∧ (s.socket i).self = false := by
    intro i hi
    simpa [usable] using (hl i hi).2
  refine ⟨_, by rw [selectSources_eq, Nat.sub_zero, hscan, Option.map_some], hj, ?_, ?_⟩
  · exact collected_useOwn (collected_foldl_askServer (fun i hi => (hl i hi).1) hsel)
  · refine ⟨_, ?_, l, (s.checkSurvivors lost).2, rfl, ?_, ?_, ?_, fun i hi => (husable i hi).2,
      h.self.2⟩
    · rw [useOwn, foldl_askServer_getChunk, List.append_assoc]
    · have := s.data_pos
      rw [List.length_append, hlength, List.length_singleton]
      omega
    · refine List.nodup_append'.mpr ⟨hnodup, List.nodup_singleton _, fun i hi hmy => ?_⟩
      have hother := (husable i hi).2.2
      rw [List.mem_singleton.mp hmy, h.self.2] at hother
      exact Bool.noConfusion hother
    · intro i hi
      rcases List.mem_append.mp hi with hi | hi
      · exact ⟨(hl i hi).1, (husable i hi).1⟩
      · rw [List.mem_singleton.mp hi]
        exact ⟨h.1, h.self.1⟩

/-- The stripes one after the other. -/
theorem selectStripes_spec (h : s.Survives lost) {fuel : ℕ} (hfuel : s.chunkCount < fuel)
    (stripeIds : List ℕ) (call : ℕ) {chunkId : ℕ} (hcursor : chunkId < s.chunkCount)
    (hsel : (s.collected sel).Perm (asked sel.getChunk)) :
    ∃ sel', s.selectStripes fuel lost (s.checkSurvivors lost).2 listId call stripeIds chunkId sel =
        some sel' ∧
      (s.collected sel').Perm (asked sel'.getChunk) ∧
      ∃ parts : List (List SourceRequest), sel'.getChunk = sel.getChunk ++ parts.flatten ∧
        List.Forall₂ (fun stripe reqs => s.Selects lost listId (s.nextVal stripe.2) stripe.1 reqs)
          (stripeIds.zipIdx call) parts := by
  induction stripeIds generalizing call chunkId sel with
  | nil => exact ⟨sel, rfl, hsel, [], (List.append_nil _).symm, .nil⟩
  | cons stripeId stripeIds ih =>
    obtain ⟨r, hr, hcursor', hsel', reqs, hreqs, hselects⟩ :=
      @selectSources_spec s lost (s.nextVal call) listId stripeId sel h fuel chunkId hfuel hcursor
        hsel
    obtain ⟨sel', hsome, hperm, parts, hparts, hall⟩ := ih (call + 1) hcursor' hsel'
    refine ⟨sel', ?_, hperm, reqs :: parts, ?_, .cons hselects hall⟩
    · rw [selectStripes, hr, Option.bind_some, hsome]
    · rw [hparts, hreqs, List.flatten_cons, List.append_assoc]

end Selecting

/-- Servers for which nothing is collected get no batch. -/
theorem carried_batchGetChunks (sel : Selection) (getChunk : List SourceRequest) :
    (ReconstructionOutcome.selected getChunk (s.batchGetChunks sel)).carried = s.collected sel := by
  change (s.batchGetChunks sel).flatMap _ = _
  rw [batchGetChunks, collected]
  induction List.range s.chunkCount with
  | nil => rfl
  | cons i l ih =>
    rw [List.filterMap_cons, List.flatMap_cons, ← ih]
    by_cases hpos : 0 < (sel.batches i).length
    · rw [if_pos hpos]
      rfl
    · have hnil : sel.batches i = [] := by
        rwa [List.length_pos_iff, not_not] at hpos
      rw [if_neg hpos, hnil]
      rfl

/-- If enough servers survive, the selection ends. Each stripe gets `k` sources, and the batches
have what is registered with other servers. -/
theorem handleReconstructionRequest_spec {lost fuel : ℕ} (h : s.Survives lost)
    (hfuel : s.chunkCount < fuel) (listId : ℕ) (stripeIds : List ℕ) :
    ∃ outcome, s.handleReconstructionRequest fuel listId lost stripeIds = some outcome ∧
      (∃ parts : List (List SourceRequest), outcome.registered = parts.flatten ∧
        List.Forall₂ (fun stripe reqs => s.Selects lost listId (s.nextVal stripe.2) stripe.1 reqs)
          stripeIds.zipIdx parts) ∧
      outcome.carried.Perm (asked outcome.registered) := by
  rw [handleReconstructionRequest]
  cases stripeIds with
  | nil => exact ⟨.answered, rfl, ⟨[], rfl, .nil⟩, .nil⟩
  | cons stripeId stripeIds =>
    have hstart : (s.collected ⟨[], fun _ => []⟩).Perm (asked []) := by
      have hnil : s.collected ⟨[], fun _ => []⟩ = [] := List.flatMap_eq_nil_iff.mpr fun _ _ => rfl
      rw [hnil]
      exact .nil
    have hpos : 0 < s.chunkCount := s.data_pos.trans_le s.data_le
    obtain ⟨sel, hsel, hperm, parts, hparts, hall⟩ :=
      @selectStripes_spec s lost listId _ h fuel hfuel (stripeId :: stripeIds) 0 0 hpos hstart
    have hfew : ¬(s.checkSurvivors lost).1 < s.dataChunkCount := Nat.not_lt.mpr h.2
    refine ⟨.selected sel.getChunk (s.batchGetChunks sel), ?_, ⟨parts, hparts, hall⟩, ?_⟩
    · rw [List.isEmpty_cons, if_neg Bool.false_ne_true]
      dsimp only
      rw [if_neg (not_not.mpr h.1), if_neg hfew, hsel, Option.map_some]
    · rw [carried_batchGetChunks]
      exact hperm

/-- Three servers with two data chunks for a stripe, the third of which fails. The first one is that
which is asked. -/
def threeServers : SourceServer where
  chunkCount := 3
  dataChunkCount := 2
  socket i := ⟨137 + i, i = 0, i ≠ 2, i ≠ 2⟩
  findChunkById _ _ _ := none
  nextVal call := 137 + call
  data_pos := by norm_num
  data_le := by norm_num
  self_unique := by
    intro i _ j _ hi hj
    rw [of_decide_eq_true hi, of_decide_eq_true hj]

theorem handleReconstructionRequest_threeServers :
    ∃ outcome, threeServers.handleReconstructionRequest 4 0 2 [5, 7] = some outcome ∧
      (∃ parts : List (List SourceRequest), outcome.registered = parts.flatten ∧
        List.Forall₂ (fun stripe reqs =>
          threeServers.Selects 2 0 (threeServers.nextVal stripe.2) stripe.1 reqs)
          [5, 7].zipIdx parts) ∧
      outcome.carried.Perm (asked outcome.registered) :=
  threeServers.handleReconstructionRequest_spec ⟨by decide, by decide⟩ (by decide) 0 [5, 7]

/-- The chunk of this server is registered, too, but in no batch. -/
theorem not_carries_registered : ¬∀ (s : SourceServer) (lost fuel listId : ℕ) (stripeIds : List ℕ)
    (outcome : ReconstructionOutcome), s.Survives lost →
      s.handleReconstructionRequest fuel listId lost stripeIds = some outcome →
      (outcome.carried.map Prod.snd).Perm
        (outcome.registered.map fun r => ⟨r.requestId, r.metadata⟩) := by
  intro h
  have hperm := h threeServers 2 4 0 [5] _ ⟨by decide, by decide⟩ rfl
  exact absurd hperm.length_eq (by decide)

/-! ## Lists and reconstructions -/

/-- The servers of a generated list, one of which is this server. -/
def ofStripeList {T : Type} (lists : StripeList T) {listId : ℕ} (h : lists.Generated)
    (hlist : listId < lists.numLists) (hpos : 0 < lists.k) (hle : lists.k ≤ lists.n)
    (peer : T → ServerPeerSocket)
    (hself : ∀ i < lists.numServers, ∀ j < lists.numServers,
      (peer (lists.servers i)).self = true → (peer (lists.servers j)).self = true → i = j)
    (findChunkById : ℕ → ℕ → ℕ → Option (Memory × Bool)) (nextVal : ℕ → ℕ) : SourceServer where
  chunkCount := lists.n
  dataChunkCount := lists.k
  socket i := peer (lists.get listId i)
  findChunkById
  nextVal
  data_pos := hpos
  data_le := hle
  self_unique := by
    intro i hi j hj hselfi hselfj
    rw [h.get_eq hlist hi] at hselfi
    rw [h.get_eq hlist hj] at hselfj
    exact h.member_inj hlist hi hj
      (hself _ (h.member_lt hlist hi) _ (h.member_lt hlist hj) hselfi hselfj)

/-- With what is registered for a stripe, its chunks can be collected. -/
theorem Selects.opened {lost listId requestId stripeId m : ℕ} {reqs : List SourceRequest}
    (h : s.Selects lost listId requestId stripeId reqs)
    (hm : s.chunkCount = s.dataChunkCount + m) :
    Opened s.dataChunkCount m (reqs.map SourceRequest.request) := by
  obtain ⟨chunkIds, myChunkId, rfl, hlength, hnodup, hlt, -, -⟩ := h
  have hmap : (chunkIds.map fun i => (⟨requestId, ⟨listId, stripeId, i⟩, some (s.socket i), none⟩ :
      SourceRequest)).map SourceRequest.request =
      chunkIds.map fun i => ⟨i, none, false, false, none⟩ := by
    rw [List.map_map]
    rfl
  rw [List.map_append, hmap]
  exact .recovery chunkIds myChunkId _ hnodup hlength fun i hi => hm ▸ (hlt i hi).1

end SourceServer

end MemEC.Server
