import MemEC.Common.Key

/-!
# The messages of a reconstruction

For a chunk of a stripe list that is lost, the coordinator goes over the servers
of the list and sends to each of them the next stripes, and then over the parity
servers and sends the next unsealed keys, until everything was put into messages.
A message ends when the share of the server is reached, or when nothing more fits
into the buffer.

Sets are lists here, in the order of their iterators. A socket can get ready or
fail between two messages, so what is ready is given for each pass of a loop.
-/

namespace MemEC.Coordinator

open MemEC.Common

variable {α : Type}

/-! ## Filling a message -/

/-- The loop that fills a message from an iterator: the items of the message, those that remain, and
`isCompleted`. `more` is the condition on the number of items, `fits` the one on this number and on
the bytes with the next item. -/
def fill (more : ℕ → Bool) (fits : ℕ → ℕ → Bool) (size : α → ℕ) :
    ℕ → ℕ → List α → List α × List α × Bool
  | _, _, [] => ([], [], true)
  | count, bytes, x :: it =>
    if more count then
      if fits count (bytes + size x) then
        let (items, it, isCompleted) := fill more fits size (count + 1) (bytes + size x) it
        (x :: items, it, isCompleted)
      else ([], x :: it, false)
    else ([], x :: it, true)

/-- `PROTO_HEADER_SIZE`. -/
def protoHeaderSize : ℕ := 16

/-- `PROTO_RECONSTRUCTION_SIZE`. -/
def protoReconstructionSize : ℕ := 12

/-- `PROTO_BATCH_KEY_SIZE`. -/
def protoBatchKeySize : ℕ := 4

/-- `PROTO_KEY_SIZE`. -/
def protoKeySize : ℕ := 1

/-- `PROTO_BUF_MIN_SIZE`. -/
def protoBufMinSize : ℕ := 65536

/-- `Protocol::generateReconstructionHeader`. -/
def generateReconstructionHeader (bufferSize numChunks : ℕ) (it : List ℕ) :
    List ℕ × List ℕ × Bool :=
  fill (· < numChunks) (fun count bytes => bytes ≤ bufferSize ∧ count < 3000) (fun _ => 4) 0
    (protoHeaderSize + protoReconstructionSize) it

/-- `Protocol::generateBatchKeyHeader`. -/
def generateBatchKeyHeader (bufferSize : ℕ) (it : List Key) : List Key × List Key × Bool :=
  fill (fun _ => true) (fun _ bytes => bytes ≤ bufferSize) (fun key => protoKeySize + key.size) 0
    (protoHeaderSize + protoBatchKeySize) it

theorem fill_append (more : ℕ → Bool) (fits : ℕ → ℕ → Bool) (size : α → ℕ) (count bytes : ℕ)
    (it : List α) :
    (fill more fits size count bytes it).1 ++ (fill more fits size count bytes it).2.1 = it := by
  induction it generalizing count bytes with
  | nil => rfl
  | cons x it ih =>
    unfold fill
    split_ifs with hmore hfits
    · exact congrArg (x :: ·) (ih (count + 1) (bytes + size x))
    · rfl
    · rfl

theorem fill_ne_nil {more : ℕ → Bool} {fits : ℕ → ℕ → Bool} {size : α → ℕ} {count bytes : ℕ}
    {it : List α} (hit : it ≠ []) (hmore : more count = true)
    (hfits : ∀ x ∈ it, fits count (bytes + size x) = true) :
    (fill more fits size count bytes it).1 ≠ [] := by
  cases it with
  | nil => exact absurd rfl hit
  | cons x it =>
    unfold fill
    rw [if_pos hmore, if_pos (hfits x List.mem_cons_self)]
    exact List.cons_ne_nil _ _

/-! ## The send loops -/

/-- The `for` loop over the servers: the messages, what remains, and `isAllCompleted`. -/
def sendPass (generate : List α → List α × List α × Bool) :
    List Bool → List α → List (List α) × List α × Bool
  | [], it => ([], it, true)
  | ready :: servers, it =>
    if it.isEmpty then ([], it, true)
    else if ready then
      let (items, it, isCompleted) := generate it
      let (messages, it, isAllCompleted) := sendPass generate servers it
      (items :: messages, it, isCompleted && isAllCompleted)
    else sendPass generate servers it

/-- The messages of the `do` loop around it, when `passes` tells for each pass which servers are
ready. -/
def sendLoop (generate : List α → List α × List α × Bool) : List (List Bool) → List α →
    List (List α)
  | [], _ => []
  | servers :: passes, it =>
    let (messages, it, isAllCompleted) := sendPass generate servers it
    if isAllCompleted then messages else messages ++ sendLoop generate passes it

section

variable {generate : List α → List α × List α × Bool}

theorem sendPass_flatten (happend : ∀ it, (generate it).1 ++ (generate it).2.1 = it)
    (servers : List Bool) (it : List α) :
    (sendPass generate servers it).1.flatten ++ (sendPass generate servers it).2.1 = it := by
  induction servers generalizing it with
  | nil => rfl
  | cons ready servers ih =>
    unfold sendPass
    split_ifs with hit hready
    · rfl
    · dsimp only
      rw [List.flatten_cons, List.append_assoc, ih, happend]
    · exact ih it

theorem sendLoop_flatten (happend : ∀ it, (generate it).1 ++ (generate it).2.1 = it)
    (passes : List (List Bool)) (it : List α) : (sendLoop generate passes it).flatten <+: it := by
  induction passes generalizing it with
  | nil => exact List.nil_prefix
  | cons servers passes ih =>
    have hpass := sendPass_flatten happend servers it
    unfold sendLoop
    dsimp only
    split_ifs with hall
    · exact ⟨_, hpass⟩
    · obtain ⟨rest, hrest⟩ := ih (sendPass generate servers it).2.1
      use rest
      rw [List.flatten_append, List.append_assoc, hrest, hpass]

/-- Every item of `it` fits into an empty message. -/
def FitsAll (generate : List α → List α × List α × Bool) (P : α → Prop) : Prop :=
  ∀ it, it ≠ [] → (∀ x ∈ it, P x) → (generate it).1 ≠ []

theorem sendPass_ne_nil {P : α → Prop} (happend : ∀ it, (generate it).1 ++ (generate it).2.1 = it)
    (hfits : FitsAll generate P) (servers : List Bool) {it : List α} (hit : ∀ x ∈ it, P x) :
    [] ∉ (sendPass generate servers it).1 := by
  induction servers generalizing it with
  | nil => exact List.not_mem_nil
  | cons ready servers ih =>
    unfold sendPass
    split_ifs with hempty hready
    · exact List.not_mem_nil
    · have hne : (generate it).1 ≠ [] := hfits it (by simpa using hempty) hit
      have hrest : [] ∉ (sendPass generate servers (generate it).2.1).1 :=
        ih fun x hx => hit x (happend it ▸ List.mem_append_right _ hx)
      simp [hne.symm, hrest]
    · exact ih hit

theorem sendLoop_ne_nil {P : α → Prop} (happend : ∀ it, (generate it).1 ++ (generate it).2.1 = it)
    (hfits : FitsAll generate P) (passes : List (List Bool)) {it : List α} (hit : ∀ x ∈ it, P x) :
    [] ∉ sendLoop generate passes it := by
  induction passes generalizing it with
  | nil => exact List.not_mem_nil
  | cons servers passes ih =>
    have hpass := sendPass_ne_nil happend hfits servers hit
    unfold sendLoop
    dsimp only
    split_ifs with hall
    · exact hpass
    · have hrest : [] ∉ sendLoop generate passes (sendPass generate servers it).2.1 :=
        ih fun x hx => hit x (sendPass_flatten happend servers it ▸ List.mem_append_right _ hx)
      simp [hpass, hrest]

end

/-! ## A lost chunk -/

/-- A chunk of a stripe list that is lost, and what the send loops meet. When no server survives,
the code divides by zero before it sends anything. -/
structure LostChunk where
  stripeIds : List ℕ
  unsealedKeys : List Key
  keys_lt : ∀ key ∈ unsealedKeys, key.size < 2 ^ 8
  numSurvivingServers : ℕ
  surviving_pos : 0 < numSurvivingServers
  /-- Which servers, and which parity servers, are ready at each pass. -/
  servers : List (List Bool)
  parityServers : List (List Bool)
  bufferSize : ℕ
  bufferSize_ge : protoBufMinSize ≤ bufferSize

/-- A RECONSTRUCTION or a RECONSTRUCTION_UNSEALED request. -/
inductive ReconstructionMessage
  | stripes (stripeIds : List ℕ)
  | unsealedKeys (keys : List Key)
deriving DecidableEq

namespace ReconstructionMessage

def numStripes : ReconstructionMessage → ℕ
  | stripes stripeIds => stripeIds.length
  | unsealedKeys _ => 0

def numKeys : ReconstructionMessage → ℕ
  | stripes _ => 0
  | unsealedKeys keys => keys.length

end ReconstructionMessage

namespace LostChunk

variable (t : LostChunk)

def numStripePerServer : ℕ :=
  let q := t.stripeIds.length / t.numSurvivingServers
  if 0 < t.stripeIds.length % t.numSurvivingServers then q + 1 else q

def generateStripes : List ℕ → List ℕ × List ℕ × Bool :=
  generateReconstructionHeader t.bufferSize t.numStripePerServer

/-- The messages of both loops. -/
def messages : List ReconstructionMessage :=
  (sendLoop t.generateStripes t.servers t.stripeIds).map .stripes ++
    (sendLoop (generateBatchKeyHeader t.bufferSize) t.parityServers t.unsealedKeys).map
      .unsealedKeys

theorem sum_numStripes_le :
    (t.messages.map ReconstructionMessage.numStripes).sum ≤ t.stripeIds.length := by
  have hprefix : (sendLoop t.generateStripes t.servers t.stripeIds).flatten <+: t.stripeIds :=
    sendLoop_flatten (fill_append _ _ _ _ _) _ _
  have hle := hprefix.length_le
  rw [List.length_flatten] at hle
  simpa [messages, Function.comp_def, ReconstructionMessage.numStripes] using hle

theorem sum_numKeys_le :
    (t.messages.map ReconstructionMessage.numKeys).sum ≤ t.unsealedKeys.length := by
  have hprefix : (sendLoop (generateBatchKeyHeader t.bufferSize) t.parityServers
      t.unsealedKeys).flatten <+: t.unsealedKeys := sendLoop_flatten (fill_append _ _ _ _ _) _ _
  have hle := hprefix.length_le
  rw [List.length_flatten] at hle
  simpa [messages, Function.comp_def, ReconstructionMessage.numKeys] using hle

theorem numStripePerServer_pos (h : t.stripeIds ≠ []) : 0 < t.numStripePerServer := by
  have hlength := List.length_pos_iff.mpr h
  unfold numStripePerServer
  dsimp only
  split_ifs with hmod
  · exact Nat.succ_pos _
  · have hdvd := Nat.dvd_of_mod_eq_zero (Nat.eq_zero_of_not_pos hmod)
    exact Nat.div_pos (Nat.le_of_dvd hlength hdvd) t.surviving_pos

/-- Every message asks for something. -/
theorem message_pos {m : ReconstructionMessage} (hm : m ∈ t.messages) :
    0 < m.numStripes + m.numKeys := by
  have hbuffer : 65536 ≤ t.bufferSize := t.bufferSize_ge
  rcases List.mem_append.mp hm with hm | hm
  · obtain ⟨ids, hids, rfl⟩ := List.mem_map.mp hm
    have hfits : FitsAll t.generateStripes (fun i => i ∈ t.stripeIds) := by
      intro it hit hmem
      apply fill_ne_nil hit
      · obtain ⟨i, hi⟩ := List.exists_mem_of_ne_nil it hit
        exact decide_eq_true (t.numStripePerServer_pos (List.ne_nil_of_mem (hmem i hi)))
      · intro i _
        have : protoHeaderSize + protoReconstructionSize + 4 ≤ t.bufferSize := by
          unfold protoHeaderSize protoReconstructionSize
          omega
        simpa using this
    have hne : ids ≠ [] := fun hnil =>
      sendLoop_ne_nil (fill_append _ _ _ _ _) hfits t.servers (fun _ h => h) (hnil ▸ hids)
    exact Nat.add_pos_left (List.length_pos_iff.mpr hne) _
  · obtain ⟨keys, hkeys, rfl⟩ := List.mem_map.mp hm
    have hfits : FitsAll (generateBatchKeyHeader t.bufferSize) (fun key => key.size < 2 ^ 8) := by
      intro it hit hmem
      apply fill_ne_nil hit rfl
      intro key hkey
      have hsize := hmem key hkey
      have : protoHeaderSize + protoBatchKeySize + (protoKeySize + key.size) ≤ t.bufferSize := by
        unfold protoHeaderSize protoBatchKeySize protoKeySize
        omega
      simpa using this
    have hne : keys ≠ [] := fun hnil =>
      sendLoop_ne_nil (fill_append _ _ _ _ _) hfits t.parityServers t.keys_lt (hnil ▸ hkeys)
    exact Nat.add_pos_right _ (List.length_pos_iff.mpr hne)

end LostChunk

end MemEC.Coordinator
