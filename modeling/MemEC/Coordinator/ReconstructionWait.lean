import MemEC.Coordinator.ReconstructionSend
import MemEC.Lib.Run

/-!
# Waiting for the responses of a reconstruction

After each message the coordinator waits on the condition of the pending entry of
the lost chunk, once and without a predicate. The handler of a response signals
this condition, takes what was reconstructed from the entry, and erases the entry
when nothing remains. A signal that comes before the wait starts is lost.

A response carries the list, the chunk and the numbers of its request.
-/

namespace MemEC.Coordinator

open MemEC.Lib

/-- The counters of a `PendingReconstruction`. -/
structure PendingReconstruction where
  remainingChunks : ℕ
  remainingKeys : ℕ

/-- Where the thread of `handleReconstructionRequest` is: before it sends a message or goes to the
next chunk, between a message and the wait, or in `pthread_cond_wait`. -/
inductive SendState
  | ready
  | sent
  | waiting
deriving DecidableEq

structure Sender where
  /-- The chunks whose turn has not come. -/
  lost : List LostChunk
  /-- The request ID of the current chunk. -/
  current : ℕ
  /-- The messages of the current chunk that are not sent. -/
  unsent : List ReconstructionMessage
  state : SendState
  reconstruction : ℕ → Option PendingReconstruction
  /-- The messages that are sent and whose responses are not handled. -/
  unanswered : List (ℕ × ReconstructionMessage)

inductive SenderAction
  /-- `insertReconstruction` for the next chunk. -/
  | insert
  | send
  | wait
  /-- `pthread_cond_wait` returns without a signal. -/
  | wake
  /-- The response to a message is handled. -/
  | respond (requestId : ℕ) (m : ReconstructionMessage)

namespace Sender

def start (lost : List LostChunk) : Sender := ⟨lost, 0, [], .ready, fun _ => none, []⟩

variable (s : Sender)

/-- The next chunk gets an entry of its own. -/
def insertReconstruction : Sender :=
  match s.lost with
  | [] => s
  | t :: lost =>
    { s with
      lost
      current := s.current + 1
      unsent := t.messages
      reconstruction := Function.update s.reconstruction (s.current + 1)
        (some ⟨t.stripeIds.length, t.unsealedKeys.length⟩) }

def sendMessage : Sender :=
  match s.unsent with
  | [] => s
  | m :: unsent =>
    { s with unsent, state := .sent, unanswered := s.unanswered ++ [(s.current, m)] }

/-- The message is answered. -/
def answered (requestId : ℕ) (m : ReconstructionMessage) : Sender :=
  { s with unanswered := s.unanswered.erase (requestId, m) }

/-- `pthread_cond_signal` on the condition of an entry. -/
def signal (requestId : ℕ) : SendState :=
  if s.state = .waiting ∧ requestId = s.current then .ready else s.state

/-- `Pending::eraseReconstruction`. -/
def eraseReconstruction (requestId numStripes numKeys : ℕ) : Sender :=
  match s.reconstruction requestId with
  | none => s
  | some r =>
    if numStripes ≤ r.remainingChunks ∧ numKeys ≤ r.remainingKeys then
      let r : PendingReconstruction := ⟨r.remainingChunks - numStripes, r.remainingKeys - numKeys⟩
      { s with
        state := s.signal requestId
        reconstruction := Function.update s.reconstruction requestId
          (if r.remainingChunks = 0 ∧ r.remainingKeys = 0 then none else some r) }
    else s

def step : SenderAction → Sender
  | .insert => if s.state = .ready ∧ s.unsent = [] then s.insertReconstruction else s
  | .send => if s.state = .ready then s.sendMessage else s
  | .wait => if s.state = .sent then { s with state := .waiting } else s
  | .wake => if s.state = .waiting then { s with state := .ready } else s
  | .respond requestId m =>
    if (requestId, m) ∈ s.unanswered then
      (s.answered requestId m).eraseReconstruction requestId m.numStripes m.numKeys
    else s

/-- What the handling of conditions promises: a thread that waits has a message of the current chunk
that is not answered, and it waits on the condition of an entry that exists; a response signals
nobody when its entry is erased. -/
structure Sound : Prop where
  unanswered : s.state = .waiting → ∃ m, (s.current, m) ∈ s.unanswered
  entry : s.state = .waiting → ∃ r, s.reconstruction s.current = some r
  silent : ∀ requestId m, s.reconstruction requestId = none →
    (s.step (.respond requestId m)).state = s.state

/-- A response that is handled between a message and the wait for it leaves some message of the
chunk unanswered. -/
def Allowed : SenderAction → Prop
  | .respond requestId m =>
    s.state = .sent → ∃ m', (s.current, m') ∈ s.unanswered.erase (requestId, m)
  | _ => True

/-! ## The invariant -/

/-- What the entry of a request ID is for: the messages that are not answered, and behind them those
that are not sent. -/
def due (requestId : ℕ) : List ReconstructionMessage :=
  (s.unanswered.filter (·.1 = requestId)).map Prod.snd ++
    if requestId = s.current then s.unsent else []

/-- An entry that has all that is due. -/
structure Covers (r : PendingReconstruction) (messages : List ReconstructionMessage) : Prop where
  stripes : (messages.map ReconstructionMessage.numStripes).sum ≤ r.remainingChunks
  keys : (messages.map ReconstructionMessage.numKeys).sum ≤ r.remainingKeys

structure Inv : Prop where
  covered : ∀ requestId, s.due requestId ≠ [] →
    ∃ r, s.reconstruction requestId = some r ∧ Covers r (s.due requestId)
  due_pos : ∀ requestId, ∀ m ∈ s.due requestId, 0 < m.numStripes + m.numKeys
  id_le : ∀ p ∈ s.unanswered, p.1 ≤ s.current
  blocked : s.state ≠ .ready → ∃ m, (s.current, m) ∈ s.unanswered

variable {s}

theorem eraseReconstruction_of_none {requestId : ℕ} (h : s.reconstruction requestId = none)
    (numStripes numKeys : ℕ) : s.eraseReconstruction requestId numStripes numKeys = s := by
  unfold eraseReconstruction
  rw [h]

/-- The messages do not change, and nobody wakes up who does not wait. -/
theorem eraseReconstruction_of_sent (h : s.state = .sent) (requestId numStripes numKeys : ℕ) :
    (s.eraseReconstruction requestId numStripes numKeys).current = s.current ∧
      (s.eraseReconstruction requestId numStripes numKeys).unanswered = s.unanswered ∧
      (s.eraseReconstruction requestId numStripes numKeys).state = .sent := by
  unfold eraseReconstruction
  split
  · exact ⟨rfl, rfl, h⟩
  · split_ifs
    · simp [signal, h]
    · exact ⟨rfl, rfl, h⟩

theorem mem_due_of_unanswered {requestId : ℕ} {m : ReconstructionMessage}
    (h : (requestId, m) ∈ s.unanswered) : m ∈ s.due requestId := by
  apply List.mem_append_left
  exact List.mem_map_of_mem (List.mem_filter.mpr ⟨h, by simp⟩)

theorem start_inv (lost : List LostChunk) : (start lost).Inv := by
  have hdue : ∀ requestId, (start lost).due requestId = [] := by
    intro requestId
    unfold due start
    exact ite_self _
  constructor
  · exact fun requestId h => absurd (hdue requestId) h
  · intro requestId m hm
    rw [hdue] at hm
    exact absurd hm List.not_mem_nil
  · simp [start]
  · exact fun h => absurd rfl h

theorem Inv.sound (h : s.Inv) : s.Sound := by
  constructor
  · intro hwaiting
    exact h.blocked (by simp [hwaiting])
  · intro hwaiting
    obtain ⟨m, hm⟩ := h.blocked (by simp [hwaiting])
    obtain ⟨r, hr, -⟩ := h.covered s.current (List.ne_nil_of_mem (mem_due_of_unanswered hm))
    exact ⟨r, hr⟩
  · intro requestId m hnone
    unfold step
    dsimp only
    split_ifs with hm
    · rw [eraseReconstruction_of_none (s := s.answered requestId m) hnone]
      rfl
    · rfl

theorem Inv.insert (h : s.Inv) (hunsent : s.unsent = []) (hready : s.state = .ready) :
    s.insertReconstruction.Inv := by
  unfold insertReconstruction
  cases hlost : s.lost with
  | nil => exact h
  | cons t lost =>
    dsimp only
    have hfresh : s.unanswered.filter (·.1 = s.current + 1) = [] := by
      apply List.filter_eq_nil_iff.mpr
      intro p hp
      have hle := h.id_le p hp
      simp only [decide_eq_true_eq]
      omega
    constructor
    · intro requestId hne
      by_cases hid : requestId = s.current + 1
      · subst hid
        refine ⟨_, Function.update_self _ _ _, ?_⟩
        constructor
        · simpa [due, hfresh] using t.sum_numStripes_le
        · simpa [due, hfresh] using t.sum_numKeys_le
      · have hold := h.covered requestId
        simp only [due, hid, hunsent, if_false, ite_self] at hold hne ⊢
        rw [Function.update_of_ne hid]
        exact hold hne
    · intro requestId m hm
      by_cases hid : requestId = s.current + 1
      · subst hid
        apply t.message_pos
        simpa [due, hfresh] using hm
      · apply h.due_pos requestId
        simpa [due, hid, hunsent] using hm
    · intro p hp
      exact (h.id_le p hp).trans (Nat.le_succ _)
    · exact fun hne => absurd hready hne

theorem Inv.sendMessage (h : s.Inv) : s.sendMessage.Inv := by
  unfold Sender.sendMessage
  cases hunsent : s.unsent with
  | nil => exact h
  | cons m unsent =>
    have hdue : ∀ requestId,
        due { s with unsent, state := .sent, unanswered := s.unanswered ++ [(s.current, m)] }
          requestId = s.due requestId := by
      intro requestId
      by_cases hid : requestId = s.current
      · subst hid
        simp [due, hunsent]
      · simp [due, hid, Ne.symm hid]
    constructor
    · intro requestId
      rw [hdue]
      exact h.covered requestId
    · intro requestId
      rw [hdue]
      exact h.due_pos requestId
    · intro p hp
      rcases List.mem_append.mp hp with hp | hp
      · exact h.id_le p hp
      · rw [List.mem_singleton.mp hp]
    · exact fun _ => ⟨m, by simp⟩

/-- What is due after a response. -/
theorem due_perm {requestId : ℕ} {m : ReconstructionMessage} (h : (requestId, m) ∈ s.unanswered) :
    (s.due requestId).Perm
      (m :: (s.answered requestId m).due requestId) := by
  have hperm := (List.perm_cons_erase h).filter (·.1 = requestId)
  rw [List.filter_cons_of_pos (by simp)] at hperm
  exact (hperm.map Prod.snd).append_right _

theorem due_of_ne {requestId requestId' : ℕ} (m : ReconstructionMessage)
    (hne : requestId' ≠ requestId) :
    (s.answered requestId m).due requestId' =
      s.due requestId' := by
  unfold due answered
  dsimp only
  rw [← List.erase_filter, List.erase_of_not_mem]
  simp [hne.symm]

/-- The entry of a message that is not answered, and what is left of it. -/
theorem Inv.exists_entry (h : s.Inv) {requestId : ℕ} {m : ReconstructionMessage}
    (hm : (requestId, m) ∈ s.unanswered) :
    ∃ r, s.reconstruction requestId = some r ∧ m.numStripes ≤ r.remainingChunks ∧
      m.numKeys ≤ r.remainingKeys ∧
      Covers ⟨r.remainingChunks - m.numStripes, r.remainingKeys - m.numKeys⟩
        ((s.answered requestId m).due requestId) := by
  obtain ⟨r, hr, hcovers⟩ :=
    h.covered requestId (List.ne_nil_of_mem (mem_due_of_unanswered hm))
  have hstripes := hcovers.stripes
  have hkeys := hcovers.keys
  rw [((due_perm hm).map _).sum_eq, List.map_cons, List.sum_cons] at hstripes hkeys
  refine ⟨r, hr, by omega, by omega, ?_⟩
  constructor
  · dsimp only
    omega
  · dsimp only
    omega

/-- An entry that has nothing left covers nothing. -/
theorem Covers.eq_nil {messages : List ReconstructionMessage} (h : Covers ⟨0, 0⟩ messages)
    (hpos : ∀ m ∈ messages, 0 < m.numStripes + m.numKeys) : messages = [] := by
  cases messages with
  | nil => rfl
  | cons m messages =>
    have hm := hpos m List.mem_cons_self
    have hstripes := h.stripes
    have hkeys := h.keys
    simp only [List.map_cons, List.sum_cons] at hstripes hkeys
    omega

theorem Inv.respond (h : s.Inv) {requestId : ℕ} {m : ReconstructionMessage}
    (ha : s.Allowed (.respond requestId m)) (hm : (requestId, m) ∈ s.unanswered) :
    ((s.answered requestId m).eraseReconstruction requestId m.numStripes m.numKeys).Inv := by
  obtain ⟨r, hr, hstripes, hkeys, hcovers⟩ := h.exists_entry hm
  have hpos : ∀ m' ∈ (s.answered requestId m).due requestId,
      0 < m'.numStripes + m'.numKeys := by
    intro m' hm'
    exact h.due_pos requestId m' ((due_perm hm).mem_iff.mpr (List.mem_cons_of_mem _ hm'))
  unfold eraseReconstruction
  rw [show (s.answered requestId m).reconstruction requestId = some r from hr]
  dsimp only
  rw [if_pos ⟨hstripes, hkeys⟩]
  constructor
  · intro requestId' hne
    change (s.answered requestId m).due requestId' ≠ [] at hne
    change ∃ r', Function.update s.reconstruction requestId _ requestId' = some r' ∧
      Covers r' ((s.answered requestId m).due requestId')
    by_cases hid : requestId' = requestId
    · subst hid
      rw [Function.update_self]
      split_ifs with hdone
      · rw [hdone.1, hdone.2] at hcovers
        exact absurd (hcovers.eq_nil hpos) hne
      · exact ⟨_, rfl, hcovers⟩
    · rw [due_of_ne m hid] at hne ⊢
      rw [Function.update_of_ne hid]
      exact h.covered requestId' hne
  · intro requestId' m' hm'
    change m' ∈ (s.answered requestId m).due requestId' at hm'
    by_cases hid : requestId' = requestId
    · subst hid
      exact hpos m' hm'
    · rw [due_of_ne m hid] at hm'
      exact h.due_pos requestId' m' hm'
  · intro p hp
    exact h.id_le p (List.mem_of_mem_erase hp)
  · intro hblocked
    unfold signal answered at hblocked
    dsimp only at hblocked
    split_ifs at hblocked with hsignal
    · exact absurd rfl hblocked
    · cases hstate : s.state with
      | ready => exact absurd hstate hblocked
      | sent => exact ha hstate
      | waiting =>
        obtain ⟨m', hm'⟩ := h.blocked hblocked
        use m'
        apply (List.mem_erase_of_ne _).mpr hm'
        intro heq
        exact hsignal ⟨hstate, (congrArg Prod.fst heq).symm⟩

theorem Inv.step (h : s.Inv) {action : SenderAction} (ha : s.Allowed action) :
    (s.step action).Inv := by
  unfold Sender.step
  cases action with
  | insert =>
    dsimp only
    split_ifs with hready
    · exact h.insert hready.2 hready.1
    · exact h
  | send =>
    dsimp only
    split_ifs
    · exact h.sendMessage
    · exact h
  | wait =>
    dsimp only
    split_ifs with hsent
    · exact { h with blocked := fun _ => h.blocked (by simp [hsent]) }
    · exact h
  | wake =>
    dsimp only
    split_ifs
    · exact { h with blocked := fun hready => absurd rfl hready }
    · exact h
  | respond requestId m =>
    dsimp only
    split_ifs with hm
    · exact h.respond ha hm
    · exact h

/-! ## Runs -/

/-- When a response leaves nothing of the chunk unanswered before the wait starts, the thread waits
for nothing. -/
theorem not_sound_of_not_allowed {action : SenderAction} (ha : ¬ s.Allowed action) :
    ¬ ((s.step action).step .wait).Sound := by
  cases action with
  | respond requestId m =>
    obtain ⟨hsent, hnone⟩ : s.state = .sent ∧
        ¬ ∃ m', (s.current, m') ∈ s.unanswered.erase (requestId, m) := by
      simpa [Allowed] using ha
    obtain ⟨hcurrent, hunanswered, hstate⟩ :
        (s.step (.respond requestId m)).current = s.current ∧
          (s.step (.respond requestId m)).unanswered = s.unanswered.erase (requestId, m) ∧
          (s.step (.respond requestId m)).state = .sent := by
      unfold step
      dsimp only
      split_ifs with hm
      · exact eraseReconstruction_of_sent (s := s.answered requestId m) hsent _ _ _
      · exact ⟨rfl, (List.erase_of_not_mem hm).symm, hsent⟩
    have hwait : (s.step (.respond requestId m)).step .wait =
        { s.step (.respond requestId m) with state := .waiting } := if_pos hstate
    intro hsound
    obtain ⟨m', hm'⟩ := hsound.unanswered (by rw [hwait])
    rw [hwait] at hm'
    dsimp only at hm'
    rw [hcurrent, hunanswered] at hm'
    exact hnone ⟨m', hm'⟩
  | insert => exact absurd trivial ha
  | send => exact absurd trivial ha
  | wait => exact absurd trivial ha
  | wake => exact absurd trivial ha

variable (lost : List LostChunk)

/-- For every list of lost chunks, every cut into messages and every order of the steps of the thread
and of the responses: the states of a run, and those in which the thread goes on to wait, are sound
exactly when no response is the last one between a message and the wait for it. -/
theorem sound_iff_allowed (actions : List SenderAction) :
    (∀ n ≤ actions.length, (run step (start lost) (actions.take n)).Sound ∧
      ((run step (start lost) (actions.take n)).step .wait).Sound) ↔
    ∀ n action, actions[n]? = some action →
      (run step (start lost) (actions.take n)).Allowed action := by
  have hgood : ∀ past, (run step (start lost) past).Inv → (run step (start lost) past).Sound ∧
      ((run step (start lost) past).step .wait).Sound := by
    intro past h
    have ha : (run step (start lost) past).Allowed .wait := trivial
    exact ⟨h.sound, (h.step ha).sound⟩
  have hstep : ∀ past action, (run step (start lost) past).Inv →
      (run step (start lost) past).Allowed action →
      (run step (start lost) (past ++ [action])).Inv := by
    intro past action h ha
    rw [run_concat]
    exact h.step ha
  have hbad : ∀ past action, (run step (start lost) past).Inv →
      ¬ (run step (start lost) past).Allowed action →
      ¬ ((run step (start lost) (past ++ [action])).Sound ∧
        ((run step (start lost) (past ++ [action])).step .wait).Sound) := by
    intro past action _ ha hsound
    rw [run_concat] at hsound
    exact not_sound_of_not_allowed ha hsound.2
  exact good_iff_allowed (start_inv lost) hgood hstep hbad actions

/-- One stripe to rebuild, with one server that survives. -/
def sampleLost : LostChunk where
  stripeIds := [0]
  unsealedKeys := []
  keys_lt := by simp
  numSurvivingServers := 1
  surviving_pos := Nat.one_pos
  servers := [[true]]
  parityServers := []
  bufferSize := protoBufMinSize
  bufferSize_ge := le_rfl

/-- The response comes before the wait starts: the thread waits on the condition of an entry that
was erased, with nothing unanswered. -/
theorem not_sound_of_early_response :
    ¬ (run step (start [sampleLost]) [.insert, .send, .respond 1 (.stripes [0]), .wait]).Sound := by
  intro h
  obtain ⟨r, hr⟩ := h.entry (by decide)
  have hnone : (run step (start [sampleLost])
      [.insert, .send, .respond 1 (.stripes [0]), .wait]).reconstruction 1 = none := by decide +kernel
  exact absurd (hnone.symm.trans hr) (by simp)

end Sender

end MemEC.Coordinator
