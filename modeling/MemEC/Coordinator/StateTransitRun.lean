import MemEC.Coordinator.StateTransit

/-!
# Who has acknowledged when a server is moved

The pool holds clients that are alive and have acknowledged the current transition,
apart from the one that is being removed. So when the sizes agree and the pool has
no member that is gone, everybody alive has acknowledged. A worker behind its wait
relies on this until it writes the state.
-/

namespace MemEC.Coordinator

open MemEC.Lib

namespace StateTransit

variable {s s' : StateTransit} {client j : ℕ} {w : TransitWorker} {phase : WorkerPhase}

/-- The pool has no member that has left already. -/
def Settled (s : StateTransit) : Prop :=
  match s.reader with
  | .leaving client => client ∉ s.ackClients
  | _ => True

instance (s : StateTransit) : Decidable s.Settled :=
  match h : s.reader with
  | .leaving client => decidable_of_iff (client ∉ s.ackClients) (by rw [Settled, h])
  | .receiving => .isTrue (by rw [Settled, h]; trivial)
  | .checking => .isTrue (by rw [Settled, h]; trivial)

/-- The conditions under which the sizes stand for the members: an acknowledgement that counts
answers the current transition, nobody joins when a worker is behind its wait, a worker does not
compare the sizes while a client is half removed, and the wait returns only when the sizes
agree. -/
def Allowed (s : StateTransit) : TransitAction → Prop
  | .ack client state transition => s.acceptsAck state → client ∈ s.aliveClients →
      transition = s.transition ∨ client ∈ s.acknowledged
  | .join client => client ∈ s.aliveClients ∨ ∀ w ∈ s.workers, w.phase ≠ .deciding
  | .check _ => s.Settled
  | .wake _ => s.allAcked ∧ s.Settled
  | _ => True

instance (s : StateTransit) : (action : TransitAction) → Decidable (s.Allowed action)
  | .ack .. => inferInstanceAs (Decidable (_ → _ → _))
  | .join _ => inferInstanceAs (Decidable (_ ∨ _))
  | .check _ => inferInstanceAs (Decidable s.Settled)
  | .wake _ => inferInstanceAs (Decidable (_ ∧ _))
  | .start _ | .checkAck | .leave _ | .leaveAcks | .wait _ | .finish _ =>
    inferInstanceAs (Decidable True)

structure Inv (s : StateTransit) : Prop where
  pool : ∀ c ∈ s.ackClients, c ∈ s.aliveClients ∧ c ∈ s.acknowledged ∨ s.reader = .leaving c
  alone : s.workers.length ≤ 1
  during : ∀ w ∈ s.workers, s.state = stateDuring w.start
  decided : ∀ w ∈ s.workers, w.phase = .deciding → s.aliveClients ⊆ s.acknowledged

theorem inv_init : init.Inv where
  pool := fun _ hc => absurd hc (Finset.notMem_empty _)
  alone := Nat.zero_le 1
  during := fun _ hw => absurd hw List.not_mem_nil
  decided := fun _ hw => absurd hw List.not_mem_nil

/-! ## The sizes and the members -/

/-- The pool has only members that are alive, so it is all of them when the sizes agree. -/
theorem Inv.subset_acknowledged (h : s.Inv) (hall : s.allAcked) (hsettled : s.Settled) :
    s.aliveClients ⊆ s.acknowledged := by
  have hpool : ∀ c ∈ s.ackClients, c ∈ s.aliveClients ∧ c ∈ s.acknowledged := by
    intro c hc
    rcases h.pool c hc with hmem | hleaving
    · exact hmem
    · rw [Settled, hleaving] at hsettled
      exact absurd hc hsettled
  have heq : s.ackClients = s.aliveClients :=
    Finset.eq_of_subset_of_card_le (fun c hc => (hpool c hc).1) hall.le
  intro c hc
  rw [← heq] at hc
  exact (hpool c hc).2

theorem settled_of_checking (h : s.reader = .checking) : s.Settled := by
  rw [Settled, h]
  trivial

/-! ## The workers -/

@[simp] theorem start_broadcast (w : TransitWorker) : w.broadcast.start = w.start := by
  unfold TransitWorker.broadcast
  split_ifs
  · rfl
  · rfl

theorem Inv.signalAllAcked (h : s.Inv) (hsub : s.allAcked → s.aliveClients ⊆ s.acknowledged) :
    s.signalAllAcked.Inv := by
  unfold StateTransit.signalAllAcked
  split_ifs with hall
  · constructor
    case pool => exact h.pool
    case alone =>
      rw [List.length_map]
      exact h.alone
    case during =>
      intro w hw
      obtain ⟨w', hw', rfl⟩ := List.mem_map.mp hw
      rw [start_broadcast]
      exact h.during w' hw'
    case decided => exact fun _ _ _ => hsub hall
  · exact h

theorem Inv.setPhase (h : s.Inv) (hj : s.workers[j]? = some w)
    (hsub : phase = .deciding → s.aliveClients ⊆ s.acknowledged) : (s.setPhase j w phase).Inv := by
  constructor
  case pool => exact h.pool
  case alone =>
    unfold StateTransit.setPhase
    rw [List.length_set]
    exact h.alone
  case during =>
    intro w' hw'
    rcases List.mem_or_eq_of_mem_set hw' with hmem | rfl
    · exact h.during w' hmem
    · exact h.during w (List.mem_of_getElem? hj)
  case decided =>
    intro w' hw' hphase
    rcases List.mem_or_eq_of_mem_set hw' with hmem | rfl
    · exact h.decided w' hmem hphase
    · exact hsub hphase

theorem getElem?_signalAllAcked (hj : s.workers[j]? = some w) (hphase : w.phase ≠ .waiting) :
    s.signalAllAcked.workers[j]? = some w := by
  unfold StateTransit.signalAllAcked
  split_ifs
  · dsimp only
    rw [List.getElem?_map, hj, Option.map_some, TransitWorker.broadcast, if_neg hphase]
  · exact hj

theorem signalAllAcked_clients (s : StateTransit) :
    s.signalAllAcked.aliveClients = s.aliveClients ∧
      s.signalAllAcked.acknowledged = s.acknowledged := by
  unfold StateTransit.signalAllAcked
  split_ifs
  · exact ⟨rfl, rfl⟩
  · exact ⟨rfl, rfl⟩

theorem Inv.check (h : s.Inv) (hj : s.workers[j]? = some w) (hphase : w.phase = .checking)
    (hsettled : s.Settled) : (s.check j w).Inv := by
  unfold StateTransit.check
  split_ifs with hall
  · have hsub := h.subset_acknowledged hall hsettled
    have hwaiting : w.phase ≠ .waiting := by
      rw [hphase]
      decide
    have hsignal : s.signalAllAcked.Inv := h.signalAllAcked fun _ => hsub
    apply hsignal.setPhase (getElem?_signalAllAcked hj hwaiting)
    intro _
    obtain ⟨halive, hacknowledged⟩ := signalAllAcked_clients s
    rw [halive, hacknowledged]
    exact hsub
  · exact h.setPhase hj fun hdeciding => by cases hdeciding

/-- There is no other worker. -/
theorem Inv.eraseIdx_eq_nil (h : s.Inv) (hj : s.workers[j]? = some w) :
    s.workers.eraseIdx j = [] := by
  have hlt : j < s.workers.length := (List.getElem?_eq_some_iff.mp hj).1
  apply List.eq_nil_of_length_eq_zero
  rw [List.length_eraseIdx_of_lt hlt]
  have := h.alone
  omega

/-- Without workers the state is free. -/
theorem Inv.of_workers_eq_nil (h : s.Inv) (hworkers : s'.workers = [])
    (hack : s'.ackClients = s.ackClients) (halive : s'.aliveClients = s.aliveClients)
    (hacknowledged : s'.acknowledged = s.acknowledged) (hreader : s'.reader = s.reader) :
    s'.Inv where
  pool := by
    rw [hack, halive, hacknowledged, hreader]
    exact h.pool
  alone := by
    rw [hworkers]
    exact Nat.zero_le 1
  during w hw := absurd (hworkers ▸ hw) List.not_mem_nil
  decided w hw := absurd (hworkers ▸ hw) List.not_mem_nil

theorem Inv.finish (h : s.Inv) (hj : s.workers[j]? = some w) : (s.finish j w).Inv := by
  unfold StateTransit.finish
  have hnil := h.eraseIdx_eq_nil hj
  split_ifs
  · exact h.of_workers_eq_nil hnil rfl rfl rfl rfl
  · exact h.of_workers_eq_nil hnil rfl rfl rfl rfl

theorem stateBefore_ne_stateDuring (start start' : Bool) :
    stateBefore start ≠ stateDuring start' := by
  cases start <;> cases start' <;> decide

theorem Inv.stateChangeInitHandler (h : s.Inv) (start : Bool) :
    (s.stateChangeInitHandler start).Inv := by
  unfold StateTransit.stateChangeInitHandler
  split_ifs with hstate
  · have hnil : s.workers = [] := by
      apply List.eq_nil_iff_forall_not_mem.mpr
      intro w hw
      apply stateBefore_ne_stateDuring start w.start
      rw [← hstate]
      exact h.during w hw
    constructor
    case pool => exact fun _ hc => absurd hc (Finset.notMem_empty _)
    case alone => rw [hnil, List.nil_append, List.length_singleton]
    case during =>
      intro w hw
      rw [hnil, List.nil_append] at hw
      rw [List.mem_singleton.mp hw]
    case decided =>
      intro w hw hdeciding
      rw [hnil, List.nil_append] at hw
      rw [List.mem_singleton.mp hw] at hdeciding
      cases hdeciding
  · exact h

/-! ## The reader -/

theorem Inv.updateState (h : s.Inv) (hreader : s.reader = .receiving) (state : Common.RemapState)
    (transition : ℕ) (hallowed : s.Allowed (.ack client state transition)) :
    (s.updateState client state transition).Inv := by
  have hpool : ∀ c ∈ s.ackClients, c ∈ s.aliveClients ∧ c ∈ s.acknowledged := by
    intro c hc
    rcases h.pool c hc with hmem | hleaving
    · exact hmem
    · rw [hreader] at hleaving
      cases hleaving
  unfold StateTransit.updateState
  by_cases haccepts : s.acceptsAck state
  · rw [if_pos haccepts]
    by_cases halive : client ∈ s.aliveClients
    · rw [if_pos halive]
      have hsub : s.acknowledged ⊆
          if transition = s.transition then insert client s.acknowledged else s.acknowledged := by
        split_ifs
        · exact Finset.subset_insert client s.acknowledged
        · exact Finset.Subset.refl s.acknowledged
      have hmem : client ∈
          if transition = s.transition then insert client s.acknowledged else s.acknowledged := by
        rcases hallowed haccepts halive with heq | hmem
        · rw [if_pos heq]
          exact Finset.mem_insert_self client s.acknowledged
        · exact hsub hmem
      constructor
      case pool =>
        intro c hc
        left
        rcases Finset.mem_insert.mp hc with rfl | hc
        · exact ⟨halive, hmem⟩
        · exact ⟨(hpool c hc).1, hsub (hpool c hc).2⟩
      case alone => exact h.alone
      case during => exact h.during
      case decided => exact fun w hw hdeciding => (h.decided w hw hdeciding).trans hsub
    · rw [if_neg halive]
      constructor
      case pool => exact fun c hc => Or.inl (hpool c hc)
      case alone => exact h.alone
      case during => exact h.during
      case decided => exact h.decided
  · rw [if_neg haccepts]
    exact h

theorem Inv.checkAck (h : s.Inv) (hreader : s.reader = .checking) :
    { s.signalAllAcked with reader := .receiving }.Inv := by
  have hsub : s.allAcked → s.aliveClients ⊆ s.acknowledged := fun hall =>
    h.subset_acknowledged hall (settled_of_checking hreader)
  have hsignal : s.signalAllAcked.Inv := h.signalAllAcked hsub
  have hreader' : s.signalAllAcked.reader = .checking := by
    unfold StateTransit.signalAllAcked
    split_ifs
    · exact hreader
    · exact hreader
  constructor
  case pool =>
    intro c hc
    rcases hsignal.pool c hc with hmem | hleaving
    · exact Or.inl hmem
    · rw [hreader'] at hleaving
      cases hleaving
  case alone => exact hsignal.alone
  case during => exact hsignal.during
  case decided => exact hsignal.decided

theorem Inv.addAliveClient (h : s.Inv) (hallowed : s.Allowed (.join client)) :
    (s.addAliveClient client).Inv := by
  constructor
  case pool =>
    intro c hc
    rcases h.pool c hc with hmem | hleaving
    · exact Or.inl ⟨Finset.mem_insert_of_mem hmem.1, hmem.2⟩
    · exact Or.inr hleaving
  case alone => exact h.alone
  case during => exact h.during
  case decided =>
    intro w hw hdeciding
    rcases hallowed with hmem | hnone
    · unfold StateTransit.addAliveClient
      dsimp only
      rw [Finset.insert_eq_of_mem hmem]
      exact h.decided w hw hdeciding
    · exact absurd hdeciding (hnone w hw)

theorem Inv.removeAliveClient (h : s.Inv) (hreader : s.reader = .receiving) :
    (s.removeAliveClient client).Inv := by
  constructor
  case pool =>
    intro c hc
    by_cases heq : c = client
    · right
      rw [heq]
      rfl
    · left
      rcases h.pool c hc with hmem | hleaving
      · exact ⟨Finset.mem_erase_of_ne_of_mem heq hmem.1, Finset.mem_erase_of_ne_of_mem heq hmem.2⟩
      · rw [hreader] at hleaving
        cases hleaving
  case alone => exact h.alone
  case during => exact h.during
  case decided =>
    exact fun w hw hdeciding => Finset.erase_subset_erase client (h.decided w hw hdeciding)

theorem Inv.removeClientAcks (h : s.Inv) (hreader : s.reader = .leaving client) :
    (s.removeClientAcks client).Inv := by
  constructor
  case pool =>
    intro c hc
    obtain ⟨hne, hc⟩ := Finset.mem_erase.mp hc
    rcases h.pool c hc with hmem | hleaving
    · exact Or.inl hmem
    · rw [hreader] at hleaving
      cases hleaving
      exact absurd rfl hne
  case alone => exact h.alone
  case during => exact h.during
  case decided => exact h.decided

/-! ## The steps -/

theorem withWorker_cases (s : StateTransit) (j : ℕ) (phase : WorkerPhase)
    (f : TransitWorker → StateTransit) : s.withWorker j phase f = s ∨
      ∃ w, s.workers[j]? = some w ∧ w.phase = phase ∧ s.withWorker j phase f = f w := by
  unfold StateTransit.withWorker
  cases hj : s.workers[j]? with
  | none => exact Or.inl rfl
  | some w =>
    dsimp only
    by_cases hphase : w.phase = phase
    · exact Or.inr ⟨w, rfl, hphase, if_pos hphase⟩
    · exact Or.inl (if_neg hphase)

theorem Inv.withWorker (h : s.Inv) {f : TransitWorker → StateTransit}
    (hf : ∀ w, s.workers[j]? = some w → w.phase = phase → (f w).Inv) :
    (s.withWorker j phase f).Inv := by
  rcases withWorker_cases s j phase f with heq | ⟨w, hj, hphase, heq⟩
  · rw [heq]
    exact h
  · rw [heq]
    exact hf w hj hphase

theorem Inv.whenReceiving (h : s.Inv) (hnext : s.reader = .receiving → s'.Inv) :
    (s.whenReceiving s').Inv := by
  unfold StateTransit.whenReceiving
  split_ifs with hreader
  · exact hnext hreader
  · exact h

theorem Inv.step (h : s.Inv) {action : TransitAction} (hallowed : s.Allowed action) :
    (s.step action).Inv := by
  cases action with
  | start start => exact h.stateChangeInitHandler start
  | ack client state transition =>
    exact h.whenReceiving fun hreader => h.updateState hreader state transition hallowed
  | checkAck =>
    unfold StateTransit.step
    dsimp only
    split_ifs with hreader
    · exact h.checkAck hreader
    · exact h
  | join client => exact h.whenReceiving fun _ => h.addAliveClient hallowed
  | leave client => exact h.whenReceiving h.removeAliveClient
  | leaveAcks =>
    unfold StateTransit.step
    cases hreader : s.reader with
    | receiving => exact h
    | checking => exact h
    | leaving client => exact h.removeClientAcks hreader
  | check j => exact h.withWorker fun w hj hphase => h.check hj hphase hallowed
  | wait j => exact h.withWorker fun w hj _ => h.setPhase hj fun hdeciding => by cases hdeciding
  | wake j =>
    exact h.withWorker fun w hj _ =>
      h.setPhase hj fun _ => h.subset_acknowledged hallowed.1 hallowed.2
  | finish j => exact h.withWorker fun w hj _ => h.finish hj

/-! ## The moves -/

theorem stateDuring_ne_stateAfter (start : Bool) : stateDuring start ≠ stateAfter start := by
  cases start <;> decide

theorem not_moves_of_state_eq (h : s'.state = s.state) : ¬ s.Moves s' := by
  rintro ⟨start, hduring, hafter⟩
  apply stateDuring_ne_stateAfter start
  rw [← hduring, ← hafter, h]

theorem state_whenReceiving (h : s'.state = s.state) : (s.whenReceiving s').state = s.state := by
  unfold StateTransit.whenReceiving
  split_ifs
  · exact h
  · rfl

theorem state_signalAllAcked (s : StateTransit) : s.signalAllAcked.state = s.state := by
  unfold StateTransit.signalAllAcked
  split_ifs
  · rfl
  · rfl

theorem state_withWorker {f : TransitWorker → StateTransit} (h : ∀ w, (f w).state = s.state) :
    (s.withWorker j phase f).state = s.state := by
  rcases withWorker_cases s j phase f with heq | ⟨w, _, _, heq⟩
  · rw [heq]
  · rw [heq]
    exact h w

/-- Nothing moves when a transition starts: the state is none in which workers wait. -/
theorem not_moves_stateChangeInitHandler (start : Bool) :
    ¬ s.Moves (s.stateChangeInitHandler start) := by
  by_cases hbefore : s.state = stateBefore start
  · rintro ⟨start', hduring, _⟩
    exact stateBefore_ne_stateDuring start start' (hbefore.symm.trans hduring)
  · apply not_moves_of_state_eq
    rw [StateTransit.stateChangeInitHandler, if_neg hbefore]

/-- Only a worker behind its wait moves a server. -/
theorem Moves.exists_deciding {action : TransitAction} (h : s.Moves (s.step action)) :
    ∃ w ∈ s.workers, w.phase = .deciding := by
  cases action with
  | start start => exact absurd h (not_moves_stateChangeInitHandler start)
  | ack client state transition =>
    refine absurd h (not_moves_of_state_eq (state_whenReceiving ?_))
    unfold StateTransit.updateState
    split_ifs
    · rfl
    · rfl
    · rfl
    · rfl
  | checkAck =>
    refine absurd h (not_moves_of_state_eq ?_)
    unfold StateTransit.step
    dsimp only
    split_ifs
    · exact state_signalAllAcked s
    · rfl
  | join client => exact absurd h (not_moves_of_state_eq (state_whenReceiving rfl))
  | leave client => exact absurd h (not_moves_of_state_eq (state_whenReceiving rfl))
  | leaveAcks =>
    refine absurd h (not_moves_of_state_eq ?_)
    unfold StateTransit.step
    cases s.reader with
    | receiving => rfl
    | checking => rfl
    | leaving client => rfl
  | check j =>
    refine absurd h (not_moves_of_state_eq (state_withWorker fun w => ?_))
    unfold StateTransit.check
    split_ifs
    · exact state_signalAllAcked s
    · rfl
  | wait j => exact absurd h (not_moves_of_state_eq (state_withWorker fun _ => rfl))
  | wake j => exact absurd h (not_moves_of_state_eq (state_withWorker fun _ => rfl))
  | finish j =>
    rcases withWorker_cases s j .deciding (s.finish j) with heq | ⟨w, hj, hphase, _⟩
    · exact absurd h (not_moves_of_state_eq (congrArg StateTransit.state heq))
    · exact ⟨w, List.mem_of_getElem? hj, hphase⟩

theorem Inv.movesAcknowledged (h : s.Inv) (action : TransitAction) :
    s.MovesAcknowledged action := by
  intro hmoves
  obtain ⟨w, hw, hdeciding⟩ := hmoves.exists_deciding
  exact h.decided w hw hdeciding

/-! ## The runs -/

/-- In a run of such steps a server is moved only when every client alive has acknowledged:
`action` is any step behind `past`. -/
theorem moved_after_acknowledgements (past : List TransitAction) (action : TransitAction)
    (hallowed : ∀ n a, past[n]? = some a → (run step init (past.take n)).Allowed a) :
    (run step init past).MovesAcknowledged action :=
  (run_invariant_of_allowed inv_init (fun _ _ h => h.step) past hallowed).movesAcknowledged action

/-- Two clients acknowledge, the second one before the worker waits. -/
def sampleTransit : List TransitAction :=
  [.join 0, .join 1, .start true, .ack 0 .waitDegraded 1, .checkAck, .check 0, .wait 0,
    .ack 1 .waitDegraded 1, .checkAck]

theorem moved_after_acknowledgements_sample :
    (run step init sampleTransit).MovesAcknowledged (.finish 0) ∧
      (run step init sampleTransit).Moves ((run step init sampleTransit).step (.finish 0)) := by
  constructor
  · apply moved_after_acknowledgements
    intro n a ha
    have hlt : n < 9 := (List.getElem?_eq_some_iff.mp ha).1
    interval_cases n <;> obtain rfl := Option.some.inj ha <;> decide
  · exact ⟨true, by decide, by decide⟩

/-- The wait of the worker returns although nobody has acknowledged. -/
theorem not_moved_after_acknowledgements_of_wake :
    ¬∀ past action, (run step init past).MovesAcknowledged action := by
  intro h
  have hmoves := h [.join 0, .start true, .check 0, .wait 0, .wake 0] (.finish 0)
    ⟨true, by decide, by decide⟩
  revert hmoves
  decide

end StateTransit

end MemEC.Coordinator
