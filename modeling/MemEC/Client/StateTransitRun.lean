import MemEC.Client.StateTransit

/-!
# When a client has reverted and gathered

As long as a gathered request waits for an answer, its ID is in the set and the
flag is down. The flag is raised only over an empty set, so what matters is which
IDs leave the set, and that nothing enters it under a raised flag.
-/

namespace MemEC.Client

open MemEC.Lib MemEC.Common

namespace StateTransitInfo

variable {lists : StripeLists} {s s' : StateTransitInfo} {requestId j : ℕ} {op : WriteOpcode}

/-- A gathered request of this ID waits for an answer. -/
def Waits (s : StateTransitInfo) (requestId : ℕ) : Prop :=
  ∃ op, ∃ e ∈ s.servers op, e.2.waited = true ∧ e.1.parentRequestId = requestId

instance (s : StateTransitInfo) (requestId : ℕ) : Decidable (s.Waits requestId) :=
  decidable_of_iff (∃ op ∈ WriteOpcode.all, ∃ e ∈ s.servers op,
    e.2.waited = true ∧ e.1.parentRequestId = requestId) <| by
      constructor
      · exact fun ⟨op, _, h⟩ => ⟨op, h⟩
      · exact fun ⟨op, h⟩ => ⟨op, op.mem_all, h⟩

/-- The IDs that the next step of a worker or the reader removes. -/
def removedByWorker (s : StateTransitInfo) (j : ℕ) : List ℕ :=
  match s.workers[j]? with
  | some (.remove requestId) => [requestId]
  | _ => []

def removedByReader (s : StateTransitInfo) : List ℕ :=
  match s.reader with
  | .answered requestIds | .outdating _ requestIds => requestIds
  | _ => []

/-- The conditions under which the IDs stand for the requests: an ID is removed or forgotten only
when no request of this ID waits, the flag has not been raised again before the requests are
gathered, and no request to revert is given up. -/
def Allowed (lists : StripeLists) (s : StateTransitInfo) : ClientAction → Prop
  | .work j => ∀ requestId ∈ s.removedByWorker j, ¬ s.Waits requestId
  | .read => (∀ requestId ∈ s.removedByReader, ¬ s.Waits requestId) ∧
      (s.reader = .unset → s.gathered lists ≠ [] → s.completed = false)
  | .ackTransit => s.locked = false → s.state = .intermediate → ¬ s.ready →
      ∀ requestId ∈ s.requestIds, s.Waits requestId → s.findKeyValue requestId = true
  | .removePending server => server ∉ s.sentReverts
  | _ => True

instance (lists : StripeLists) (s : StateTransitInfo) :
    (action : ClientAction) → Decidable (s.Allowed lists action)
  | .work _ => inferInstanceAs (Decidable (∀ _ ∈ _, _))
  | .read => inferInstanceAs (Decidable ((∀ _ ∈ _, _) ∧ (_ → ¬ _ → _)))
  | .ackTransit => inferInstanceAs (Decidable (_ → _ → _ → ∀ _ ∈ _, _ → _))
  | .removePending _ => inferInstanceAs (Decidable (¬ _))
  | .send .. | .withdraw .. | .setApplications _ | .respond .. | .intermediate
  | .intermediateOther _ | .setState _ | .setStateOther .. | .sendRevert _ | .ackRevert _ =>
    inferInstanceAs (Decidable True)

structure Inv (s : StateTransitInfo) : Prop where
  waiting : ∀ requestId, s.Waits requestId → requestId ∈ s.requestIds ∧ s.completed = false
  counter : s.parityRevert = s.queuedReverts.length + s.sentReverts.length
  kept : s.droppedReverts = 0

theorem inv_start : start.Inv where
  waiting := fun _ ⟨_, _, he, _⟩ => absurd he List.not_mem_nil
  counter := rfl
  kept := rfl

/-! ## The requests that wait -/

theorem Waits.of_servers (h : s'.Waits requestId)
    (hservers : ∀ op, ∀ e ∈ s'.servers op, e.2.waited = true → e ∈ s.servers op) :
    s.Waits requestId := by
  obtain ⟨op, e, he, hwaited, hid⟩ := h
  exact ⟨op, e, hservers op e he hwaited, hwaited, hid⟩

theorem waits_setServers {m : EntryMap OutstandingEntry} (hm : ∀ e ∈ m, e ∈ s.servers op)
    (h : (s.setServers op m).Waits requestId) : s.Waits requestId := by
  apply h.of_servers
  intro op' e he _
  unfold setServers at he
  dsimp only at he
  by_cases heq : op' = op
  · subst heq
    rw [Function.update_self] at he
    exact hm e he
  · rwa [Function.update_of_ne heq] at he

/-- A step that gathers nothing and removes nothing. -/
theorem Inv.of_waits (h : s.Inv) (hwaits : ∀ requestId, s'.Waits requestId → s.Waits requestId)
    (hids : s'.requestIds = s.requestIds) (hcompleted : s'.completed = s.completed)
    (hcounter : s'.parityRevert = s.parityRevert) (hqueued : s'.queuedReverts = s.queuedReverts)
    (hsent : s'.sentReverts = s.sentReverts) (hdropped : s'.droppedReverts = s.droppedReverts) :
    s'.Inv where
  waiting := by
    intro requestId hrequest
    rw [hids, hcompleted]
    exact h.waiting requestId (hwaits requestId hrequest)
  counter := by
    rw [hcounter, hqueued, hsent]
    exact h.counter
  kept := hdropped.trans h.kept

theorem mem_of_eraseEntry {V : Type} {p : TimedIdentifier × V → Bool} {m m' : EntryMap V}
    {e e' : TimedIdentifier × V}
    (h : EntryMap.eraseEntry id (fun _ => false) p m = some (e, m')) (he : e' ∈ m') : e' ∈ m := by
  unfold EntryMap.eraseEntry at h
  obtain ⟨_, _, heq⟩ := Option.map_eq_some_iff.mp h
  cases heq
  exact List.mem_of_mem_eraseP he

/-- A loop of `revertDelta` only takes entries out. -/
theorem mem_of_mem_revertSets {server : ℕ} {e : TimedIdentifier × OutstandingEntry}
    (kept todo : EntryMap OutstandingEntry) (applications : EntryMap KeyValueBackup)
    (requestIds : List ℕ) (he : e ∈ (revertSets lists server kept todo applications requestIds).1) :
    e ∈ kept ++ todo := by
  induction todo generalizing kept applications requestIds with
  | nil =>
    rw [List.append_nil]
    exact he
  | cons e' todo ih =>
    have hskip : ∀ applications requestIds,
        e ∈ (revertSets lists server kept todo applications requestIds).1 →
          e ∈ kept ++ e' :: todo := by
      intro applications requestIds he
      rcases List.mem_append.mp (ih kept applications requestIds he) with hmem | hmem
      · exact List.mem_append_left _ hmem
      · exact List.mem_append_right _ (List.mem_cons_of_mem e' hmem)
    unfold revertSets at he
    split_ifs at he with hserver hcount
    · split at he
      · exact hskip _ _ he
      · exact hskip _ _ he
    · exact hskip _ _ he
    · have hmem := ih (kept ++ [e']) applications requestIds he
      rwa [List.append_assoc] at hmem

/-! ## The set and the flag -/

/-- Nobody who waits is in the way of a removal. -/
theorem Inv.removePendingRequest (h : s.Inv) (hfree : ¬ s.Waits requestId) :
    (s.removePendingRequest requestId).Inv where
  waiting := by
    intro id hwaits
    have hne : id ≠ requestId := by
      rintro rfl
      exact hfree hwaits
    obtain ⟨hmem, hcompleted⟩ := h.waiting id hwaits
    exact ⟨Finset.mem_erase_of_ne_of_mem hne hmem, hcompleted⟩
  counter := h.counter
  kept := h.kept

theorem Inv.removePendingRequests (h : s.Inv) {requestIds : List ℕ}
    (hfree : ∀ requestId ∈ requestIds, ¬ s.Waits requestId) :
    (s.removePendingRequests requestIds).Inv where
  waiting := by
    intro id hwaits
    obtain ⟨hmem, hcompleted⟩ := h.waiting id hwaits
    constructor
    · apply Finset.mem_sdiff.mpr
      exact ⟨hmem, fun hremoved => hfree id (List.mem_toFinset.mp hremoved) hwaits⟩
    · exact hcompleted
  counter := h.counter
  kept := h.kept

/-- The flag is raised over an empty set only. -/
theorem Inv.setCompleted (h : s.Inv) : s.setCompleted.Inv where
  waiting := by
    intro id hwaits
    have hmem := (h.waiting id hwaits).1
    exact ⟨hmem, decide_eq_false (Finset.ne_empty_of_mem hmem)⟩
  counter := h.counter
  kept := h.kept

/-! ## The responses -/

theorem Inv.setWorker (h : s.Inv) (phase : ResponsePhase) : (s.setWorker j phase).Inv :=
  h.of_waits (fun _ => id) rfl rfl rfl rfl rfl rfl

theorem Inv.endWorker (h : s.Inv) : (s.endWorker j).Inv :=
  h.of_waits (fun _ => id) rfl rfl rfl rfl rfl rfl

theorem Inv.handleResponse (h : s.Inv) (op : WriteOpcode) (instanceId requestId socket : ℕ)
    (key : List UInt8) (success isDegraded : Bool) :
    (s.handleResponse op instanceId requestId socket key success isDegraded).Inv := by
  unfold StateTransitInfo.handleResponse
  by_cases hretry : op = .update ∧ success = false ∧ isDegraded = false
  · rw [if_pos hretry]
    exact h
  · rw [if_neg hretry]
    cases herase : EntryMap.eraseEntry id (fun _ => false)
        (EntryMap.isEntry OutstandingEntry.key instanceId requestId socket none) (s.servers op) with
    | none => exact h
    | some r =>
      obtain ⟨⟨pid, e⟩, m⟩ := r
      have hservers : (s.setServers op m).Inv := by
        apply h.of_waits
        case hwaits => exact fun _ => waits_setServers fun _ => mem_of_eraseEntry herase
        all_goals rfl
      dsimp only
      split_ifs
      · exact hservers
      · exact hservers.of_waits (fun _ => id) rfl rfl rfl rfl rfl rfl

theorem Inv.work (h : s.Inv) (hfree : ∀ requestId ∈ s.removedByWorker j, ¬ s.Waits requestId)
    {phase : ResponsePhase} (hj : s.workers[j]? = some phase) : (s.work lists j phase).Inv := by
  cases phase with
  | lookup op pid keySize key isDegraded =>
    unfold StateTransitInfo.work
    dsimp only
    cases s.eraseApplication op pid keySize key with
    | none => exact h.endWorker
    | some r =>
      obtain ⟨⟨requestId, listKey⟩, applications⟩ := r
      have happlications : { s with applications }.Inv :=
        h.of_waits (fun _ => id) rfl rfl rfl rfl rfl rfl
      dsimp only
      split_ifs
      · exact happlications.setWorker _
      · exact happlications.endWorker
  | check requestId =>
    unfold StateTransitInfo.work
    dsimp only
    split_ifs
    · exact h
    · exact h.endWorker
    · exact h.setWorker _
  | remove requestId =>
    have hremoved : requestId ∈ s.removedByWorker j := by
      rw [removedByWorker, hj]
      exact List.mem_singleton_self requestId
    have hinv := h.removePendingRequest (hfree requestId hremoved)
    unfold StateTransitInfo.work
    dsimp only
    split_ifs
    · exact hinv.setWorker _
    · exact hinv.endWorker
  | complete => exact h.setCompleted.endWorker

/-! ## The reader -/

theorem mem_gathered {e : TimedIdentifier × OutstandingEntry} (he : e ∈ s.servers op)
    (hgathers : s.gathers lists e = true) : e ∈ s.gathered lists :=
  List.mem_flatMap.mpr ⟨op, op.mem_all, List.mem_filter.mpr ⟨he, hgathers⟩⟩

/-- A request that waits behind the gathering waited before, or is gathered. -/
theorem waits_gather (h : (s.gatherPendingNormalRequests lists).Waits requestId) :
    s.Waits requestId ∨ ∃ e ∈ s.gathered lists, e.1.parentRequestId = requestId := by
  obtain ⟨op, e', he', hwaited, hid⟩ := h
  have hservers : (s.gatherPendingNormalRequests lists).servers op = (s.servers op).map fun e =>
      if s.gathers lists e then (e.1, { e.2 with waited := true }) else e := by
    unfold gatherPendingNormalRequests
    dsimp only
    split_ifs
    · rfl
    · rfl
  rw [hservers] at he'
  obtain ⟨e, he, rfl⟩ := List.mem_map.mp he'
  by_cases hgathers : s.gathers lists e = true
  · rw [if_pos hgathers] at hid
    exact Or.inr ⟨e, mem_gathered he hgathers, hid⟩
  · rw [if_neg hgathers] at hwaited hid
    exact Or.inl ⟨op, e, he, hwaited, hid⟩

theorem Inv.gatherPendingNormalRequests (h : s.Inv)
    (hflag : s.gathered lists ≠ [] → s.completed = false) :
    (s.gatherPendingNormalRequests lists).Inv := by
  have hwaiting : ∀ requestId, (s.gatherPendingNormalRequests lists).Waits requestId →
      requestId ∈ s.requestIds ∪
        ((s.gathered lists).map fun e => e.1.parentRequestId).toFinset ∧ s.completed = false := by
    intro requestId hrequest
    rcases waits_gather hrequest with hwaits | ⟨e, he, hid⟩
    · obtain ⟨hmem, hcompleted⟩ := h.waiting requestId hwaits
      exact ⟨Finset.mem_union_left _ hmem, hcompleted⟩
    · constructor
      · apply Finset.mem_union_right
        exact List.mem_toFinset.mpr (List.mem_map.mpr ⟨e, he, hid⟩)
      · exact hflag (List.ne_nil_of_mem he)
  unfold StateTransitInfo.gatherPendingNormalRequests at hwaiting ⊢
  dsimp only at hwaiting ⊢
  by_cases hnone : s.gathered lists = []
  · rw [if_pos hnone] at hwaiting ⊢
    apply Inv.setCompleted
    constructor
    case waiting => exact hwaiting
    case counter => exact h.counter
    case kept => exact h.kept
  · rw [if_neg hnone] at hwaiting ⊢
    constructor
    case waiting => exact hwaiting
    case counter => exact h.counter
    case kept => exact h.kept

theorem Inv.revertServer (h : s.Inv) (server : ℕ) : (s.revertServer lists server).1.Inv := by
  apply h.of_waits
  case hwaits =>
    intro requestId hrequest
    have hmem : ∀ e ∈ (revertSets lists server [] (s.servers .set) s.applications.set []).1,
        e ∈ s.servers .set :=
      fun e he => mem_of_mem_revertSets [] (s.servers .set) s.applications.set [] he
    exact waits_setServers hmem hrequest
  all_goals rfl

theorem Inv.leaveNormal (h : s.Inv) (server : ℕ) : (s.leaveNormal lists server).Inv := by
  apply h.of_waits
  case hwaits =>
    intro requestId hrequest
    apply hrequest.of_servers
    intro op e' he' hwaited
    obtain ⟨e, he, rfl⟩ := List.mem_map.mp he'
    by_cases hserver : lists.dataServer e.2.key = server
    · rw [if_pos hserver] at hwaited
      cases hwaited
    · rw [if_neg hserver]
      exact he
  all_goals rfl

theorem Inv.removeOutdated (h : s.Inv) {requestIds : List ℕ}
    (hfree : ∀ requestId ∈ requestIds, ¬ s.Waits requestId) :
    (s.removeOutdated requestIds).Inv := by
  have hinv := h.removePendingRequests hfree
  unfold StateTransitInfo.removeOutdated
  split_ifs
  · exact hinv.setCompleted
  · exact hinv

theorem Inv.removeAnswered (h : s.Inv) {requestIds : List ℕ}
    (hfree : ∀ requestId ∈ requestIds, ¬ s.Waits requestId) :
    (s.removeAnswered requestIds).Inv := by
  unfold StateTransitInfo.removeAnswered
  split_ifs
  · exact (h.removePendingRequests hfree).setCompleted
  · exact h

theorem Inv.setReader (h : s.Inv) (reader : SetStatePhase) : { s with reader }.Inv :=
  h.of_waits (fun _ => id) rfl rfl rfl rfl rfl rfl

theorem Inv.read (h : s.Inv) (hallowed : s.Allowed lists .read) : (s.read lists).Inv := by
  obtain ⟨hfree, hflag⟩ := hallowed
  unfold removedByReader at hfree
  unfold StateTransitInfo.read
  cases hreader : s.reader with
  | idle => exact h
  | unset => exact h.gatherPendingNormalRequests (hflag hreader)
  | gathered => exact (h.revertServer lists.target).setReader _
  | answered requestIds =>
    rw [hreader] at hfree
    exact (h.removeAnswered hfree).setReader _
  | dispatching =>
    constructor
    case waiting => exact h.waiting
    case counter =>
      dsimp only
      rw [List.length_append, h.counter]
      omega
    case kept => exact h.kept
  | outdating server requestIds =>
    rw [hreader] at hfree
    exact (h.removeOutdated hfree).setReader _
  | reverting server => exact (h.revertServer server).setReader _

theorem Inv.handleIntermediate (h : s.Inv) : s.handleIntermediate.Inv := by
  unfold StateTransitInfo.handleIntermediate
  split_ifs
  · exact h
  · constructor
    case waiting => exact fun requestId hrequest => ⟨(h.waiting requestId hrequest).1, rfl⟩
    case counter => exact h.counter
    case kept => exact h.kept

theorem Inv.whenIdle (h : s.Inv) (h' : s'.Inv) : (s.whenIdle s').Inv := by
  unfold StateTransitInfo.whenIdle
  split_ifs
  · exact h'
  · exact h

/-! ## The requests to revert, and the answer -/

theorem Inv.sendRevert (h : s.Inv) {i server : ℕ} (hi : s.queuedReverts[i]? = some server) :
    { s with
      queuedReverts := s.queuedReverts.eraseIdx i
      sentReverts := server :: s.sentReverts }.Inv where
  waiting := h.waiting
  counter := by
    have hlt : i < s.queuedReverts.length := (List.getElem?_eq_some_iff.mp hi).1
    dsimp only
    rw [List.length_eraseIdx_of_lt hlt, List.length_cons, h.counter]
    omega
  kept := h.kept

theorem Inv.acknowledgeRevert (h : s.Inv) (i : ℕ) : (s.acknowledgeRevert i).Inv := by
  unfold StateTransitInfo.acknowledgeRevert
  split_ifs with hlt
  · constructor
    case waiting => exact h.waiting
    case counter =>
      dsimp only
      rw [List.length_eraseIdx_of_lt hlt, h.counter]
      omega
    case kept => exact h.kept
  · exact h

theorem Inv.removePending (h : s.Inv) {server : ℕ} (hnone : server ∉ s.sentReverts) :
    (s.removePending server).Inv := by
  have hcount : s.sentReverts.count server = 0 := List.count_eq_zero.mpr hnone
  have hfilter : s.sentReverts.filter (fun t => t ≠ server) = s.sentReverts := by
    apply List.filter_eq_self.mpr
    intro t ht
    apply decide_eq_true
    rintro rfl
    exact hnone ht
  apply h.of_waits
  case hwaits => exact fun _ => id
  case hids => rfl
  case hcompleted => rfl
  case hcounter =>
    unfold StateTransitInfo.removePending
    rw [hcount, Nat.sub_zero]
  case hqueued => rfl
  case hsent => exact hfilter
  case hdropped =>
    unfold StateTransitInfo.removePending
    rw [hcount, Nat.add_zero]

theorem Inv.checkAckForServer (h : s.Inv)
    (hfound : s.state = .intermediate → ¬ s.ready →
      ∀ requestId ∈ s.requestIds, s.Waits requestId → s.findKeyValue requestId = true) :
    s.checkAckForServer.Inv := by
  unfold StateTransitInfo.checkAckForServer
  split_ifs with hstate hready hcoordinated
  · exact h.of_waits (fun _ => id) rfl rfl rfl rfl rfl rfl
  · constructor
    case waiting =>
      intro requestId hrequest
      obtain ⟨hmem, hcompleted⟩ := h.waiting requestId hrequest
      constructor
      · apply Finset.mem_filter.mpr
        exact ⟨hmem, hfound hstate hready requestId hmem hrequest⟩
      · exact hcompleted
    case counter => exact h.counter
    case kept => exact h.kept
  · exact h.of_waits (fun _ => id) rfl rfl rfl rfl rfl rfl
  · exact h

/-! ## The steps -/

theorem Inv.step (h : s.Inv) {action : ClientAction} (hallowed : s.Allowed lists action) :
    (s.step lists action).Inv := by
  cases action with
  | send op pid key =>
    apply h.of_waits
    case hwaits =>
      intro requestId hrequest
      apply hrequest.of_servers
      intro op' e he hwaited
      unfold StateTransitInfo.step setServers at he
      dsimp only at he
      by_cases heq : op' = op
      · subst heq
        rw [Function.update_self] at he
        rcases List.mem_cons.mp he with rfl | hmem
        · cases hwaited
        · exact hmem
      · rwa [Function.update_of_ne heq] at he
    all_goals rfl
  | withdraw op i =>
    apply h.of_waits
    case hwaits => exact fun _ => waits_setServers fun _ => List.mem_of_mem_eraseIdx
    all_goals rfl
  | setApplications applications => exact h.of_waits (fun _ => id) rfl rfl rfl rfl rfl rfl
  | respond op instanceId requestId socket key success isDegraded =>
    exact h.handleResponse op instanceId requestId socket key success isDegraded
  | work j =>
    unfold StateTransitInfo.step
    dsimp only
    cases hj : s.workers[j]? with
    | none => exact h
    | some phase => exact h.work hallowed hj
  | intermediate => exact h.whenIdle h.handleIntermediate
  | intermediateOther server =>
    unfold StateTransitInfo.step
    dsimp only
    split_ifs
    · exact h
    · exact h.whenIdle ((h.leaveNormal server).setReader _)
  | read => exact h.read hallowed
  | setState state => exact h.whenIdle (h.of_waits (fun _ => id) rfl rfl rfl rfl rfl rfl)
  | setStateOther server isNormal =>
    apply h.whenIdle
    split_ifs
    · exact h.of_waits (fun _ => id) rfl rfl rfl rfl rfl rfl
    · exact h.leaveNormal server
  | sendRevert i =>
    unfold StateTransitInfo.step
    dsimp only
    cases hi : s.queuedReverts[i]? with
    | none => exact h
    | some server => exact h.sendRevert hi
  | ackRevert i => exact h.acknowledgeRevert i
  | removePending server => exact h.removePending hallowed
  | ackTransit =>
    unfold StateTransitInfo.step
    dsimp only
    by_cases hlocked : s.locked = true
    · rw [if_pos hlocked]
      exact h
    · rw [if_neg hlocked]
      exact h.checkAckForServer (hallowed (Bool.eq_false_of_not_eq_true hlocked))

theorem Inv.answersInTime (h : s.Inv) : s.AnswersInTime := by
  rintro ⟨_, _, hcounter, hcompleted⟩
  have hzero := h.counter
  rw [hcounter] at hzero
  constructor
  case requests =>
    intro op e he
    by_contra hwaited
    have hwaits : s.Waits e.1.parentRequestId :=
      ⟨op, e, he, Bool.eq_true_of_not_eq_false hwaited, rfl⟩
    exact Bool.false_ne_true ((h.waiting _ hwaits).2.symm.trans hcompleted)
  case reverts =>
    refine ⟨?_, ?_, h.kept⟩
    · exact List.eq_nil_of_length_eq_zero (by omega)
    · exact List.eq_nil_of_length_eq_zero (by omega)

/-! ## The runs -/

/-- In a run of such steps the client answers only when nothing of what it has gathered or started
waits. -/
theorem answersInTime_after (lists : StripeLists) (actions : List ClientAction)
    (hallowed : ∀ n action, actions[n]? = some action →
      (run (step lists) start (actions.take n)).Allowed lists action) :
    (run (step lists) start actions).AnswersInTime :=
  (run_invariant_of_allowed inv_start (fun _ _ h => h.step) actions hallowed).answersInTime

/-- Server 1 has all the data and server 0, the target, the parity. -/
def sampleLists : StripeLists := ⟨0, [0, 1, 2], fun _ => 1, fun _ => [0]⟩

/-- The requests of an application: an UPDATE of key `a` with ID 5 and a SET of key `b` with
ID 6. -/
def sampleApplications : ApplicationMaps :=
  ⟨[(⟨⟨7, 7, 6, 6, 1⟩, 0⟩, ⟨[0x62], []⟩)], [],
    [(⟨⟨7, 7, 5, 5, 1⟩, 0⟩, ⟨[0x61], 0, 0, [], 1⟩)], []⟩

/-- The reader handles the message and the other servers revert. -/
def sampleMessage : List ClientAction :=
  [.intermediate, .read, .read, .read, .read, .sendRevert 0, .sendRevert 0, .ackRevert 0,
    .ackRevert 0, .ackTransit]

/-- The SET is sent to the data server and to the parity server. -/
def sampleSet : List ClientAction :=
  [.setApplications sampleApplications, .send .set ⟨⟨3, 7, 101, 6, 1⟩, 0⟩ [0x62],
    .send .set ⟨⟨3, 7, 101, 6, 0⟩, 0⟩ [0x62]]

def sampleResponse : List ClientAction :=
  [.respond .set 3 101 1 [0x62] true false, .work 0, .work 0, .work 0]

def sampleActions : List ClientAction := sampleSet ++ sampleMessage ++ sampleResponse

theorem answersInTime_after_sample :
    (run (step sampleLists) start sampleActions).AnswersInTime ∧
      (run (step sampleLists) start sampleActions).Answers := by
  constructor
  · apply answersInTime_after
    intro n action haction
    have hlt : n < 17 := (List.getElem?_eq_some_iff.mp haction).1
    interval_cases n <;> obtain rfl := Option.some.inj haction <;> decide +kernel
  · exact ⟨by decide +kernel, by decide +kernel, by decide +kernel⟩

/-- The UPDATE is outstanding too. Its ID is forgotten at the first check, and the response to the
SET raises the flag. -/
theorem not_answersInTime_of_update :
    ¬∀ lists actions, (run (step lists) start actions).AnswersInTime := by
  intro h
  have hquiet := h sampleLists
    (.send .update ⟨⟨3, 7, 100, 5, 1⟩, 0⟩ [0x61] :: sampleActions)
    ⟨by decide +kernel, by decide +kernel, by decide +kernel⟩
  have hrequests := hquiet.requests .update (⟨⟨3, 7, 100, 5, 1⟩, 0⟩, ⟨[0x61], true⟩)
    (by decide +kernel)
  cases hrequests

end StateTransitInfo

end MemEC.Client
