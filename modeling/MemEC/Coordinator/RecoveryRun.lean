import MemEC.Coordinator.Recovery
import MemEC.Lib.Lists

/-!
# One recovery at a time

Every step keeps the servers that are being recovered, up to their order, or starts
the recovery of one server when there is none, or completes the only one. A server
that leaves the ring is being recovered from then on.
-/

namespace MemEC.Coordinator

open MemEC.Lib

namespace Recoveries

variable {cluster : Cluster} {s s' : Recoveries} {server : ℕ}

/-! ## The servers that are being recovered -/

theorem promoting_perm {l l' : List RecoveryHandler} (h : l.Perm l') :
    (promoting l).Perm (promoting l') := (h.filter _).map _

theorem promoting_cons_of_none {h : RecoveryHandler} (hnone : h.tasks = none)
    (l : List RecoveryHandler) : promoting (h :: l) = h.original :: promoting l := by
  unfold promoting
  rw [List.filter_cons_of_pos, List.map_cons]
  exact decide_eq_true hnone

theorem promoting_cons_of_some {h : RecoveryHandler} {tasks : List (List ℕ)}
    (hsome : h.tasks = some tasks) (l : List RecoveryHandler) : promoting (h :: l) = promoting l := by
  unfold promoting
  rw [List.filter_cons_of_neg]
  simp [hsome]

section

variable {l : List RecoveryHandler} {j : ℕ} {h h' : RecoveryHandler} {tasks tasks' : List (List ℕ)}

/-- A backup server is promoted. -/
theorem promoting_set_of_none (hj : l[j]? = some h) (hnone : h.tasks = none)
    (hsome : h'.tasks = some tasks) :
    (h.original :: promoting (l.set j h')).Perm (promoting l) := by
  have hperm := promoting_perm (perm_set_of_getElem? hj h')
  rwa [promoting_cons_of_none hnone, promoting_cons_of_some hsome] at hperm

theorem promoting_set_of_some (hj : l[j]? = some h) (hsome : h.tasks = some tasks)
    (hsome' : h'.tasks = some tasks') : (promoting (l.set j h')).Perm (promoting l) := by
  have hperm := promoting_perm (perm_set_of_getElem? hj h')
  rwa [promoting_cons_of_some hsome, promoting_cons_of_some hsome'] at hperm

theorem promoting_eraseIdx_of_some (hj : l[j]? = some h) (hsome : h.tasks = some tasks) :
    (promoting (l.eraseIdx j)).Perm (promoting l) := by
  have hperm := promoting_perm (perm_eraseIdx_of_getElem? hj)
  rw [promoting_cons_of_some hsome] at hperm
  exact hperm.symm

end

/-! ## The invariant -/

/-- A triggered server that has left the ring is recovered or being recovered. -/
structure Inv (s : Recoveries) : Prop extends Sound s where
  placed : ∀ t ∈ s.triggered, t ∈ s.servers ∨ t ∈ s.recovered ∨ t ∈ s.inProgress

theorem inv_start (servers backupServers : List ℕ) (ready allowRemapping : ℕ → Bool) :
    (start servers backupServers ready allowRemapping).Inv where
  running := rfl
  atMostOne := Nat.zero_le 1
  triggered := fun _ ht => absurd ht List.not_mem_nil
  flag := by
    constructor
    · exact fun h => absurd h Bool.false_ne_true
    · exact fun h => absurd rfl h
  completes := fun _ hr => absurd hr List.not_mem_nil
  placed := fun _ ht => absurd ht List.not_mem_nil

/-- A step that keeps the servers that are being recovered keeps the invariant. -/
theorem Inv.of_perm (h : s.Inv) (hrunning : s'.crashed = false)
    (hperm : s'.inProgress.Perm s.inProgress) (htriggered : s'.triggered = s.triggered)
    (hrecovered : s'.recovered = s.recovered) (hwaiting : s'.waiting = s.waiting)
    (hservers : s'.servers = s.servers) (hflag : s'.isRecovering = s.isRecovering)
    (hcompletes : ∀ r ∈ s'.recovery, r.remainingChunks ≠ 0 ∨ r.remainingKeys ≠ 0) : s'.Inv where
  running := hrunning
  atMostOne := by
    rw [hperm.length_eq]
    exact h.atMostOne
  triggered := by
    intro t ht
    rw [hrecovered, hperm.mem_iff, hwaiting]
    exact h.triggered t (htriggered ▸ ht)
  flag := by
    rw [hflag, h.flag, not_iff_not]
    constructor
    · intro hnil
      exact List.Perm.eq_nil (hnil ▸ hperm)
    · intro hnil
      exact (hnil ▸ hperm).nil_eq.symm
  completes := hcompletes
  placed := by
    intro t ht
    rw [hservers, hrecovered, hperm.mem_iff]
    exact h.placed t (htriggered ▸ ht)

/-- The server that a worker is about to handle may be in none of the places. -/
structure InvExcept (server : ℕ) (s : Recoveries) : Prop where
  running : s.crashed = false
  atMostOne : s.inProgress.length ≤ 1
  triggered : ∀ t ∈ s.triggered, t = server ∨ t ∈ s.recovered ∨ t ∈ s.inProgress ∨ t ∈ s.waiting
  flag : s.isRecovering = true ↔ s.inProgress ≠ []
  completes : ∀ r ∈ s.recovery, r.remainingChunks ≠ 0 ∨ r.remainingKeys ≠ 0
  placed : ∀ t ∈ s.triggered, t ∈ s.servers ∨ t ∈ s.recovered ∨ t ∈ s.inProgress

theorem mem_set_idxOf {l : List ℕ} {a t : ℕ} (ht : t ∈ l) (ha : a ∈ l) (b : ℕ) :
    t ∈ l.set (l.idxOf a) b ∨ t = a := by
  have hat : l[l.idxOf a]? = some a := List.getElem?_idxOf ha
  have hperm := perm_set_of_getElem? hat b
  rcases List.mem_cons.mp (hperm.mem_iff.mpr (List.mem_cons_of_mem b ht)) with heq | hmem
  · exact Or.inr heq
  · exact Or.inl hmem

theorem InvExcept.replaceBy (h : s.InvExcept server) (hmem : server ∈ s.servers)
    (hidle : s.inProgress = []) (backup : ℕ) (backupServers : List ℕ) :
    (s.replaceBy server backup backupServers).Inv := by
  obtain ⟨hpromoting, hrecovery⟩ := List.append_eq_nil_iff.mp hidle
  have hprogress : (s.replaceBy server backup backupServers).inProgress = [server] := by
    have happend := promoting_perm (List.perm_append_singleton
      (⟨server, backup, s.servers.idxOf server, none⟩ : RecoveryHandler) s.handlers)
    rw [promoting_cons_of_none rfl, hpromoting] at happend
    unfold inProgress Recoveries.replaceBy
    dsimp only
    rw [hrecovery, List.append_nil]
    exact List.perm_singleton.mp happend
  constructor
  case placed =>
    intro t ht
    rw [hprogress, List.mem_singleton]
    rcases h.placed t ht with hring | hrecovered | hprogress
    · exact (mem_set_idxOf hring hmem backup).imp_right Or.inr
    · exact Or.inr (Or.inl hrecovered)
    · rw [hidle] at hprogress
      exact absurd hprogress List.not_mem_nil
  constructor
  case running => exact h.running
  case atMostOne => exact (congrArg List.length hprogress).le
  case triggered =>
    intro t ht
    rw [hprogress, List.mem_singleton]
    rcases h.triggered t ht with heq | hrecovered | hprogress | hwaiting
    · exact Or.inr (Or.inl heq)
    · exact Or.inl hrecovered
    · rw [hidle] at hprogress
      exact absurd hprogress List.not_mem_nil
    · exact Or.inr (Or.inr hwaiting)
  case flag =>
    rw [hprogress]
    exact ⟨fun _ => List.cons_ne_nil _ _, fun _ => rfl⟩
  case completes => exact h.completes

theorem InvExcept.handleReconstructionRequest (h : s.InvExcept server) (hstart : s.CanStart server) :
    (s.handleReconstructionRequest server).Inv := by
  unfold Recoveries.handleReconstructionRequest
  by_cases hring : server ∉ s.servers
  · rw [if_pos hring]
    constructor
    case placed => exact h.placed
    constructor
    case triggered =>
      intro t ht
      rcases h.triggered t ht with rfl | hplace
      · rcases h.placed t ht with hmem | hrecovered | hprogress
        · exact absurd hmem hring
        · exact Or.inl hrecovered
        · exact Or.inr (Or.inl hprogress)
      · exact hplace
    all_goals first | exact h.running | exact h.atMostOne | exact h.flag | exact h.completes
  rw [if_neg hring]
  by_cases hflag : s.isRecovering = true
  · rw [if_pos hflag]
    constructor
    case placed => exact h.placed
    constructor
    case triggered =>
      intro t ht
      have hmem : ∀ u, u = server ∨ u ∈ s.waiting → u ∈ (s.sockets ++ [server]) ++ s.events := by
        intro u hu
        rcases hu with rfl | hu
        · simp
        · rcases List.mem_append.mp hu with hu | hu <;> simp [hu]
      rcases h.triggered t ht with heq | hrecovered | hprogress | hwaiting
      · exact Or.inr (Or.inr (hmem t (Or.inl heq)))
      · exact Or.inl hrecovered
      · exact Or.inr (Or.inl hprogress)
      · exact Or.inr (Or.inr (hmem t (Or.inr hwaiting)))
    all_goals first | exact h.running | exact h.atMostOne | exact h.flag | exact h.completes
  · rw [if_neg hflag]
    have hfalse : s.isRecovering = false := Bool.eq_false_of_not_eq_true hflag
    have hidle : s.inProgress = [] := by
      by_contra hne
      exact hflag (h.flag.mpr hne)
    cases hbackup : s.backupServers with
    | nil => exact absurd hbackup (hstart (not_not.mp hring) hfalse)
    | cons backup backupServers => exact h.replaceBy (not_not.mp hring) hidle backup backupServers

/-! ## The steps -/

theorem Inv.trigger (h : s.Inv) (hmem : server ∈ s.servers) (hstart : s.CanStart server) :
    ({ s with triggered := server :: s.triggered }.handleReconstructionRequest server).Inv := by
  apply InvExcept.handleReconstructionRequest
  · constructor
    case triggered =>
      intro t ht
      rcases List.mem_cons.mp ht with heq | ht
      · exact Or.inl heq
      · exact Or.inr (h.triggered t ht)
    case placed =>
      intro t ht
      rcases List.mem_cons.mp ht with rfl | ht
      · exact Or.inl hmem
      · exact h.placed t ht
    all_goals first | exact h.running | exact h.atMostOne | exact h.flag | exact h.completes
  · exact hstart

theorem Inv.handle (h : s.Inv) {j : ℕ} (hj : s.events[j]? = some server)
    (hstart : s.CanStart server) :
    ({ s with events := s.events.eraseIdx j }.handleReconstructionRequest server).Inv := by
  apply InvExcept.handleReconstructionRequest
  · constructor
    case triggered =>
      intro t ht
      rcases h.triggered t ht with hrecovered | hprogress | hwaiting
      · exact Or.inr (Or.inl hrecovered)
      · exact Or.inr (Or.inr (Or.inl hprogress))
      · rcases List.mem_append.mp hwaiting with hsocket | hevent
        · exact Or.inr (Or.inr (Or.inr (List.mem_append_left _ hsocket)))
        · rcases List.mem_cons.mp ((perm_eraseIdx_of_getElem? hj).mem_iff.mp hevent) with heq | hmem
          · exact Or.inl heq
          · exact Or.inr (Or.inr (Or.inr (List.mem_append_right _ hmem)))
    case placed => exact h.placed
    all_goals first | exact h.running | exact h.atMostOne | exact h.flag | exact h.completes
  · exact hstart

theorem Inv.promote (h : s.Inv) {j : ℕ} {handler : RecoveryHandler}
    (hj : s.handlers[j]? = some handler) (hnone : handler.tasks = none)
    (hlost : cluster.lostChunks handler.original ≠ 0 ∨
      cluster.lostUnsealedKeys handler.original ≠ 0) : (s.promote cluster j handler).Inv := by
  apply h.of_perm
  case hperm =>
    unfold inProgress Recoveries.promote
    dsimp only
    rw [List.map_append]
    have hpromoting : (handler.original :: promoting (s.handlers.set j { handler with
        tasks := some ((cluster.lists handler.index).map s.surviving) })).Perm
        (promoting s.handlers) := promoting_set_of_none hj hnone rfl
    calc
      List.Perm _ (_ ++ ([handler.original] ++ s.recovery.map PendingRecovery.original)) :=
        List.perm_append_comm.append_left _
      List.Perm _ (handler.original :: (_ ++ s.recovery.map PendingRecovery.original)) :=
        List.perm_middle
      List.Perm _ _ := hpromoting.append_right _
  case hcompletes =>
    intro r hr
    rcases List.mem_append.mp hr with hr | hr
    · exact h.completes r hr
    · rw [List.mem_singleton.mp hr]
      exact hlost
  case hrunning => exact h.running
  all_goals rfl

theorem Inv.distribute (h : s.Inv) {j : ℕ} {handler : RecoveryHandler} {tasks : List (List ℕ)}
    (hj : s.handlers[j]? = some handler) (hsome : handler.tasks = some tasks)
    (hsurviving : ∀ task rest, tasks = task :: rest →
      s.numSurvivingServers handler.backup task ≠ 0) : (s.distribute j handler tasks).Inv := by
  cases tasks with
  | nil =>
    apply h.of_perm
    case hperm => exact (promoting_eraseIdx_of_some hj hsome).append_right _
    case hrunning => exact h.running
    case hcompletes => exact h.completes
    all_goals rfl
  | cons task rest =>
    rw [Recoveries.distribute, if_neg (hsurviving task rest rfl)]
    apply h.of_perm
    case hperm => exact (promoting_set_of_some hj hsome rfl).append_right _
    case hrunning => exact h.running
    case hcompletes => exact h.completes
    all_goals rfl

/-- The server whose turn comes moves from the queue to an event. -/
theorem complete_eq (s : Recoveries) (original : ℕ) : ∃ sockets events,
    s.complete original = { s with
      recovered := original :: s.recovered
      isRecovering := false
      sockets
      events } ∧ ∀ t ∈ s.waiting, t ∈ sockets ++ events := by
  unfold Recoveries.complete waiting
  cases s.sockets with
  | nil => exact ⟨[], s.events, rfl, fun _ => id⟩
  | cons failed sockets =>
    refine ⟨sockets, s.events ++ [failed], rfl, ?_⟩
    intro t ht
    simp only [List.mem_append, List.mem_cons, List.not_mem_nil, or_false] at ht ⊢
    tauto

theorem Inv.complete {r : PendingRecovery} {rest : List PendingRecovery} (h : s.Inv)
    (hperm : s.recovery.Perm (r :: rest)) :
    ({ s with recovery := rest }.complete r.original).Inv := by
  have hprogress : s.inProgress.Perm
      (r.original :: (promoting s.handlers ++ rest.map PendingRecovery.original)) :=
    ((hperm.map PendingRecovery.original).append_left _).trans List.perm_middle
  have hrest : promoting s.handlers ++ rest.map PendingRecovery.original = [] := by
    apply List.eq_nil_of_length_eq_zero
    have hlength := hprogress.length_eq
    rw [List.length_cons] at hlength
    have := h.atMostOne
    omega
  have hone : ∀ t ∈ s.inProgress, t = r.original := by
    intro t ht
    rw [hprogress.mem_iff, hrest] at ht
    exact List.mem_singleton.mp ht
  obtain ⟨sockets, events, heq, hwaiting⟩ := complete_eq { s with recovery := rest } r.original
  rw [heq]
  constructor
  case placed =>
    intro t ht
    rcases h.placed t ht with hring | hrecovered | hin
    · exact Or.inl hring
    · exact Or.inr (Or.inl (List.mem_cons_of_mem _ hrecovered))
    · exact Or.inr (Or.inl (List.mem_cons.mpr (Or.inl (hone t hin))))
  constructor
  case running => exact h.running
  case atMostOne => exact (congrArg List.length hrest).le.trans (Nat.zero_le 1)
  case triggered =>
    intro t ht
    rcases h.triggered t ht with hrecovered | hin | hwait
    · exact Or.inl (List.mem_cons_of_mem _ hrecovered)
    · exact Or.inl (List.mem_cons.mpr (Or.inl (hone t hin)))
    · exact Or.inr (Or.inr (hwaiting t hwait))
  case flag =>
    constructor
    · exact fun hfalse => absurd hfalse Bool.false_ne_true
    · exact fun hne => absurd hrest hne
  case completes =>
    exact fun q hq => h.completes q (hperm.mem_iff.mpr (List.mem_cons_of_mem r hq))

theorem Inv.handlePromoteBackupServerResponse (h : s.Inv)
    (requestId addr chunkCount unsealedCount socket : ℕ) :
    (s.handlePromoteBackupServerResponse requestId addr chunkCount unsealedCount socket).Inv := by
  unfold Recoveries.handlePromoteBackupServerResponse
  cases hfind : s.recovery.find? fun r => r.requestId = requestId with
  | none => exact h
  | some r =>
    have hperm := perm_eraseP_of_find? hfind
    dsimp only
    split_ifs with hmatch hdone
    · exact h.complete hperm
    · apply h.of_perm
      case hperm => exact ((hperm.map PendingRecovery.original).append_left _).symm
      case hrunning => exact h.running
      case hcompletes =>
        intro q hq
        rcases List.mem_cons.mp hq with rfl | hq
        · exact not_and_or.mp hdone
        · exact h.completes q (hperm.mem_iff.mpr (List.mem_cons_of_mem r hq))
      all_goals rfl
    · exact h

theorem Inv.step {action : RecoveryAction} (h : s.Inv) (hallowed : s.Allowed cluster action) :
    (s.step cluster action).Inv := by
  have hrunning : ¬ s.crashed = true := by
    rw [h.running]
    exact Bool.false_ne_true
  unfold Recoveries.step
  rw [if_neg hrunning]
  cases action with
  | setReady server ready => exact h.of_perm h.running (.refl _) rfl rfl rfl rfl rfl h.completes
  | setAllowRemapping server allow =>
    exact h.of_perm h.running (.refl _) rfl rfl rfl rfl rfl h.completes
  | register server => exact h.of_perm h.running (.refl _) rfl rfl rfl rfl rfl h.completes
  | trigger server =>
    dsimp only
    split_ifs with hmem
    · exact h.trigger hmem hallowed
    · exact h
  | handle j =>
    dsimp only
    cases hj : s.events[j]? with
    | none => exact h
    | some server => exact h.handle hj (hallowed server hj)
  | promote j =>
    dsimp only
    cases hj : s.handlers[j]? with
    | none => exact h
    | some handler =>
      dsimp only
      split_ifs with hnone
      · exact h.promote hj hnone (hallowed handler hj hnone)
      · exact h
  | distribute j =>
    dsimp only
    cases hj : s.handlers[j]? with
    | none => exact h
    | some handler =>
      dsimp only
      cases hsome : handler.tasks with
      | none => exact h
      | some tasks =>
        apply h.distribute hj hsome
        rintro task rest rfl
        exact hallowed handler task rest hj hsome
  | respond requestId addr chunkCount unsealedCount socket =>
    exact h.handlePromoteBackupServerResponse requestId addr chunkCount unsealedCount socket

/-! ## Steps that are not allowed -/

/-- Nothing is taken from the backup servers, but the flag is set. -/
theorem not_sound_of_not_canStart (h : s.Inv) {s₁ : Recoveries} (hservers : s₁.servers = s.servers)
    (hflag : s₁.isRecovering = s.isRecovering) (hbackup : s₁.backupServers = s.backupServers)
    (hprogress : s₁.inProgress = s.inProgress) (hnot : ¬ s.CanStart server) :
    ¬ (s₁.handleReconstructionRequest server).Sound := by
  unfold CanStart at hnot
  push Not at hnot
  obtain ⟨hmem, hfalse, hnone⟩ := hnot
  have hidle : s₁.inProgress = [] := by
    rw [hprogress]
    by_contra hne
    exact absurd (hfalse.symm.trans (h.flag.mpr hne)) Bool.false_ne_true
  have hnot_recovering : ¬ s₁.isRecovering = true := by
    rw [hflag, hfalse]
    exact Bool.false_ne_true
  rw [handleReconstructionRequest, if_neg (not_not_intro (hservers ▸ hmem)),
    if_neg hnot_recovering, hbackup, hnone]
  intro hsound
  exact hsound.flag.mp rfl hidle

theorem not_sound_of_not_allowed {action : RecoveryAction} (h : s.Inv)
    (hnot : ¬ s.Allowed cluster action) : ¬ (s.step cluster action).Sound := by
  have hrunning : ¬ s.crashed = true := by
    rw [h.running]
    exact Bool.false_ne_true
  unfold Recoveries.step
  rw [if_neg hrunning]
  cases action with
  | setReady server ready => exact absurd trivial hnot
  | setAllowRemapping server allow => exact absurd trivial hnot
  | register server => exact absurd trivial hnot
  | trigger server =>
    have hmem : server ∈ s.servers := by
      by_contra hring
      exact hnot fun hmem => absurd hmem hring
    dsimp only
    rw [if_pos hmem]
    exact not_sound_of_not_canStart h rfl rfl rfl rfl hnot
  | handle j =>
    unfold Allowed at hnot
    push Not at hnot
    obtain ⟨server, hj, hstart⟩ := hnot
    dsimp only
    rw [hj]
    exact not_sound_of_not_canStart h rfl rfl rfl rfl hstart
  | promote j =>
    unfold Allowed at hnot
    push Not at hnot
    obtain ⟨handler, hj, hnone, hchunks, hkeys⟩ := hnot
    dsimp only
    rw [hj]
    dsimp only
    rw [if_pos hnone]
    intro hsound
    have hpending := hsound.completes _ (List.mem_append_right _ List.mem_cons_self)
    exact hpending.elim (fun hne => hne hchunks) fun hne => hne hkeys
  | distribute j =>
    unfold Allowed at hnot
    push Not at hnot
    obtain ⟨handler, task, tasks, hj, hsome, hzero⟩ := hnot
    dsimp only
    rw [hj]
    dsimp only
    rw [hsome]
    dsimp only
    rw [distribute, if_pos hzero]
    intro hsound
    exact absurd hsound.running (by simp)
  | respond requestId addr chunkCount unsealedCount socket => exact absurd trivial hnot

/-! ## Runs -/

/-- For every cluster and every run: what recoveries promise holds in all its states exactly when
each recovery starts with a backup server, has something to recover, and finds survivors. -/
theorem sound_iff_recoverable (cluster : Cluster) (servers backupServers : List ℕ)
    (ready allowRemapping : ℕ → Bool) (actions : List RecoveryAction) :
    (∀ n ≤ actions.length, (run (step cluster)
        (start servers backupServers ready allowRemapping) (actions.take n)).Sound) ↔
      ∀ n action, actions[n]? = some action → (run (step cluster)
        (start servers backupServers ready allowRemapping) (actions.take n)).Allowed cluster
          action := by
  let after (past : List RecoveryAction) : Recoveries :=
    run (step cluster) (start servers backupServers ready allowRemapping) past
  have hconcat : ∀ past action, after (past ++ [action]) = (after past).step cluster action :=
    fun past action => run_concat past action
  have hgood : ∀ past, (after past).Inv → (after past).Sound := fun _ h => h.toSound
  have hstep : ∀ past action, (after past).Inv → (after past).Allowed cluster action →
      (after (past ++ [action])).Inv := by
    intro past action h ha
    rw [hconcat]
    exact h.step ha
  have hbad : ∀ past action, (after past).Inv → ¬ (after past).Allowed cluster action →
      ¬ (after (past ++ [action])).Sound := by
    intro past action h ha
    rw [hconcat]
    exact not_sound_of_not_allowed h ha
  exact good_iff_allowed (inv_start servers backupServers ready allowRemapping) hgood hstep hbad
    actions

/-- Nothing is lost. -/
def emptyCluster : Cluster := ⟨fun _ => [], fun _ => 0, fun _ => 0⟩

/-- A trigger without a backup server sets the flag for good. -/
theorem not_sound_of_no_backup :
    ¬ (run (step emptyCluster) (start [1, 2] [] (fun _ => true) fun _ => false) [.trigger 1]).Sound := by
  intro h
  exact absurd (h.flag.mp rfl) (by decide)

end Recoveries

end MemEC.Coordinator
