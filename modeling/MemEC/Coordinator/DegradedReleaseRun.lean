import Mathlib.Algebra.BigOperators.Group.Finset.Basic
import Mathlib.Tactic
import MemEC.Coordinator.DegradedRelease
import MemEC.Lib.Lists

/-!
# Runs of releases

The chunks that the coordinator has counted and that no server has reported are
on their way: in the group that is being sent, in a request, at a server or in a
response. The count is always their number. So the transition is signalled
right when no count reaches zero before the last destination is added, and no
lock is found after a release when there was none in the table that the release
exchanges the locks for.
-/

namespace MemEC.Coordinator

open MemEC.Common MemEC.Lib

variable {Srv : Type}

/-! ## The groups -/

def ReleaseGroup.moves (g : ReleaseGroup) : List Move := g.srcs.map fun src => ⟨src, g.dst⟩

theorem moves_remaining (dst : ℕ × ℕ) (chunks : List Metadata) :
    (remaining dst chunks).toList.flatMap ReleaseGroup.moves = chunks.map fun src => ⟨src, dst⟩ := by
  cases chunks with
  | nil => rfl
  | cons c chunks => simp [remaining, ReleaseGroup.moves]

theorem perm_addSource (m : Move) (gs : List ReleaseGroup) :
    ((addSource m gs).flatMap ReleaseGroup.moves).Perm (gs.flatMap ReleaseGroup.moves ++ [m]) := by
  induction gs with
  | nil => exact List.Perm.refl _
  | cons g gs ih =>
    by_cases hdst : g.dst = m.dst
    · have hmoves : ReleaseGroup.moves ⟨g.dst, g.srcs ++ [m.src],
          List.append_ne_nil_of_left_ne_nil g.srcs_ne _⟩ = g.moves ++ [m] := by
        simp [ReleaseGroup.moves, hdst]
      rw [addSource, if_pos hdst, List.flatMap_cons, List.flatMap_cons, hmoves, List.append_assoc,
        List.append_assoc]
      exact List.perm_append_comm.append_left _
    · rw [addSource, if_neg hdst, List.flatMap_cons, List.flatMap_cons, List.append_assoc]
      exact ih.append_left _

/-- The groups have the chunks of the table, each once. -/
theorem perm_groups (moves : List Move) :
    ((groups moves).flatMap ReleaseGroup.moves).Perm moves := by
  induction moves using List.reverseRecOn with
  | nil => exact List.Perm.refl _
  | append_singleton moves m ih =>
    rw [groups, List.foldl_append]
    exact (perm_addSource m _).trans (ih.append_right [m])

theorem StripeLock.nodup_src {stripe : ListStripe} (lock : StripeLock stripe) :
    (lock.moves.map Move.src).Nodup := by
  rw [StripeLock.moves, List.map_map]
  apply List.Nodup.of_map fun m : Metadata => (m.listId, m.chunkId)
  rw [List.map_map]
  exact lock.nodup

theorem StripeLock.stripe_of_mem {stripe : ListStripe} {lock : StripeLock stripe} {m : Move}
    (h : m ∈ lock.moves) : stripe = ⟨m.src.listId, m.src.stripeId⟩ := by
  obtain ⟨e, he, rfl⟩ := List.mem_map.mp h
  simp [lock.listId_eq e he]

/-- No chunk is in two locks, or in one twice. -/
theorem LockTable.nodup_src (t : LockTable) : (t.moves.map Move.src).Nodup := by
  rw [LockTable.moves, List.map_flatMap]
  rw [List.nodup_flatMap]
  constructor
  · exact fun e _ => e.2.nodup_src
  · have hkeys : t.entries.Pairwise fun a b => a.1 ≠ b.1 := List.pairwise_map.mp t.nodupKeys
    apply hkeys.imp
    intro a b hne src ha hb
    obtain ⟨m, hm, rfl⟩ := List.mem_map.mp ha
    obtain ⟨m', hm', heq⟩ := List.mem_map.mp hb
    apply hne
    rw [StripeLock.stripe_of_mem hm, StripeLock.stripe_of_mem hm', heq]

/-! ## Messages -/

variable {cfg : ReleaseConfig Srv} {bufferSize bytes : ℕ}

theorem fitted_le (chunks : List Metadata) : fitted bufferSize bytes chunks ≤ chunks.length := by
  induction chunks generalizing bytes with
  | nil => exact le_rfl
  | cons c chunks ih =>
    rw [fitted]
    split
    · exact Nat.succ_le_succ ih
    · exact Nat.zero_le _

/-- A buffer with room for one chunk never gives an empty message. -/
theorem fitted_pos (h : 12 ≤ bufferSize) {chunks : List Metadata} (hne : chunks ≠ []) :
    0 < fitted bufferSize 0 chunks := by
  cases chunks with
  | nil => exact absurd rfl hne
  | cons c chunks =>
    rw [fitted, if_pos (by omega)]
    exact Nat.succ_pos _

namespace Release

variable [DecidableEq Srv] {r : Release Srv} {g : ReleaseGroup}

/-! ## The chunks on their way -/

/-- The chunks of server `srv`, for server `s`. -/
def share (srv s : Srv) (n : ℕ) : ℕ := if srv = s then n else 0

def requestsAt (r : Release Srv) (s : Srv) : ℕ :=
  (r.requests.map fun m => share m.1 s m.2.length).sum

def responsesAt (r : Release Srv) (s : Srv) : ℕ := (r.responses.map fun m => share m.1 s m.2).sum

def countAt (r : Release Srv) (s : Srv) : ℕ := (r.atServer s).elim 0 PendingDegradedLock.count

def totalAt (r : Release Srv) (s : Srv) : ℕ := (r.atServer s).elim 0 PendingDegradedLock.total

def storingAt (r : Release Srv) (s : Srv) : ℕ := (r.storing.map fun c => share c.1 s 1).sum

/-- The chunks that were sent to a server and have not been reported by it. -/
def onWay (r : Release Srv) (s : Srv) : ℕ := r.requestsAt s + r.totalAt s + r.responsesAt s

def sendingMoves (r : Release Srv) : List Move := r.sending.toList.flatMap ReleaseGroup.moves

def unsentMoves (r : Release Srv) : List Move := r.unsent.flatMap ReleaseGroup.moves

/-- The chunks of a table that a server has. -/
def assigned (cfg : ReleaseConfig Srv) (moves : List Move) (s : Srv) : ℕ :=
  (moves.map fun m => share (cfg.serverOf m.dst) s 1).sum

theorem assigned_append (l l' : List Move) (s : Srv) :
    assigned cfg (l ++ l') s = assigned cfg l s + assigned cfg l' s := by
  simp [assigned]

theorem assigned_perm {l l' : List Move} (h : l.Perm l') (s : Srv) :
    assigned cfg l s = assigned cfg l' s := (h.map _).sum_eq

theorem share_add (srv s : Srv) (m n : ℕ) : share srv s (m + n) = share srv s m + share srv s n := by
  unfold share
  split <;> rfl

theorem sum_map_share {α : Type} (srv s : Srv) (l : List α) :
    (l.map fun _ => share srv s 1).sum = share srv s l.length := by
  induction l with
  | nil => exact (ite_self 0).symm
  | cons a l ih =>
    rw [List.map_cons, List.sum_cons, ih, ← share_add, List.length_cons, Nat.add_comm]

theorem assigned_map (dst : ℕ × ℕ) (chunks : List Metadata) (s : Srv) :
    assigned cfg (chunks.map fun src => ⟨src, dst⟩) s =
      share (cfg.serverOf dst) s chunks.length := by
  rw [assigned, List.map_map]
  exact sum_map_share (cfg.serverOf dst) s chunks

theorem sum_share [Fintype Srv] (srv : Srv) (n : ℕ) : ∑ s, share srv s n = n := by
  simp [share]

/-! ## What is promised -/

/-- Every server has reported all the chunks that were assigned to it. -/
def AllReported (cfg : ReleaseConfig Srv) (r : Release Srv) : Prop :=
  ∀ s, r.reported s = assigned cfg r.locks.moves s

/-- The loop has ended, and no message waits to be handled. -/
def Quiescent (r : Release Srv) : Prop :=
  r.unsent = [] ∧ r.sending = none ∧ r.requests = [] ∧ r.storing = [] ∧ r.responses = []

/-- The transition is signalled when all has been reported, once, and in the end it is. -/
structure Signalled (cfg : ReleaseConfig Srv) (r : Release Srv) : Prop where
  once : r.signals ≤ 1
  signalled_iff : r.signals = 1 ↔ AllReported cfg r
  quiescent : r.Quiescent → r.signals = 1

/-- Nothing but the chunks of the table is sent, no chunk twice and each to the destination that its
lock names; when the loop has ended, all are. -/
structure SentOnce (r : Release Srv) : Prop where
  nodup : (r.sent.map Move.src).Nodup
  subset : ∀ m ∈ r.sent, m ∈ r.locks.moves
  all : r.unsent = [] → r.sending = none → ∀ m ∈ r.locks.moves, m ∈ r.sent

/-! ## The invariant -/

/-- What holds of a release at all times. -/
structure Inv [Fintype Srv] (cfg : ReleaseConfig Srv) (r : Release Srv) : Prop where
  moves_perm : r.locks.moves.Perm (r.sent ++ r.sendingMoves ++ r.unsentMoves)
  sent_eq : ∀ s, assigned cfg r.sent s = r.onWay s + r.reported s
  pending_eq : r.pending.getD 0 = r.sendingMoves.length + ∑ s, r.onWay s
  pending_ne : r.pending ≠ some 0
  storing_eq : ∀ s, r.storingAt s = r.countAt s
  total_eq_zero : ∀ s, r.countAt s = 0 → r.totalAt s = 0
  requests_ne : ∀ m ∈ r.requests, m.2 ≠ []

variable [Fintype Srv]

theorem Inv.start (locks : LockTable) : Inv cfg (start locks : Release Srv) := by
  constructor
  · exact (perm_groups locks.moves).symm
  · intro s
    simp [Release.start, assigned, onWay, requestsAt, totalAt, responsesAt]
  · simp [Release.start, sendingMoves, onWay, requestsAt, totalAt, responsesAt]
  · simp [Release.start]
  · intro s
    simp [Release.start, storingAt, countAt]
  · intro s _
    simp [Release.start, totalAt]
  · simp [Release.start]

theorem length_moves (g : ReleaseGroup) : g.moves.length = g.srcs.length := List.length_map _

/-- The loop turns to another group. -/
theorem Inv.add (h : Inv cfg r) (hsending : r.sending = none) {j : ℕ} (hj : r.unsent[j]? = some g) :
    Inv cfg (r.add g (r.unsent.eraseIdx j)) := by
  have hnone : r.sendingMoves = [] := by simp [sendingMoves, hsending]
  have hsome : (r.add g (r.unsent.eraseIdx j)).sendingMoves = g.moves := by
    simp [sendingMoves, Release.add]
  have hpos : 0 < g.srcs.length := List.length_pos_iff.mpr g.srcs_ne
  constructor
  · have hperm : r.unsentMoves.Perm
        (g.moves ++ (r.add g (r.unsent.eraseIdx j)).unsentMoves) :=
      (perm_eraseIdx_of_getElem? hj).flatMap_right _
    have hmoves := h.moves_perm
    rw [hnone, List.append_nil] at hmoves
    rw [hsome, List.append_assoc]
    exact hmoves.trans (hperm.append_left _)
  · exact h.sent_eq
  · have hpending := h.pending_eq
    rw [hnone, List.length_nil, Nat.zero_add] at hpending
    have hway : ∀ s, (r.add g (r.unsent.eraseIdx j)).onWay s = r.onWay s := fun _ => rfl
    rw [hsome, length_moves, Finset.sum_congr rfl fun s _ => hway s, ← hpending, Release.add]
    cases r.pending with
    | none => simp [addReleaseDegradedLock]
    | some n => simp [addReleaseDegradedLock, Nat.add_comm]
  · rw [Release.add]
    cases r.pending with
    | none => simp [addReleaseDegradedLock, g.srcs_ne]
    | some n => simp [addReleaseDegradedLock, g.srcs_ne]
  · exact h.storing_eq
  · exact h.total_eq_zero
  · exact h.requests_ne

/-- A message is sent. -/
theorem Inv.send (h : Inv cfg r) (hsending : r.sending = some g) : Inv cfg (r.send cfg g) := by
  have hlen : fitted cfg.bufferSize 0 g.srcs ≤ g.srcs.length := fitted_le _
  have hpos : 0 < fitted cfg.bufferSize 0 g.srcs := fitted_pos cfg.bufferSize_ge g.srcs_ne
  have hsrcs : r.sendingMoves = g.moves := by simp [sendingMoves, hsending]
  have hrest : (r.send cfg g).sendingMoves =
      (g.srcs.drop (fitted cfg.bufferSize 0 g.srcs)).map fun src => ⟨src, g.dst⟩ := by
    simp only [sendingMoves, Release.send, generateDegradedReleaseReqHeader, moves_remaining]
  have hsplit : g.moves = ((g.srcs.take (fitted cfg.bufferSize 0 g.srcs)).map fun src =>
      (⟨src, g.dst⟩ : Move)) ++ (r.send cfg g).sendingMoves := by
    rw [hrest, ← List.map_append, List.take_append_drop]
    rfl
  have hway : ∀ s, (r.send cfg g).onWay s = r.onWay s +
      share (cfg.serverOf g.dst) s (fitted cfg.bufferSize 0 g.srcs) := by
    intro s
    simp only [onWay, requestsAt, totalAt, responsesAt, Release.send,
      generateDegradedReleaseReqHeader, List.map_append, List.sum_append, List.map_cons,
      List.map_nil, List.sum_cons, List.sum_nil, List.length_take_of_le hlen]
    omega
  constructor
  · have hmoves := h.moves_perm
    rw [hsrcs, hsplit, ← List.append_assoc] at hmoves
    exact hmoves
  · intro s
    have hsent : assigned cfg (r.send cfg g).sent s = assigned cfg r.sent s +
        share (cfg.serverOf g.dst) s (fitted cfg.bufferSize 0 g.srcs) := by
      simp only [Release.send, generateDegradedReleaseReqHeader, assigned_append, assigned_map,
        List.length_take_of_le hlen]
    rw [hsent, hway, h.sent_eq]
    change _ = _ + r.reported s
    omega
  · have hpending := h.pending_eq
    rw [hsrcs, hsplit, List.length_append, List.length_map, List.length_take_of_le hlen] at hpending
    change r.pending.getD 0 = _
    rw [hpending, Finset.sum_congr rfl fun s _ => hway s, Finset.sum_add_distrib, sum_share]
    omega
  · exact h.pending_ne
  · exact h.storing_eq
  · exact h.total_eq_zero
  · intro m hm
    rcases List.mem_append.mp hm with hm | hm
    · exact h.requests_ne m hm
    · obtain rfl := List.mem_singleton.mp hm
      apply List.ne_nil_of_length_pos
      simpa [generateDegradedReleaseReqHeader, List.length_take_of_le hlen] using hpos

/-- A server handles a request. -/
theorem Inv.receive (h : Inv cfg r) {srv : Srv} {chunks : List Metadata} {j : ℕ}
    (hj : r.requests[j]? = some (srv, chunks)) :
    Inv cfg (r.receive srv chunks (r.requests.eraseIdx j)) := by
  have hpos : 0 < chunks.length :=
    List.length_pos_iff.mpr (h.requests_ne _ (List.mem_of_getElem? hj))
  have hrequests : ∀ s, r.requestsAt s = share srv s chunks.length +
      (r.receive srv chunks (r.requests.eraseIdx j)).requestsAt s := fun s =>
    sum_map_eq_add_eraseIdx hj fun m => share m.1 s m.2.length
  have htotal : ∀ s, (r.receive srv chunks (r.requests.eraseIdx j)).totalAt s =
      r.totalAt s + share srv s chunks.length := by
    intro s
    by_cases hs : srv = s
    · subst hs
      simp only [totalAt, Release.receive, Function.update_self, share, if_true]
      cases r.atServer srv <;> simp [insertReleaseDegradedLock]
    · simp [totalAt, Release.receive, Function.update_of_ne (Ne.symm hs), share, hs]
  have hcount : ∀ s, (r.receive srv chunks (r.requests.eraseIdx j)).countAt s =
      r.countAt s + share srv s chunks.length := by
    intro s
    by_cases hs : srv = s
    · subst hs
      simp only [countAt, Release.receive, Function.update_self, share, if_true]
      cases r.atServer srv <;> simp [insertReleaseDegradedLock]
    · simp [countAt, Release.receive, Function.update_of_ne (Ne.symm hs), share, hs]
  have hway : ∀ s, (r.receive srv chunks (r.requests.eraseIdx j)).onWay s = r.onWay s := by
    intro s
    have hresponses : (r.receive srv chunks (r.requests.eraseIdx j)).responsesAt s =
        r.responsesAt s := rfl
    simp only [onWay]
    rw [htotal, hresponses, hrequests s]
    omega
  constructor
  · exact h.moves_perm
  · intro s
    rw [hway]
    exact h.sent_eq s
  · rw [Finset.sum_congr rfl fun s _ => hway s]
    exact h.pending_eq
  · exact h.pending_ne
  · intro s
    have hnew : ((chunks.map fun c => (srv, c)).map fun c => share c.1 s 1).sum =
        share srv s chunks.length := by
      rw [List.map_map]
      exact sum_map_share srv s chunks
    rw [hcount, ← h.storing_eq]
    simp only [storingAt, Release.receive, List.map_append, List.sum_append, hnew]
  · intro s hzero
    rw [hcount] at hzero
    rw [htotal, h.total_eq_zero s (by omega)]
    omega
  · exact fun m hm => h.requests_ne m (List.eraseIdx_subset hm)

/-- A server handles the response to a SET_CHUNK request, and reports when it was the last one. -/
theorem Inv.stored (h : Inv cfg r) {srv : Srv} {c : Metadata} {j : ℕ}
    (hj : r.storing[j]? = some (srv, c)) : Inv cfg (r.stored srv (r.storing.eraseIdx j)) := by
  have hstoring : ∀ s, r.storingAt s =
      share srv s 1 + ((r.storing.eraseIdx j).map fun c => share c.1 s 1).sum := fun s =>
    sum_map_eq_add_eraseIdx hj fun c => share c.1 s 1
  have hpos : 0 < r.countAt srv := by
    rw [← h.storing_eq, hstoring, share, if_pos rfl]
    omega
  rcases hp : r.atServer srv with _ | p
  · simp [countAt, hp] at hpos
  have hcountp : r.countAt srv = p.count := by simp [countAt, hp]
  have htotalp : r.totalAt srv = p.total := by simp [totalAt, hp]
  have hcount : ∀ s, (r.stored srv (r.storing.eraseIdx j)).countAt s + share srv s 1 =
      r.countAt s := by
    intro s
    by_cases hs : srv = s
    · subst hs
      simp only [countAt, Release.stored, hp, Function.update_self, share, if_true,
        eraseReleaseDegradedLock]
      rw [hcountp] at hpos
      split <;> simp <;> omega
    · simp [countAt, Release.stored, hp, Function.update_of_ne (Ne.symm hs), share, hs]
  have hreport : ∀ s, (r.stored srv (r.storing.eraseIdx j)).totalAt s +
      (r.stored srv (r.storing.eraseIdx j)).responsesAt s = r.totalAt s + r.responsesAt s := by
    intro s
    by_cases hlast : p.count - 1 = 0
    · by_cases hs : srv = s
      · subst hs
        simp [totalAt, responsesAt, Release.stored, hp, eraseReleaseDegradedLock, hlast, share]
        omega
      · simp [totalAt, responsesAt, Release.stored, hp, eraseReleaseDegradedLock, hlast,
          Function.update_of_ne (Ne.symm hs), share, hs]
    · by_cases hs : srv = s
      · subst hs
        simp [totalAt, responsesAt, Release.stored, hp, eraseReleaseDegradedLock, hlast]
      · simp [totalAt, responsesAt, Release.stored, hp, eraseReleaseDegradedLock, hlast,
          Function.update_of_ne (Ne.symm hs)]
  have hway : ∀ s, (r.stored srv (r.storing.eraseIdx j)).onWay s = r.onWay s := by
    intro s
    have hrequests : (r.stored srv (r.storing.eraseIdx j)).requestsAt s = r.requestsAt s := by
      simp [requestsAt, Release.stored, hp]
    simp only [onWay]
    rw [hrequests, Nat.add_assoc, hreport, Nat.add_assoc]
  constructor
  · simpa [Release.stored, hp, sendingMoves, unsentMoves] using h.moves_perm
  · intro s
    rw [hway]
    simpa [Release.stored, hp] using h.sent_eq s
  · rw [Finset.sum_congr rfl fun s _ => hway s]
    simpa [Release.stored, hp, sendingMoves] using h.pending_eq
  · simpa [Release.stored, hp] using h.pending_ne
  · intro s
    have hleft : (r.stored srv (r.storing.eraseIdx j)).storingAt s =
        ((r.storing.eraseIdx j).map fun c => share c.1 s 1).sum := by
      simp [storingAt, Release.stored, hp]
    have hold := h.storing_eq s
    rw [hstoring, ← hcount] at hold
    rw [hleft]
    omega
  · intro s hzero
    by_cases hs : srv = s
    · subst hs
      have hlast : p.count - 1 = 0 := by
        have := hcount srv
        rw [hzero, share, if_pos rfl] at this
        omega
      simp [totalAt, Release.stored, hp, eraseReleaseDegradedLock, hlast]
    · have hold := hcount s
      rw [hzero, share, if_neg hs] at hold
      have hold' := h.total_eq_zero s hold.symm
      simpa [totalAt, Release.stored, hp, Function.update_of_ne (Ne.symm hs)] using hold'
  · simpa [Release.stored, hp] using h.requests_ne

omit [Fintype Srv] in
theorem onWay_respond {srv : Srv} {n j : ℕ} (hj : r.responses[j]? = some (srv, n)) (s : Srv) :
    r.onWay s = share srv s n + (r.respond srv n (r.responses.eraseIdx j)).onWay s := by
  have hresponses : r.responsesAt s = share srv s n +
      (r.respond srv n (r.responses.eraseIdx j)).responsesAt s :=
    sum_map_eq_add_eraseIdx hj fun m => share m.1 s m.2
  have hrequests : (r.respond srv n (r.responses.eraseIdx j)).requestsAt s = r.requestsAt s := rfl
  have htotal : (r.respond srv n (r.responses.eraseIdx j)).totalAt s = r.totalAt s := rfl
  simp only [onWay]
  rw [hresponses, hrequests, htotal]
  omega

/-- A response has no more chunks than are pending. -/
theorem Inv.le_pending (h : Inv cfg r) {srv : Srv} {n j : ℕ}
    (hj : r.responses[j]? = some (srv, n)) : n ≤ r.pending.getD 0 := by
  rw [h.pending_eq, Finset.sum_congr rfl fun s _ => onWay_respond hj s, Finset.sum_add_distrib,
    sum_share]
  omega

/-- The coordinator handles a response. -/
theorem Inv.respond (h : Inv cfg r) {srv : Srv} {n j : ℕ}
    (hj : r.responses[j]? = some (srv, n)) :
    Inv cfg (r.respond srv n (r.responses.eraseIdx j)) := by
  have hway := onWay_respond hj
  constructor
  · exact h.moves_perm
  · intro s
    have hreported : (r.respond srv n (r.responses.eraseIdx j)).reported s =
        r.reported s + share srv s n := by
      by_cases hs : srv = s
      · subst hs
        simp [Release.respond, share]
      · simp [Release.respond, Function.update_of_ne (Ne.symm hs), share, hs]
    have hsent := h.sent_eq s
    rw [hway] at hsent
    rw [hreported]
    change assigned cfg r.sent s = _
    omega
  · have hpending := h.pending_eq
    rw [Finset.sum_congr rfl fun s _ => hway s, Finset.sum_add_distrib, sum_share] at hpending
    change (removeReleaseDegradedLock r.pending n).1.getD 0 = r.sendingMoves.length + _
    cases hp : r.pending with
    | none =>
      rw [hp] at hpending
      simp only [Option.getD_none] at hpending
      simp only [removeReleaseDegradedLock, Option.getD_none]
      omega
    | some m =>
      rw [hp] at hpending
      simp only [Option.getD_some] at hpending
      simp only [removeReleaseDegradedLock]
      split <;> simp <;> omega
  · change (removeReleaseDegradedLock r.pending n).1 ≠ some 0
    cases r.pending with
    | none => simp [removeReleaseDegradedLock]
    | some m =>
      simp only [removeReleaseDegradedLock]
      split <;> simp_all
  · exact h.storing_eq
  · exact h.total_eq_zero
  · exact h.requests_ne

theorem Inv.step (h : Inv cfg r) (e : ReleaseEvent) : Inv cfg (r.step cfg e) := by
  cases e with
  | add j =>
    simp only [Release.step]
    split
    · exact h.add ‹_› ‹_›
    · exact h
  | send =>
    simp only [Release.step]
    split
    · exact h
    · exact h.send ‹_›
  | receive j =>
    simp only [Release.step]
    split
    · exact h
    · exact h.receive ‹_›
  | stored j =>
    simp only [Release.step]
    split
    · exact h
    · exact h.stored ‹_›
  | respond j =>
    simp only [Release.step]
    split
    · exact h
    · exact h.respond ‹_›

/-! ## What follows for a release -/

/-- The transition was signalled when every destination had been added and nothing was pending. -/
def SignalledInTime (r : Release Srv) : Prop :=
  r.signals = if r.unsent = [] ∧ r.pending = none then 1 else 0

/-- A response that empties the count finds no destination that is not added. -/
def Allowed (r : Release Srv) : ReleaseEvent → Prop
  | .respond j => ∀ srv n, r.responses[j]? = some (srv, n) → r.pending = some n → r.unsent = []
  | _ => True

theorem Inv.sentOnce (h : Inv cfg r) : r.SentOnce := by
  have hnodup : ((r.sent ++ r.sendingMoves ++ r.unsentMoves).map Move.src).Nodup :=
    (h.moves_perm.map Move.src).nodup_iff.mp r.locks.nodup_src
  constructor
  · rw [List.map_append, List.map_append] at hnodup
    exact hnodup.of_append_left.of_append_left
  · intro m hm
    apply h.moves_perm.mem_iff.mpr
    exact List.mem_append_left _ (List.mem_append_left _ hm)
  · intro hunsent hsending m hm
    have hall := h.moves_perm.mem_iff.mp hm
    simpa [sendingMoves, unsentMoves, hunsent, hsending] using hall

theorem Inv.assigned_eq (h : Inv cfg r) (s : Srv) :
    assigned cfg r.locks.moves s =
      r.onWay s + r.reported s + assigned cfg r.sendingMoves s + assigned cfg r.unsentMoves s := by
  rw [assigned_perm h.moves_perm, assigned_append, assigned_append, h.sent_eq]

/-- When nothing is pending, nothing is on its way. -/
theorem Inv.pending_eq_none (h : Inv cfg r) :
    r.pending = none ↔ r.sendingMoves = [] ∧ ∀ s, r.onWay s = 0 := by
  have hpending := h.pending_eq
  constructor
  · intro hnone
    rw [hnone, Option.getD_none] at hpending
    constructor
    · apply List.eq_nil_of_length_eq_zero
      omega
    · have hsum : ∑ s, r.onWay s = 0 := by omega
      exact fun s => (Finset.sum_eq_zero_iff.mp hsum) s (Finset.mem_univ s)
  · rintro ⟨hsending, hway⟩
    rw [hsending, Finset.sum_eq_zero fun s _ => hway s] at hpending
    rcases hp : r.pending with _ | n
    · rfl
    · rw [hp] at hpending
      exact absurd (hp.trans (congrArg some hpending)) h.pending_ne

omit [DecidableEq Srv] [Fintype Srv] in
theorem unsentMoves_eq_nil : r.unsentMoves = [] ↔ r.unsent = [] := by
  constructor
  · intro h
    rcases hunsent : r.unsent with _ | ⟨g, gs⟩
    · rfl
    · rw [unsentMoves, hunsent, List.flatMap_cons] at h
      exact absurd (List.map_eq_nil_iff.mp (List.append_eq_nil_iff.mp h).1) g.srcs_ne
  · intro h
    rw [unsentMoves, h]
    rfl

omit [Fintype Srv] in
theorem assigned_eq_zero (cfg : ReleaseConfig Srv) {l : List Move} :
    (∀ s, assigned cfg l s = 0) ↔ l = [] := by
  constructor
  · intro h
    cases l with
    | nil => rfl
    | cons m l =>
      have hzero := h (cfg.serverOf m.dst)
      rw [assigned, List.map_cons, List.sum_cons, share, if_pos rfl] at hzero
      omega
  · rintro rfl s
    rfl

/-- All is reported exactly when nothing is left to be added and nothing is pending. -/
theorem Inv.allReported_iff (h : Inv cfg r) :
    AllReported cfg r ↔ r.unsent = [] ∧ r.pending = none := by
  rw [h.pending_eq_none]
  constructor
  · intro hall
    have hzero : ∀ s, r.onWay s = 0 ∧ assigned cfg r.sendingMoves s = 0 ∧
        assigned cfg r.unsentMoves s = 0 := by
      intro s
      have heq := h.assigned_eq s
      rw [← hall s] at heq
      omega
    have hunsent := (assigned_eq_zero cfg).mp fun s => (hzero s).2.2
    have hsending := (assigned_eq_zero cfg).mp fun s => (hzero s).2.1
    exact ⟨unsentMoves_eq_nil.mp hunsent, hsending, fun s => (hzero s).1⟩
  · rintro ⟨hunsent, hsending, hway⟩ s
    rw [h.assigned_eq, hway, hsending, unsentMoves_eq_nil.mpr hunsent]
    simp [assigned]

/-- In the end nothing is pending. -/
theorem Inv.pending_of_quiescent (h : Inv cfg r) (hq : r.Quiescent) : r.pending = none := by
  obtain ⟨_, hsending, hrequests, hstoring, hresponses⟩ := hq
  apply h.pending_eq_none.mpr
  constructor
  · simp [sendingMoves, hsending]
  · intro s
    have hcount := h.storing_eq s
    rw [storingAt, hstoring] at hcount
    have htotal := h.total_eq_zero s hcount.symm
    simp [onWay, requestsAt, responsesAt, hrequests, hresponses, htotal]

theorem Inv.signalled (h : Inv cfg r) (hsignals : r.SignalledInTime) : Signalled cfg r := by
  unfold SignalledInTime at hsignals
  constructor
  · rw [hsignals]
    split <;> omega
  · rw [h.allReported_iff, hsignals]
    split <;> simp_all
  · intro hq
    rw [hsignals, if_pos ⟨hq.1, h.pending_of_quiescent hq⟩]

omit [DecidableEq Srv] [Fintype Srv] in
theorem SignalledInTime.start (locks : LockTable) : (start locks : Release Srv).SignalledInTime := by
  simp [Release.start, SignalledInTime]

omit [DecidableEq Srv] [Fintype Srv] in
theorem SignalledInTime.add (h : r.SignalledInTime) {j : ℕ} (hj : r.unsent[j]? = some g) :
    (r.add g (r.unsent.eraseIdx j)).SignalledInTime := by
  have hne : r.unsent ≠ [] := List.ne_nil_of_mem (List.mem_of_getElem? hj)
  have hpending : (r.add g (r.unsent.eraseIdx j)).pending ≠ none := by
    simp only [Release.add]
    cases r.pending <;> simp [addReleaseDegradedLock]
  unfold SignalledInTime at h ⊢
  rw [if_neg fun hand => hne hand.1] at h
  rw [if_neg fun hand => hpending hand.2]
  exact h

theorem SignalledInTime.respond (h : r.SignalledInTime) (hinv : Inv cfg r) {srv : Srv} {n j : ℕ}
    (hj : r.responses[j]? = some (srv, n)) (hallowed : r.pending = some n → r.unsent = []) :
    (r.respond srv n (r.responses.eraseIdx j)).SignalledInTime := by
  have hle := hinv.le_pending hj
  unfold SignalledInTime at h ⊢
  rcases hp : r.pending with _ | m
  · simpa [Release.respond, removeReleaseDegradedLock, hp] using h
  · rw [hp, Option.getD_some] at hle
    rw [hp, if_neg (by simp)] at h
    rcases Nat.lt_or_ge n m with hlt | hge
    · have hrest : m - n ≠ 0 := by omega
      simp [Release.respond, removeReleaseDegradedLock, hp, hrest, h]
    · obtain rfl : n = m := by omega
      simp [Release.respond, removeReleaseDegradedLock, hp, hallowed hp, h]

theorem SignalledInTime.step (h : r.SignalledInTime) (hinv : Inv cfg r) {e : ReleaseEvent}
    (hallowed : r.Allowed e) : (r.step cfg e).SignalledInTime := by
  cases e with
  | add j =>
    simp only [Release.step]
    split
    · exact h.add ‹_›
    · exact h
  | send =>
    simp only [Release.step]
    split <;> exact h
  | receive j =>
    simp only [Release.step]
    split <;> exact h
  | stored j =>
    simp only [Release.step, Release.stored]
    split
    · exact h
    · split <;> exact h
  | respond j =>
    simp only [Release.step]
    split
    · exact h
    · exact h.respond hinv ‹_› (hallowed _ _ ‹_›)

/-- A response that empties the count too early spoils the release. -/
theorem Inv.not_signalled (h : Inv cfg r) {e : ReleaseEvent} (hnot : ¬ r.Allowed e) :
    ¬ Signalled cfg (r.step cfg e) := by
  cases e with
  | respond j =>
    simp only [Allowed, not_forall] at hnot
    obtain ⟨srv, n, hj, hp, hunsent⟩ := hnot
    intro hsignalled
    have hinv := h.step (.respond j)
    have hsignals : (r.step cfg (.respond j)).signals = r.signals + 1 := by
      simp [Release.step, hj, Release.respond, removeReleaseDegradedLock, hp]
    have hone : (r.step cfg (.respond j)).signals = 1 := by
      have honce := hsignalled.once
      omega
    have hall := hinv.allReported_iff.mp (hsignalled.signalled_iff.mp hone)
    apply hunsent
    simpa [Release.step, hj, Release.respond] using hall.1
  | _ => exact absurd trivial hnot

end Release

/-! ## Runs -/

namespace ReleaseSystem

variable [DecidableEq Srv] {s : ReleaseSystem Srv} {acts : List ReleaseAction} {a : ReleaseAction}

/-- A lock that is found after a release was inserted after it. -/
def NotFound (acts : List ReleaseAction) (s : ReleaseSystem Srv) : Prop :=
  ∀ past rest, acts = past ++ .release :: rest → ∀ stripe, (s.findDegradedLock stripe).isSome →
    ∃ lock, .insert stripe lock ∈ rest

/-- What is promised of a state that the actions lead to. -/
structure Good (cfg : ReleaseConfig Srv) (acts : List ReleaseAction) : Prop where
  signalled : ∀ r ∈ (after cfg acts).releases, r.Signalled cfg
  sentOnce : ∀ r ∈ (after cfg acts).releases, r.SentOnce
  notFound : NotFound acts (after cfg acts)

/-- A release finds no lock that is being released, and a response that empties the count finds no
destination that is not added. -/
def Allowed (s : ReleaseSystem Srv) : ReleaseAction → Prop
  | .release => s.releasingDegradedLocks = ∅
  | .event i e => ∀ r, s.releases[i]? = some r → r.Allowed e
  | _ => True

theorem after_concat (acts : List ReleaseAction) (a : ReleaseAction) :
    after cfg (acts ++ [a]) = (after cfg acts).step cfg a := run_concat acts a

/-- An action without a release between finds only what was found before or is inserted by it. -/
theorem found_step (hrelease : a ≠ .release) {stripe : ListStripe}
    (h : ((s.step cfg a).findDegradedLock stripe).isSome) :
    (s.findDegradedLock stripe).isSome ∨ ∃ lock, a = .insert stripe lock := by
  cases a with
  | insert stripe' lock =>
    by_cases heq : stripe = stripe'
    · subst heq
      exact .inr ⟨lock, rfl⟩
    · left
      simp only [step] at h
      split at h
      · simpa [findDegradedLock, AList.lookup_insert_ne heq] using h
      · exact h
  | expand stripe' lock =>
    left
    simp only [step] at h
    split at h
    · exact h
    · rename_i hsome
      by_cases heq : stripe = stripe'
      · subst heq
        simp [findDegradedLock, hsome]
      · simpa [findDegradedLock, AList.lookup_insert_ne heq] using h
  | release => exact absurd rfl hrelease
  | event i e =>
    left
    simp only [step] at h
    split at h
    · exact h
    · exact h

/-- After a release that finds no lock being released, the table is empty. -/
theorem NotFound.step (h : NotFound acts s) (hallowed : s.Allowed a) :
    NotFound (acts ++ [a]) (s.step cfg a) := by
  intro past rest hacts stripe hfound
  by_cases hrelease : a = .release
  · subst hrelease
    have hempty : s.releasingDegradedLocks = ∅ := hallowed
    simp [ReleaseSystem.step, findDegradedLock, hempty] at hfound
  · rcases List.eq_nil_or_concat' rest with rfl | ⟨rest, b, rfl⟩
    · have hlast := (List.append_inj' hacts rfl).2
      exact absurd (List.singleton_inj.mp hlast) hrelease
    · rw [← List.cons_append, ← List.append_assoc] at hacts
      obtain ⟨hpast, hlast⟩ := List.append_inj' hacts rfl
      obtain rfl := List.singleton_inj.mp hlast
      rcases found_step hrelease hfound with hold | ⟨lock, rfl⟩
      · obtain ⟨lock, hlock⟩ := h past rest hpast stripe hold
        exact ⟨lock, List.mem_append_left _ hlock⟩
      · exact ⟨lock, by simp⟩

variable [Fintype Srv]

/-- What holds after allowed actions. -/
structure Inv (cfg : ReleaseConfig Srv) (acts : List ReleaseAction) : Prop where
  releases : ∀ r ∈ (after cfg acts).releases, r.Inv cfg ∧ r.SignalledInTime
  notFound : NotFound acts (after cfg acts)

theorem Inv.start : Inv cfg [] := by
  constructor
  · simp [after, ReleaseSystem.start]
  · intro past rest hacts
    simp at hacts

theorem Inv.good (h : Inv cfg acts) : Good cfg acts := by
  constructor
  · exact fun r hr => (h.releases r hr).1.signalled (h.releases r hr).2
  · exact fun r hr => (h.releases r hr).1.sentOnce
  · exact h.notFound

theorem Inv.step (h : Inv cfg acts) (hallowed : (after cfg acts).Allowed a) :
    Inv cfg (acts ++ [a]) := by
  constructor
  · rw [after_concat]
    intro r hr
    cases a with
    | insert stripe lock =>
      simp only [ReleaseSystem.step] at hr
      split at hr <;> exact h.releases r hr
    | expand stripe lock =>
      simp only [ReleaseSystem.step] at hr
      split at hr <;> exact h.releases r hr
    | release =>
      rcases List.mem_append.mp hr with hr | hr
      · exact h.releases r hr
      · obtain rfl := List.mem_singleton.mp hr
        exact ⟨.start _, .start _⟩
    | event i e =>
      simp only [ReleaseSystem.step] at hr
      split at hr
      · exact h.releases r hr
      · rename_i r' hi
        rcases List.mem_or_eq_of_mem_set hr with hr | rfl
        · exact h.releases r hr
        · obtain ⟨hinv, hsignals⟩ := h.releases r' (List.mem_of_getElem? hi)
          exact ⟨hinv.step e, hsignals.step hinv (hallowed r' hi)⟩
  · rw [after_concat]
    exact h.notFound.step hallowed

/-- An action that is not allowed breaks what is promised. -/
theorem Inv.not_good (h : Inv cfg acts) (hnot : ¬ (after cfg acts).Allowed a) :
    ¬ Good cfg (acts ++ [a]) := by
  intro hgood
  cases a with
  | insert stripe lock => exact hnot trivial
  | expand stripe lock => exact hnot trivial
  | release =>
    apply hnot
    apply AList.ext
    rcases hentries : (after cfg acts).releasingDegradedLocks.entries with _ | ⟨e, es⟩
    · rfl
    · have hfound : ((after cfg (acts ++ [.release])).findDegradedLock e.1).isSome := by
        rw [after_concat, findDegradedLock, AList.lookup_isSome]
        change e.1 ∈ (after cfg acts).releasingDegradedLocks
        rw [AList.mem_keys, AList.keys, hentries]
        exact List.mem_cons_self
      obtain ⟨lock, hlock⟩ := hgood.notFound acts [] rfl e.1 hfound
      exact absurd hlock List.not_mem_nil
  | event i e =>
    simp only [Allowed, not_forall] at hnot
    obtain ⟨r, hi, hnot⟩ := hnot
    apply (h.releases r (List.mem_of_getElem? hi)).1.not_signalled hnot
    apply hgood.signalled
    rw [after_concat]
    simp only [ReleaseSystem.step, hi]
    exact List.mem_set (List.getElem?_eq_some_iff.mp hi).1 _

/-- In every run, the transition of each release is signalled once, after all destinations have
reported, each chunk is sent to one destination once, and no lock is found that was not inserted
since the last release: at all times exactly when no release finds locks being released and no
count is emptied before the last destination is added. -/
theorem good_iff (cfg : ReleaseConfig Srv) (acts : List ReleaseAction) :
    (∀ n ≤ acts.length, Good cfg (acts.take n)) ↔
      ∀ n a, acts[n]? = some a → (after cfg (acts.take n)).Allowed a :=
  good_iff_allowed Inv.start (fun _ => Inv.good) (fun _ _ h => h.step) (fun _ _ h => h.not_good) acts

/-- A chunk of list `l` is at server `l mod 2`. -/
def sampleConfig : ReleaseConfig (Fin 2) := ⟨fun p => Fin.ofNat 2 p.1, 4096, by decide⟩

/-- A lock of stripe `(3, 7)` whose two chunks are redirected to two servers. -/
def sampleLock : StripeLock ⟨3, 7⟩ where
  entries := [⟨(3, 0), (4, 2)⟩, ⟨(3, 1), (5, 2)⟩]
  nodup := by decide
  listId_eq := by decide

/-- The lock is back after a second release, and the first destination alone signals the
transition when it answers before the other one is added. -/
theorem not_good_of_second_release_or_early_response :
    ¬ Good sampleConfig [.insert ⟨3, 7⟩ sampleLock, .release, .release] ∧
      ¬ Good sampleConfig [.insert ⟨3, 7⟩ sampleLock, .release, .event 0 (.add 0), .event 0 .send,
        .event 0 (.receive 0), .event 0 (.stored 0), .event 0 (.respond 0)] := by
  constructor
  · intro hgood
    have hfound := hgood.notFound [.insert ⟨3, 7⟩ sampleLock, .release] [] rfl ⟨3, 7⟩ (by decide)
    obtain ⟨lock, hlock⟩ := hfound
    exact absurd hlock List.not_mem_nil
  · intro hgood
    have hearly : ∃ r ∈ (after sampleConfig [.insert ⟨3, 7⟩ sampleLock, .release,
        .event 0 (.add 0), .event 0 .send, .event 0 (.receive 0), .event 0 (.stored 0),
        .event 0 (.respond 0)]).releases,
        r.signals = 1 ∧ r.reported 1 ≠ Release.assigned sampleConfig r.locks.moves 1 := by
      decide +kernel
    obtain ⟨r, hr, hone, hne⟩ := hearly
    exact hne ((hgood.signalled r hr).signalled_iff.mp hone 1)

end ReleaseSystem

end MemEC.Coordinator
