import Mathlib.Tactic
import MemEC.Common.Fanout

/-!
# The response to the requester

What is known of a request depends on the entries with its own IDs, so that
concurrent requests do not disturb each other. A handler that looks the entries
up with the right instance ID passes the last response on, whatever the earlier
ones said.
-/

namespace MemEC.Common

open MemEC.Lib

namespace PendingMap

variable {m m' : PendingMap} {p : PendingEntry → Bool} {e : PendingEntry} {i r : ℕ}

theorem eraseEntry_of_mem (he : e ∈ m) (hp : p e = true) :
    ∃ e' m', m.eraseEntry p = some (e', m') ∧ p e' = true ∧ m.Perm (e' :: m') := by
  obtain ⟨e', l₁, l₂, hl₁, hpe', hm, herase⟩ := List.exists_of_eraseP he hp
  have hfind : m.find? p = some e' :=
    List.find?_eq_some_iff_append.mpr ⟨hpe', l₁, l₂, hm, fun b hb => by simpa using hl₁ b hb⟩
  refine ⟨e', l₁ ++ l₂, ?_, hpe', ?_⟩
  · rw [eraseEntry, hfind, herase]
    rfl
  · rw [hm]
    exact List.perm_middle

theorem eraseEntry_of_none (h : ∀ e ∈ m, p e = false) : m.eraseEntry p = none := by
  have hfind : m.find? p = none := List.find?_eq_none.mpr fun e he => by simp [h e he]
  rw [eraseEntry, hfind]
  rfl

theorem mem_entriesOf : e ∈ m.entriesOf i r ↔ e ∈ m ∧ e.1.instanceId = i ∧ e.1.requestId = r := by
  simp [entriesOf, PendingIdentifier.is]

theorem entriesOf_append (m m' : PendingMap) (i r : ℕ) :
    entriesOf (m ++ m') i r = m.entriesOf i r ++ entriesOf m' i r := List.filter_append ..

theorem entriesOf_eq_nil (h : ∀ e ∈ m, ¬ (e.1.instanceId = i ∧ e.1.requestId = r)) :
    m.entriesOf i r = [] := by
  refine List.filter_eq_nil_iff.mpr fun e he => ?_
  have := h e he
  simpa [PendingIdentifier.is] using this

/-- The entries of the erased entry's identifier, before and after. -/
theorem perm_entriesOf_self (h : m.Perm (e :: m')) (he : e.1.instanceId = i ∧ e.1.requestId = r) :
    (m.entriesOf i r).Perm (e :: m'.entriesOf i r) := by
  have hp := h.filter fun e : PendingEntry => e.1.is i r
  rwa [List.filter_cons_of_pos (by simp [PendingIdentifier.is, he.1, he.2])] at hp

/-- The entries of other identifiers stay. -/
theorem perm_entriesOf_of_ne (h : m.Perm (e :: m'))
    (he : ¬ (e.1.instanceId = i ∧ e.1.requestId = r)) :
    (m.entriesOf i r).Perm (m'.entriesOf i r) := by
  have hp := h.filter fun e : PendingEntry => e.1.is i r
  rwa [List.filter_cons_of_neg (by simpa [PendingIdentifier.is] using he)] at hp

end PendingMap

/-- The responses to a requester. -/
def FanState.sentTo (s : FanState) (r : FanRequest) : List Upstream :=
  s.sent.filter fun u => u.instanceId = r.parentInstanceId && u.requestId = r.parentRequestId

namespace ReplicaOp

/-- The instance ID with which the entries are looked up. -/
def lookupInstance (op : ReplicaOp) (own parentInstanceId : ℕ) : ℕ :=
  if op.handler.usesEventInstance then op.wireInstance own parentInstanceId else own

/-- The handler finds the entries of the request. -/
def Finds (op : ReplicaOp) (own : ℕ) (r : FanRequest) : Prop :=
  op.lookupInstance own r.parentInstanceId = own

instance (op : ReplicaOp) (own : ℕ) (r : FanRequest) : Decidable (op.Finds own r) :=
  inferInstanceAs (Decidable (_ = _))

theorem finds_iff (op : ReplicaOp) (own : ℕ) (r : FanRequest) :
    op.Finds own r ↔ (op = .delete → r.parentInstanceId = own) := by
  cases op <;> simp [Finds, lookupInstance, handler, handleSetResponse, handleUpdateResponse,
    handleUpdateChunkResponse, handleDeleteResponse, handleDeleteChunkResponse, wireInstance]

end ReplicaOp

/-- What is known of a request, from the entries with its IDs and the responses to its sender. -/
structure FanInv (op : ReplicaOp) (own : ℕ) (s : FanState) (f : Fan) : Prop where
  parent : ∀ e ∈ s.pending.entriesOf own f.request.requestId,
    e.1.parentInstanceId = f.request.parentInstanceId ∧
      e.1.parentRequestId = f.request.parentRequestId
  count : op.Finds own f.request →
    (s.pending.entriesOf own f.request.requestId).length = f.waiting.length
  sockets : op.Finds own f.request → op.handler.matchesSocket = true →
    ((s.pending.entriesOf own f.request.requestId).map fun e => e.1.ptr).Perm f.waiting
  requester : f.waiting ≠ [] →
    s.parents.entriesOf f.request.parentInstanceId f.request.parentRequestId =
      [f.request.parentEntry]
  untold : f.waiting ≠ [] ∨ ¬ op.Finds own f.request → s.sentTo f.request = []
  told : f.waiting = [] → op.Finds own f.request → ∃ last, f.answers.getLast? = some last ∧
    s.sentTo f.request = [⟨f.request.parentInstanceId, f.request.parentRequestId,
      op.handler.reports last⟩]

/-- Two requests have different IDs, and so have the requests that they serve. -/
def FanRequest.Apart (r r' : FanRequest) : Prop :=
  r.requestId ≠ r'.requestId ∧
    ¬ (r.parentInstanceId = r'.parentInstanceId ∧ r.parentRequestId = r'.parentRequestId)

instance (r r' : FanRequest) : Decidable (r.Apart r') := inferInstanceAs (Decidable (_ ∧ _))

theorem FanRequest.Apart.symm {r r' : FanRequest} (h : r.Apart r') : r'.Apart r :=
  ⟨h.1.symm, fun h' => h.2 ⟨h'.1.symm, h'.2.symm⟩⟩

/-- There is a replica, and a socket to answer to. -/
def FanRequest.Valid (r : FanRequest) : Prop := r.replicas ≠ [] ∧ r.socket ≠ 0

instance (r : FanRequest) : Decidable r.Valid := inferInstanceAs (Decidable (_ ∧ _))

section Handlers

variable {op : ReplicaOp} {own socket : ℕ} {s s' : FanState} {f : Fan} {success : Bool}

/-- Only the entries with the IDs of the request matter. -/
theorem FanInv.congr (h : FanInv op own s f)
    (hpending : (s.pending.entriesOf own f.request.requestId).Perm
      (s'.pending.entriesOf own f.request.requestId))
    (hparents : (s.parents.entriesOf f.request.parentInstanceId f.request.parentRequestId).Perm
      (s'.parents.entriesOf f.request.parentInstanceId f.request.parentRequestId))
    (hsent : s'.sentTo f.request = s.sentTo f.request) : FanInv op own s' f where
  parent e he := h.parent e (hpending.mem_iff.mpr he)
  count hf := hpending.length_eq ▸ h.count hf
  sockets hf hm := (hpending.map _).symm.trans (h.sockets hf hm)
  requester hw := List.perm_singleton.mp (hparents.symm.trans (.of_eq (h.requester hw)))
  untold hw := hsent.trans (h.untold hw)
  told hw hf := by
    obtain ⟨last, hlast, htold⟩ := h.told hw hf
    exact ⟨last, hlast, hsent.trans htold⟩

theorem isReplica_response (e : PendingEntry) :
    op.handler.isReplica own (FanSystem.response op own f.request socket success) e = true ↔
      (e.1.instanceId = op.lookupInstance own f.request.parentInstanceId ∧
        e.1.requestId = f.request.requestId) ∧
      (op.handler.matchesSocket = true → e.1.ptr = socket) := by
  change (e.1.is (op.lookupInstance own f.request.parentInstanceId) f.request.requestId &&
    (!op.handler.matchesSocket || e.1.ptr == socket)) = true ↔ _
  cases op.handler.matchesSocket <;> simp [PendingIdentifier.is]

/-- A response whose entry cannot be found is discarded. -/
theorem handle_of_not_finds (hown : ∀ e ∈ s.pending, e.1.instanceId = own)
    (hf : ¬ op.Finds own f.request) :
    op.handler.handle own s (FanSystem.response op own f.request socket success) = s := by
  have hnone := PendingMap.eraseEntry_of_none (m := s.pending)
    (p := op.handler.isReplica own (FanSystem.response op own f.request socket success))
    fun e he => by
      rw [← Bool.not_eq_true, isReplica_response]
      rintro ⟨⟨hi, -⟩, -⟩
      exact hf (hi.symm.trans (hown e he))
  rw [ResponseHandler.handle, hnone]

/-- The requester's entry is the only one with its IDs. -/
theorem respond_eq (hs : s.parents.entriesOf f.request.parentInstanceId
      f.request.parentRequestId = [f.request.parentEntry]) (hsocket : f.request.socket ≠ 0)
    {pid : PendingIdentifier} (hpid : pid.parentInstanceId = f.request.parentInstanceId ∧
      pid.parentRequestId = f.request.parentRequestId) :
    ∃ parents, s.parents.Perm (f.request.parentEntry :: parents) ∧
      op.handler.respond s pid (FanSystem.response op own f.request socket success) =
        { s with
          parents
          sent := s.sent ++ [⟨f.request.parentInstanceId, f.request.parentRequestId,
            op.handler.reports success⟩] } := by
  have hmem : f.request.parentEntry ∈ s.parents.entriesOf f.request.parentInstanceId
      f.request.parentRequestId := by rw [hs]; exact List.mem_singleton_self _
  have hmatch : op.handler.isParent pid (FanSystem.response op own f.request socket success)
      f.request.parentEntry = true := by
    have hkey : strncmp f.request.key.length f.request.key f.request.key = 0 :=
      (strncmp_eq_zero_iff _ _ _).mpr rfl
    simp [ResponseHandler.isParent, FanRequest.parentEntry, PendingIdentifier.is, hpid.1, hpid.2,
      FanSystem.response, hkey]
  obtain ⟨e, parents, herase, he, hperm⟩ :=
    PendingMap.eraseEntry_of_mem (PendingMap.mem_entriesOf.mp hmem).1 hmatch
  have heq : e = f.request.parentEntry := by
    have hids : e.1.is f.request.parentInstanceId f.request.parentRequestId = true := by
      have := (Bool.and_eq_true_iff.mp he).1
      rwa [hpid.1, hpid.2] at this
    have hin : e ∈ s.parents.entriesOf f.request.parentInstanceId f.request.parentRequestId :=
      List.mem_filter.mpr ⟨hperm.mem_iff.mpr List.mem_cons_self, hids⟩
    rw [hs] at hin
    exact List.mem_singleton.mp hin
  subst heq
  refine ⟨parents, hperm, ?_⟩
  rw [ResponseHandler.respond, herase]
  simp [FanRequest.parentEntry, hsocket, FanSystem.response]

/-- What a response does whose entry is found: the entry goes, and with the last one the
requester is told. -/
theorem handle_of_finds (h : FanInv op own s f) (hf : op.Finds own f.request)
    (hsocket : f.request.socket ≠ 0) (hw : socket ∈ f.waiting) :
    ∃ (e : PendingEntry) (pending : PendingMap), s.pending.Perm (e :: pending) ∧
      (e.1.instanceId = own ∧ e.1.requestId = f.request.requestId) ∧
      (op.handler.matchesSocket = true → e.1.ptr = socket) ∧
      ((f.waiting.length ≠ 1 ∧
        op.handler.handle own s (FanSystem.response op own f.request socket success) =
          { s with pending }) ∨
      (f.waiting.length = 1 ∧ ∃ parents, s.parents.Perm (f.request.parentEntry :: parents) ∧
        op.handler.handle own s (FanSystem.response op own f.request socket success) =
          { pending, parents
            sent := s.sent ++ [⟨f.request.parentInstanceId, f.request.parentRequestId,
              op.handler.reports success⟩] })) := by
  -- a waiting replica has an entry
  have hentry : ∃ e ∈ s.pending, op.handler.isReplica own
      (FanSystem.response op own f.request socket success) e = true := by
    have hwait : f.waiting ≠ [] := List.ne_nil_of_mem hw
    simp only [isReplica_response,
      show op.lookupInstance own f.request.parentInstanceId = own from hf]
    cases hm : op.handler.matchesSocket with
    | true =>
      obtain ⟨e, he, hptr⟩ := List.mem_map.mp ((h.sockets hf hm).mem_iff.mpr hw)
      obtain ⟨hmem, hids⟩ := PendingMap.mem_entriesOf.mp he
      exact ⟨e, hmem, hids, fun _ => hptr⟩
    | false =>
      have hne : s.pending.entriesOf own f.request.requestId ≠ [] := by
        intro hnil
        have hcount := h.count hf
        rw [hnil] at hcount
        exact hwait (List.length_eq_zero_iff.mp hcount.symm)
      obtain ⟨e, he⟩ := List.exists_mem_of_ne_nil _ hne
      obtain ⟨hmem, hids⟩ := PendingMap.mem_entriesOf.mp he
      exact ⟨e, hmem, hids, by simp⟩
  obtain ⟨e₀, he₀, hmatch⟩ := hentry
  obtain ⟨e, pending, herase, he, hperm⟩ := PendingMap.eraseEntry_of_mem he₀ hmatch
  obtain ⟨hids, hptr⟩ := isReplica_response e |>.mp he
  rw [show op.lookupInstance own f.request.parentInstanceId = own from hf] at hids
  have hself := PendingMap.perm_entriesOf_self hperm hids
  have hcount : f.waiting.length = pending.count own f.request.requestId + 1 := by
    rw [← h.count hf, hself.length_eq, PendingMap.count, List.length_cons]
  refine ⟨e, pending, hperm, hids, hptr, ?_⟩
  rw [ResponseHandler.handle, herase]
  simp only [hids.1, hids.2]
  by_cases hzero : pending.count own f.request.requestId = 0
  · have hparent := h.parent e (hself.mem_iff.mpr List.mem_cons_self)
    have hrequester := h.requester (List.ne_nil_of_mem hw)
    obtain ⟨parents, hparents, hrespond⟩ :=
      respond_eq (s := { s with pending }) hrequester hsocket hparent
    refine Or.inr ⟨by omega, parents, hparents, ?_⟩
    rw [if_pos hzero]
    exact hrespond
  · refine Or.inl ⟨by omega, ?_⟩
    rw [if_neg hzero]

/-- The request after the response of one more replica. -/
theorem FanInv.answer (h : FanInv op own s f) (hown : ∀ e ∈ s.pending, e.1.instanceId = own)
    (hsocket : f.request.socket ≠ 0) {j : ℕ} (hj : f.waiting[j]? = some socket) :
    FanInv op own (op.handler.handle own s (FanSystem.response op own f.request socket success))
      { f with waiting := f.waiting.eraseIdx j, answers := f.answers ++ [success] } := by
  obtain ⟨hjl, hjs⟩ := List.getElem?_eq_some_iff.mp hj
  have hw : socket ∈ f.waiting := List.mem_of_getElem? hj
  have hlen : (f.waiting.eraseIdx j).length + 1 = f.waiting.length := by
    rw [List.length_eraseIdx_of_lt hjl]
    omega
  by_cases hf : op.Finds own f.request
  · obtain ⟨e, pending, hperm, hids, hptr, hcase⟩ := handle_of_finds h hf hsocket hw
    have hself := PendingMap.perm_entriesOf_self hperm hids
    have hwaiting : (socket :: f.waiting.eraseIdx j).Perm f.waiting := by
      rw [← hjs]
      exact List.getElem_cons_eraseIdx_perm hjl
    have hcount := (hself.length_eq.symm.trans (h.count hf)).trans hlen.symm
    rw [List.length_cons] at hcount
    have hsockets : op.handler.matchesSocket = true →
        ((pending.entriesOf own f.request.requestId).map fun e => e.1.ptr).Perm
          (f.waiting.eraseIdx j) := by
      intro hm
      have hmap := (hself.map fun e => e.1.ptr).symm.trans ((h.sockets hf hm).trans hwaiting.symm)
      rw [List.map_cons, hptr hm] at hmap
      exact hmap.cons_inv
    have hparent : ∀ e' ∈ pending.entriesOf own f.request.requestId,
        e'.1.parentInstanceId = f.request.parentInstanceId ∧
          e'.1.parentRequestId = f.request.parentRequestId :=
      fun e' he' => h.parent e' (hself.mem_iff.mpr (List.mem_cons_of_mem e he'))
    have hnil : f.waiting.eraseIdx j = [] ↔ f.waiting.length = 1 := by
      rw [← List.length_eq_zero_iff]
      omega
    have huntold := h.untold (Or.inl (List.ne_nil_of_mem hw))
    rcases hcase with ⟨hmore, hhandle⟩ | ⟨hlast, parents, hparents, hhandle⟩
    · rw [hhandle]
      constructor
      · exact hparent
      · exact fun _ => by simpa using hcount
      · exact fun _ => hsockets
      · exact fun _ => h.requester (List.ne_nil_of_mem hw)
      · exact fun _ => huntold
      · exact fun hnone => absurd (hnil.mp hnone) hmore
    · rw [hhandle]
      constructor
      · exact hparent
      · exact fun _ => by simpa using hcount
      · exact fun _ => hsockets
      · exact fun hsome => absurd (hnil.mpr hlast) hsome
      · rintro (hsome | hnot)
        · exact absurd (hnil.mpr hlast) hsome
        · exact absurd hf hnot
      · intro _ _
        refine ⟨success, List.getLast?_concat .., ?_⟩
        unfold FanState.sentTo at huntold ⊢
        rw [List.filter_append, huntold]
        simp
  · rw [handle_of_not_finds hown hf]
    constructor
    · exact h.parent
    · exact fun hf' => absurd hf' hf
    · exact fun hf' => absurd hf' hf
    · exact fun _ => h.requester (List.ne_nil_of_mem hw)
    · exact fun _ => h.untold (Or.inr hf)
    · exact fun _ hf' => absurd hf' hf

/-- A response leaves the other requests alone. -/
theorem FanInv.other {g : Fan} (hg : FanInv op own s g) (h : FanInv op own s f)
    (hown : ∀ e ∈ s.pending, e.1.instanceId = own) (hsocket : f.request.socket ≠ 0)
    (hapart : f.request.Apart g.request) (hw : socket ∈ f.waiting) :
    FanInv op own (op.handler.handle own s (FanSystem.response op own f.request socket success))
      g := by
  by_cases hf : op.Finds own f.request
  · obtain ⟨e, pending, hperm, hids, -, hcase⟩ := handle_of_finds h hf hsocket hw
    have hpending := PendingMap.perm_entriesOf_of_ne hperm (i := own) (r := g.request.requestId)
      fun he => hapart.1 (hids.2.symm.trans he.2)
    rcases hcase with ⟨-, hhandle⟩ | ⟨-, parents, hparents, hhandle⟩
    · rw [hhandle]
      exact hg.congr hpending (.refl _) rfl
    · rw [hhandle]
      refine hg.congr hpending (PendingMap.perm_entriesOf_of_ne hparents hapart.2) ?_
      unfold FanState.sentTo
      rw [List.filter_append, List.filter_cons_of_neg, List.filter_nil, List.append_nil]
      simpa using hapart.2
  · rwa [handle_of_not_finds hown hf]

end Handlers

/-! ## Runs -/

namespace FanSystem

variable {op : ReplicaOp} {own : ℕ} {s : FanSystem}

/-- What holds of all requests at all times. -/
structure Inv (op : ReplicaOp) (own : ℕ) (s : FanSystem) : Prop where
  fan : ∀ f ∈ s.fans, FanInv op own s.state f
  socket : ∀ f ∈ s.fans, f.request.socket ≠ 0
  apart : s.fans.Pairwise fun f g => f.request.Apart g.request
  pending : ∀ e ∈ s.state.pending, e.1.instanceId = own ∧
    ∃ f ∈ s.fans, f.request.requestId = e.1.requestId
  parents : ∀ e ∈ s.state.parents, ∃ f ∈ s.fans,
    f.request.parentInstanceId = e.1.instanceId ∧ f.request.parentRequestId = e.1.requestId
  sent : ∀ u ∈ s.state.sent, ∃ f ∈ s.fans,
    f.request.parentInstanceId = u.instanceId ∧ f.request.parentRequestId = u.requestId

/-- A request to be passed on is valid and has IDs of its own. -/
def Allowed (s : FanSystem) : FanAction → Prop
  | .fanOut r => r.Valid ∧ ∀ f ∈ s.fans, f.request.Apart r
  | .answer .. => True

theorem Inv.start : Inv op own start := by
  constructor <;> simp [FanSystem.start]

theorem Inv.fanOut (h : Inv op own s) {r : FanRequest} (hvalid : r.Valid)
    (hapart : ∀ f ∈ s.fans, f.request.Apart r) : Inv op own (s.step op own (.fanOut r)) := by
  have hnew : ∀ f ∈ s.fans,
      PendingMap.entriesOf (r.replicas.map (r.replicaEntry own)) own f.request.requestId = [] := by
    intro f hf
    refine PendingMap.entriesOf_eq_nil fun e he => ?_
    obtain ⟨socket, -, rfl⟩ := List.mem_map.mp he
    exact fun hids => (hapart f hf).1 hids.2.symm
  have hold : s.state.pending.entriesOf own r.requestId = [] := by
    refine PendingMap.entriesOf_eq_nil fun e he hids => ?_
    obtain ⟨-, f, hf, hreq⟩ := h.pending e he
    exact (hapart f hf).1 (hreq.trans hids.2)
  have hparents : s.state.parents.entriesOf r.parentInstanceId r.parentRequestId = [] := by
    refine PendingMap.entriesOf_eq_nil fun e he hids => ?_
    obtain ⟨f, hf, hi, hr⟩ := h.parents e he
    exact (hapart f hf).2 ⟨hi.trans hids.1, hr.trans hids.2⟩
  have hsent : s.state.sentTo r = [] := by
    refine List.filter_eq_nil_iff.mpr fun u hu hids => ?_
    obtain ⟨f, hf, hi, hr⟩ := h.sent u hu
    simp only [Bool.and_eq_true, decide_eq_true_eq] at hids
    exact (hapart f hf).2 ⟨hi.trans hids.1, hr.trans hids.2⟩
  have hself : PendingMap.entriesOf (r.replicas.map (r.replicaEntry own)) own r.requestId =
      r.replicas.map (r.replicaEntry own) := by
    refine List.filter_eq_self.mpr fun e he => ?_
    obtain ⟨socket, -, rfl⟩ := List.mem_map.mp he
    simp [FanRequest.replicaEntry, PendingIdentifier.is]
  constructor
  · intro f hf
    rcases List.mem_append.mp hf with hf | hf
    · -- the entries of the others stay
      have hpending : (s.step op own (.fanOut r)).state.pending.entriesOf own
          f.request.requestId = s.state.pending.entriesOf own f.request.requestId := by
        change PendingMap.entriesOf (_ ++ _) _ _ = _
        rw [PendingMap.entriesOf_append, hnew f hf, List.append_nil]
      have hrequesters : (s.step op own (.fanOut r)).state.parents.entriesOf
          f.request.parentInstanceId f.request.parentRequestId =
            s.state.parents.entriesOf f.request.parentInstanceId f.request.parentRequestId := by
        change PendingMap.entriesOf (_ ++ _) _ _ = _
        rw [PendingMap.entriesOf_append, PendingMap.entriesOf_eq_nil (m := [r.parentEntry]),
          List.append_nil]
        intro e he hids
        obtain rfl := List.mem_singleton.mp he
        exact (hapart f hf).2 ⟨hids.1.symm, hids.2.symm⟩
      exact (h.fan f hf).congr (.of_eq hpending.symm) (.of_eq hrequesters.symm) rfl
    · obtain rfl := List.mem_singleton.mp hf
      have hpending : (s.step op own (.fanOut r)).state.pending.entriesOf own r.requestId =
          r.replicas.map (r.replicaEntry own) := by
        change PendingMap.entriesOf (_ ++ _) _ _ = _
        rw [PendingMap.entriesOf_append, hold, List.nil_append, hself]
      constructor
      · intro e he
        rw [hpending] at he
        obtain ⟨socket, -, rfl⟩ := List.mem_map.mp he
        exact ⟨rfl, rfl⟩
      · intro _
        rw [hpending, List.length_map]
      · intro _ _
        rw [hpending, List.map_map]
        exact .of_eq (List.map_id _)
      · intro _
        change PendingMap.entriesOf (_ ++ _) _ _ = _
        rw [PendingMap.entriesOf_append, hparents, List.nil_append]
        simp [PendingMap.entriesOf, FanRequest.parentEntry, PendingIdentifier.is]
      · exact fun _ => hsent
      · exact fun hnil => absurd hnil hvalid.1
  · intro f hf
    rcases List.mem_append.mp hf with hf | hf
    · exact h.socket f hf
    · obtain rfl := List.mem_singleton.mp hf
      exact hvalid.2
  · refine List.pairwise_append.mpr ⟨h.apart, List.pairwise_singleton _ _, fun f hf g hg => ?_⟩
    obtain rfl := List.mem_singleton.mp hg
    exact hapart f hf
  · intro e he
    rcases List.mem_append.mp he with he | he
    · obtain ⟨hown, f, hf, hreq⟩ := h.pending e he
      exact ⟨hown, f, List.mem_append_left _ hf, hreq⟩
    · obtain ⟨socket, -, rfl⟩ := List.mem_map.mp he
      exact ⟨rfl, _, List.mem_append_right _ (List.mem_singleton_self _), rfl⟩
  · intro e he
    rcases List.mem_append.mp he with he | he
    · obtain ⟨f, hf, hids⟩ := h.parents e he
      exact ⟨f, List.mem_append_left _ hf, hids⟩
    · obtain rfl := List.mem_singleton.mp he
      exact ⟨_, List.mem_append_right _ (List.mem_singleton_self _), rfl, rfl⟩
  · intro u hu
    obtain ⟨f, hf, hids⟩ := h.sent u hu
    exact ⟨f, List.mem_append_left _ hf, hids⟩

theorem map_request_set {fans : List Fan} {i : ℕ} {f f' : Fan} (hi : fans[i]? = some f)
    (hf' : f'.request = f.request) :
    (fans.set i f').map Fan.request = fans.map Fan.request := by
  obtain ⟨hil, rfl⟩ := List.getElem?_eq_some_iff.mp hi
  have hil' : i < (fans.map Fan.request).length := by simpa using hil
  have hget : (fans.map Fan.request)[i] = fans[i].request := List.getElem_map ..
  rw [List.map_set, hf', ← hget, List.set_getElem_self]

/-- A request is still there when one of them has received a response. -/
theorem exists_mem_set {fans : List Fan} {i : ℕ} {f f' g : Fan} (hi : fans[i]? = some f)
    (hf' : f'.request = f.request) (hg : g ∈ fans) :
    ∃ g' ∈ fans.set i f', g'.request = g.request := by
  have hmem : g.request ∈ (fans.set i f').map Fan.request := by
    rw [map_request_set hi hf']
    exact List.mem_map_of_mem hg
  exact List.mem_map.mp hmem

theorem Inv.answer (h : Inv op own s) (i j : ℕ) (success : Bool) :
    Inv op own (s.step op own (.answer i j success)) := by
  unfold step
  cases hi : s.fans[i]? with
  | none => simpa [hi] using h
  | some f =>
    cases hj : f.waiting[j]? with
    | none => simpa [hi, hj] using h
    | some socket =>
      simp only [hi, hj]
      have hf : f ∈ s.fans := List.mem_of_getElem? hi
      have hw : socket ∈ f.waiting := List.mem_of_getElem? hj
      have hown : ∀ e ∈ s.state.pending, e.1.instanceId = own := fun e he => (h.pending e he).1
      have hinv := h.fan f hf
      have hsocket := h.socket f hf
      -- what the handler may have changed
      have hsub : (∀ e ∈ (op.handler.handle own s.state
            (response op own f.request socket success)).pending, e ∈ s.state.pending) ∧
          (∀ e ∈ (op.handler.handle own s.state
            (response op own f.request socket success)).parents, e ∈ s.state.parents) ∧
          ∀ u ∈ (op.handler.handle own s.state
            (response op own f.request socket success)).sent, u ∈ s.state.sent ∨
              f.request.parentInstanceId = u.instanceId ∧
                f.request.parentRequestId = u.requestId := by
        by_cases hfinds : op.Finds own f.request
        · obtain ⟨e, pending, hperm, -, -, hcase⟩ :=
            handle_of_finds hinv hfinds hsocket hw
          have hpending : ∀ e' ∈ pending, e' ∈ s.state.pending :=
            fun e' he' => hperm.mem_iff.mpr (List.mem_cons_of_mem e he')
          rcases hcase with ⟨-, hhandle⟩ | ⟨-, parents, hparents, hhandle⟩
          · rw [hhandle]
            exact ⟨hpending, fun _ he => he, fun _ hu => Or.inl hu⟩
          · rw [hhandle]
            refine ⟨hpending, fun e' he' => hparents.mem_iff.mpr (List.mem_cons_of_mem _ he'), ?_⟩
            intro u hu
            rcases List.mem_append.mp hu with hu | hu
            · exact Or.inl hu
            · obtain rfl := List.mem_singleton.mp hu
              exact Or.inr ⟨rfl, rfl⟩
        · rw [handle_of_not_finds hown hfinds]
          exact ⟨fun _ he => he, fun _ he => he, fun _ hu => Or.inl hu⟩
      set f' : Fan := { f with waiting := f.waiting.eraseIdx j, answers := f.answers ++ [success] }
        with hf'
      have hsame : f'.request = f.request := rfl
      constructor
      · intro g hg
        obtain ⟨k, hk⟩ := List.mem_iff_getElem?.mp hg
        rw [List.getElem?_set] at hk
        split_ifs at hk with hik hil
        · obtain rfl := Option.some.inj hk
          exact hinv.answer hown hsocket hj
        · have hgf : g ∈ s.fans := List.mem_of_getElem? hk
          have hapart : f.request.Apart g.request := by
            obtain ⟨hil, rfl⟩ := List.getElem?_eq_some_iff.mp hi
            obtain ⟨hkl, rfl⟩ := List.getElem?_eq_some_iff.mp hk
            rcases Nat.lt_or_gt_of_ne hik with hlt | hgt
            · exact List.pairwise_iff_getElem.mp h.apart i k hil hkl hlt
            · exact (List.pairwise_iff_getElem.mp h.apart k i hkl hil hgt).symm
          exact (h.fan g hgf).other hinv hown hsocket hapart hw
      · intro g hg
        rcases List.mem_or_eq_of_mem_set hg with hg | rfl
        · exact h.socket g hg
        · exact hsocket
      · have hmap : (s.fans.map Fan.request).Pairwise FanRequest.Apart :=
          List.pairwise_map.mpr h.apart
        rw [← map_request_set hi hsame] at hmap
        exact List.pairwise_map.mp hmap
      · intro e he
        obtain ⟨hinst, g, hg, hreq⟩ := h.pending e (hsub.1 e he)
        obtain ⟨g', hg', heq⟩ := exists_mem_set hi hsame hg
        exact ⟨hinst, g', hg', by rw [heq, hreq]⟩
      · intro e he
        obtain ⟨g, hg, hids⟩ := h.parents e (hsub.2.1 e he)
        obtain ⟨g', hg', heq⟩ := exists_mem_set hi hsame hg
        exact ⟨g', hg', by rwa [heq]⟩
      · intro u hu
        rcases hsub.2.2 u hu with hu | hu
        · obtain ⟨g, hg, hids⟩ := h.sent u hu
          obtain ⟨g', hg', heq⟩ := exists_mem_set hi hsame hg
          exact ⟨g', hg', by rwa [heq]⟩
        · obtain ⟨g', hg', heq⟩ := exists_mem_set hi hsame hf
          exact ⟨g', hg', by rwa [heq]⟩

/-- The requests that the actions pass on. -/
def requests (actions : List FanAction) : List FanRequest :=
  actions.filterMap fun
    | .fanOut r => some r
    | .answer .. => none

/-- The system after the actions. -/
def after (op : ReplicaOp) (own : ℕ) (actions : List FanAction) : FanSystem :=
  run (step op own) start actions

theorem map_request_step (s : FanSystem) (a : FanAction) :
    (s.step op own a).fans.map Fan.request = s.fans.map Fan.request ++ requests [a] := by
  cases a with
  | fanOut r => simp [step, requests]
  | answer i j success =>
    have hnil : requests [.answer i j success] = [] := rfl
    rw [hnil, List.append_nil]
    unfold step
    cases hi : s.fans[i]? with
    | none => simp only [hi]
    | some f =>
      cases hj : f.waiting[j]? with
      | none => simp only [hi, hj]
      | some socket =>
        simp only [hi, hj]
        exact map_request_set hi rfl

theorem map_request_after (actions : List FanAction) :
    (after op own actions).fans.map Fan.request = requests actions := by
  induction actions using List.reverseRecOn with
  | nil => rfl
  | append_singleton actions a ih =>
    unfold after at ih ⊢
    rw [run_concat, map_request_step, ih]
    exact List.filterMap_append.symm

/-- The invariant holds in every run. -/
theorem inv_after (actions : List FanAction) (hvalid : ∀ r ∈ requests actions, r.Valid)
    (hapart : (requests actions).Pairwise FanRequest.Apart) :
    Inv op own (after op own actions) := by
  have hstep : ∀ s a, Inv op own s → Allowed s a → Inv op own (s.step op own a) := by
    intro s a hs ha
    cases a with
    | fanOut r => exact hs.fanOut ha.1 ha.2
    | answer i j success => exact hs.answer i j success
  have hallowed : ∀ n a, actions[n]? = some a →
      Allowed (run (step op own) start (actions.take n)) a := by
    intro n a hn
    cases a with
    | answer i j success => exact trivial
    | fanOut r =>
      have hmap : (run (step op own) start (actions.take n)).fans.map Fan.request =
          requests (actions.take n) := map_request_after _
      have hsplit : requests (actions.take n) ++ [r] = requests (actions.take (n + 1)) := by
        obtain ⟨hnl, hget⟩ := List.getElem?_eq_some_iff.mp hn
        have hone : requests [.fanOut r] = [r] := rfl
        rw [List.take_succ_eq_append_getElem hnl, hget, ← hone]
        exact List.filterMap_append.symm
      have hsub : (requests (actions.take (n + 1))).Sublist (requests actions) :=
        (List.take_sublist _ _).filterMap _
      constructor
      · refine hvalid r (hsub.subset ?_)
        rw [← hsplit]
        exact List.mem_append_right _ (List.mem_singleton_self r)
      · intro f hf
        have hpair := hapart.sublist hsub
        rw [← hsplit] at hpair
        refine (List.pairwise_append.mp hpair).2.2 f.request ?_ r (List.mem_singleton_self r)
        rw [← hmap]
        exact List.mem_map_of_mem hf
  exact run_invariant_of_allowed Inv.start hstep actions hallowed

/-! ## The response to a request -/

/-- One response is sent, when all replicas have answered, and success is reported only if all of
them reported it. -/
def Answered (s : FanState) (f : Fan) : Prop :=
  (f.waiting ≠ [] → s.sentTo f.request = []) ∧
    (f.waiting = [] → ∃ success, s.sentTo f.request =
      [⟨f.request.parentInstanceId, f.request.parentRequestId, success⟩] ∧
        (success = true → ∀ a ∈ f.answers, a = true))

/-- The last replica to answer reports a failure, or none does. A DELETE in a chunk that is not
sealed is answered only if the client and the server have the same instance ID. -/
def LastDecides (op : ReplicaOp) (own : ℕ) (f : Fan) : Prop :=
  f.waiting = [] →
    if op = .delete then f.request.parentInstanceId = own
    else f.answers.getLast? = some false ∨ ∀ a ∈ f.answers, a = true

theorem reports_eq (op : ReplicaOp) (last : Bool) :
    op.handler.reports last = if op = .delete then false else last := by
  cases op <;> rfl

/-- In every run, every request is answered rightly if and only if the last response decides
rightly. -/
theorem answered_iff (op : ReplicaOp) (own : ℕ) (actions : List FanAction)
    (hvalid : ∀ r ∈ requests actions, r.Valid)
    (hapart : (requests actions).Pairwise FanRequest.Apart) (f : Fan)
    (hf : f ∈ (after op own actions).fans) :
    Answered (after op own actions).state f ↔ LastDecides op own f := by
  have hinv : FanInv op own (after op own actions).state f :=
    (inv_after actions hvalid hapart).fan f hf
  unfold Answered LastDecides
  by_cases hw : f.waiting = []
  · simp only [hw, ne_eq, not_true_eq_false, false_imp_iff, true_and, forall_const]
    by_cases hfinds : op.Finds own f.request
    · obtain ⟨last, hlast, htold⟩ := hinv.told hw hfinds
      rw [htold, reports_eq]
      by_cases hop : op = .delete
      · subst hop
        simpa using (ReplicaOp.finds_iff .delete own f.request).mp hfinds rfl
      · simp only [if_neg hop, hlast]
        cases last <;> simp
    · have huntold := hinv.untold (Or.inr hfinds)
      rw [huntold]
      have hdelete : op = .delete ∧ f.request.parentInstanceId ≠ own := by
        simpa [ReplicaOp.finds_iff] using hfinds
      simp [hdelete.1, hdelete.2]
  · simp only [hw, ne_eq, not_false_eq_true, true_imp_iff, false_imp_iff, and_true, iff_true]
    exact hinv.untold (Or.inl hw)

/-- A request for two parity servers. -/
def sampleRequest : FanRequest where
  parentInstanceId := 7
  parentRequestId := 3
  socket := 5
  key := [0x61]
  requestId := 9
  replicas := [11, 12]

/-- The two answers come in order. -/
def sampleFanout (first second : Bool) : List FanAction :=
  [.fanOut sampleRequest, .answer 0 0 first, .answer 0 0 second]

theorem answered_iff_sample :
    Answered (after .update 1 (sampleFanout true true)).state ⟨sampleRequest, [], [true, true]⟩ ↔
      LastDecides .update 1 ⟨sampleRequest, [], [true, true]⟩ :=
  answered_iff .update 1 (sampleFanout true true) (by decide) (by decide) _
    (List.mem_singleton_self _)

/-- One parity server reports a failure, the other one, which answers last, does not. -/
theorem not_answered_of_early_failure :
    ¬ ∀ (op : ReplicaOp) (own : ℕ) (actions : List FanAction),
      (∀ r ∈ requests actions, r.Valid) → (requests actions).Pairwise FanRequest.Apart →
        ∀ f ∈ (after op own actions).fans, Answered (after op own actions).state f := by
  intro h
  have hanswered := h .update 1 (sampleFanout false true) (by decide) (by decide)
    ⟨sampleRequest, [], [false, true]⟩ (List.mem_singleton_self _)
  obtain ⟨success, hsent, hall⟩ := hanswered.2 rfl
  have htrue : (after .update 1 (sampleFanout false true)).state.sentTo sampleRequest =
      [⟨7, 3, true⟩] := rfl
  obtain rfl : success = true := by
    have heq := htrue.symm.trans hsent
    simpa [sampleRequest] using heq.symm
  exact absurd (hall rfl false (by simp)) (by simp)

end FanSystem

end MemEC.Common
