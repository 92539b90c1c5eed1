import Mathlib.Tactic
import MemEC.Coordinator.RemappingLock

/-!
# Agreement on the placement of degraded SETs

The placements that clients are told agree exactly in those runs in which,
between two erasures of the record of a key, either all filtered proposals for
the key are empty or none is: a request whose proposal is empty is answered
without a look at the records.
-/

namespace MemEC.Coordinator

open MemEC.Common MemEC.Lib

variable {id : Key.Ident} {log : List LockEvent} {record : Option RemappingRecord}

@[simp] theorem erases_erased (id id' : Key.Ident) : erases id (.erased id') = decide (id' = id) := by
  simp [erases]

@[simp] theorem erases_decided (id id' : Key.Ident) (b : Bool) :
    erases id (.decided id' b) = false := by
  simp [erases]

@[simp] theorem erases_replied (id id' : Key.Ident) (answer : Option RemappingRecord) :
    erases id (.replied id' answer) = false := by
  simp [erases]

/-- What the running epoch of a key tells about its record, and the equivalence for the log. -/
structure EpochInv (id : Key.Ident) (record : Option RemappingRecord) (log : List LockEvent) :
    Prop where
  recorded : ∀ p, record = some p → p ≠ [] ∧ .replied id (some p) ∈ epoch (erases id) log ∧
    .decided id false ∈ epoch (erases id) log
  answered : ∀ q, .replied id (some q) ∈ epoch (erases id) log →
    (q = [] ∧ .decided id true ∈ epoch (erases id) log) ∨ record = some q
  placed : .decided id false ∈ epoch (erases id) log → record ≠ none
  passed : .decided id true ∈ epoch (erases id) log →
    .replied id (some []) ∈ epoch (erases id) log
  iff : WithinEpochs (erases id) (SameAnswer id) log ↔ WithinEpochs (erases id) (SameKind id) log

/-- Whether an event is about the key. -/
def LockEvent.About (id : Key.Ident) : LockEvent → Prop
  | .decided id' _ | .replied id' _ | .erased id' => id' = id

namespace EpochInv

theorem start (id : Key.Ident) : EpochInv id none [] where
  recorded := by simp
  answered := by simp
  placed := by simp
  passed := by simp
  iff := ⟨fun _ => withinEpochs_nil, fun _ => withinEpochs_nil⟩

/-- Events about other keys do not matter. -/
theorem other (h : EpochInv id record log) {e : LockEvent} (he : ¬ e.About id) :
    EpochInv id record (log ++ [e]) := by
  have hends : erases id e = false := by
    cases e with
    | decided id' b => rfl
    | replied id' answer => rfl
    | erased id' => simpa [LockEvent.About] using he
  have hmem : ∀ a, a ∈ epoch (erases id) (log ++ [e]) ↔ a = e ∨ a ∈ epoch (erases id) log := by
    intro a
    rw [mem_epoch_concat, hends]
    simp
  have hne : ∀ a : LockEvent, a.About id → a ≠ e := by
    rintro a ha rfl
    exact he ha
  have hreplied : ∀ answer, .replied id answer ∈ epoch (erases id) (log ++ [e]) ↔
      .replied id answer ∈ epoch (erases id) log :=
    fun answer => (hmem _).trans (or_iff_right (hne _ rfl))
  have hdecided : ∀ b, .decided id b ∈ epoch (erases id) (log ++ [e]) ↔
      .decided id b ∈ epoch (erases id) log :=
    fun b => (hmem _).trans (or_iff_right (hne _ rfl))
  have hanswer : ∀ a, SameAnswer id a e := fun a p q _ hq => absurd hq.symm (hne _ rfl)
  have hkind : ∀ a, SameKind id a e := fun a x y _ hy => absurd hy.symm (hne _ rfl)
  constructor
  · intro p hp
    rw [hreplied, hdecided]
    exact h.recorded p hp
  · intro q hq
    rw [hdecided]
    exact h.answered q ((hreplied _).mp hq)
  · rw [hdecided]
    exact h.placed
  · rw [hdecided, hreplied]
    exact h.passed
  · rw [withinEpochs_concat, withinEpochs_concat, and_iff_left fun a _ => hanswer a,
      and_iff_left fun a _ => hkind a]
    exact h.iff

/-- An erasure ends the epoch. -/
theorem erased (h : EpochInv id record log) : EpochInv id none (log ++ [.erased id]) := by
  have hepoch : epoch (erases id) (log ++ [.erased id]) = [] := by
    rw [epoch_concat]
    simp
  constructor
  · simp
  · simp [hepoch]
  · simp [hepoch]
  · simp [hepoch]
  · rw [withinEpochs_concat, withinEpochs_concat, and_iff_left, and_iff_left]
    · exact h.iff
    · intro a _ x y _ hy
      cases hy
    · intro a _ p q _ hq
      cases hq

theorem sameAnswer_decided (a : LockEvent) (b : Bool) : SameAnswer id a (.decided id b) := by
  intro p q _ hq
  cases hq

theorem sameAnswer_none (a : LockEvent) : SameAnswer id a (.replied id none) := by
  intro p q _ hq
  cases hq

theorem sameKind_replied (a : LockEvent) (answer : Option RemappingRecord) :
    SameKind id a (.replied id answer) := by
  intro x y _ hy
  cases hy

theorem forall_sameKind (b : Bool) :
    (∀ a ∈ epoch (erases id) log, SameKind id a (.decided id b)) ↔
      ∀ x, .decided id x ∈ epoch (erases id) log → x = b := by
  constructor
  · intro h x hx
    exact h _ hx x b rfl rfl
  · rintro h a ha x y rfl hy
    cases hy
    exact h x ha

theorem forall_sameAnswer (p : RemappingRecord) :
    (∀ a ∈ epoch (erases id) log, SameAnswer id a (.replied id (some p))) ↔
      ∀ q, .replied id (some q) ∈ epoch (erases id) log → q = p := by
  constructor
  · intro h q hq
    exact h _ hq q p rfl rfl
  · rintro h a ha q p' rfl hp
    cases hp
    exact h q ha

theorem concat_pair (d r : LockEvent) : log ++ [d, r] = log ++ [d] ++ [r] := by
  simp

theorem mem_epoch_reply {a : LockEvent} {b : Bool} {answer : Option RemappingRecord} :
    a ∈ epoch (erases id) (log ++ [.decided id b, .replied id answer]) ↔
      a = .replied id answer ∨ a = .decided id b ∨ a ∈ epoch (erases id) log := by
  rw [concat_pair, mem_epoch_concat, mem_epoch_concat, erases_decided, erases_replied]
  simp

/-- A decision and the reply that goes with it. -/
theorem iff_reply (h : EpochInv id record log) {b : Bool} {p : RemappingRecord}
    (hnew : (∀ q, .replied id (some q) ∈ epoch (erases id) log → q = p) ↔
      ∀ x, .decided id x ∈ epoch (erases id) log → x = b) :
    WithinEpochs (erases id) (SameAnswer id) (log ++ [.decided id b, .replied id (some p)]) ↔
      WithinEpochs (erases id) (SameKind id) (log ++ [.decided id b, .replied id (some p)]) := by
  have hanswers : (∀ a ∈ epoch (erases id) (log ++ [.decided id b]),
      SameAnswer id a (.replied id (some p))) ↔
        ∀ q, .replied id (some q) ∈ epoch (erases id) log → q = p := by
    rw [forall_sameAnswer]
    simp [mem_epoch_concat]
  rw [concat_pair, withinEpochs_concat, withinEpochs_concat, withinEpochs_concat,
    withinEpochs_concat, hanswers,
    forall_sameKind, and_iff_left fun a _ => sameAnswer_decided a b,
    and_iff_left fun a _ => sameKind_replied a (some p), h.iff, hnew]

/-- An empty proposal is answered without a look at the records. -/
theorem pass (h : EpochInv id record log) :
    EpochInv id record (log ++ [.decided id true, .replied id (some [])]) := by
  constructor
  · intro p hp
    simpa [mem_epoch_reply] using (h.recorded p hp).imp_right (And.imp_left Or.inr)
  · intro q hq
    rw [mem_epoch_reply] at hq ⊢
    rcases hq with hq | hq | hq
    · cases hq
      exact Or.inl ⟨rfl, Or.inr (Or.inl rfl)⟩
    · cases hq
    · exact (h.answered q hq).imp_left fun h => ⟨h.1, Or.inr (Or.inl rfl)⟩
  · simpa [mem_epoch_reply] using h.placed
  · simp [mem_epoch_reply]
  · refine h.iff_reply ⟨fun hall x hx => ?_, fun hall q hq => ?_⟩
    · cases x with
      | true => rfl
      | false =>
        obtain ⟨p, hp⟩ := Option.ne_none_iff_exists'.mp (h.placed hx)
        obtain ⟨hne, hreplied, -⟩ := h.recorded p hp
        exact absurd (hall p hreplied) hne
    · rcases h.answered q hq with ⟨hq, -⟩ | hq
      · exact hq
      · exact absurd (hall false (h.recorded q hq).2.2) (by simp)

/-- A record is inserted. -/
theorem insert (h : EpochInv id none log) {p : RemappingRecord} (hp : p ≠ []) :
    EpochInv id (some p) (log ++ [.decided id false, .replied id (some p)]) := by
  constructor
  · intro q hq
    cases hq
    simp [mem_epoch_reply, hp]
  · intro q hq
    rw [mem_epoch_reply] at hq ⊢
    rcases hq with hq | hq | hq
    · cases hq
      exact Or.inr rfl
    · cases hq
    · rcases h.answered q hq with ⟨hq, hd⟩ | hq
      · exact Or.inl ⟨hq, Or.inr (Or.inr hd)⟩
      · cases hq
  · simp
  · intro hd
    have hd' : .decided id true ∈ epoch (erases id) log := by
      simpa [mem_epoch_reply] using hd
    exact mem_epoch_reply.mpr (Or.inr (Or.inr (h.passed hd')))
  · refine h.iff_reply ⟨fun hall x hx => ?_, fun hall q hq => ?_⟩
    · cases x with
      | false => rfl
      | true => exact absurd (hall [] (h.passed hx)).symm hp
    · rcases h.answered q hq with ⟨-, hd⟩ | hq
      · exact absurd (hall true hd) (by simp)
      · cases hq

/-- A proposal meets a record. -/
theorem refuse {p : RemappingRecord} (h : EpochInv id (some p) log) :
    EpochInv id (some p) (log ++ [.decided id false]) := by
  constructor
  · intro q hq
    simpa [mem_epoch_concat] using (h.recorded q hq).imp_right And.left
  · intro q hq
    have hq' : .replied id (some q) ∈ epoch (erases id) log := by
      simpa [mem_epoch_concat] using hq
    simpa [mem_epoch_concat] using h.answered q hq'
  · simp
  · simpa [mem_epoch_concat] using h.passed
  · rw [withinEpochs_concat, withinEpochs_concat, forall_sameKind,
      and_iff_left fun a _ => sameAnswer_decided a false, h.iff]
    refine ⟨fun hlog => ⟨hlog, fun x hx => ?_⟩, And.left⟩
    by_contra hne
    rcases hlog.of_mem_epoch hx (h.recorded p rfl).2.2 (by simpa using hne) with hs | hs
    · exact hne (hs x false rfl rfl)
    · exact hne (hs false x rfl rfl).symm

/-- The record of a key, if there is one, is sent. -/
theorem find (h : EpochInv id record log) : EpochInv id record (log ++ [.replied id record]) := by
  cases record with
  | none =>
    constructor
    · simp
    · intro q hq
      have hq' : .replied id (some q) ∈ epoch (erases id) log := by
        simpa [mem_epoch_concat] using hq
      simpa [mem_epoch_concat] using h.answered q hq'
    · simpa [mem_epoch_concat] using h.placed
    · simpa [mem_epoch_concat] using h.passed
    · rw [withinEpochs_concat, withinEpochs_concat, and_iff_left fun a _ => sameAnswer_none a,
        and_iff_left fun a _ => sameKind_replied a none]
      exact h.iff
  | some p =>
    obtain ⟨hp, hreplied, hdecided⟩ := h.recorded p rfl
    constructor
    · intro q hq
      cases hq
      simp [mem_epoch_concat, hp, hdecided]
    · intro q hq
      simp only [mem_epoch_concat] at hq ⊢
      rcases hq with ⟨-, hq | hq⟩
      · cases hq
        exact Or.inr rfl
      · rcases h.answered q hq with ⟨hq, hd⟩ | hq
        · exact Or.inl ⟨hq, by simp [hd]⟩
        · exact Or.inr hq
    · simp
    · intro hd
      have hd' : .decided id true ∈ epoch (erases id) log := by
        simpa [mem_epoch_concat] using hd
      simp only [mem_epoch_concat]
      exact ⟨by simp, Or.inr (h.passed hd')⟩
    · rw [withinEpochs_concat, withinEpochs_concat, forall_sameAnswer,
        and_iff_left fun a _ => sameKind_replied a (some p), ← h.iff]
      refine ⟨And.left, fun hlog => ⟨hlog, fun q hq => ?_⟩⟩
      by_contra hne
      rcases hlog.of_mem_epoch hq hreplied (by simpa using hne) with hs | hs
      · exact hne (hs q p rfl rfl)
      · exact hne (hs p q rfl rfl).symm

end EpochInv

/-! ## Runs -/

/-- What is known of the epochs of all keys. -/
def EpochsInv (m : RemappingRecordMap) (log : List LockEvent) : Prop :=
  ∀ id, EpochInv id (m.map.lookup id) log

namespace EpochsInv

variable {m : RemappingRecordMap}

/-- The key of the handler makes an epoch step, and the other keys see events that are not about
them. -/
theorem of_key (h : EpochsInv m log) {m' : RemappingRecordMap} {key : Key} (es : List LockEvent)
    (hother : ∀ id, id ≠ key.ident → m'.map.lookup id = m.map.lookup id)
    (habout : ∀ e ∈ es, e.About key.ident)
    (hkey : EpochInv key.ident (m'.map.lookup key.ident) (log ++ es)) :
    EpochsInv m' (log ++ es) := by
  intro id
  by_cases hid : id = key.ident
  · subst hid
    exact hkey
  · rw [hother id hid]
    have hnot : ∀ e ∈ es, ¬ e.About id := by
      intro e he hid'
      have hkey' := habout e he
      cases e with
      | decided id' b => exact hid (hid'.symm.trans hkey')
      | replied id' answer => exact hid (hid'.symm.trans hkey')
      | erased id' => exact hid (hid'.symm.trans hkey')
    clear hkey habout
    induction es using List.reverseRecOn with
    | nil => simpa using h id
    | append_singleton es e ih =>
      rw [← List.append_assoc]
      exact (ih fun e' he' => hnot e' (List.mem_append_left _ he')).other
        (hnot e (by simp))

/-- What a worker does next. -/
theorem next (h : EpochsInv m log) (stripeList : StripeList) (serversState : ℕ → RemapState)
    (handler : Handler) :
    EpochsInv (handler.next stripeList serversState m).1
      (log ++ (handler.next stripeList serversState m).2.2) := by
  rcases handler with ⟨key, phase⟩
  have hkey := h key.ident
  cases phase with
  | filtering kept rest =>
    cases rest with
    | nil => simpa [Handler.next] using h
    | cons entry rest => simpa [Handler.next] using h
  | inserting proposal =>
    cases proposal with
    | nil =>
      refine h.of_key _ (fun _ _ => rfl) ?_ hkey.pass
      simp [Handler.next, LockEvent.About]
    | cons entry rest =>
      cases hfind : m.map.lookup key.ident with
      | some p =>
        have hins : m.insert key (entry :: rest) (stripeList.dataServer key) = (m, false) := by
          simp [RemappingRecordMap.insert, KeyMap.find, hfind]
        simp only [Handler.next, hins, Bool.false_eq_true, if_false]
        rw [hfind] at hkey
        refine h.of_key _ (fun _ _ => rfl) ?_ (by rw [hfind]; exact hkey.refuse)
        simp [LockEvent.About]
      | none =>
        have hins : ∃ keys, m.insert key (entry :: rest) (stripeList.dataServer key) =
            (⟨m.map.assign key (entry :: rest), keys⟩, true) := by
          simp only [RemappingRecordMap.insert, KeyMap.find, hfind]
          exact ⟨_, rfl⟩
        obtain ⟨keys, hins⟩ := hins
        simp only [Handler.next, hins, if_true]
        rw [hfind] at hkey
        refine h.of_key _ (fun id hid => AList.lookup_insert_ne hid) ?_ ?_
        · simp [LockEvent.About]
        · have hnew : (m.map.assign key (entry :: rest)).lookup key.ident = some (entry :: rest) :=
            AList.lookup_insert m.map
          rw [hnew]
          exact hkey.insert (List.cons_ne_nil entry rest)
  | finding =>
    refine h.of_key _ (fun _ _ => rfl) ?_ hkey.find
    simp [Handler.next, LockEvent.About]
  | done => simpa [Handler.next] using h

theorem lookup_foldl_erase (ids : List Key.Ident) (map : KeyMap RemappingRecord) (id : Key.Ident) :
    (ids.foldl (fun map id => map.erase id) map).lookup id =
      if id ∈ ids then none else map.lookup id := by
  induction ids generalizing map with
  | nil => simp
  | cons id' ids ih =>
    rw [List.foldl_cons, ih]
    by_cases hid : id = id'
    · subst hid
      simp [AList.lookup_erase]
    · simp [AList.lookup_erase_ne hid, hid]

theorem foldl_erased {id : Key.Ident} {record : Option RemappingRecord}
    (h : EpochInv id record log) (ids : List Key.Ident) :
    EpochInv id (if id ∈ ids then none else record) (log ++ ids.map .erased) := by
  induction ids using List.reverseRecOn with
  | nil => simpa using h
  | append_singleton ids id' ih =>
    rw [List.map_append, ← List.append_assoc, List.map_singleton]
    by_cases hid : id' = id
    · subst hid
      simpa using ih.erased
    · have hmem : id ∈ ids ++ [id'] ↔ id ∈ ids := by simp [Ne.symm hid]
      simp only [hmem]
      exact ih.other hid

/-- The records of a server are erased. -/
theorem erase (h : EpochsInv m log) (server : ℕ) :
    EpochsInv (m.erase server) (log ++ (m.erasable server).map .erased) := by
  intro id
  have hlookup : (m.erase server).map.lookup id =
      if id ∈ m.erasable server then none else m.map.lookup id := by
    rw [RemappingRecordMap.erase, lookup_foldl_erase]
    by_cases hid : id ∈ (m.serverToKeyMap server).keys
    · cases hm : m.map.lookup id with
      | none => simp
      | some p => simp [RemappingRecordMap.erasable, hid, hm]
    · simp [RemappingRecordMap.erasable, hid]
  rw [hlookup]
  exact foldl_erased (h id) _

theorem step (stripeList : StripeList) (s : LockService) (a : LockAction)
    (h : EpochsInv s.records s.log) :
    EpochsInv (s.step stripeList a).records (s.step stripeList a).log := by
  cases a with
  | receive key proposal => exact h
  | advance i =>
    simp only [LockService.step]
    cases hi : s.handlers[i]? with
    | none => exact h
    | some handler => exact h.next stripeList s.serversState handler
  | setState server state => exact h
  | erase server => exact h.erase server

end EpochsInv

/-- In every run of the coordinator the placements agree if and only if the proposals, after they
were filtered, are uniform. -/
theorem agree_iff_uniform (stripeList : StripeList) (serversState : ℕ → RemapState)
    (actions : List LockAction) :
    Agree (run (LockService.step stripeList) (.start serversState) actions).log ↔
      Uniform (run (LockService.step stripeList) (.start serversState) actions).log := by
  have hstart : EpochsInv (LockService.start serversState).records
      (LockService.start serversState).log := fun id => EpochInv.start id
  have hstep : ∀ (s : LockService) a, EpochsInv s.records s.log →
      EpochsInv (s.step stripeList a).records (s.step stripeList a).log :=
    fun s a hs => hs.step stripeList s a
  have hrun : EpochsInv (run (LockService.step stripeList) (.start serversState) actions).records
      (run (LockService.step stripeList) (.start serversState) actions).log :=
    @run_invariant _ _ (LockService.step stripeList) _
      (fun s : LockService => EpochsInv s.records s.log) hstart hstep actions
  exact forall_congr' fun id => (hrun id).iff

/-! ## A server that is no longer degraded -/

/-- The key of the sample run, whose data server is server `0`. -/
def lockedKey : Key := .plain [0x61]

/-- Chunk `i` of the only stripe list is on server `i`. -/
def sampleStripeList : StripeList where
  get := Prod.snd
  dataServer _ := 0

/-- Two clients propose chunk `2` in place of chunk `0`; the server of chunk `0` is degraded when
the first request is filtered, and has left that state when the second one is. Its records are not
yet erased. -/
def sampleActions : List LockAction :=
  [.receive lockedKey [⟨(0, 0), (0, 2)⟩], .advance 0, .advance 0, .advance 0,
    .setState 0 .coordinated, .receive lockedKey [⟨(0, 0), (0, 2)⟩], .advance 1, .advance 1,
    .advance 1]

theorem not_agree_of_empty_proposal :
    ¬ ∀ stripeList serversState actions,
      Agree (run (LockService.step stripeList) (.start serversState) actions).log := by
  intro h
  have hagree := h sampleStripeList (fun _ => .degraded) sampleActions lockedKey.ident
  have hlog : (run (LockService.step sampleStripeList) (.start fun _ => .degraded)
      sampleActions).log =
        [.decided lockedKey.ident false, .replied lockedKey.ident (some [⟨(0, 0), (0, 2)⟩]),
          .decided lockedKey.ident true, .replied lockedKey.ident (some [])] := by
    decide +kernel
  rw [hlog] at hagree
  have hsame := hagree 1 3 _ _ (by decide) rfl rfl fun m c _ hm hc => by
    interval_cases m
    · obtain rfl := Option.some.inj hc
      rfl
    · obtain rfl := Option.some.inj hc
      rfl
  exact absurd (hsame _ _ rfl rfl) (by decide)

end MemEC.Coordinator
