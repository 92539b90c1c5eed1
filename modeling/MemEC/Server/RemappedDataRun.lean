import MemEC.Server.RemappedData

/-!
# Runs of a migration

While the SETs of one store are on their way, the count is the number of those
that are still to be sent or answered. The SETs of the other store are not added
to it: when both stores have objects for the target the coordinator is answered
too early, whatever the order of the responses.
-/

namespace MemEC.Server

open MemEC.Lib

namespace MigrateRequest

variable {Srv Obj : Type} (req : MigrateRequest Srv)

/-- What the coordinator relies on, in a state of a migration. -/
structure Migrated (m : Migration Obj) : Prop where
  once : m.responses = [] ∨ m.responses = [req.id]
  /-- No SET is without a response once the coordinator has been answered. -/
  acked : m.responses ≠ [] → m.flying = []
  answered : m.stage = .done → m.flying = [] → m.responses = [req.id]

/-! ## When one store has nothing -/

/-- `n` SETs are still to be sent or answered, and the entry knows it. -/
structure Counted (m : Migration Obj) (n : ℕ) : Prop where
  some : 0 < n → m.counter = some n ∧ m.responses = [] ∧ req.erasedId req.id = req.id
  zero : n = 0 → m.responses = [req.id] ∧ (m.counter = none ∨ m.counter = Option.some 0)

/-- The SETs of the migration have not been counted yet, as there were none so far. -/
structure Uncounted (m : Migration Obj) (counter : Option ℕ) : Prop where
  counter : m.counter = counter
  flying : m.flying = []
  responses : m.responses = []

variable {req} {m : Migration Obj}

theorem Counted.congr {m' : Migration Obj} {n : ℕ} (h : Counted req m n)
    (hcounter : m'.counter = m.counter) (hresponses : m'.responses = m.responses) :
    Counted req m' n := by
  constructor
  · rw [hcounter, hresponses]
    exact h.some
  · rw [hcounter, hresponses]
    exact h.zero

/-- A response is counted. -/
theorem Counted.respond {n : ℕ} (h : Counted req m (n + 1)) (flying : List Obj) :
    Counted req (req.handleSetResponse m flying) n := by
  obtain ⟨hcounter, hresponses, hid⟩ := h.some n.succ_pos
  unfold handleSetResponse decrementRemapDataRequest
  rw [hcounter]
  rcases Nat.eq_zero_or_pos n with rfl | hn
  · constructor
    · exact fun h0 => absurd h0 (lt_irrefl 0)
    · simp [hresponses, hid]
  · constructor
    · intro _
      simp [hresponses, hid, hn.ne']
    · exact fun h0 => absurd h0 hn.ne'

/-- The second registration finds the entry of the first, or makes one that counts nothing. -/
theorem Counted.insert {n : ℕ} (h : Counted req m n) (m' : Migration Obj)
    (hcounter : m'.counter = insertRemapDataRequest m.counter 0)
    (hresponses : m'.responses = m.responses) : Counted req m' n := by
  constructor
  · intro hn
    obtain ⟨hc, hr, hid⟩ := h.some hn
    rw [hcounter, hresponses, hc]
    exact ⟨rfl, hr, hid⟩
  · intro hn
    obtain ⟨hr, hc⟩ := h.zero hn
    rw [hcounter, hresponses]
    rcases hc with hc | hc <;> simp [hc, hr, insertRemapDataRequest]

/-- In a stage in which the SETs that remain are counted, the coordinator has not been answered too
early. -/
theorem Counted.migrated {n : ℕ} (h : Counted req m n) (hn : m.flying.length ≤ n)
    (hdone : m.stage = .done → n = m.flying.length) : Migrated req m := by
  rcases Nat.eq_zero_or_pos n with rfl | hpos
  · have hflying : m.flying = [] := List.eq_nil_of_length_eq_zero (Nat.le_zero.mp hn)
    have hresponses := (h.zero rfl).1
    exact ⟨.inr hresponses, fun _ => hflying, fun _ _ => hresponses⟩
  · have hresponses := (h.some hpos).2.1
    constructor
    · exact .inl hresponses
    · exact fun hne => absurd hresponses hne
    · intro hs hflying
      have := hdone hs
      rw [hflying, List.length_nil] at this
      omega

theorem Uncounted.migrated {counter : Option ℕ} (h : Uncounted m counter) (hs : m.stage ≠ .done) :
    Migrated req m :=
  ⟨.inl h.responses, fun hne => absurd h.responses hne, fun hdone => absurd hdone hs⟩

/-! ## The invariant -/

variable [DecidableEq Srv]

section

variable (req)

/-- The objects that are sent first. -/
def firstBatch (data : Option (RemappedSet Obj)) : List Obj :=
  match data, req.socket with
  | some data, some _ => data.val
  | _, _ => []

/-- The objects that the scan of these entries sends. -/
def batchOf (keys : List (RemappedKeyValue Obj)) : List Obj :=
  (keys.filter req.targets).map RemappedKeyValue.keyValue

theorem length_batchOf (keys : List (RemappedKeyValue Obj)) :
    (req.batchOf keys).length = (keys.filter req.targets).length := List.length_map _

theorem batchOf_cons (v : RemappedKeyValue Obj) (keys : List (RemappedKeyValue Obj)) :
    req.batchOf (v :: keys) = (if req.targets v then [v.keyValue] else []) ++ req.batchOf keys := by
  unfold batchOf
  cases hv : req.targets v <;> simp [hv]

/-- The invariant of a migration from which one store is absent. -/
def Inv (m : Migration Obj) : Prop :=
  match m.stage with
  | .start => Uncounted m none ∧
    (req.firstBatch m.remappedData = [] ∨ req.batchOf m.keys = []) ∧
    (req.firstBatch m.remappedData ++ req.batchOf m.keys ≠ [] → req.erasedId req.id = req.id)
  | .sendData rest =>
    Counted req m (rest.length + m.flying.length) ∧ req.batchOf m.keys = [] ∧ req.socket.isSome
  | .scan found =>
    if found && req.socket.isSome then
      Counted req m m.flying.length ∧ req.batchOf m.keys = []
    else
      Uncounted m none ∧ (req.batchOf m.keys ≠ [] → req.erasedId req.id = req.id)
  | .sendKeys found count _ rest =>
    if count = 0 then
      req.batchOf rest = [] ∧
        if found && req.socket.isSome then Counted req m m.flying.length
        else Uncounted m (some 0)
    else
      (found && req.socket.isSome) = false ∧
        Counted req m ((req.batchOf rest).length + m.flying.length)
  | .done => Counted req m m.flying.length
  | .crashed => m.flying = [] ∧ m.responses = [req.id]

end

theorem Inv.migrated (h : Inv req m) : Migrated req m := by
  unfold Inv at h
  cases hs : m.stage with
  | start =>
    rw [hs] at h
    exact h.1.migrated (by simp [hs])
  | sendData rest =>
    rw [hs] at h
    exact h.1.migrated (Nat.le_add_left _ _) (by simp [hs])
  | scan found =>
    simp only [hs] at h
    split_ifs at h with hf
    · exact h.1.migrated le_rfl (by simp [hs])
    · exact h.1.migrated (by simp [hs])
  | sendKeys found count kept rest =>
    simp only [hs] at h
    split_ifs at h with hcount hf
    · exact h.2.migrated le_rfl (by simp [hs])
    · exact h.2.migrated (by simp [hs])
    · exact h.2.migrated (Nat.le_add_left _ _) (by simp [hs])
  | done =>
    rw [hs] at h
    exact Counted.migrated h le_rfl fun _ => rfl
  | crashed =>
    rw [hs] at h
    exact ⟨.inr h.2, fun _ => h.1, fun hdone => absurd hdone (by simp [hs])⟩

theorem Inv.finish {found : Bool} {count : ℕ} {kept : List (RemappedKeyValue Obj)}
    (hs : m.stage = .sendKeys found count kept []) (h : Inv req m) :
    Inv req (req.finish m found count) := by
  have hnil : req.batchOf ([] : List (RemappedKeyValue Obj)) = [] := rfl
  simp only [Inv, hs, hnil, List.length_nil, Nat.zero_add, true_and] at h
  unfold MigrateRequest.finish
  by_cases hcount : count = 0
  · rw [if_pos hcount] at h
    cases hf : found && req.socket.isSome with
    | true =>
      rw [hf, if_pos rfl] at h
      exact h.congr rfl rfl
    | false =>
      rw [hf, if_neg Bool.false_ne_true] at h
      rw [if_pos (by simp [hcount])]
      cases hsocket : req.socket with
      | none => exact ⟨h.flying, by simp [h.responses]⟩
      | some srv =>
        have hzero : m.flying.length = 0 := by rw [h.flying, List.length_nil]
        exact ⟨fun hpos => absurd hzero hpos.ne', fun _ => ⟨by simp [h.responses], .inr h.counter⟩⟩
  · rw [if_neg hcount] at h
    rw [if_neg (by simp [hcount])]
    exact h.2.congr rfl rfl

theorem Inv.handle (hinv : Inv req m) : Inv req (req.handleRemappedData m) := by
  have h := hinv
  unfold Inv at h
  unfold handleRemappedData
  cases hs : m.stage with
  | start =>
    simp only [hs] at h
    obtain ⟨hun, hone, hid⟩ := h
    cases hdata : m.remappedData with
    | none =>
      exact ⟨⟨hun.counter, hun.flying, hun.responses⟩, fun hne => hid (by simp [hne])⟩
    | some data =>
      cases hsocket : req.socket with
      | none =>
        simp only [Inv, hsocket, Option.isSome_none, Bool.and_false, Bool.false_eq_true, if_false]
        exact ⟨⟨hun.counter, hun.flying, hun.responses⟩, fun hne => hid (by simp [hne])⟩
      | some srv =>
        have hfirst : req.firstBatch m.remappedData = data.val := by
          simp only [firstBatch, hdata, hsocket]
        rw [hfirst] at hone hid
        have hpos : 0 < data.val.length := List.length_pos_iff.mpr data.property
        have herased : req.erasedId req.id = req.id :=
          hid (List.append_ne_nil_of_left_ne_nil data.property _)
        simp only [Inv, hun.flying, hun.counter, List.length_nil, Nat.add_zero]
        refine ⟨⟨fun _ => ⟨rfl, hun.responses, herased⟩, fun h0 => absurd h0 hpos.ne'⟩, ?_, ?_⟩
        · exact hone.resolve_left data.property
        · rw [hsocket]
          rfl
  | sendData rest =>
    simp only [hs] at h
    obtain ⟨hcounted, hbatch, hsocket⟩ := h
    cases rest with
    | nil =>
      simp only [Inv, hsocket, Bool.and_true, if_true]
      rw [List.length_nil, Nat.zero_add] at hcounted
      exact ⟨hcounted.congr rfl rfl, hbatch⟩
    | cons obj rest =>
      refine ⟨?_, hbatch, hsocket⟩
      have hlen : (obj :: rest).length + m.flying.length =
          rest.length + (m.flying ++ [obj]).length := by
        simp only [List.length_cons, List.length_append, List.length_nil]
        omega
      rw [hlen] at hcounted
      exact hcounted.congr rfl rfl
  | scan found =>
    simp only [hs] at h
    simp only [Inv, ← length_batchOf]
    by_cases hf : (found && req.socket.isSome) = true
    · rw [if_pos hf] at h ⊢
      obtain ⟨hcounted, hbatch⟩ := h
      rw [if_pos (by simp [hbatch]), hbatch, List.length_nil]
      exact ⟨rfl, hcounted.insert _ rfl rfl⟩
    · rw [if_neg hf] at h ⊢
      obtain ⟨hun, hid⟩ := h
      rw [hun.counter]
      rcases Nat.eq_zero_or_pos (req.batchOf m.keys).length with h0 | hpos
      · rw [if_pos h0]
        refine ⟨List.eq_nil_of_length_eq_zero h0, ?_, hun.flying, hun.responses⟩
        rw [h0]
        rfl
      · rw [if_neg hpos.ne', hun.flying]
        have herased := hid (List.length_pos_iff.mp hpos)
        refine ⟨Bool.eq_false_of_not_eq_true hf, fun _ => ⟨rfl, hun.responses, herased⟩, fun h0 => ?_⟩
        exact absurd h0 (by simp [hpos.ne'])
  | sendKeys found count kept rest =>
    simp only [hs] at h
    cases rest with
    | nil => exact hinv.finish hs
    | cons v rest =>
      dsimp only
      rw [batchOf_cons] at h
      cases hv : req.targets v with
      | true =>
        rw [if_pos rfl]
        simp only [hv, if_true, List.singleton_append, List.length_cons] at h
        simp only [Inv]
        split_ifs at h ⊢ with hcount hf
        · exact absurd h.1 (by simp)
        · exact absurd h.1 (by simp)
        · obtain ⟨hf, hcounted⟩ := h
          refine ⟨hf, ?_⟩
          have hlen : (req.batchOf rest).length + 1 + m.flying.length =
              (req.batchOf rest).length + (m.flying ++ [v.keyValue]).length := by
            simp only [List.length_append, List.length_singleton]
            omega
          rw [hlen] at hcounted
          exact hcounted.congr rfl rfl
      | false =>
        simp only [hv, Bool.false_eq_true, if_false, List.nil_append] at h
        rw [if_neg Bool.false_ne_true]
        simp only [Inv]
        split_ifs at h ⊢ with hcount hf
        · exact ⟨h.1, h.2.congr rfl rfl⟩
        · exact ⟨h.1, h.2.counter, h.2.flying, h.2.responses⟩
        · exact ⟨h.1, h.2.congr rfl rfl⟩
  | done =>
    simp only [hs] at h
    simpa only [Inv, hs] using h
  | crashed =>
    simp only [hs] at h
    simpa only [Inv, hs] using h

theorem Inv.respond (h : Inv req m) {flying : List Obj}
    (hlen : m.flying.length = flying.length + 1) :
    Inv req (req.handleSetResponse m flying) := by
  have hstage : (req.handleSetResponse m flying).stage = m.stage := rfl
  have hflying : (req.handleSetResponse m flying).flying = flying := rfl
  have hne : m.flying ≠ [] := List.ne_nil_of_length_eq_add_one hlen
  unfold Inv at h ⊢
  rw [hstage, hflying]
  cases hs : m.stage with
  | start =>
    simp only [hs] at h
    exact absurd h.1.flying hne
  | sendData rest =>
    simp only [hs] at h
    rw [hlen, ← Nat.add_assoc] at h
    exact ⟨h.1.respond flying, h.2⟩
  | scan found =>
    simp only [hs] at h
    dsimp only
    split_ifs at h ⊢ with hf
    · rw [hlen] at h
      exact ⟨h.1.respond flying, h.2⟩
    · exact absurd h.1.flying hne
  | sendKeys found count kept rest =>
    simp only [hs] at h
    dsimp only
    split_ifs at h ⊢ with hcount hf
    · rw [hlen] at h
      exact ⟨h.1, h.2.respond flying⟩
    · exact absurd h.2.flying hne
    · rw [hlen, ← Nat.add_assoc] at h
      exact ⟨h.1, h.2.respond flying⟩
  | done =>
    simp only [hs] at h
    rw [hlen] at h
    exact h.respond flying
  | crashed =>
    simp only [hs] at h
    exact absurd h.1 hne

theorem Inv.step (h : Inv req m) (a : MigrateAction) : Inv req (req.step m a) := by
  cases a with
  | handle => exact h.handle
  | respond j =>
    unfold MigrateRequest.step
    dsimp only
    split_ifs with hj
    · apply h.respond
      rw [List.length_eraseIdx_of_lt hj]
      omega
    · exact h

theorem Inv.init {data : Option (RemappedSet Obj)} {keys : List (RemappedKeyValue Obj)}
    (hone : req.firstBatch data = [] ∨ req.batchOf keys = [])
    (hid : req.firstBatch data ++ req.batchOf keys ≠ [] → req.erasedId req.id = req.id) :
    Inv req (.init data keys) :=
  ⟨⟨rfl, rfl, rfl⟩, hone, hid⟩

/-! ## When both stores have objects -/

/-- `m'` comes after `m` in some run. -/
def Reaches (req : MigrateRequest Srv) (m m' : Migration Obj) : Prop :=
  ∃ actions, run req.step m actions = m'

theorem Reaches.trans {m₁ m₂ m₃ : Migration Obj} (h : Reaches req m₁ m₂) (h' : Reaches req m₂ m₃) :
    Reaches req m₁ m₃ := by
  obtain ⟨as, rfl⟩ := h
  obtain ⟨bs, rfl⟩ := h'
  exact ⟨as ++ bs, run_append as bs⟩

variable (req)

theorem reaches_handle (m : Migration Obj) : Reaches req m (req.handleRemappedData m) :=
  ⟨[.handle], rfl⟩

/-- The first loop. -/
theorem reaches_sendData (rest : List Obj) (hs : m.stage = .sendData rest) :
    Reaches req m { m with flying := m.flying ++ rest, stage := .scan true } := by
  induction rest generalizing m with
  | nil =>
    have hstep := reaches_handle req m
    simp only [handleRemappedData, hs] at hstep
    simpa using hstep
  | cons obj rest ih =>
    have hstep := reaches_handle req m
    simp only [handleRemappedData, hs] at hstep
    have hrest := ih (m := { m with flying := m.flying ++ [obj], stage := .sendData rest }) rfl
    simp only [List.append_assoc, List.singleton_append] at hrest
    exact hstep.trans hrest

/-- The second loop. -/
theorem reaches_sendKeys {found : Bool} {count : ℕ} {kept : List (RemappedKeyValue Obj)}
    (rest : List (RemappedKeyValue Obj)) (hs : m.stage = .sendKeys found count kept rest) :
    ∃ m', Reaches req m m' ∧ m'.flying = m.flying ++ req.batchOf rest ∧ m'.counter = m.counter ∧
      m'.responses = m.responses := by
  induction rest generalizing m kept with
  | nil => exact ⟨m, ⟨[], rfl⟩, (List.append_nil _).symm, rfl, rfl⟩
  | cons v rest ih =>
    have hstep := reaches_handle req m
    simp only [handleRemappedData, hs] at hstep
    rw [batchOf_cons]
    cases hv : req.targets v with
    | true =>
      rw [hv, if_pos rfl] at hstep
      obtain ⟨m', hreach, hflying, hcounter, hresponses⟩ := ih (m := { m with
        flying := m.flying ++ [v.keyValue]
        keys := kept ++ rest
        stage := .sendKeys found count kept rest }) rfl
      refine ⟨m', hstep.trans hreach, ?_, hcounter, hresponses⟩
      rw [hflying, List.append_assoc]
      rfl
    | false =>
      rw [hv, if_neg Bool.false_ne_true] at hstep
      obtain ⟨m', hreach, hflying, hcounter, hresponses⟩ :=
        ih (m := { m with stage := .sendKeys found count (kept ++ [v]) rest }) rfl
      exact ⟨m', hstep.trans hreach, hflying, hcounter, hresponses⟩

/-- From the scan of the remapped buffer on. -/
theorem reaches_scan {found : Bool} (hs : m.stage = .scan found) :
    ∃ m', Reaches req m m' ∧ m'.flying = m.flying ++ req.batchOf m.keys ∧
      m'.counter = insertRemapDataRequest m.counter (req.batchOf m.keys).length ∧
      m'.responses = m.responses := by
  have hstep := reaches_handle req m
  simp only [handleRemappedData, hs, ← length_batchOf] at hstep
  obtain ⟨m', hreach, hflying, hcounter, hresponses⟩ := reaches_sendKeys req m.keys
    (m := { m with
      counter := insertRemapDataRequest m.counter (req.batchOf m.keys).length
      stage := .sendKeys found (req.batchOf m.keys).length [] m.keys }) rfl
  exact ⟨m', hstep.trans hreach, hflying, hcounter, hresponses⟩

/-- All SETs can be sent before a response comes in. Only those of the first store are counted, if
it has any. -/
theorem reaches_sent (data : Option (RemappedSet Obj)) (keys : List (RemappedKeyValue Obj)) :
    ∃ m', Reaches req (.init data keys) m' ∧
      m'.flying = req.firstBatch data ++ req.batchOf keys ∧ m'.responses = [] ∧
      m'.counter = some (if req.firstBatch data = [] then (req.batchOf keys).length
        else (req.firstBatch data).length) := by
  have hstart := reaches_handle req (.init data keys)
  by_cases hfirst : req.firstBatch data = []
  · have hstep : req.handleRemappedData (.init data keys) =
        ⟨none, keys, .scan data.isSome, none, [], []⟩ := by
      unfold handleRemappedData firstBatch at *
      cases data with
      | none => rfl
      | some data =>
        cases hsocket : req.socket with
        | none => rfl
        | some srv =>
          simp only [hsocket] at hfirst
          exact absurd hfirst data.property
    rw [hstep] at hstart
    obtain ⟨m', hreach, hflying, hcounter, hresponses⟩ :=
      reaches_scan req (m := ⟨none, keys, .scan data.isSome, none, [], []⟩) rfl
    refine ⟨m', hstart.trans hreach, ?_, hresponses, ?_⟩
    · rw [hflying, hfirst]
    · rw [hcounter, if_pos hfirst]
      rfl
  · have hstep : req.handleRemappedData (.init data keys) =
        ⟨none, keys, .sendData (req.firstBatch data), some (req.firstBatch data).length, [], []⟩ := by
      unfold handleRemappedData firstBatch at *
      cases data with
      | none => exact absurd rfl hfirst
      | some data =>
        cases hsocket : req.socket with
        | none =>
          simp only [hsocket] at hfirst
          exact absurd trivial hfirst
        | some srv => rfl
    rw [hstep] at hstart
    have hdata := reaches_sendData req (m := ⟨none, keys,
      .sendData (req.firstBatch data), some (req.firstBatch data).length, [], []⟩) _ rfl
    obtain ⟨m', hreach, hflying, hcounter, hresponses⟩ :=
      reaches_scan req (m := ⟨none, keys, .scan true,
        some (req.firstBatch data).length, [] ++ req.firstBatch data, []⟩) rfl
    refine ⟨m', (hstart.trans hdata).trans hreach, hflying, hresponses, ?_⟩
    rw [hcounter, if_neg hfirst]
    rfl

/-- The responses to as many SETs as are counted. -/
theorem reaches_answered {n : ℕ} (hcounter : m.counter = some (n + 1))
    (hlen : n + 1 ≤ m.flying.length) :
    ∃ m', Reaches req m m' ∧ m'.responses = m.responses ++ [req.erasedId req.id] ∧
      m'.flying.length = m.flying.length - (n + 1) := by
  have hstep : Reaches req m (req.handleSetResponse m (m.flying.eraseIdx 0)) :=
    ⟨[.respond 0], if_pos (Nat.lt_of_lt_of_le n.succ_pos hlen)⟩
  have herase : (m.flying.eraseIdx 0).length = m.flying.length - 1 :=
    List.length_eraseIdx_of_lt (Nat.lt_of_lt_of_le n.succ_pos hlen)
  induction n generalizing m with
  | zero =>
    refine ⟨_, hstep, ?_, herase⟩
    simp [handleSetResponse, decrementRemapDataRequest, hcounter]
  | succ n ih =>
    have hcount : (req.handleSetResponse m (m.flying.eraseIdx 0)).counter = some (n + 1) := by
      simp [handleSetResponse, decrementRemapDataRequest, hcounter]
    have hresponses : (req.handleSetResponse m (m.flying.eraseIdx 0)).responses = m.responses := by
      simp [handleSetResponse, decrementRemapDataRequest, hcounter]
    have hflying : (req.handleSetResponse m (m.flying.eraseIdx 0)).flying =
        m.flying.eraseIdx 0 := rfl
    have hle : n + 1 ≤ (m.flying.eraseIdx 0).length := by omega
    obtain ⟨m', hreach, hresponses', hlen'⟩ := ih hcount hle
      ⟨[.respond 0], if_pos (Nat.lt_of_lt_of_le n.succ_pos hle)⟩
      (List.length_eraseIdx_of_lt (Nat.lt_of_lt_of_le n.succ_pos hle))
    rw [hresponses] at hresponses'
    rw [hflying] at hlen'
    exact ⟨m', hstep.trans hreach, hresponses', by omega⟩

/-- A server answers a PARITY_MIGRATE request once, and not before all its SETs are acknowledged,
whatever the order of events, exactly when one of the stores has no object for the target (and the
entry that has been erased still has the IDs of the request). -/
theorem migrated_iff (data : Option (RemappedSet Obj))
    (keys : List (RemappedKeyValue Obj)) :
    (∀ actions, Migrated req (run req.step (.init data keys) actions)) ↔
      (req.firstBatch data = [] ∨ req.batchOf keys = []) ∧
        (req.firstBatch data ++ req.batchOf keys ≠ [] → req.erasedId req.id = req.id) := by
  constructor
  · intro h
    obtain ⟨m, hreach, hflying, hresponses, hcounter⟩ := reaches_sent req data keys
    -- as many responses as are counted, in this state
    have hanswer : ∀ n, m.counter = some (n + 1) → n + 1 ≤ m.flying.length →
        req.erasedId req.id = req.id ∧ m.flying.length = n + 1 := by
      intro n hn hle
      obtain ⟨m', hreach', hresponses', hlen'⟩ := reaches_answered req hn hle
      obtain ⟨actions, rfl⟩ := hreach.trans hreach'
      rw [hresponses, List.nil_append] at hresponses'
      have hgood := h actions
      have hnil := hgood.acked (by simp [hresponses'])
      rw [hnil, List.length_nil] at hlen'
      rcases hgood.once with hnone | hone
      · exact absurd hnone (by simp [hresponses'])
      · rw [hresponses'] at hone
        exact ⟨(List.cons.inj hone).1, by omega⟩
    have hlen : m.flying.length = (req.firstBatch data).length + (req.batchOf keys).length := by
      rw [hflying, List.length_append]
    cases hfirst : req.firstBatch data with
    | nil =>
      refine ⟨.inl rfl, fun hne => ?_⟩
      rw [hfirst, if_pos rfl] at hcounter
      rw [hfirst, List.length_nil, Nat.zero_add] at hlen
      obtain ⟨n, hn⟩ : ∃ n, (req.batchOf keys).length = n + 1 :=
        Nat.exists_eq_succ_of_ne_zero fun h0 => hne (by simpa using h0)
      rw [hn] at hcounter hlen
      exact (hanswer n hcounter hlen.ge).1
    | cons obj rest =>
      rw [hfirst, if_neg (List.cons_ne_nil _ _), List.length_cons] at hcounter
      rw [hfirst, List.length_cons] at hlen
      obtain ⟨hid, hall⟩ := hanswer rest.length hcounter (by omega)
      exact ⟨.inr (List.eq_nil_of_length_eq_zero (by omega)), fun _ => hid⟩
  · rintro ⟨hone, hid⟩ actions
    exact (run_invariant (Inv.init hone hid) (fun _ a hinv => hinv.step a) actions).migrated

/-- One object in each store: the response to the first SET makes the server answer while the second
SET is on its way. -/
theorem not_migrated_of_both :
    ∃ (req : MigrateRequest Unit) (data : RemappedSet ℕ) (keys : List (RemappedKeyValue ℕ))
      (actions : List MigrateAction),
      (∀ i, req.erasedId i = i) ∧
        (run req.step (.init (some data) keys) actions).responses = [req.id] ∧
        (run req.step (.init (some data) keys) actions).flying = [20] ∧
        ¬ Migrated req (run req.step (.init (some data) keys) actions) := by
  refine ⟨⟨⟨1, 7⟩, some (), fun _ => (), fun i => i⟩, ⟨[10], List.cons_ne_nil _ _⟩, [⟨0, 0, 20⟩],
    [.handle, .handle, .handle, .handle, .handle, .respond 0], fun _ => rfl, rfl, rfl, fun h => ?_⟩
  exact List.cons_ne_nil _ _ (h.acked (List.cons_ne_nil _ _))

end MigrateRequest

end MemEC.Server
