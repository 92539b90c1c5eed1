import MemEC.Common.DegradedProtocol
import MemEC.Server.ParityCoder
import MemEC.Server.SourceSelection

/-!
# Sending a change of a data chunk to the parity chunks

Each parity chunk of the stripe has to get the change of the data chunk once. The
redirections of a degraded request say which parity chunks are lost: they are
either at another server now, or they have just been reconstructed and will be
forwarded, and then there is no socket for them.

If the chunk is sealed, the change is sent with its offset in the chunk; if not,
the parity servers find the object by its key. The pending sets, the packet pool
and the response to the client when nothing had to be sent are left out.
-/

namespace MemEC.Server

open MemEC.Lib MemEC.Common

variable {cfg : GlobalConfig}

/-- `MixedChunkBuffer`. Of a data chunk buffer only the chunk id is looked at. -/
inductive MixedChunkBuffer (cfg : GlobalConfig)
  | data (chunkId : ℕ)
  | parity (buffer : ParityChunkBuffer cfg)

def MixedChunkBuffer.getChunkId : MixedChunkBuffer cfg → ℕ
  | data chunkId => chunkId
  | parity buffer => buffer.chunkId

/-- The arguments of `sendModifyChunkRequest`. The redirections are the pairs of `original` and
`reconstructed`. -/
structure ModifyRequest where
  key : Key
  metadata : Metadata
  offset : ℕ
  valueUpdateOffset : ℕ
  delta : List UInt8
  isSealed : Bool
  isUpdate : Bool
  timestamp : ℕ
  redirections : List Redirection
  reconstructParity : Bool
  /-- The data of `chunks`. -/
  chunks : ℕ → Memory
  checkGetChunk : Bool

def ModifyRequest.isDegraded (req : ModifyRequest) : Bool := !req.redirections.isEmpty

/-- What is sent to a parity server: UPDATE_CHUNK or DELETE_CHUNK for a sealed chunk, UPDATE or
DELETE for one that is not. -/
inductive ModifyMessage
  | chunkUpdate (isUpdate checkGetChunk : Bool) (metadata : Metadata)
      (offset length updatingChunkId : ℕ) (delta : List UInt8) (timestamp : ℕ)
  | update (metadata : Metadata) (key : Key)
      (valueUpdateOffset valueUpdateSize chunkUpdateOffset : ℕ) (valueUpdate : List UInt8)
      (timestamp : ℕ)
  | delete (metadata : Metadata) (key : List UInt8) (timestamp : ℕ)
deriving DecidableEq

/-- What is done for a parity chunk, given by its chunk id: a message is sent, the chunk buffer of
this server is updated, or the reconstructed chunk that will be forwarded. -/
inductive Application
  | message (socket : ServerPeerSocket) (m : ModifyMessage)
  | inBuffer (chunkId : ℕ)
  | forwarded (chunkId : ℕ)
deriving DecidableEq

def Application.isInBuffer : Application → Bool
  | .inBuffer _ => true
  | _ => false

/-- What `sendModifyChunkRequest` finds at the server for the list of the chunk. -/
structure ModifyServer (cfg : GlobalConfig) where
  dataChunkCount : ℕ
  parityChunkCount : ℕ
  /-- `Coding::encode`. -/
  encode : (ℕ → Memory) → Memory → ℕ → ℕ → ℕ → Memory
  /-- `stripeList->get( listId, chunkId )`. -/
  socket : ℕ → ℕ → ServerPeerSocket
  /-- Null pointers are for chunks that will be forwarded. -/
  parityServerSockets : ℕ → Option ServerPeerSocket
  /-- The data of `forward.chunks`. -/
  forward : ℕ → Memory
  /-- `chunkBuffer->at( listId )`. -/
  chunkBuffer : MixedChunkBuffer cfg
  role : ∀ chunkId, chunkBuffer = .data chunkId → chunkId < dataChunkCount

namespace ParityChunkBuffer

variable (encode : (ℕ → Memory) → Memory → ℕ → ℕ → ℕ → Memory) (b : ParityChunkBuffer cfg)

/-- A change of a sealed chunk in the own buffer, `none` for a failed assertion. The backup is
inserted with the chunk id of the data chunk. -/
def modifySealed (req : ModifyRequest) : Option (ParityChunkBuffer cfg) :=
  let stripeId := req.metadata.stripeId
  let chunk := (b.chunks.lookup stripeId).map ParityChunkWrapper.chunk
  let sealIndicator := (b.getWrapper stripeId).pending.map (!·)
  let b := { b with
    chunks := b.chunks.insert stripeId (b.getWrapper stripeId)
    getChunkBuffer := b.getChunkBuffer.insertBackup req.metadata chunk sealIndicator }
  b.updateChunkBy encode stripeId req.metadata.chunkId req.offset req.delta (!req.isUpdate)

/-- A change of a chunk that is not sealed in the own buffer. -/
def modifyUnsealed (req : ModifyRequest) : Option (ParityChunkBuffer cfg) :=
  let key := Key.plain (req.key.data.take req.key.size)
  if req.isUpdate then
    let (b, ret) := b.updateKeyValue key req.valueUpdateOffset req.delta
    if ret then some b
    else
      b.updateChunkBy encode req.metadata.stripeId req.metadata.chunkId req.offset req.delta false
  else some (b.deleteKey key).1

/-- A change in the own buffer. -/
def modify (req : ModifyRequest) : Option (ParityChunkBuffer cfg) :=
  if req.isSealed then b.modifySealed encode req else b.modifyUnsealed encode req

end ParityChunkBuffer

/-- A change of the chunk buffer of the list. A data chunk buffer does nothing. -/
def MixedChunkBuffer.modify (encode : (ℕ → Memory) → Memory → ℕ → ℕ → ℕ → Memory)
    (req : ModifyRequest) : MixedChunkBuffer cfg → Option (MixedChunkBuffer cfg)
  | .data chunkId => some (.data chunkId)
  | .parity buffer => (buffer.modify encode req).map .parity

theorem MixedChunkBuffer.of_modify_data {encode : (ℕ → Memory) → Memory → ℕ → ℕ → ℕ → Memory}
    {req : ModifyRequest} {b : MixedChunkBuffer cfg} {chunkId : ℕ}
    (h : b.modify encode req = some (.data chunkId)) : b = .data chunkId := by
  cases b with
  | data c => exact Option.some.inj h
  | parity buffer =>
    obtain ⟨_, -, hne⟩ := Option.map_eq_some_iff.mp h
    cases hne

namespace ModifyServer

variable (s : ModifyServer cfg) (req : ModifyRequest)

/-- `getServers`. -/
def getServers : ModifyServer cfg :=
  { s with
    parityServerSockets := fun i => some (s.socket req.metadata.listId (s.dataChunkCount + i)) }

/-- The loop over the redirections, for one of them. -/
def redirectEntry (s : ModifyServer cfg) (e : Redirection) : ModifyServer cfg :=
  if s.dataChunkCount ≤ e.original.2 then
    let i := e.original.2 - s.dataChunkCount
    if req.reconstructParity then
      { s with
        forward := Function.update s.forward e.original.2 (req.chunks e.original.2)
        parityServerSockets := Function.update s.parityServerSockets i none }
    else
      { s with
        parityServerSockets :=
          Function.update s.parityServerSockets i (some (s.socket e.target.1 e.target.2)) }
  else s

/-- The sockets for the parity chunks of the stripe. -/
def redirect : ModifyServer cfg := req.redirections.foldl (redirectEntry req) (s.getServers req)

/-- The message for parity chunk `i`. -/
def message (i : ℕ) : ModifyMessage :=
  if req.isSealed then
    .chunkUpdate req.isUpdate req.checkGetChunk req.metadata req.offset req.delta.length
      (s.dataChunkCount + i) req.delta req.timestamp
  else if req.isUpdate then
    .update req.metadata req.key req.valueUpdateOffset req.delta.length req.offset req.delta
      req.timestamp
  else .delete req.metadata (req.key.data.take req.key.size) req.timestamp

/-- What the loop for a sealed chunk does for parity chunk `i`. -/
def sealedApplications (i : ℕ) : List Application :=
  match s.parityServerSockets i with
  | none =>
    -- Otherwise: "Invalid degraded operation."
    if req.isDegraded then [.forwarded (s.dataChunkCount + i)] else []
  | some socket =>
    if socket.self then
      let myChunkId := s.chunkBuffer.getChunkId
      if s.dataChunkCount ≤ myChunkId then [.inBuffer myChunkId] else []
    else [.message socket (s.message req i)]

/-- What the loop for a chunk that is not sealed does for parity chunk `i`. -/
def unsealedApplications (i : ℕ) : List Application :=
  match s.parityServerSockets i with
  | none => []
  | some socket => if socket.self then [] else [.message socket (s.message req i)]

/-- The loop that looks for the server itself: `self`, and `parityServerCount`. -/
def scanSelf : List ℕ → ℕ → ℕ × ℕ
  | [], parityServerCount => (0, parityServerCount)
  | i :: rest, parityServerCount =>
    match s.parityServerSockets i with
    | none => scanSelf rest (parityServerCount - 1)
    | some socket =>
      if socket.self then (i + 1, parityServerCount - 1) else scanSelf rest parityServerCount

/-- What is done for all of them. -/
def applications : List Application :=
  let indices := List.range s.parityChunkCount
  if req.isSealed then indices.flatMap (s.sealedApplications req)
  else
    indices.flatMap (s.unsealedApplications req) ++
      -- `if ( ! self )`
      if (s.scanSelf indices s.parityChunkCount).1 = 0 then
        match s.chunkBuffer with
        | .data _ => []
        | .parity buffer => [.inBuffer buffer.chunkId]
      else []

/-- The parity delta for a chunk: `forward.chunks` are zeros but for the delta of the data chunk,
and `encode` looks at the data chunks only. -/
def parityDelta (chunkId : ℕ) : Memory :=
  let startOff := u32 (req.offset + req.metadata.chunkId * cfg.chunkSize)
  s.encode (Pi.single req.metadata.chunkId (.place req.offset req.delta)) 0
    (chunkId - s.dataChunkCount + 1) startOff (u32 (startOff + req.delta.length))

/-- The delta goes into `forward.chunks`: first to the data chunks, then to a parity chunk. -/
def foldDelta (chunkId : ℕ) : ModifyServer cfg :=
  { s with
    forward := fun c =>
      if c < s.dataChunkCount then
        (Pi.single req.metadata.chunkId (.place req.offset req.delta) : ℕ → Memory) c
      else if c = chunkId then
        (s.forward c).xorInto 0 (s.parityDelta req chunkId) 0 cfg.chunkSize
      else s.forward c }

/-- The effect of what is done for one parity chunk, `none` for a failed assertion. -/
def perform (s : ModifyServer cfg) : Application → Option (ModifyServer cfg)
  | .message _ _ => some s
  | .forwarded chunkId => some (s.foldDelta req chunkId)
  | .inBuffer _ =>
    match h : s.chunkBuffer.modify s.encode req with
    | none => none
    | some chunkBuffer => some
      { s with
        chunkBuffer
        role := fun chunkId hrole =>
          s.role chunkId (MixedChunkBuffer.of_modify_data (hrole ▸ h)) }

/-- `sendModifyChunkRequest`: the state of the server, and what was done. -/
def sendModifyChunkRequest : Option (ModifyServer cfg × List Application) :=
  let s := s.redirect req
  let applications := s.applications req
  (applications.foldlM (perform req) s).map fun s => (s, applications)

/-! ## Once for each parity chunk -/

/-- Where parity chunk `i` is after the redirections: with a server, or in the chunk that will be
forwarded. -/
def responsible (redirections : List Redirection) (i : ℕ) : Option ServerPeerSocket :=
  match redirections.reverse.find? fun e => e.original.2 = s.dataChunkCount + i with
  | none => some (s.socket req.metadata.listId (s.dataChunkCount + i))
  | some e => if req.reconstructParity then none else some (s.socket e.target.1 e.target.2)

/-- What should be done for parity chunk `i`. -/
def owed (i : ℕ) : Application :=
  match s.responsible req req.redirections i with
  | none => .forwarded (s.dataChunkCount + i)
  | some socket =>
    if socket.self then .inBuffer (s.dataChunkCount + i) else .message socket (s.message req i)

/-- Each parity chunk gets the change once, where it is. -/
structure Applied (s : ModifyServer cfg) (req : ModifyRequest) (s' : ModifyServer cfg)
    (applications : List Application) : Prop where
  once : applications.Perm ((List.range s.parityChunkCount).map (s.owed req))
  forwarded : ∀ i < s.parityChunkCount, s'.forward (s.dataChunkCount + i) =
    if s.responsible req req.redirections i = none then
      (req.chunks (s.dataChunkCount + i)).xorInto 0 (s.parityDelta req (s.dataChunkCount + i)) 0
        cfg.chunkSize
    else s.forward (s.dataChunkCount + i)
  inBuffer : (∃ chunkId, .inBuffer chunkId ∈ applications) →
    ∃ buffer buffer', s.chunkBuffer = .parity buffer ∧
      buffer.modify s.encode req = some buffer' ∧ s'.chunkBuffer = .parity buffer'
  other : (∀ chunkId, .inBuffer chunkId ∉ applications) → s'.chunkBuffer = s.chunkBuffer

/-- The requests whose change gets to each parity chunk. For a sealed chunk, a parity chunk that is
at this server is the one of its chunk buffer, and nothing is deleted there. For one that is not
sealed, all parity chunks are at other servers, and this server has a data chunk of the list. -/
def Reaches (s : ModifyServer cfg) (req : ModifyRequest) : Prop :=
  if req.isSealed then
    ∀ i < s.parityChunkCount, ∀ socket, s.responsible req req.redirections i = some socket →
      socket.self = true →
        s.chunkBuffer.getChunkId = s.dataChunkCount + i ∧ req.isUpdate = true
  else
    (∀ i < s.parityChunkCount, ∃ socket,
      s.responsible req req.redirections i = some socket ∧ socket.self = false) ∧
    ∃ chunkId, s.chunkBuffer = .data chunkId

/-! ### The redirections -/

section Redirections

variable {s} {req} {l : List Redirection} {i : ℕ}

theorem responsible_concat (l : List Redirection) (e : Redirection) (i : ℕ) :
    s.responsible req (l ++ [e]) i =
      if e.original.2 = s.dataChunkCount + i then
        if req.reconstructParity then none else some (s.socket e.target.1 e.target.2)
      else s.responsible req l i := by
  unfold responsible
  rw [List.reverse_append, List.reverse_singleton, List.singleton_append, List.find?_cons]
  by_cases he : e.original.2 = s.dataChunkCount + i
  · rw [decide_eq_true he, if_pos he]
  · rw [decide_eq_false he, if_neg he]

/-- A chunk will be forwarded only if it was just reconstructed. -/
theorem of_responsible_none (h : s.responsible req l i = none) :
    req.reconstructParity = true ∧ l ≠ [] := by
  unfold responsible at h
  split at h
  · cases h
  · next e he =>
    constructor
    · by_contra hfalse
      rw [if_neg hfalse] at h
      cases h
    · rintro rfl
      cases he

/-- The state behind the loop. -/
structure Redirected (s : ModifyServer cfg) (req : ModifyRequest) (l : List Redirection)
    (s₁ : ModifyServer cfg) : Prop where
  dataChunkCount : s₁.dataChunkCount = s.dataChunkCount
  parityChunkCount : s₁.parityChunkCount = s.parityChunkCount
  encode : s₁.encode = s.encode
  socket : s₁.socket = s.socket
  chunkBuffer : s₁.chunkBuffer = s.chunkBuffer
  sockets : ∀ i, s₁.parityServerSockets i = s.responsible req l i
  forward : ∀ i, s₁.forward (s.dataChunkCount + i) =
    if s.responsible req l i = none then req.chunks (s.dataChunkCount + i)
    else s.forward (s.dataChunkCount + i)

theorem Redirected.concat {s₁ : ModifyServer cfg} (h : s.Redirected req l s₁) (e : Redirection) :
    s.Redirected req (l ++ [e]) (redirectEntry req s₁ e) := by
  have hcount := h.dataChunkCount
  have hslot : ∀ i, s₁.dataChunkCount ≤ e.original.2 →
      (i = e.original.2 - s₁.dataChunkCount ↔ e.original.2 = s.dataChunkCount + i) :=
    fun i hle => by omega
  unfold redirectEntry
  dsimp only
  split_ifs with hle hparity
  · refine ⟨h.dataChunkCount, h.parityChunkCount, h.encode, h.socket, h.chunkBuffer,
      fun i => ?_, fun i => ?_⟩
    · dsimp only
      rw [responsible_concat, if_pos hparity, Function.update_apply, h.sockets]
      simp only [hslot i hle]
    · dsimp only
      rw [responsible_concat, if_pos hparity, Function.update_apply, h.forward]
      by_cases he : e.original.2 = s.dataChunkCount + i
      · rw [if_pos he.symm, if_pos he, if_pos rfl, he]
      · rw [if_neg (Ne.symm he), if_neg he]
  · refine ⟨h.dataChunkCount, h.parityChunkCount, h.encode, h.socket, h.chunkBuffer,
      fun i => ?_, fun i => ?_⟩
    · dsimp only
      rw [responsible_concat, if_neg hparity, Function.update_apply, h.sockets, h.socket]
      simp only [hslot i hle]
    · dsimp only
      have hnone : ∀ l i, s.responsible req l i ≠ none := fun l i hnone =>
        hparity (of_responsible_none hnone).1
      rw [h.forward, if_neg (hnone _ _), if_neg (hnone _ _)]
  · refine ⟨h.dataChunkCount, h.parityChunkCount, h.encode, h.socket, h.chunkBuffer,
      fun i => ?_, fun i => ?_⟩
    · have he : e.original.2 ≠ s.dataChunkCount + i := by omega
      rw [responsible_concat, if_neg he, h.sockets]
    · have he : e.original.2 ≠ s.dataChunkCount + i := by omega
      rw [responsible_concat, if_neg he, h.forward]

theorem redirected (s : ModifyServer cfg) (req : ModifyRequest) :
    s.Redirected req req.redirections (s.redirect req) := by
  unfold redirect
  induction req.redirections using List.reverseRecOn with
  | nil =>
    refine ⟨rfl, rfl, rfl, rfl, rfl, fun i => rfl, fun i => ?_⟩
    rw [if_neg fun h => (of_responsible_none h).2 rfl]
    rfl
  | append_singleton l e ih =>
    rw [List.foldl_concat]
    exact ih.concat e

end Redirections

/-! ### What is done -/

section Performed

variable {s s' : ModifyServer cfg} {req : ModifyRequest} {as : List Application}

/-- A change of the own buffer fails if it is a deletion from a sealed chunk. -/
theorem modify_isSome (encode : (ℕ → Memory) → Memory → ℕ → ℕ → ℕ → Memory)
    (buffer : ParityChunkBuffer cfg) (req : ModifyRequest) :
    (buffer.modify encode req).isSome = (!req.isSealed || req.isUpdate) := by
  have hupdate : ∀ (b : ParityChunkBuffer cfg) (isDelete : Bool),
      (b.updateChunkBy encode req.metadata.stripeId req.metadata.chunkId req.offset req.delta
        isDelete).isSome = !isDelete := fun b isDelete => by cases isDelete <;> rfl
  cases hsealed : req.isSealed with
  | true =>
    rw [ParityChunkBuffer.modify, if_pos hsealed, ParityChunkBuffer.modifySealed]
    exact (hupdate _ _).trans (Bool.not_not _)
  | false =>
    rw [ParityChunkBuffer.modify, if_neg (by rw [hsealed]; exact Bool.false_ne_true),
      ParityChunkBuffer.modifyUnsealed]
    dsimp only
    split
    · split
      · rfl
      · exact hupdate _ false
    · rfl

/-- What one step leaves as it was, and what it does to the chunks. -/
structure Performed (s : ModifyServer cfg) (req : ModifyRequest) (a : Application)
    (s' : ModifyServer cfg) : Prop where
  dataChunkCount : s'.dataChunkCount = s.dataChunkCount
  encode : s'.encode = s.encode
  forward : ∀ c, s.dataChunkCount ≤ c → s'.forward c =
    if a = .forwarded c then (s.forward c).xorInto 0 (s.parityDelta req c) 0 cfg.chunkSize
    else s.forward c
  chunkBuffer : (if a.isInBuffer then s.chunkBuffer.modify s.encode req
    else some s.chunkBuffer) = some s'.chunkBuffer

theorem performed {a : Application} (h : s.perform req a = some s') : s.Performed req a s' := by
  cases a with
  | message socket m =>
    obtain rfl := Option.some.inj h
    exact ⟨rfl, rfl, fun c _ => (if_neg (by simp)).symm, rfl⟩
  | forwarded chunkId =>
    obtain rfl := Option.some.inj h
    refine ⟨rfl, rfl, fun c hc => ?_, rfl⟩
    simp only [foldDelta, if_neg (Nat.not_lt.mpr hc), Application.forwarded.injEq]
    by_cases hchunk : c = chunkId
    · rw [if_pos hchunk, if_pos hchunk.symm, hchunk]
    · rw [if_neg hchunk, if_neg (Ne.symm hchunk)]
  | inBuffer chunkId =>
    unfold perform at h
    dsimp only at h
    split at h
    · cases h
    · next chunkBuffer hmodify =>
      obtain rfl := Option.some.inj h
      exact ⟨rfl, rfl, fun c _ => (if_neg (by simp)).symm, hmodify⟩

/-- What all steps together do to the chunks, each by how often it is done. -/
theorem performed_all {s s' : ModifyServer cfg} (h : as.foldlM (perform req) s = some s') :
    (∀ c, s.dataChunkCount ≤ c → s'.forward c =
      (fun m : Memory => m.xorInto 0 (s.parityDelta req c) 0
        cfg.chunkSize)^[as.count (.forwarded c)] (s.forward c)) ∧
    (fun b => b.bind (MixedChunkBuffer.modify s.encode req))^[as.countP Application.isInBuffer]
      (some s.chunkBuffer) = some s'.chunkBuffer := by
  induction as generalizing s with
  | nil =>
    obtain rfl := Option.some.inj h
    exact ⟨fun c _ => rfl, rfl⟩
  | cons a as ih =>
    rw [List.foldlM_cons] at h
    obtain ⟨s₁, hstep, hrest⟩ := Option.bind_eq_some_iff.mp h
    have hp := performed hstep
    obtain ⟨hforward, hbuffer⟩ := ih hrest
    constructor
    · intro c hc
      have hdelta : s₁.parityDelta req c = s.parityDelta req c := by
        unfold parityDelta
        rw [hp.encode, hp.dataChunkCount]
      rw [hforward c (by rw [hp.dataChunkCount]; exact hc), hdelta, hp.forward c hc,
        List.count_cons]
      by_cases ha : a = .forwarded c
      · rw [if_pos ha, if_pos (beq_iff_eq.mpr ha), Function.iterate_succ_apply]
      · rw [if_neg ha, if_neg (fun h => ha (beq_iff_eq.mp h)), Nat.add_zero]
    · rw [hp.encode] at hbuffer
      rw [List.countP_cons, ← hbuffer, ← hp.chunkBuffer]
      by_cases ha : a.isInBuffer = true
      · rw [if_pos ha, if_pos ha, Function.iterate_succ_apply, Option.bind_some]
      · rw [if_neg ha, if_neg ha, Nat.add_zero]

theorem modify_isSome_of_fits {b : MixedChunkBuffer cfg}
    {encode : (ℕ → Memory) → Memory → ℕ → ℕ → ℕ → Memory}
    (h : (!req.isSealed || req.isUpdate) = true) : (b.modify encode req).isSome = true := by
  cases b with
  | data chunkId => rfl
  | parity buffer =>
    rw [MixedChunkBuffer.modify, Option.isSome_map, modify_isSome]
    exact h

/-- All can be done if nothing is to be deleted from a sealed chunk of this server. -/
theorem exists_performed
    (h : ∀ a ∈ as, a.isInBuffer = true → (!req.isSealed || req.isUpdate) = true)
    (s : ModifyServer cfg) : ∃ s', as.foldlM (perform req) s = some s' := by
  induction as generalizing s with
  | nil => exact ⟨s, rfl⟩
  | cons a as ih =>
    have hstep : ∃ s₁, s.perform req a = some s₁ := by
      cases a with
      | message socket m => exact ⟨s, rfl⟩
      | forwarded chunkId => exact ⟨_, rfl⟩
      | inBuffer chunkId =>
        have hsome := @modify_isSome_of_fits _ _ s.chunkBuffer s.encode
          (h _ List.mem_cons_self rfl)
        unfold perform
        dsimp only
        split
        · next hnone =>
          rw [hnone] at hsome
          cases hsome
        · exact ⟨_, rfl⟩
    obtain ⟨s₁, hs₁⟩ := hstep
    obtain ⟨s', hs'⟩ := ih (fun b hb => h b (List.mem_cons_of_mem _ hb)) s₁
    refine ⟨s', ?_⟩
    rw [List.foldlM_cons, hs₁]
    exact hs'

/-- A deletion from a sealed chunk of this server ends in an assertion. -/
theorem not_performed {buffer : ParityChunkBuffer cfg} {chunkId : ℕ}
    (hbuffer : s.chunkBuffer = .parity buffer) (hmem : .inBuffer chunkId ∈ as)
    (hfail : (!req.isSealed || req.isUpdate) = false) : as.foldlM (perform req) s ≠ some s' := by
  intro h
  have hchunk := (performed_all h).2
  have hpos : 0 < as.countP Application.isInBuffer := List.countP_pos_iff.mpr ⟨_, hmem, rfl⟩
  have hnone : (MixedChunkBuffer.parity buffer).modify s.encode req = none := by
    have hsome := modify_isSome s.encode buffer req
    rw [hfail, Option.isSome_eq_false_iff, Option.isNone_iff_eq_none] at hsome
    rw [MixedChunkBuffer.modify, hsome, Option.map_none]
  have hfixed : ∀ n, (fun b : Option (MixedChunkBuffer cfg) =>
      b.bind (MixedChunkBuffer.modify s.encode req))^[n] none = none := by
    intro n
    exact Function.iterate_fixed rfl n
  obtain ⟨n, hn⟩ := Nat.exists_eq_succ_of_ne_zero hpos.ne'
  rw [hn, hbuffer, Function.iterate_succ_apply, Option.bind_some, hnone, hfixed] at hchunk
  cases hchunk

end Performed

/-! ### What is owed -/

section Owed

variable {s s' s₁ : ModifyServer cfg} {req : ModifyRequest} {as : List Application} {i : ℕ}

theorem scanSelf_eq_zero_iff (l : List ℕ) (n : ℕ) : (s.scanSelf l n).1 = 0 ↔
    ∀ i ∈ l, ∀ socket, s.parityServerSockets i = some socket → socket.self = false := by
  induction l generalizing n with
  | nil => simp [scanSelf]
  | cons i l ih =>
    rw [List.forall_mem_cons]
    unfold scanSelf
    cases hsocket : s.parityServerSockets i with
    | none =>
      simp only [reduceCtorEq, IsEmpty.forall_iff, implies_true, true_and]
      exact ih (n - 1)
    | some socket =>
      simp only [Option.some.injEq, forall_eq']
      split_ifs with hself
      · refine iff_of_false not_false fun h => ?_
        exact absurd (hself.symm.trans h.1) (by decide)
      · rw [ih, Bool.eq_false_iff.mpr hself]
        exact (and_iff_right rfl).symm

/-- The packet has a reference for each of the servers that it is sent to. -/
theorem length_unsealed_le (l : List ℕ) (n : ℕ) (h : l.length ≤ n) :
    (l.flatMap (s.unsealedApplications req)).length + (n - l.length) ≤ (s.scanSelf l n).2 := by
  have hone : ∀ i, (s.unsealedApplications req i).length ≤ 1 := by
    intro i
    unfold unsealedApplications
    split
    · exact Nat.zero_le _
    · split_ifs
      · exact Nat.zero_le _
      · exact le_rfl
  have hall : ∀ l : List ℕ, (l.flatMap (s.unsealedApplications req)).length ≤ l.length := by
    intro l
    induction l with
    | nil => exact le_rfl
    | cons i l ih =>
      have := hone i
      rw [List.flatMap_cons, List.length_append, List.length_cons]
      omega
  induction l generalizing n with
  | nil => exact le_of_eq (Nat.zero_add _)
  | cons i l ih =>
    rw [List.length_cons] at h
    have hrest := hall l
    rw [List.flatMap_cons, List.length_append, List.length_cons]
    unfold scanSelf unsealedApplications
    cases hsocket : s.parityServerSockets i with
    | none =>
      have hle := ih (n - 1) (by omega)
      dsimp only
      rw [List.length_nil]
      unfold unsealedApplications at hle hrest
      omega
    | some socket =>
      dsimp only
      split_ifs with hself
      · rw [List.length_nil]
        unfold unsealedApplications at hrest
        dsimp only
        omega
      · have hle := ih n (by omega)
        rw [List.length_singleton]
        unfold unsealedApplications at hle hrest
        omega

theorem message_redirected (h : s.Redirected req req.redirections s₁) (i : ℕ) :
    s₁.message req i = s.message req i := by
  unfold message
  rw [h.dataChunkCount]

theorem sealedApplications_eq (h : s.Redirected req req.redirections s₁)
    (hself : ∀ socket, s.responsible req req.redirections i = some socket → socket.self = true →
      s.chunkBuffer.getChunkId = s.dataChunkCount + i) :
    s₁.sealedApplications req i = [s.owed req i] := by
  unfold sealedApplications owed
  rw [h.sockets, h.dataChunkCount, h.chunkBuffer, message_redirected h]
  cases hsocket : s.responsible req req.redirections i with
  | none =>
    have hdegraded : req.isDegraded = true := by
      rw [ModifyRequest.isDegraded, Bool.not_eq_true', List.isEmpty_eq_false_iff]
      exact (of_responsible_none hsocket).2
    dsimp only
    rw [if_pos hdegraded]
  | some socket =>
    dsimp only
    split_ifs with hown hle
    · rw [hself socket hsocket hown]
    · exact absurd (hself socket hsocket hown) (by omega)
    · rfl

theorem unsealedApplications_eq (h : s.Redirected req req.redirections s₁)
    {socket : ServerPeerSocket} (hsocket : s.responsible req req.redirections i = some socket)
    (hself : socket.self = false) : s₁.unsealedApplications req i = [s.owed req i] := by
  unfold unsealedApplications owed
  rw [h.sockets, hsocket, message_redirected h]
  dsimp only
  rw [hself, if_neg Bool.false_ne_true, if_neg Bool.false_ne_true]

/-- A request that reaches each parity chunk does there what is owed. -/
theorem applications_eq (h : s.Redirected req req.redirections s₁) (hreaches : s.Reaches req) :
    s₁.applications req = (List.range s.parityChunkCount).map (s.owed req) := by
  unfold applications Reaches at *
  rw [h.parityChunkCount, List.map_eq_flatMap]
  dsimp only
  split_ifs at hreaches ⊢ with hsealed hnone
  · refine List.flatMap_congr fun i hi => ?_
    exact sealedApplications_eq h fun socket hsocket hself =>
      (hreaches i (List.mem_range.mp hi) socket hsocket hself).1
  · obtain ⟨hother, chunkId, hdata⟩ := hreaches
    rw [h.chunkBuffer, hdata, List.append_nil]
    refine List.flatMap_congr fun i hi => ?_
    obtain ⟨socket, hsocket, hself⟩ := hother i (List.mem_range.mp hi)
    exact unsealedApplications_eq h hsocket hself
  · obtain ⟨hother, -⟩ := hreaches
    rw [List.append_nil]
    refine List.flatMap_congr fun i hi => ?_
    obtain ⟨socket, hsocket, hself⟩ := hother i (List.mem_range.mp hi)
    exact unsealedApplications_eq h hsocket hself

/-- What is owed to one chunk only is done once. -/
theorem countP_owed {P : Application → Bool} {n : ℕ} (hi : i < n)
    (h : ∀ j < n, P (s.owed req j) = true ↔ j = i) :
    ((List.range n).map (s.owed req)).countP P = 1 := by
  rw [List.countP_map]
  have hcongr : (List.range n).countP (P ∘ s.owed req) = (List.range n).countP (· == i) := by
    refine List.countP_congr fun j hj => ?_
    rw [beq_iff_eq]
    exact h j (List.mem_range.mp hj)
  rw [hcongr]
  exact List.count_eq_one_of_mem List.nodup_range (List.mem_range.mpr hi)

theorem owed_eq_forwarded_iff {j : ℕ} : s.owed req j = .forwarded (s.dataChunkCount + i) ↔
    s.responsible req req.redirections i = none ∧ j = i := by
  unfold owed
  constructor
  · intro h
    split at h
    · next hnone =>
      obtain rfl : j = i := by
        have := Application.forwarded.inj h
        omega
      exact ⟨hnone, rfl⟩
    · split_ifs at h
  · rintro ⟨hnone, rfl⟩
    rw [hnone]

theorem owed_isInBuffer_iff : (s.owed req i).isInBuffer = true ↔
    ∃ socket, s.responsible req req.redirections i = some socket ∧ socket.self = true := by
  unfold owed
  cases s.responsible req req.redirections i with
  | none => simp [Application.isInBuffer]
  | some socket =>
    simp only [Option.some.injEq, exists_eq_left']
    split_ifs with hself
    · exact iff_of_true rfl hself
    · exact iff_of_false (by simp [Application.isInBuffer]) hself

/-- In a request that reaches each parity chunk, what is owed to this server is owed to its own
chunk. -/
theorem Reaches.own (h : s.Reaches req) (hi : i < s.parityChunkCount)
    (howed : (s.owed req i).isInBuffer = true) :
    s.chunkBuffer.getChunkId = s.dataChunkCount + i ∧ req.isUpdate = true := by
  obtain ⟨socket, hsocket, hself⟩ := owed_isInBuffer_iff.mp howed
  unfold Reaches at h
  split_ifs at h
  · exact h i hi socket hsocket hself
  · obtain ⟨socket', hsocket', hother⟩ := h.1 i hi
    rw [hsocket] at hsocket'
    obtain rfl := Option.some.inj hsocket'
    exact absurd (hself.symm.trans hother) (by decide)

theorem applied (h : s.Reaches req) :
    ∃ s' as, s.sendModifyChunkRequest req = some (s', as) ∧ s.Applied req s' as := by
  have hr := redirected s req
  have happs := applications_eq hr h
  have hfits : ∀ a ∈ (s.redirect req).applications req, a.isInBuffer = true →
      (!req.isSealed || req.isUpdate) = true := by
    intro a ha hbuffer
    rw [happs] at ha
    obtain ⟨i, hi, rfl⟩ := List.mem_map.mp ha
    rw [(h.own (List.mem_range.mp hi) hbuffer).2, Bool.or_true]
  obtain ⟨s', hs'⟩ := exists_performed hfits (s.redirect req)
  obtain ⟨hforward, hbuffer⟩ := performed_all hs'
  rw [happs] at hforward hbuffer
  refine ⟨s', _, by rw [sendModifyChunkRequest, hs']; rfl, ?_⟩
  rw [happs]
  refine ⟨.refl _, fun i hi => ?_, ?_, ?_⟩
  · have hdelta : (s.redirect req).parityDelta req (s.dataChunkCount + i) =
        s.parityDelta req (s.dataChunkCount + i) := by
      unfold parityDelta
      rw [hr.encode, hr.dataChunkCount]
    rw [hforward _ (by rw [hr.dataChunkCount]; omega), hr.forward, hdelta]
    by_cases hnone : s.responsible req req.redirections i = none
    · have hcount : ((List.range s.parityChunkCount).map (s.owed req)).count
          (.forwarded (s.dataChunkCount + i)) = 1 := by
        refine countP_owed hi fun j _ => ?_
        rw [beq_iff_eq, owed_eq_forwarded_iff]
        exact and_iff_right hnone
      rw [hcount, if_pos hnone, if_pos hnone, Function.iterate_one]
    · have hcount : ((List.range s.parityChunkCount).map (s.owed req)).count
          (.forwarded (s.dataChunkCount + i)) = 0 := by
        refine List.count_eq_zero.mpr fun hmem => ?_
        obtain ⟨j, -, hj⟩ := List.mem_map.mp hmem
        exact hnone (owed_eq_forwarded_iff.mp hj).1
      rw [hcount, if_neg hnone, if_neg hnone, Function.iterate_zero_apply]
  · rintro ⟨chunkId, hmem⟩
    obtain ⟨i, hi, howed⟩ := List.mem_map.mp hmem
    have hown := h.own (List.mem_range.mp hi) (howed ▸ rfl)
    have hcount : ((List.range s.parityChunkCount).map (s.owed req)).countP
        Application.isInBuffer = 1 := by
      refine countP_owed (List.mem_range.mp hi) fun j hj => ⟨fun hbuf => ?_, ?_⟩
      · have := (h.own hj hbuf).1
        omega
      · rintro rfl
        rw [howed]
        rfl
    rw [hcount, Function.iterate_one, Option.bind_some, hr.encode, hr.chunkBuffer] at hbuffer
    cases hrole : s.chunkBuffer with
    | data c =>
      have hlt := s.role c hrole
      rw [hrole] at hown
      have hid : c = s.dataChunkCount + i := hown.1
      omega
    | parity buffer =>
      rw [hrole] at hbuffer
      obtain ⟨buffer', hmodify, hparity⟩ := Option.map_eq_some_iff.mp hbuffer
      exact ⟨buffer, buffer', rfl, hmodify, hparity.symm⟩
  · intro hnone
    have hcount : ((List.range s.parityChunkCount).map (s.owed req)).countP
        Application.isInBuffer = 0 := by
      refine List.countP_eq_zero.mpr fun a ha hbuf => ?_
      cases a with
      | inBuffer chunkId => exact hnone chunkId ha
      | message socket m => cases hbuf
      | forwarded chunkId => cases hbuf
    rw [hcount, Function.iterate_zero_apply, hr.chunkBuffer] at hbuffer
    exact (Option.some.inj hbuffer).symm

/-- A change that is made here for a sealed chunk is made to the chunk of the chunk buffer. -/
theorem of_inBuffer_mem_sealed {chunkId : ℕ}
    (h : .inBuffer chunkId ∈ s.sealedApplications req i) : s.chunkBuffer.getChunkId = chunkId := by
  unfold sealedApplications at h
  split at h
  · split_ifs at h
    · cases List.mem_singleton.mp h
    · cases h
  · dsimp only at h
    split_ifs at h
    · exact (Application.inBuffer.inj (List.mem_singleton.mp h)).symm
    · cases h
    · cases List.mem_singleton.mp h

/-- For a chunk that is not sealed, the loop over the servers only sends. -/
theorem of_mem_unsealed {a : Application} (h : a ∈ s.unsealedApplications req i) :
    ∃ socket m, a = .message socket m := by
  unfold unsealedApplications at h
  split at h
  · cases h
  · split_ifs at h
    · cases h
    · exact ⟨_, _, List.mem_singleton.mp h⟩

theorem reaches_of_sealed (hsealed : req.isSealed = true)
    (hsend : s.sendModifyChunkRequest req = some (s', as))
    (honce : as.Perm ((List.range s.parityChunkCount).map (s.owed req))) : s.Reaches req := by
  have hr := redirected s req
  obtain ⟨s'', hperform, hpair⟩ := Option.map_eq_some_iff.mp hsend
  obtain ⟨rfl, rfl⟩ := Prod.mk.inj hpair
  rw [Reaches, if_pos hsealed]
  intro i hi socket hsocket hself
  have howed : s.owed req i = .inBuffer (s.dataChunkCount + i) := by
    rw [owed, hsocket]
    exact if_pos hself
  have hmem : .inBuffer (s.dataChunkCount + i) ∈ (s.redirect req).applications req := by
    rw [honce.mem_iff, ← howed]
    exact List.mem_map_of_mem (List.mem_range.mpr hi)
  have hown : s.chunkBuffer.getChunkId = s.dataChunkCount + i := by
    rw [applications, if_pos hsealed] at hmem
    obtain ⟨j, -, hj⟩ := List.mem_flatMap.mp hmem
    rw [← hr.chunkBuffer]
    exact of_inBuffer_mem_sealed hj
  refine ⟨hown, ?_⟩
  by_contra hdelete
  cases hrole : s.chunkBuffer with
  | data c =>
    have hlt := s.role c hrole
    rw [hrole] at hown
    have hid : c = s.dataChunkCount + i := hown
    omega
  | parity buffer =>
    refine not_performed (hr.chunkBuffer.trans hrole) hmem ?_ hperform
    rw [hsealed, Bool.eq_false_iff.mpr hdelete]
    rfl

theorem reaches_of_unsealed (hsealed : ¬req.isSealed = true)
    (hsend : s.sendModifyChunkRequest req = some (s', as))
    (honce : as.Perm ((List.range s.parityChunkCount).map (s.owed req))) : s.Reaches req := by
  have hr := redirected s req
  obtain ⟨s'', hperform, hpair⟩ := Option.map_eq_some_iff.mp hsend
  obtain ⟨rfl, rfl⟩ := Prod.mk.inj hpair
  rw [applications, if_neg hsealed, hr.parityChunkCount] at honce
  rw [Reaches, if_neg hsealed]
  have hother : ∀ i < s.parityChunkCount, ∃ socket,
      s.responsible req req.redirections i = some socket ∧ socket.self = false := by
    intro i hi
    have hmem := honce.mem_iff.mpr (List.mem_map_of_mem (List.mem_range.mpr hi))
    rw [List.mem_append] at hmem
    rcases hmem with hmem | hmem
    · obtain ⟨j, -, hj⟩ := List.mem_flatMap.mp hmem
      obtain ⟨socket, m, howed⟩ := of_mem_unsealed hj
      unfold owed at howed
      split at howed
      · cases howed
      · next socket hsocket =>
        split_ifs at howed with hself
        exact ⟨socket, hsocket, Bool.eq_false_iff.mpr hself⟩
    · split_ifs at hmem with hnone
      · have hall := (scanSelf_eq_zero_iff _ _).mp hnone i (List.mem_range.mpr hi)
        cases hsocket : s.responsible req req.redirections i with
        | none =>
          have howed : s.owed req i = .forwarded (s.dataChunkCount + i) := by
            rw [owed, hsocket]
          rw [howed] at hmem
          split at hmem
          · cases hmem
          · cases List.mem_singleton.mp hmem
        | some socket => exact ⟨socket, rfl, hall socket ((hr.sockets i).trans hsocket)⟩
      · cases hmem
  refine ⟨hother, ?_⟩
  cases hrole : s.chunkBuffer with
  | data c => exact ⟨c, rfl⟩
  | parity buffer =>
    exfalso
    have hnone : ((s.redirect req).scanSelf (List.range s.parityChunkCount)
        s.parityChunkCount).1 = 0 := by
      rw [scanSelf_eq_zero_iff]
      intro i hi socket hsocket
      rw [hr.sockets] at hsocket
      obtain ⟨socket', hsocket', hself⟩ := hother i (List.mem_range.mp hi)
      rw [hsocket] at hsocket'
      obtain rfl := Option.some.inj hsocket'
      exact hself
    rw [if_pos hnone, hr.chunkBuffer, hrole] at honce
    have hmem := honce.mem_iff.mp (List.mem_append_right _ (List.mem_singleton_self _))
    obtain ⟨i, hi, howed⟩ := List.mem_map.mp hmem
    obtain ⟨socket, hsocket, hself⟩ := hother i (List.mem_range.mp hi)
    rw [owed, hsocket] at howed
    dsimp only at howed
    rw [hself, if_neg Bool.false_ne_true] at howed
    cases howed

end Owed

/-- Each parity chunk gets the change once, where it is, exactly in the requests described. -/
theorem applied_iff (s : ModifyServer cfg) (req : ModifyRequest) :
    (∃ s' as, s.sendModifyChunkRequest req = some (s', as) ∧ s.Applied req s' as) ↔
      s.Reaches req := by
  constructor
  · rintro ⟨s', as, hsend, happlied⟩
    by_cases hsealed : req.isSealed = true
    · exact reaches_of_sealed hsealed hsend happlied.once
    · exact reaches_of_unsealed hsealed hsend happlied.once
  · exact applied

/-- The server of the only parity chunk, which stands in for that of the first of two data
chunks. -/
def parityServer : ModifyServer .smallest where
  dataChunkCount := 2
  parityChunkCount := 1
  encode := (Coding.raid5 2 : Coding .smallest).encode
  socket := fun _ chunkId => ⟨146 + chunkId, chunkId == 2, true, true⟩
  parityServerSockets := fun _ => none
  forward := fun _ => 0
  chunkBuffer := .parity
    { coding := .raid5 2
      listId := 3
      chunkId := 2
      chunks := ∅
      keys := ∅
      pending := ∅
      getChunkBuffer := ∅
      folded := []
      isParity := by decide }
  role := fun _ h => nomatch h

/-- An update of an object in a chunk that is not sealed. -/
def degradedUpdate : ModifyRequest where
  key := .plain [146]
  metadata := ⟨3, 5, 0⟩
  offset := 0
  valueUpdateOffset := 0
  delta := [7]
  isSealed := false
  isUpdate := true
  timestamp := 0
  redirections := [⟨(3, 0), (3, 2)⟩]
  reconstructParity := false
  chunks := fun _ => 0
  checkGetChunk := true

/-- The parity server does not update its own buffer. -/
theorem not_applied_of_degradedUpdate : ¬∀ (cfg : GlobalConfig) (s : ModifyServer cfg)
    (req : ModifyRequest), ∃ s' as, s.sendModifyChunkRequest req = some (s', as) ∧
      s.Applied req s' as := by
  intro h
  obtain ⟨s', as, hsend, happlied⟩ := h _ parityServer degradedUpdate
  have hreaches := reaches_of_unsealed (by decide) hsend happlied.once
  rw [Reaches, if_neg (by decide)] at hreaches
  obtain ⟨socket, hsocket, hself⟩ := hreaches.1 0 (by decide)
  obtain rfl := Option.some.inj hsocket
  exact absurd hself (by decide)

end ModifyServer

end MemEC.Server
