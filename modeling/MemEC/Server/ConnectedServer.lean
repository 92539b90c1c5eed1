import MemEC.Server.ClientRequests

/-!
# A data server and its clients

Clients send SET, GET and UPDATE requests to a data server. The threads of a
client share one connection, and the workers of the server share its way back.
A request is served when the server hands it on. The response goes out at once,
except for an update, which waits until all parity servers have acknowledged it.

Whatever the sockets do, the requests are served as ones to a map from keys to
objects, and a client that reads a response learns how its request was served.

A request is one step here, as the code holds the locks of the key map and of the
chunk buffer. When a parity server reports a failure is left out.
-/

namespace MemEC.Server

open MemEC.Lib MemEC.Common

variable {cfg : GlobalConfig} {shape : IndexShape} {ι κ ω : Type}

/-! ## The system -/

/-- A request with what the data server has made of it, and the message that says so. -/
structure Served (cfg : GlobalConfig) where
  request : ClientRequest cfg
  response : ObjectResponse
  message : Packet

/-- The connections of the clients, whose threads are `κ`, with a data server, whose workers are
`ω`. The requests in the order in which they were served, the updates that wait for the parity
servers, and the responses of each worker to each client. -/
structure ConnectedServer (cfg : GlobalConfig) (shape : IndexShape) (ι κ ω : Type) where
  requests : ι → Connection κ
  responses : ι → Connection ω
  store : ObjectStore cfg shape
  served : List (ι × Served cfg)
  waiting : List (ι × Served cfg)
  answered : ι → List (ω × Served cfg)

/-- Something happens at a connection, where `worker` takes what arrives and `timestamp` is the next
one of the server; the parity servers have acknowledged the `index`-th update that waits; or the
open chunks are sealed. -/
inductive ServerAction (ι κ ω : Type)
  | request (client : ι) (action : ConnectionAction κ) (worker : ω) (timestamp : ℕ)
  | response (client : ι) (action : ConnectionAction ω)
  | acknowledged (index : ℕ) (worker : ω)
  | sealAll

namespace ConnectedServer

section Steps

variable [DecidableEq ι] [DecidableEq κ] [DecidableEq ω] (P : Parties cfg) (rand : ℕ → ℕ)

/-- The requests that were served, as ones to a map. -/
def history (s : ConnectedServer cfg shape ι κ ω) : List (ObjectRequest cfg × ObjectResponse) :=
  s.served.map fun e => (e.2.request.call.request, e.2.response)

/-- The map after them. -/
def objects (s : ConnectedServer cfg shape ι κ ω) : ObjectMap cfg :=
  (ObjectMap.spec cfg).after (fun _ => none) s.history

/-- A worker sends a response. -/
def answer (s : ConnectedServer cfg shape ι κ ω) (i : ι) (w : ω) (e : Served cfg) :
    ConnectedServer cfg shape ι κ ω :=
  { s with
    responses := Function.update s.responses i ((s.responses i).enqueue w e.message)
    answered := Function.update s.answered i (s.answered i ++ [(w, e)]) }

/-- The request that is handed on with an action of the connection. -/
def arrival (s : ConnectedServer cfg shape ι κ ω) (i : ι) (a : ConnectionAction κ) :
    Option (ClientRequest cfg) :=
  (Connection.step P.client P.server (s.requests i) a).bind fun c =>
    c.receiver.dispatched[(s.requests i).receiver.dispatched.length]?.bind (readRequest cfg)

/-- The handler of a request. -/
def serve (s : ConnectedServer cfg shape ι κ ω) (i : ι) (w : ω) (timestamp : ℕ)
    (r : ClientRequest cfg) : Option (ConnectedServer cfg shape ι κ ω) :=
  (s.store.step rand r.call.request).map fun x =>
    let e : Served cfg := ⟨r, x.2, s.store.respond timestamp r x.2⟩
    let s' := { s with store := x.1, served := s.served ++ [(i, e)] }
    if x.2 = .update true ∧ s.store.server.parityChunkCount ≠ 0 then
      { s' with waiting := s'.waiting ++ [(i, e)] }
    else s'.answer i w e

def step (s : ConnectedServer cfg shape ι κ ω) :
    ServerAction ι κ ω → Option (ConnectedServer cfg shape ι κ ω)
  | .request i a w timestamp =>
    (Connection.step P.client P.server (s.requests i) a).bind fun c =>
      let s' := { s with requests := Function.update s.requests i c }
      match s.arrival P i a with
      | some r => s'.serve rand i w timestamp r
      | none => some s'
  | .response i a =>
    (Connection.step P.server P.client (s.responses i) a).map fun c =>
      { s with responses := Function.update s.responses i c }
  | .acknowledged index w =>
    s.waiting[index]?.map fun e => { s with waiting := s.waiting.eraseIdx index }.answer e.1 w e.2
  | .sealAll =>
    (s.store.step rand .sealAll).map fun x => { s with store := x.1 }

/-- Before the first request. -/
def start (calls : ι → κ → List (ClientRequest cfg)) (store : ObjectStore cfg shape) :
    ConnectedServer cfg shape ι κ ω where
  requests i := Connection.start fun k => (calls i k).map ClientRequest.packet
  responses _ := Connection.start fun _ => []
  store := store
  served := []
  waiting := []
  answered _ := []

/-- A connection does what a connection can do, and a request that is handed on is one that `Req`
allows. -/
def AllowedBy (Req : ObjectStore cfg shape → ObjectMap cfg → ObjectRequest cfg → Prop)
    (s : ConnectedServer cfg shape ι κ ω) : ServerAction ι κ ω → Prop
  | .request i a _ _ => (s.requests i).Allowed a ∧
      ∀ r ∈ s.arrival P i a, Req s.store s.objects r.call.request
  | .response i a => (s.responses i).Allowed a
  | .acknowledged _ _ => True
  | .sealAll => True

end Steps

/-! ## The invariant -/

section Invariant

variable [DecidableEq ι] [DecidableEq κ] [DecidableEq ω] {P : Parties cfg} {rand : ℕ → ℕ}
  {calls : ι → κ → List (ClientRequest cfg)} {n0 : ℕ} {used0 : List ℕ}
  {s s' : ConnectedServer cfg shape ι κ ω} {i : ι} {w : ω} {e : Served cfg}
  {extra : List (ι × Served cfg)}

/-- The connection of a client that sends its requests. -/
structure Requests (P : Parties cfg) (calls : κ → List (ClientRequest cfg)) (c : Connection κ) :
    Prop where
  inv : Connection.Inv P.client P.server (fun k => (calls k).map ClientRequest.packet) c
  bounded : Connection.Bounded P.server c.receiver

/-- The way back, with the responses to a client. -/
structure Responses (P : Parties cfg) (answered : List (ω × Served cfg)) (c : Connection ω) :
    Prop where
  inv : Connection.Inv P.server P.client (fun w => (entriesOf w answered).map Served.message) c
  bounded : Connection.Bounded P.client c.receiver

/-- Every request that was handed on is served, rightly as one to the map, and has a response that
says so. The response is sent, or it waits, or it is among `extra`. -/
structure Inv (P : Parties cfg) (calls : ι → κ → List (ClientRequest cfg)) (n0 : ℕ)
    (used0 : List ℕ) (extra : List (ι × Served cfg)) (s : ConnectedServer cfg shape ι κ ω) :
    Prop where
  requests : ∀ i, Requests P (calls i) (s.requests i)
  responses : ∀ i, Responses P (s.answered i) (s.responses i)
  arrived : ∀ i, List.Forall₂ (fun d e => readRequest cfg d = some e.request)
    (s.requests i).receiver.dispatched (entriesOf i s.served)
  represents : ∃ log, ObjectStore.Represents n0 used0 s.store log s.objects
  explained : (ObjectMap.spec cfg).Explains (fun _ => none) s.history
  right : ∀ e ∈ s.served, ∃ result, e.2.response.result = some result ∧
    Answers P e.2.request e.2.message result
  complete : ∀ i, ((s.answered i).map Prod.snd ++ entriesOf i (s.waiting ++ extra)).Perm
    (entriesOf i s.served)

omit [DecidableEq ι] [DecidableEq κ] [DecidableEq ω] in
theorem history_of_served {x : ι × Served cfg} (h : s'.served = s.served ++ [x]) :
    s'.history = s.history ++ [(x.2.request.call.request, x.2.response)] := by
  rw [history, h, List.map_append]
  rfl

omit [DecidableEq ι] [DecidableEq κ] [DecidableEq ω] in
theorem objects_of_served {x : ι × Served cfg} (h : s'.served = s.served ++ [x]) :
    s'.objects = s.objects.next x.2.request.call.request x.2.response := by
  rw [objects, history_of_served h, Spec.after, List.foldl_append]
  rfl

/-- A worker has another response to send. -/
theorem Responses.enqueue {answered : List (ω × Served cfg)} {c : Connection ω}
    (h : Responses P answered c) (he : e.message.Fits P.client) (w : ω) :
    Responses P (answered ++ [(w, e)]) (c.enqueue w e.message) where
  inv := by
    have henqueue := h.inv.enqueue (t := w) he
    convert henqueue using 1
    funext v
    rw [entriesOf_append, List.map_append]
    by_cases hv : v = w
    · subst hv
      simp [entriesOf_cons_self]
    · simp [entriesOf_cons_of_ne (Ne.symm hv), Function.update_of_ne hv]
  bounded := h.bounded

/-- A response of `extra` is sent. -/
theorem Inv.answer (h : Inv P calls n0 used0 ((i, e) :: extra) s) (he : e.message.Fits P.client)
    (w : ω) : Inv P calls n0 used0 extra (s.answer i w e) where
  requests := h.requests
  responses j := by
    unfold ConnectedServer.answer
    by_cases hj : j = i
    · subst hj
      simp only [Function.update_self]
      exact (h.responses j).enqueue he w
    · simp only [Function.update_of_ne hj]
      exact h.responses j
  arrived := h.arrived
  represents := h.represents
  explained := h.explained
  right := h.right
  complete j := by
    have hcomplete := h.complete j
    unfold ConnectedServer.answer
    by_cases hj : j = i
    · subst hj
      simp only [Function.update_self, List.map_append, List.map_cons, List.map_nil]
      rw [entriesOf_append, entriesOf_cons_self] at hcomplete
      rw [entriesOf_append]
      refine List.Perm.trans ?_ hcomplete
      rw [List.append_assoc]
      refine List.Perm.append_left _ ?_
      rw [List.singleton_append]
      exact List.perm_middle.symm
    · simp only [Function.update_of_ne hj]
      rw [entriesOf_append, entriesOf_cons_of_ne (Ne.symm hj), ← entriesOf_append] at hcomplete
      exact hcomplete

/-- A response of `extra` waits. -/
theorem Inv.wait (h : Inv P calls n0 used0 [(i, e)] s) :
    Inv P calls n0 used0 [] { s with waiting := s.waiting ++ [(i, e)] } where
  requests := h.requests
  responses := h.responses
  arrived := h.arrived
  represents := h.represents
  explained := h.explained
  right := h.right
  complete j := by
    rw [List.append_nil]
    exact h.complete j

omit [DecidableEq ι] [DecidableEq κ] in
theorem requests_fit (hcalls : ∀ i k, ∀ r ∈ calls i k, r.Fits P.server) (i : ι) (k : κ) :
    ∀ m ∈ (calls i k).map ClientRequest.packet, m.Fits P.server := by
  intro m hm
  obtain ⟨r, hr, rfl⟩ := List.mem_map.mp hm
  exact (hcalls i k r hr).packet P.server_receiver

omit [DecidableEq ι] in
/-- What the server has handed on are the first requests of the threads, or some of them when a
request could not be sent. -/
theorem exists_sent (hcalls : ∀ i k, ∀ r ∈ calls i k, r.Fits P.server) {c : Connection κ}
    (hc : Requests P (calls i) c) :
    ∃ sent : List (κ × ClientRequest cfg),
      List.Forall₂ (fun d e => readRequest cfg d = some e.2) c.receiver.dispatched sent ∧
      (∀ k, (entriesOf k sent).Sublist (calls i k)) ∧
      (c.failed = [] → ∀ k, entriesOf k sent <+: calls i k) ∧
      (c.Settled P.client → ∀ k, entriesOf k sent = calls i k) := by
  obtain ⟨sent, hdelivered, hordered⟩ := hc.inv.exists_dispatched
  have hsub := hordered.1
  refine ⟨sent, List.forall₂_iff_zip.mpr ⟨hdelivered.length_eq, fun {d e} hde => ?_⟩, hordered⟩
  obtain ⟨hd, he⟩ := List.of_mem_zip hde
  have hr := hcalls i e.1 e.2 ((hsub e.1).subset (mem_entriesOf he))
  exact hr.readRequest_eq P.client_sender ((List.forall₂_iff_zip.mp hdelivered).2 hde)
    (hc.bounded.dispatched d hd)

omit [DecidableEq ι] in
theorem exists_request (hcalls : ∀ i k, ∀ r ∈ calls i k, r.Fits P.server) {c : Connection κ}
    (hc : Requests P (calls i) c) {d : ProtocolHeader × List UInt8}
    (hd : d ∈ c.receiver.dispatched) :
    ∃ r, r.Fits P.server ∧ readRequest cfg d = some r := by
  obtain ⟨sent, hread, hsub, -, -⟩ := exists_sent hcalls hc
  obtain ⟨n, hn, rfl⟩ := List.getElem_of_mem hd
  have hn' : n < sent.length := hread.length_eq ▸ hn
  have hmem := (hsub _).subset (mem_entriesOf (List.getElem_mem hn'))
  exact ⟨_, hcalls i _ _ hmem, hread.get hn hn'⟩

/-- A request is served, and its response is still to be sent. -/
theorem Inv.served (h : Inv P calls n0 used0 [] s) {c : Connection κ}
    (hc : Requests P (calls i) c) {d : ProtocolHeader × List UInt8}
    (hd : c.receiver.dispatched = (s.requests i).receiver.dispatched ++ [d])
    {r : ClientRequest cfg} (hread : readRequest cfg d = some r) (hr : r.Fits P.server)
    (hallowed : s.store.Allowed s.objects r.call.request) {store : ObjectStore cfg shape}
    {response : ObjectResponse} (hstep : s.store.step rand r.call.request = some (store, response))
    (timestamp : ℕ) :
    Inv P calls n0 used0 [(i, ⟨r, response, s.store.respond timestamp r response⟩)]
      { s with
        requests := Function.update s.requests i c
        store := store
        served := s.served ++ [(i, ⟨r, response, s.store.respond timestamp r response⟩)] } := by
  obtain ⟨log, hlog⟩ := h.represents
  obtain ⟨hright, hrel⟩ := (ObjectStore.simulates cfg shape n0 used0 rand).step _ _ _ _ _
    h.represents hallowed hstep
  have hanswers : ∃ result, response.result = some result ∧
      Answers P r (s.store.respond timestamp r response) result := hlog.answers hr hallowed hstep
  refine ⟨?_, h.responses, fun j => ?_, ?_, ?_, ?_, fun j => ?_⟩
  · exact (Function.forall_update_iff _ fun j c => Requests P (calls j) c).mpr
      ⟨hc, fun j _ => h.requests j⟩
  · rw [entriesOf_append]
    by_cases hj : j = i
    · subst hj
      simp only [Function.update_self, hd, entriesOf_cons_self, entriesOf_nil]
      exact List.rel_append (h.arrived j) (.cons hread .nil)
    · simp only [Function.update_of_ne hj, entriesOf_cons_of_ne (Ne.symm hj), entriesOf_nil,
        List.append_nil]
      exact h.arrived j
  · rw [objects_of_served (s := s) rfl]
    exact hrel
  · rw [history_of_served (s := s) rfl]
    exact Spec.Explains.append.mpr ⟨h.explained, hright, trivial⟩
  · intro e he
    rcases List.mem_append.mp he with he | he
    · exact h.right e he
    · obtain rfl := List.mem_singleton.mp he
      exact hanswers
  · have hcomplete := h.complete j
    rw [List.append_nil] at hcomplete
    rw [entriesOf_append, entriesOf_append, ← List.append_assoc]
    exact hcomplete.append_right _

/-- The handler of a request sends the response, or lets it wait. -/
theorem Inv.serve (h : Inv P calls n0 used0 [] s) {c : Connection κ}
    (hc : Requests P (calls i) c) {d : ProtocolHeader × List UInt8}
    (hd : c.receiver.dispatched = (s.requests i).receiver.dispatched ++ [d])
    {r : ClientRequest cfg} (hread : readRequest cfg d = some r) (hr : r.Fits P.server)
    (hallowed : s.store.Allowed s.objects r.call.request) {timestamp : ℕ}
    (hserve : { s with requests := Function.update s.requests i c }.serve rand i w timestamp r =
      some s') : Inv P calls n0 used0 [] s' := by
  obtain ⟨⟨store, response⟩, hstep, rfl⟩ := Option.map_eq_some_iff.mp hserve
  have hserved := h.served hc hd hread hr hallowed hstep timestamp
  dsimp only
  split_ifs
  · exact hserved.wait
  · obtain ⟨result, -, hanswers⟩ := hserved.right (i, _)
      (List.mem_append_right _ List.mem_cons_self)
    exact hserved.answer hanswers.fits w

theorem Inv.request (h : Inv P calls n0 used0 [] s)
    (hcalls : ∀ i k, ∀ r ∈ calls i k, r.Fits P.server) {a : ConnectionAction κ} {timestamp : ℕ}
    (hallowed : s.AllowedBy P ObjectStore.Allowed (.request i a w timestamp))
    (hstep : s.step P rand (.request i a w timestamp) = some s') :
    Inv P calls n0 used0 [] s' := by
  obtain ⟨c, hc, hrest⟩ := Option.bind_eq_some_iff.mp hstep
  have hinv : Requests P (calls i) c :=
    ⟨(h.requests i).inv.step hallowed.1 hc,
      (h.requests i).inv.bounded_step (h.requests i).bounded hc⟩
  have harrival : s.arrival P i a =
      c.receiver.dispatched[(s.requests i).receiver.dispatched.length]?.bind (readRequest cfg) := by
    rw [arrival, hc, Option.bind_some]
  rcases Connection.dispatched_of_step hc with hsame | ⟨d, hd⟩
  · -- nothing is handed on
    have hnone : s.arrival P i a = none := by
      rw [harrival, hsame, List.getElem?_eq_none le_rfl, Option.bind_none]
    rw [hnone] at hrest
    obtain rfl := Option.some.inj hrest
    refine ⟨?_, h.responses, ?_, h.represents, h.explained, h.right, h.complete⟩
    · exact (Function.forall_update_iff _ fun j c => Requests P (calls j) c).mpr
        ⟨hinv, fun j _ => h.requests j⟩
    · exact (Function.forall_update_iff _ fun j (c : Connection κ) => List.Forall₂
        (fun d e => readRequest cfg d = some e.request) c.receiver.dispatched
        (entriesOf j s.served)).mpr ⟨hsame ▸ h.arrived i, fun j _ => h.arrived j⟩
  · obtain ⟨r, hr, hread⟩ := exists_request hcalls hinv
      (hd ▸ List.mem_append_right _ List.mem_cons_self)
    have hsome : s.arrival P i a = some r := by
      rw [harrival, hd, List.getElem?_concat_length, Option.bind_some, hread]
    rw [hsome] at hrest
    exact h.serve hinv hd hread hr (hallowed.2 r hsome) hrest

theorem Inv.response (h : Inv P calls n0 used0 [] s) {a : ConnectionAction ω}
    (hallowed : (s.responses i).Allowed a) (hstep : s.step P rand (.response i a) = some s') :
    Inv P calls n0 used0 [] s' := by
  obtain ⟨c, hc, rfl⟩ := Option.map_eq_some_iff.mp hstep
  have hinv : Responses P (s.answered i) c := ⟨(h.responses i).inv.step hallowed hc,
    (h.responses i).inv.bounded_step (h.responses i).bounded hc⟩
  refine ⟨h.requests, ?_, h.arrived, h.represents, h.explained, h.right, h.complete⟩
  exact (Function.forall_update_iff _ fun j c => Responses P (s.answered j) c).mpr
    ⟨hinv, fun j _ => h.responses j⟩

/-- The client reads what was done for a request that was served. -/
theorem Inv.right_of_mem (h : Inv P calls n0 used0 extra s) (he : e ∈ entriesOf i s.served) :
    ∃ result, e.response.result = some result ∧ Answers P e.request e.message result := by
  obtain ⟨x, hx, rfl⟩ := List.mem_map.mp he
  exact h.right x (List.mem_filter.mp hx).1

/-- A response that waits belongs to a request that was served. -/
theorem Inv.mem_served (h : Inv P calls n0 used0 [] s) {e : ι × Served cfg} (he : e ∈ s.waiting) :
    e.2 ∈ entriesOf e.1 s.served := by
  refine (h.complete e.1).subset (List.mem_append_right _ ?_)
  rw [List.append_nil]
  exact mem_entriesOf he

theorem Inv.acknowledged (h : Inv P calls n0 used0 [] s) {index : ℕ}
    (hstep : s.step P rand (.acknowledged index w) = some s') : Inv P calls n0 used0 [] s' := by
  obtain ⟨e, he, rfl⟩ := Option.map_eq_some_iff.mp hstep
  obtain ⟨result, -, hanswers⟩ := h.right_of_mem (h.mem_served (List.mem_of_getElem? he))
  have hextra :
      Inv P calls n0 used0 [(e.1, e.2)] { s with waiting := s.waiting.eraseIdx index } := by
    refine ⟨h.requests, h.responses, h.arrived, h.represents, h.explained, h.right, fun j => ?_⟩
    refine List.Perm.trans (List.Perm.append_left _ (entriesOf_perm ?_ j)) (h.complete j)
    rw [List.append_nil]
    exact List.perm_append_singleton e _ |>.trans (perm_eraseIdx_of_getElem? he).symm
  exact hextra.answer hanswers.fits w

theorem Inv.sealAll (h : Inv P calls n0 used0 [] s)
    (hstep : s.step P rand .sealAll = some s') : Inv P calls n0 used0 [] s' := by
  obtain ⟨⟨store, response⟩, hseal, rfl⟩ := Option.map_eq_some_iff.mp hstep
  have hrel := ((ObjectStore.simulates cfg shape n0 used0 rand).step _ _ .sealAll _ _
    h.represents trivial hseal).2
  exact ⟨h.requests, h.responses, h.arrived, hrel, h.explained, h.right, h.complete⟩

theorem Inv.step (h : Inv P calls n0 used0 [] s)
    (hcalls : ∀ i k, ∀ r ∈ calls i k, r.Fits P.server) {a : ServerAction ι κ ω}
    (hallowed : s.AllowedBy P ObjectStore.Allowed a) (hstep : s.step P rand a = some s') :
    Inv P calls n0 used0 [] s' := by
  cases a with
  | request i a w timestamp => exact h.request hcalls hallowed hstep
  | response i a => exact h.response hallowed hstep
  | acknowledged index w => exact h.acknowledged hstep
  | sealAll => exact h.sealAll hstep

theorem Inv.start (hcalls : ∀ i k, ∀ r ∈ calls i k, r.Fits P.server) {server : DataServer cfg}
    (hserver : server.Inv n0 used0 []) (startAddress : ℕ) :
    Inv P calls n0 used0 [] (start (ω := ω) calls (.start shape server startAddress)) where
  requests i :=
    ⟨.start (requests_fit hcalls i), ⟨Nat.zero_le _, fun _ hd => absurd hd List.not_mem_nil⟩⟩
  responses _ := ⟨.start fun _ _ hm => absurd hm List.not_mem_nil,
    ⟨Nat.zero_le _, fun _ hd => absurd hd List.not_mem_nil⟩⟩
  arrived _ := .nil
  represents := ⟨[], ObjectStore.Represents.start hserver startAddress⟩
  explained := trivial
  right _ he := absurd he List.not_mem_nil
  complete _ := .nil

end Invariant

/-! ## Runs -/

section Runs

variable [DecidableEq ι] [DecidableEq κ] [DecidableEq ω] {P : Parties cfg} {rand : ℕ → ℕ}
  {calls : ι → κ → List (ClientRequest cfg)} {n0 : ℕ} {used0 : List ℕ}
  {s s' : ConnectedServer cfg shape ι κ ω} {i : ι} {ops : List (ServerAction ι κ ω)}

/-- The requests of a client that were served, with the threads that have sent them. -/
structure InOrder (P : Parties cfg) (calls : κ → List (ClientRequest cfg)) (c : Connection κ)
    (served : List (Served cfg)) (sent : List (κ × ClientRequest cfg)) : Prop where
  requests : sent.map Prod.snd = served.map Served.request
  sublist : ∀ k, (entriesOf k sent).Sublist (calls k)
  complete : c.failed = [] → ∀ k, entriesOf k sent <+: calls k
  all : c.Settled P.client → ∀ k, entriesOf k sent = calls k

theorem Inv.inOrder (h : Inv P calls n0 used0 [] s)
    (hcalls : ∀ i k, ∀ r ∈ calls i k, r.Fits P.server) (i : ι) :
    ∃ sent, InOrder P (calls i) (s.requests i) (entriesOf i s.served) sent := by
  obtain ⟨sent, hread, hsub, hfirst, hall⟩ :=
    exists_sent hcalls (h.requests i)
  refine ⟨sent, List.map_injective_iff.mpr (Option.some_injective _) ?_, hsub, hfirst, hall⟩
  have hsent : (s.requests i).receiver.dispatched.map (readRequest cfg) =
      (sent.map Prod.snd).map some := by
    rw [List.map_map, ← List.forall₂_eq_eq_eq, List.forall₂_map_left_iff,
      List.forall₂_map_right_iff]
    exact hread
  have hserved : (s.requests i).receiver.dispatched.map (readRequest cfg) =
      ((entriesOf i s.served).map Served.request).map some := by
    rw [List.map_map, ← List.forall₂_eq_eq_eq, List.forall₂_map_left_iff,
      List.forall₂_map_right_iff]
    exact h.arrived i
  rw [← hsent, hserved]

instance (Req : ObjectStore cfg shape → ObjectMap cfg → ObjectRequest cfg → Prop)
    [∀ s t req, Decidable (Req s t req)] (s : ConnectedServer cfg shape ι κ ω) :
    DecidablePred (s.AllowedBy P Req) := fun a =>
  match a with
  | .request _ _ _ _ => inferInstanceAs (Decidable (_ ∧ _))
  | .response i a => inferInstanceAs (Decidable ((s.responses i).Allowed a))
  | .acknowledged _ _ => .isTrue trivial
  | .sealAll => .isTrue trivial

end Runs

/-! ### An example -/

section Example

/-- A request of `n` bytes, which is read in two pieces. -/
def sendRequest (client : Bool) (n timestamp : ℕ) : List (ServerAction Bool Unit Unit) :=
  [.lock (), .write (.bytes n), .read (.bytes 9), .read .again, .process, .read (.bytes 7),
    .process, .read (.bytes (n - 16)), .process, .process].map fun a =>
      .request client a () timestamp

def sendResponse (client : Bool) (n : ℕ) : List (ServerAction Bool Unit Unit) :=
  [.lock (), .write (.bytes n), .read (.bytes n), .read .again, .process, .process].map
    (.response client)

/-- The update is answered last. -/
def sampleActions : List (ServerAction Bool Unit Unit) :=
  sendRequest false 24 7 ++ sendResponse false 38 ++ sendRequest true 26 0 ++
    sendRequest false 19 0 ++ sendResponse false 24 ++ .acknowledged 0 () :: sendResponse true 25

end Example

end ConnectedServer

end MemEC.Server
