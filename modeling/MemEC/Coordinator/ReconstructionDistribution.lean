import MemEC.Common.MultiFrame
import MemEC.Coordinator.ReconstructionSend

/-!
# Who reconstructs what

The stripes of a lost chunk are divided among the servers of the list that are
ready, the keys of the objects that are not sealed among the parity servers of
them; the backup server gets neither. A message ends at the share of a server,
at 3000 stripes or at the end of the buffer, and the servers are gone over until
a round in which no message was cut short.

Here the servers that are ready do not change, and what is in the messages is
what their receivers find in them.
-/

namespace MemEC.Coordinator

open MemEC.Lib MemEC.Common

variable {α σ : Type}

/-! ## The send loops -/

/-- The `for` loop over the servers, with the server that each message goes to. Those that are
passed over are `none`. -/
def sendPassTo (generate : List α → List α × List α × Bool) :
    List (Option σ) → List α → List (σ × List α) × List α × Bool
  | [], it => ([], it, true)
  | none :: servers, it => if it.isEmpty then ([], it, true) else sendPassTo generate servers it
  | some s :: servers, it =>
    if it.isEmpty then ([], it, true)
    else
      let (items, it, isCompleted) := generate it
      let (messages, it, isAllCompleted) := sendPassTo generate servers it
      ((s, items) :: messages, it, isCompleted && isAllCompleted)

/-- The `do` loop around it. -/
def sendLoopTo (generate : List α → List α × List α × Bool) (servers : List (Option σ)) :
    ℕ → List α → Option (List (σ × List α))
  | 0, _ => none
  | passes + 1, it =>
    let (messages, it, isAllCompleted) := sendPassTo generate servers it
    if isAllCompleted then some messages
    else (sendLoopTo generate servers passes it).map (messages ++ ·)

/-- A `ServerSocket`, as far as the loops look at it. -/
structure ServerSocket where
  sockfd : ℕ
  ready : Bool
deriving DecidableEq

/-- A list with a lost chunk. -/
structure LostList where
  listId : ℕ
  chunkId : ℕ
  dataChunkCount : ℕ
  /-- `sockets[ listId ]`. -/
  sockets : List (Option ServerSocket)
  backupServerSocket : ServerSocket
  stripeIds : List ℕ
  unsealedKeys : List Key
  listId_lt : listId < 2 ^ 32
  chunkId_lt : chunkId < 2 ^ 32
  stripeIds_lt : ∀ stripeId ∈ stripeIds, stripeId < 2 ^ 32
  keys_lt : ∀ key ∈ unsealedKeys, key.size < 2 ^ 8

namespace LostList

variable (t : LostList)

/-- `s && s->ready() && s != backupServerSocket`. -/
def surviving (s : ServerSocket) : Bool := s.ready && s != t.backupServerSocket

/-- The servers that stripes are sent to. -/
def servers : List (Option ServerSocket) := t.sockets.map (Option.filter t.surviving)

/-- The servers that keys are sent to. -/
def parityServers : List (Option ServerSocket) :=
  (t.sockets.drop t.dataChunkCount).map (Option.filter t.surviving)

def numSurvivingServers : ℕ := t.servers.countP Option.isSome

def numStripePerServer : ℕ :=
  let q := t.stripeIds.length / t.numSurvivingServers
  if 0 < t.stripeIds.length % t.numSurvivingServers then q + 1 else q

/-- A RECONSTRUCTION request. -/
def reconstructionMessage (p : Protocol) (e : Protocol.Envelope) (stripeIds : List ℕ) :
    List UInt8 :=
  p.frame e (beBytes 4 t.listId ++ beBytes 4 t.chunkId ++ beBytes 4 stripeIds.length ++
    stripeIds.flatMap (beBytes 4))

/-- A RECONSTRUCTION_UNSEALED request. -/
def reconstructionUnsealedMessage (p : Protocol) (e : Protocol.Envelope) (keys : List Key) :
    List UInt8 :=
  p.batchMessage e keys.length (keys.flatMap keyRecord)

/-- The messages of the first loop. -/
def sendStripes (p : Protocol) (e : Protocol.Envelope) (passes : ℕ) :
    Option (List (ServerSocket × List UInt8)) :=
  (sendLoopTo (generateReconstructionHeader p.bufferSize t.numStripePerServer) t.servers passes
    t.stripeIds).map (List.map fun m => (m.1, t.reconstructionMessage p e m.2))

/-- The messages of the second loop. -/
def sendKeys (p : Protocol) (e : Protocol.Envelope) (passes : ℕ) :
    Option (List (ServerSocket × List UInt8)) :=
  (sendLoopTo (generateBatchKeyHeader p.bufferSize) t.parityServers passes t.unsealedKeys).map
    (List.map fun m => (m.1, reconstructionUnsealedMessage p e m.2))

end LostList

/-- The stripes that a server finds in a request. -/
def readStripes (q : Protocol) (r : Input) : Option (List ℕ) := do
  let input ← q.payload r
  let header ← parseReconstructionHeader input true 0
  return readWords input.bytes header.stripeIds header.numStripes

/-- The items arrive: the loop ends, every message goes to a surviving server, and what is found in
the messages is the items, each once. -/
def Distributed {β : Type} (send : ℕ → Option (List (ServerSocket × List UInt8)))
    (surviving : ServerSocket → Prop) (read : Input → Option (List β)) (items : List β) : Prop :=
  ∃ passes msgs, send passes = some msgs ∧ (∀ m ∈ msgs, surviving m.1) ∧
    ∀ rs, List.Forall₂ Received (msgs.map Prod.snd) rs →
      ∃ reads, List.Forall₂ (fun r l => read r = some l) rs reads ∧ reads.flatten.Perm items

/-! ## What the loops do -/

section Loops

variable {generate : List α → List α × List α × Bool} {servers : List (Option σ)} {it : List α}

/-- The messages are those of the loop without servers. -/
theorem sendPassTo_eq (servers : List (Option σ)) (it : List α) :
    ((sendPassTo generate servers it).1.map Prod.snd, (sendPassTo generate servers it).2) =
      sendPass generate (servers.map Option.isSome) it := by
  induction servers generalizing it with
  | nil => rfl
  | cons server servers ih =>
    rw [List.map_cons, sendPass]
    cases server with
    | none =>
      rw [sendPassTo, Option.isSome_none, if_neg Bool.false_ne_true]
      split_ifs
      · rfl
      · exact ih it
    | some s =>
      rw [sendPassTo, Option.isSome_some, if_pos rfl]
      split_ifs
      · rfl
      · dsimp only
        rw [← ih (generate it).2.1]
        rfl

theorem sendPassTo_flatten (happend : ∀ it, (generate it).1 ++ (generate it).2.1 = it)
    (servers : List (Option σ)) (it : List α) :
    ((sendPassTo generate servers it).1.map Prod.snd).flatten ++
      (sendPassTo generate servers it).2.1 = it := by
  have hflatten := sendPass_flatten happend (servers.map Option.isSome) it
  rwa [← sendPassTo_eq] at hflatten

/-- What a generator returns when it says that it is done: the rest, or a whole share. -/
def FillsShare (generate : List α → List α × List α × Bool) (share : ℕ) : Prop :=
  ∀ it, (generate it).2.2 = true → (generate it).2.1 = [] ∨ share ≤ (generate it).1.length

/-- In a round without a message that was cut short, every server got its share, or nothing is
left. -/
theorem sendPassTo_completed {share : ℕ} (hshare : FillsShare generate share)
    (servers : List (Option σ)) {it : List α}
    (h : (sendPassTo generate servers it).2.2 = true) :
    (sendPassTo generate servers it).2.1 = [] ∨ servers.countP Option.isSome * share ≤
      ((sendPassTo generate servers it).1.map Prod.snd).flatten.length := by
  induction servers generalizing it with
  | nil => exact .inr (by simp)
  | cons server servers ih =>
    cases server with
    | none =>
      rw [sendPassTo] at h ⊢
      rw [List.countP_cons_of_neg (by simp)]
      split_ifs at h ⊢ with hit
      · exact .inl (List.isEmpty_iff.mp hit)
      · exact ih h
    | some s =>
      rw [sendPassTo] at h ⊢
      rw [List.countP_cons_of_pos (by simp), Nat.succ_mul]
      split_ifs at h ⊢ with hit
      · exact .inl (List.isEmpty_iff.mp hit)
      · dsimp only at h ⊢
        rw [Bool.and_eq_true] at h
        rw [List.map_cons, List.flatten_cons, List.length_append]
        rcases hshare it h.1 with hnil | hle
        · have hdone : (sendPassTo generate servers []).2.1 = [] := by
            cases servers with
            | nil => rfl
            | cons server servers => cases server <;> rfl
          exact .inl (hnil ▸ hdone)
        · rcases ih h.2 with hnil | hrest
          · exact .inl hnil
          · exact .inr (by dsimp only; omega)

/-- A pass takes something as long as there is something left and a server to send it to. -/
theorem length_sendPassTo_lt {P : α → Prop}
    (happend : ∀ it, (generate it).1 ++ (generate it).2.1 = it) (hfits : FitsAll generate P)
    (hserver : ∃ s, some s ∈ servers) (hne : it ≠ []) (hit : ∀ x ∈ it, P x) :
    (sendPassTo generate servers it).2.1.length < it.length := by
  induction servers with
  | nil => exact absurd hserver.choose_spec List.not_mem_nil
  | cons server servers ih =>
    have hempty : ¬it.isEmpty = true := fun h => hne (List.isEmpty_iff.mp h)
    cases server with
    | none =>
      rw [sendPassTo, if_neg hempty]
      obtain ⟨s, hs⟩ := hserver
      rcases List.mem_cons.mp hs with hnone | hs
      · exact absurd hnone (Option.some_ne_none s)
      · exact ih ⟨s, hs⟩
    | some s =>
      have hpos := List.length_pos_iff.mpr (hfits it hne hit)
      have hlength := congrArg List.length (happend it)
      have hrest := congrArg List.length
        (sendPassTo_flatten happend servers (generate it).2.1)
      rw [List.length_append] at hlength hrest
      rw [sendPassTo, if_neg hempty]
      change (sendPassTo generate servers (generate it).2.1).2.1.length < it.length
      omega

theorem sendPassTo_forall {Q : List α → Prop} (hQ : ∀ it, Q (generate it).1)
    (servers : List (Option σ)) (it : List α) :
    ∀ m ∈ (sendPassTo generate servers it).1, some m.1 ∈ servers ∧ Q m.2 := by
  induction servers generalizing it with
  | nil => exact fun m hm => absurd hm List.not_mem_nil
  | cons server servers ih =>
    intro m hm
    cases server with
    | none =>
      rw [sendPassTo] at hm
      split_ifs at hm
      · exact absurd hm List.not_mem_nil
      · exact ⟨List.mem_cons_of_mem _ (ih it m hm).1, (ih it m hm).2⟩
    | some s =>
      rw [sendPassTo] at hm
      split_ifs at hm
      · exact absurd hm List.not_mem_nil
      · rcases List.mem_cons.mp hm with rfl | hm
        · exact ⟨List.mem_cons_self, hQ it⟩
        · exact ⟨List.mem_cons_of_mem _ (ih _ m hm).1, (ih _ m hm).2⟩

variable {passes : ℕ} {msgs : List (σ × List α)}

theorem sendLoopTo_forall {Q : List α → Prop} (hQ : ∀ it, Q (generate it).1)
    (h : sendLoopTo generate servers passes it = some msgs) :
    ∀ m ∈ msgs, some m.1 ∈ servers ∧ Q m.2 := by
  induction passes generalizing it msgs with
  | zero => exact absurd h (by simp [sendLoopTo])
  | succ passes ih =>
    have hpass := sendPassTo_forall hQ servers it
    rw [sendLoopTo] at h
    dsimp only at h
    split_ifs at h
    · obtain rfl := Option.some.inj h
      exact hpass
    · obtain ⟨rest, hrest, rfl⟩ := Option.map_eq_some_iff.mp h
      intro m hm
      rcases List.mem_append.mp hm with hm | hm
      · exact hpass m hm
      · exact ih hrest m hm

/-- When the loop ends, everything was sent, if the shares are enough for it. -/
theorem sendLoopTo_flatten {share : ℕ}
    (happend : ∀ it, (generate it).1 ++ (generate it).2.1 = it)
    (hshare : FillsShare generate share)
    (hlength : it.length ≤ servers.countP Option.isSome * share)
    (h : sendLoopTo generate servers passes it = some msgs) :
    (msgs.map Prod.snd).flatten = it := by
  induction passes generalizing it msgs with
  | zero => exact absurd h (by simp [sendLoopTo])
  | succ passes ih =>
    have hpass := sendPassTo_flatten happend servers it
    have hsum := congrArg List.length hpass
    rw [List.length_append] at hsum
    rw [sendLoopTo] at h
    dsimp only at h
    split_ifs at h with hall
    · obtain rfl := Option.some.inj h
      have hnil : (sendPassTo generate servers it).2.1 = [] := by
        rcases sendPassTo_completed hshare servers hall with hnil | hle
        · exact hnil
        · exact List.eq_nil_of_length_eq_zero (by omega)
      rwa [hnil, List.append_nil] at hpass
    · obtain ⟨rest, hrest, rfl⟩ := Option.map_eq_some_iff.mp h
      have hle : (sendPassTo generate servers it).2.1.length ≤
          servers.countP Option.isSome * share := by omega
      rw [List.map_append, List.flatten_append, ih hle hrest, hpass]

/-- The loop ends if every item fits into a message. -/
theorem exists_sendLoopTo {P : α → Prop}
    (happend : ∀ it, (generate it).1 ++ (generate it).2.1 = it) (hfits : FitsAll generate P)
    (hserver : it ≠ [] → ∃ s, some s ∈ servers) (hit : ∀ x ∈ it, P x) (hpasses : it.length < passes) :
    ∃ msgs, sendLoopTo generate servers passes it = some msgs := by
  induction passes generalizing it with
  | zero => exact absurd hpasses (Nat.not_lt_zero _)
  | succ passes ih =>
    rw [sendLoopTo]
    dsimp only
    split_ifs with hall
    · exact ⟨_, rfl⟩
    · have hne : it ≠ [] := by
        rintro rfl
        refine hall ?_
        cases servers with
        | nil => rfl
        | cons server servers => cases server <;> rfl
      have hpass := sendPassTo_flatten happend servers it
      have hlt := length_sendPassTo_lt happend hfits (hserver hne) hne hit
      obtain ⟨msgs, hmsgs⟩ := ih (fun _ => hserver hne)
        (fun x hx => hit x (hpass ▸ List.mem_append_right _ hx)) (by omega)
      exact ⟨_, by rw [hmsgs, Option.map_some]⟩

end Loops

/-! ## The generators -/

section Generators

variable {more : ℕ → Bool} {fits : ℕ → ℕ → Bool} {size : α → ℕ} {count bytes : ℕ} {it : List α}

/-- A message that is not cut short ends with its share or with the iterator. -/
theorem fill_completed (h : (fill more fits size count bytes it).2.2 = true) :
    (fill more fits size count bytes it).2.1 = [] ∨
      more (count + (fill more fits size count bytes it).1.length) = false := by
  induction it generalizing count bytes with
  | nil => exact .inl rfl
  | cons x it ih =>
    unfold fill at h ⊢
    split_ifs at h ⊢ with hmore hfits
    · have hnext := ih h
      rw [Nat.add_right_comm, Nat.add_assoc] at hnext
      exact hnext
    · rw [Bool.not_eq_true] at hmore
      exact .inr hmore

/-- The last item of a message fitted. -/
theorem fill_last (h : (fill more fits size count bytes it).1 ≠ []) :
    fits (count + ((fill more fits size count bytes it).1.length - 1))
      (bytes + ((fill more fits size count bytes it).1.map size).sum) = true := by
  induction it generalizing count bytes with
  | nil => exact absurd rfl h
  | cons x it ih =>
    unfold fill at h ⊢
    split_ifs at h ⊢ with hmore hfits
    · dsimp only
      rw [List.length_cons, Nat.add_sub_cancel, List.map_cons, List.sum_cons, ← Nat.add_assoc]
      by_cases hnil : (fill more fits size (count + 1) (bytes + size x) it).1 = []
      · rw [hnil]
        exact hfits
      · have hlast := ih hnil
        have hpos := List.length_pos_iff.mpr hnil
        rwa [Nat.add_assoc, Nat.add_sub_cancel' hpos] at hlast
    · exact absurd rfl h
    · exact absurd rfl h

/-- Without a share, a message takes what fits. -/
theorem fill_eq_fit (bufferSize : ℕ) (size : α → ℕ) (count bytes : ℕ) (it : List α) :
    fill (fun _ => true) (fun _ bytes => bytes ≤ bufferSize) size count bytes it =
      (it.take (fit bufferSize size bytes it), it.drop (fit bufferSize size bytes it),
        (it.drop (fit bufferSize size bytes it)).isEmpty) := by
  induction it generalizing count bytes with
  | nil => rfl
  | cons x it ih =>
    rw [fill, if_pos rfl]
    simp only [decide_eq_true_eq]
    by_cases hfit : bytes + size x ≤ bufferSize
    · rw [if_pos hfit, ih, fit_cons_of_le hfit]
      rfl
    · rw [if_neg hfit, fit_cons_of_lt (Nat.not_le.mp hfit)]
      rfl

/-- The message for these keys is the one that is generated byte for byte. -/
theorem generateBatchKeyHeader_eq (p : Protocol) (e : Protocol.Envelope) (it : List Key) :
    let r := generateBatchKeyHeader p.bufferSize it
    p.generateBatchKeyHeader e it =
      ⟨LostList.reconstructionUnsealedMessage p e r.1, r.1.length, r.2.1⟩ := by
  have hsize : (fun key => (keyRecord key).length) = fun key => protoKeySize + key.size :=
    funext length_keyRecord
  have hwritten : writeRecords (fun key => some (keyRecord key)) p.bufferSize 20 (it.map id) =
      ((it.take (fit p.bufferSize (fun key => (keyRecord key).length) 20 it)).map keyRecord,
        (it.drop (fit p.bufferSize (fun key => (keyRecord key).length) 20 it)).map id) :=
    writeRecords_eq (fun _ _ => rfl) _ _
  rw [List.map_id, List.map_id, hsize] at hwritten
  dsimp only
  rw [generateBatchKeyHeader, fill_eq_fit, Protocol.generateBatchKeyHeader,
    Protocol.generateBatch, hwritten]
  dsimp only
  rw [List.length_map, LostList.reconstructionUnsealedMessage, List.flatMap_def]
  rfl

end Generators

/-! ## Arrival -/

namespace LostList

variable {t : LostList} {p q : Protocol} {e : Protocol.Envelope}

/-- The server is in the list, ready, and not the backup server. -/
def Survives (t : LostList) (s : ServerSocket) : Prop := some s ∈ t.sockets ∧ t.surviving s = true

theorem survives_of_mem {l : List (Option ServerSocket)} (hl : l ⊆ t.sockets) {s : ServerSocket}
    (h : some s ∈ l.map (Option.filter t.surviving)) : t.Survives s := by
  obtain ⟨socket, hsocket, hfilter⟩ := List.mem_map.mp h
  obtain ⟨rfl, hs⟩ := Option.filter_eq_some_iff.mp hfilter
  exact ⟨hl hsocket, hs⟩

/-- What is found in messages to surviving servers, each of which is read as what is in it. -/
theorem exists_reads_of_messages {ι β : Type} {msgs : List (ServerSocket × List ι)}
    (encode : List ι → List UInt8) {read : Input → Option (List β)} {g : ι → β}
    (hread : ∀ m ∈ msgs, ∀ r, Received (encode m.2) r → read r = some (m.2.map g))
    {rs : List Input}
    (hrs : List.Forall₂ Received ((msgs.map fun m => (m.1, encode m.2)).map Prod.snd) rs) :
    ∃ reads, List.Forall₂ (fun r l => read r = some l) rs reads ∧
      reads.flatten.Perm ((msgs.map Prod.snd).flatten.map g) := by
  have hmsgs : List.Forall₂ (fun c msg => c ∈ msgs.map Prod.snd ∧ msg = encode c)
      (msgs.map Prod.snd) ((msgs.map fun m => (m.1, encode m.2)).map Prod.snd) := by
    rw [List.map_map, List.forall₂_map_left_iff, List.forall₂_map_right_iff, List.forall₂_same]
    exact fun m hm => ⟨List.mem_map_of_mem hm, rfl⟩
  refine exists_reads hmsgs hrs ?_
  rintro c msg r ⟨hc, rfl⟩ hr
  obtain ⟨m, hm, rfl⟩ := List.mem_map.mp hc
  exact ⟨_, hread m hm r hr, .refl _⟩

section Stripes

theorem numSurvivingServers_pos (h : ∃ s, some s ∈ t.servers) : 0 < t.numSurvivingServers := by
  obtain ⟨s, hs⟩ := h
  exact List.countP_pos_iff.mpr ⟨some s, hs, rfl⟩

/-- The shares are enough for all stripes. -/
theorem length_stripeIds_le (h : 0 < t.numSurvivingServers) :
    t.stripeIds.length ≤ t.numSurvivingServers * t.numStripePerServer := by
  have hdiv := Nat.div_add_mod t.stripeIds.length t.numSurvivingServers
  unfold numStripePerServer
  dsimp only
  split_ifs with hmod
  · have hlt := Nat.mod_lt t.stripeIds.length h
    rw [Nat.mul_succ]
    omega
  · omega

theorem generateStripes_append (bufferSize share : ℕ) (it : List ℕ) :
    (generateReconstructionHeader bufferSize share it).1 ++
      (generateReconstructionHeader bufferSize share it).2.1 = it := fill_append _ _ _ _ _ _

theorem generateStripes_fillsShare (bufferSize share : ℕ) :
    FillsShare (generateReconstructionHeader bufferSize share) share := by
  intro it h
  rcases fill_completed h with hnil | hmore
  · exact .inl hnil
  · rw [Nat.zero_add, decide_eq_false_iff_not, Nat.not_lt] at hmore
    exact .inr hmore

/-- The stripes of a message: at most 3000, and no more than the buffer has room for. -/
def FitsMessage (bufferSize : ℕ) (stripeIds : List ℕ) : Prop :=
  stripeIds.length ≤ 3000 ∧ (stripeIds ≠ [] → 28 + 4 * stripeIds.length ≤ bufferSize)

theorem generateStripes_fits (bufferSize share : ℕ) (it : List ℕ) :
    FitsMessage bufferSize (generateReconstructionHeader bufferSize share it).1 := by
  by_cases hnil : (generateReconstructionHeader bufferSize share it).1 = []
  · rw [hnil]
    exact ⟨Nat.zero_le _, fun h => absurd rfl h⟩
  · have hlast := of_decide_eq_true (fill_last hnil)
    have hpos := List.length_pos_iff.mpr hnil
    rw [List.map_const', List.sum_replicate, smul_eq_mul] at hlast
    change 28 + (generateReconstructionHeader bufferSize share it).1.length * 4 ≤ bufferSize ∧
      0 + ((generateReconstructionHeader bufferSize share it).1.length - 1) < 3000 at hlast
    exact ⟨by omega, fun _ => by omega⟩

theorem readStripes_eq {stripeIds : List ℕ} {r : Input} (he : e.Fits q)
    (hids : ∀ stripeId ∈ stripeIds, stripeId < 2 ^ 32) (hlength : stripeIds.length ≤ 3000)
    (hr : Received (t.reconstructionMessage p e stripeIds) r) :
    readStripes q r = some stripeIds := by
  have hflat : (stripeIds.flatMap (beBytes 4)).length = 4 * stripeIds.length := by
    rw [List.length_flatMap, List.map_congr_left fun _ _ => length_beBytes 4 _, List.map_const',
      List.sum_replicate, smul_eq_mul, Nat.mul_comm]
  have hlen : (beBytes 4 t.listId ++ beBytes 4 t.chunkId ++ beBytes 4 stripeIds.length ++
      stripeIds.flatMap (beBytes 4)).length = 12 + 4 * stripeIds.length := by
    simp only [List.length_append, length_beBytes, hflat]
  obtain ⟨hpayload, hbytes⟩ := payload_of_received hr he (by omega) (by omega)
  rw [hlen] at hpayload
  simp only [Memory.holds_append, List.length_append, length_beBytes, Nat.zero_add] at hbytes
  obtain ⟨⟨⟨-, -⟩, hcount⟩, hwords⟩ := hbytes
  have hread := readWords_eq hwords hids
  rw [readStripes, hpayload, Option.bind_eq_bind, Option.bind_some, parseReconstructionHeader,
    Input.rest_eq (by dsimp only; omega) (Nat.zero_le _), if_neg (by dsimp only; omega)]
  dsimp only
  rw [read4Bytes_eq hcount (by omega), if_pos rfl, u32_eq (by omega), if_neg (by omega)]
  exact congrArg some hread

/-- The stripes arrive exactly if the buffer has room for one. -/
theorem stripes_distributed_iff (he : e.Fits q) (hserver : ∃ s, some s ∈ t.servers) :
    Distributed (t.sendStripes p e) t.Survives (readStripes q) t.stripeIds ↔
      (t.stripeIds ≠ [] → 32 ≤ p.bufferSize) := by
  set generate := generateReconstructionHeader p.bufferSize t.numStripePerServer with hgenerate
  have happend : ∀ it, (generate it).1 ++ (generate it).2.1 = it :=
    generateStripes_append p.bufferSize t.numStripePerServer
  have hflatten : ∀ {passes msgs}, sendLoopTo generate t.servers passes t.stripeIds = some msgs →
      (msgs.map Prod.snd).flatten = t.stripeIds := fun h =>
    sendLoopTo_flatten happend (generateStripes_fillsShare _ _)
      (length_stripeIds_le (numSurvivingServers_pos hserver)) h
  have hmsg : ∀ {passes msgs}, sendLoopTo generate t.servers passes t.stripeIds = some msgs →
      ∀ m ∈ msgs, some m.1 ∈ t.servers ∧ FitsMessage p.bufferSize m.2 := fun h =>
    sendLoopTo_forall (generateStripes_fits p.bufferSize t.numStripePerServer) h
  constructor
  · rintro ⟨passes, _, hsend, -, -⟩ hne
    obtain ⟨msgs, hloop, -⟩ := Option.map_eq_some_iff.mp hsend
    obtain ⟨stripeId, hstripe⟩ := List.exists_mem_of_ne_nil _ hne
    rw [← hflatten hloop] at hstripe
    obtain ⟨ids, hids, hmem⟩ := List.mem_flatten.mp hstripe
    obtain ⟨m, hm, rfl⟩ := List.mem_map.mp hids
    have hfits := (hmsg hloop m hm).2.2 (List.ne_nil_of_mem hmem)
    have hpos := List.length_pos_of_mem hmem
    omega
  · intro hroom
    have hfits : FitsAll generate (· ∈ t.stripeIds) := by
      intro it hit hmem
      obtain ⟨stripeId, hin⟩ := List.exists_mem_of_ne_nil it hit
      have hne := List.ne_nil_of_mem (hmem stripeId hin)
      have hshare : 0 < t.numStripePerServer := by
        have hle := length_stripeIds_le (numSurvivingServers_pos hserver)
        have hpos := List.length_pos_iff.mpr hne
        by_contra hzero
        rw [Nat.eq_zero_of_not_pos hzero, Nat.mul_zero] at hle
        omega
      refine fill_ne_nil hit (decide_eq_true hshare) fun _ _ => ?_
      exact decide_eq_true ⟨hroom hne, by norm_num⟩
    obtain ⟨msgs, hloop⟩ := exists_sendLoopTo happend hfits (fun _ => hserver) (fun _ h => h)
      (Nat.lt_succ_self _)
    refine ⟨_, _, Option.map_eq_some_iff.mpr ⟨msgs, hloop, rfl⟩, fun m hm => ?_, fun rs hrs => ?_⟩
    · obtain ⟨m', hm', rfl⟩ := List.mem_map.mp hm
      exact survives_of_mem (List.Subset.refl _) (hmsg hloop m' hm').1
    · have hread : ∀ m ∈ msgs, ∀ r, Received (t.reconstructionMessage p e m.2) r →
          readStripes q r = some (m.2.map id) := fun m hm r hr => by
        rw [List.map_id]
        refine readStripes_eq he (fun stripeId hin => t.stripeIds_lt stripeId ?_)
          (hmsg hloop m hm).2.1 hr
        rw [← hflatten hloop]
        exact List.mem_flatten_of_mem (List.mem_map_of_mem hm) hin
      have hreads := exists_reads_of_messages _ hread hrs
      rwa [List.map_id, hflatten hloop] at hreads

end Stripes

section Keys

theorem generateKeys_append (bufferSize : ℕ) (it : List Key) :
    (generateBatchKeyHeader bufferSize it).1 ++ (generateBatchKeyHeader bufferSize it).2.1 = it :=
  fill_append _ _ _ _ _ _

/-- There is no share of the keys: a message that is not cut short takes all of them. -/
theorem generateKeys_fillsShare (bufferSize share : ℕ) :
    FillsShare (generateBatchKeyHeader bufferSize) share := by
  intro it h
  rcases fill_completed h with hnil | hmore
  · exact .inl hnil
  · exact absurd hmore (by decide)

/-- The keys of a message: no more than the buffer has room for. -/
def FitsBuffer (bufferSize : ℕ) (keys : List Key) : Prop :=
  keys ≠ [] → 20 + (keys.flatMap keyRecord).length ≤ bufferSize

theorem generateKeys_fits (bufferSize : ℕ) (it : List Key) :
    FitsBuffer bufferSize (generateBatchKeyHeader bufferSize it).1 := by
  intro hne
  have hlast := of_decide_eq_true (fill_last hne)
  rw [List.length_flatMap, List.map_congr_left fun key _ => length_keyRecord key]
  exact hlast

theorem generateKeys_fitsAll (bufferSize : ℕ) :
    FitsAll (generateBatchKeyHeader bufferSize) fun key => 21 + key.size ≤ bufferSize := by
  intro it hit hroom
  refine fill_ne_nil hit rfl fun key hkey => decide_eq_true ?_
  have hle := hroom key hkey
  change 20 + (1 + key.size) ≤ bufferSize
  omega

variable {passes : ℕ} {msgs : List (ServerSocket × List Key)}

/-- When the loop ends, all the keys were sent, and each of them fits into the buffer. -/
theorem keys_flatten
    (h : sendLoopTo (generateBatchKeyHeader p.bufferSize) t.parityServers passes t.unsealedKeys =
      some msgs) (hparity : t.unsealedKeys ≠ [] → ∃ s, some s ∈ t.parityServers) :
    (msgs.map Prod.snd).flatten = t.unsealedKeys := by
  refine sendLoopTo_flatten (generateKeys_append _)
    (generateKeys_fillsShare p.bufferSize t.unsealedKeys.length) ?_ h
  rcases eq_or_ne t.unsealedKeys [] with hnil | hne
  · rw [hnil]
    exact Nat.zero_le _
  · obtain ⟨s, hs⟩ := hparity hne
    exact Nat.le_mul_of_pos_left _ (List.countP_pos_iff.mpr ⟨some s, hs, rfl⟩)

theorem keys_read (he : e.Fits q)
    (h : sendLoopTo (generateBatchKeyHeader p.bufferSize) t.parityServers passes t.unsealedKeys =
      some msgs) (hflatten : (msgs.map Prod.snd).flatten = t.unsealedKeys) :
    ∀ m ∈ msgs, ∀ r, Received (reconstructionUnsealedMessage p e m.2) r →
      q.readKeys r = some (m.2.map fun key => key.data.take key.size) := by
  intro m hm r hr
  have hp := p.bufferSize_lt
  have hfits := (sendLoopTo_forall (generateKeys_fits p.bufferSize) h m hm).2
  refine readKeys_eq hr he (fun key hkey => t.keys_lt key ?_) ?_
  · rw [← hflatten]
    exact List.mem_flatten_of_mem (List.mem_map_of_mem hm) hkey
  · rcases eq_or_ne m.2 [] with hnil | hne
    · rw [hnil]
      norm_num
    · have hle := hfits hne
      omega

/-- The keys arrive exactly if none is that of a split and each fits into the buffer. -/
theorem keys_distributed_iff (he : e.Fits q)
    (hparity : t.unsealedKeys ≠ [] → ∃ s, some s ∈ t.parityServers) :
    Distributed (t.sendKeys p e) t.Survives q.readKeys (t.unsealedKeys.map Key.data) ↔
      ∀ key ∈ t.unsealedKeys, key.isLarge = false ∧ 21 + key.size ≤ p.bufferSize := by
  constructor
  · rintro ⟨passes, _, hsend, -, hreads⟩
    obtain ⟨msgs, hloop, rfl⟩ := Option.map_eq_some_iff.mp hsend
    have hflatten := keys_flatten hloop hparity
    obtain ⟨rs, hrs⟩ := exists_received
      ((msgs.map fun m => (m.1, reconstructionUnsealedMessage p e m.2)).map Prod.snd)
    obtain ⟨reads, hread, hperm⟩ := hreads rs hrs
    obtain ⟨reads', hread', hperm'⟩ := exists_reads_of_messages
      (reconstructionUnsealedMessage p e) (keys_read he hloop hflatten) hrs
    obtain rfl := List.right_unique_forall₂' (fun _ _ _ h1 h2 => Option.some.inj (h1.symm.trans h2))
      hread hread'
    rw [hflatten] at hperm'
    intro key hkey
    refine ⟨isLarge_eq_false_of_perm (hperm'.symm.trans hperm) key hkey, ?_⟩
    rw [← hflatten] at hkey
    obtain ⟨keys, hkeys, hmem⟩ := List.mem_flatten.mp hkey
    obtain ⟨m, hm, rfl⟩ := List.mem_map.mp hkeys
    have hfits := (sendLoopTo_forall (generateKeys_fits p.bufferSize) hloop m hm).2
      (List.ne_nil_of_mem hmem)
    have hrecord : (keyRecord key).length ≤ (m.2.flatMap keyRecord).length := by
      rw [List.flatMap_def]
      exact (List.sublist_flatten_of_mem (List.mem_map_of_mem hmem)).length_le
    rw [length_keyRecord] at hrecord
    omega
  · intro hplain
    obtain ⟨msgs, hloop⟩ := exists_sendLoopTo (generateKeys_append p.bufferSize)
      (generateKeys_fitsAll p.bufferSize) hparity (fun key hkey => (hplain key hkey).2)
      (Nat.lt_succ_self _)
    have hflatten := keys_flatten hloop hparity
    refine ⟨_, _, Option.map_eq_some_iff.mpr ⟨msgs, hloop, rfl⟩, fun m hm => ?_, fun rs hrs => ?_⟩
    · obtain ⟨m', hm', rfl⟩ := List.mem_map.mp hm
      exact survives_of_mem (List.drop_subset _ _)
        (sendLoopTo_forall (generateKeys_fits p.bufferSize) hloop m' hm').1
    · have hreads := exists_reads_of_messages _ (keys_read he hloop hflatten) hrs
      rwa [hflatten, List.map_congr_left fun key hkey => take_data (hplain key hkey).1] at hreads

end Keys

/-- Stripes and keys arrive exactly if the buffer has room for each of them and no key is that of a
split: of such a key a message has no offset. -/
theorem distributed_iff (t : LostList) {e' : Protocol.Envelope} (he : e.Fits q) (he' : e'.Fits q)
    (hserver : ∃ s, some s ∈ t.servers)
    (hparity : t.unsealedKeys ≠ [] → ∃ s, some s ∈ t.parityServers) :
    (Distributed (t.sendStripes p e) t.Survives (readStripes q) t.stripeIds ∧
        Distributed (t.sendKeys p e') t.Survives q.readKeys (t.unsealedKeys.map Key.data)) ↔
      (t.stripeIds ≠ [] → 32 ≤ p.bufferSize) ∧
        ∀ key ∈ t.unsealedKeys, key.isLarge = false ∧ 21 + key.size ≤ p.bufferSize := by
  rw [stripes_distributed_iff he hserver, keys_distributed_iff he' hparity]

/-- A list of a data server that is lost and three others, the second of which is the backup
server. -/
def lostDataChunk (stripeIds : List ℕ) (unsealedKeys : List Key)
    (hids : ∀ stripeId ∈ stripeIds, stripeId < 2 ^ 32)
    (hkeys : ∀ key ∈ unsealedKeys, key.size < 2 ^ 8) : LostList where
  listId := 7
  chunkId := 0
  dataChunkCount := 2
  sockets := [some ⟨138, false⟩, some ⟨139, true⟩, some ⟨140, true⟩, some ⟨141, true⟩]
  backupServerSocket := ⟨139, true⟩
  stripeIds := stripeIds
  unsealedKeys := unsealedKeys
  listId_lt := by norm_num
  chunkId_lt := by norm_num
  stripeIds_lt := hids
  keys_lt := hkeys

/-- Three stripes for two servers, and a key. -/
def threeStripes : LostList :=
  lostDataChunk [12, 5, 31] [.plain [138, 139]] (by decide) (by decide)

theorem distributed_threeStripes :
    Distributed (threeStripes.sendStripes (party 0x08 0x20) ⟨0x01, 0x60, 0x35, 1, 9⟩)
        threeStripes.Survives (readStripes (party 0x18 0x60)) [12, 5, 31] ∧
      Distributed (threeStripes.sendKeys (party 0x08 0x20) ⟨0x01, 0x60, 0x36, 1, 9⟩)
        threeStripes.Survives (party 0x18 0x60).readKeys [[138, 139]] :=
  (distributed_iff threeStripes ⟨by decide, by decide, by decide, by decide⟩
    ⟨by decide, by decide, by decide, by decide⟩ ⟨⟨140, true⟩, by decide⟩
    fun _ => ⟨⟨140, true⟩, by decide⟩).mpr
      ⟨fun _ => by norm_num [party], by simp [threeStripes, lostDataChunk, Key.plain, party]⟩

/-- The second split of an object that is not sealed. -/
def unsealedSplit : LostList := lostDataChunk [] [.split [138] 40] (by decide) (by decide)

/-- Its key arrives without the offset. -/
theorem not_distributed_unsealedSplit :
    ¬(Distributed (unsealedSplit.sendStripes (party 0x08 0x20) ⟨0x01, 0x60, 0x35, 1, 9⟩)
        unsealedSplit.Survives (readStripes (party 0x18 0x60)) unsealedSplit.stripeIds ∧
      Distributed (unsealedSplit.sendKeys (party 0x08 0x20) ⟨0x01, 0x60, 0x36, 1, 9⟩)
        unsealedSplit.Survives (party 0x18 0x60).readKeys
        (unsealedSplit.unsealedKeys.map Key.data)) := by
  rintro ⟨-, hkeys⟩
  have hfits : Protocol.Envelope.Fits ⟨0x01, 0x60, 0x36, 1, 9⟩ (party 0x18 0x60) :=
    ⟨by decide, by decide, by decide, by decide⟩
  have hparity : ∃ s, some s ∈ unsealedSplit.parityServers := ⟨⟨140, true⟩, by decide⟩
  have hplain := (keys_distributed_iff hfits fun _ => hparity).mp hkeys (.split [138] 40)
    List.mem_cons_self
  exact absurd hplain.1 (by decide)

end LostList

end MemEC.Coordinator
