import MemEC.Common.Messages
import MemEC.Server.ObjectStoreRun

/-!
# Requests over a connection

What a client writes for a SET, GET or UPDATE request, what the data server reads
of it and writes in response, and what the client reads of that. The response
says what the data server has done, and carries the ids of the request.

DELETE and degraded requests are left out, and with the metadata in a response to
a SET request what the client keeps of it.
-/

namespace MemEC.Server

open MemEC.Lib MemEC.Common KeyValue LargeObjectUtil

variable {cfg : GlobalConfig} {shape : IndexShape} {p q : Protocol}

/-! ## Requests -/

/-- The requests of a client for an object, with what the parameters of `reqSet`, `reqGet` and
`reqUpdate` say. -/
inductive ClientCall (cfg : GlobalConfig)
  | set (o : Object cfg)
  | get (key : List UInt8)
  | update (checkGetChunk : Bool) (timestamp : ℕ) (u : KeyValueUpdate)

namespace ClientCall

/-- What it asks of the objects of the data server. -/
def request : ClientCall cfg → ObjectRequest cfg
  | .set o => .set o
  | .get key => .get key
  | .update _ _ u => .update u.key u.valueUpdateOffset u.valueUpdate

def opcode : ClientCall cfg → UInt8
  | .set _ => 0x02
  | .get _ => 0x01
  | .update checkGetChunk _ _ => if checkGetChunk then 0x05 else 0x03

def timestamp : ClientCall cfg → ℕ
  | .set _ => 0
  | .get _ => 0
  | .update _ timestamp _ => timestamp

def payload : ClientCall cfg → List UInt8
  | .set o => (objectFormat cfg).generate o
  | .get key => (keyFormat false).generate (Key.plain key)
  | .update _ _ u => (keyValueUpdateFormat true).generate u

/-- The fields have the sizes of their types. -/
def Fits : ClientCall cfg → Prop
  | .set _ => True
  | .get key => key.length < 2 ^ 8
  | .update _ timestamp u => timestamp < 2 ^ 32 ∧ u.Fits true

theorem opcode_mem (c : ClientCall cfg) : c.opcode ∈ Protocol.opcodes := by
  cases c with
  | set o => exact (by decide : (0x02 : UInt8) ∈ Protocol.opcodes)
  | get key => exact (by decide : (0x01 : UInt8) ∈ Protocol.opcodes)
  | update checkGetChunk timestamp u =>
    cases checkGetChunk with
    | false => exact (by decide : (0x03 : UInt8) ∈ Protocol.opcodes)
    | true => exact (by decide : (0x05 : UInt8) ∈ Protocol.opcodes)

theorem Fits.timestamp_lt {c : ClientCall cfg} (h : c.Fits) : c.timestamp < 2 ^ 32 := by
  cases c with
  | set o => exact Nat.two_pow_pos 32
  | get key => exact Nat.two_pow_pos 32
  | update checkGetChunk timestamp u => exact h.1

end ClientCall

/-- A request with its ids. -/
structure ClientRequest (cfg : GlobalConfig) where
  instanceId : ℕ
  requestId : ℕ
  call : ClientCall cfg

namespace ClientRequest

/-- `ClientProtocol::reqSet`, `ClientProtocol::reqGet` and `ClientProtocol::reqUpdate`. -/
def packet (r : ClientRequest cfg) : Packet :=
  ⟨⟨0x01, 0x60, r.call.opcode, r.instanceId, r.requestId⟩, r.call.payload, r.call.timestamp, false⟩

/-- The request has room in the buffer of the data server. -/
structure Fits (q : Protocol) (r : ClientRequest cfg) : Prop where
  instanceId : r.instanceId < 2 ^ 16
  requestId : r.requestId < 2 ^ 32
  call : r.call.Fits
  size : 16 + r.call.payload.length ≤ q.bufferSize

end ClientRequest

/-- The handlers for the opcodes of the requests, up to what they parse. -/
def readCall (cfg : GlobalConfig) (header : ProtocolHeader) (m : Memory) (size : ℕ) :
    Option (ClientCall cfg) :=
  if header.opcode = 0x01 then ((keyFormat false).parse m size 0).map fun key => .get key.data
  else if header.opcode = 0x02 then ((objectFormat cfg).parse m size 0).map .set
  else if header.opcode = 0x03 then
    ((keyValueUpdateFormat true).parse m size 0).map (.update false header.timestamp)
  else if header.opcode = 0x05 then
    ((keyValueUpdateFormat true).parse m size 0).map (.update true header.timestamp)
  else none

/-- `ServerWorker::dispatch`, for what a client has sent. The handlers are told the size of all
bytes that are there. -/
def readRequest (cfg : GlobalConfig) (d : ProtocolHeader × List UInt8) :
    Option (ClientRequest cfg) :=
  if d.1.magic ≠ 0x01 ∨ d.1.sender ≠ 0x10 then none
  else (readCall cfg d.1 (Memory.place 0 d.2) d.2.length).map fun call =>
    ⟨d.1.instanceId, d.1.requestId, call⟩

theorem readCall_eq {c : ClientCall cfg} (hc : c.Fits) {header : ProtocolHeader} {m : Memory}
    {size : ℕ} (hopcode : header.opcode = c.opcode) (htimestamp : header.timestamp = c.timestamp)
    (hheld : m.Holds 0 c.payload) (hlow : 0 + c.payload.length ≤ size) (hhigh : size < 2 ^ 64) :
    readCall cfg header m size = some c := by
  unfold readCall
  cases c with
  | set o =>
    have hparse := objectFormat_roundTrip cfg o m size 0 trivial hheld hlow hhigh
    rw [hopcode, ClientCall.opcode, if_neg (by decide), if_pos rfl, hparse, Option.map_some]
  | get key =>
    have hparse := keyFormat_roundTrip false (Key.plain key) m size 0 ⟨rfl, hc⟩ hheld hlow hhigh
    rw [hopcode, ClientCall.opcode, if_pos rfl, hparse, Option.map_some]
    rfl
  | update checkGetChunk timestamp u =>
    have hparse := keyValueUpdateFormat_roundTrip true u m size 0 hc.2 hheld hlow hhigh
    rw [hopcode, htimestamp, hparse]
    cases checkGetChunk with
    | false => simp [ClientCall.opcode, ClientCall.timestamp]
    | true => simp [ClientCall.opcode, ClientCall.timestamp]

namespace ClientRequest

variable {r : ClientRequest cfg}

theorem Fits.packet (h : r.Fits q) (hq : q.receiver = 0x60) : r.packet.Fits q where
  envelope := by
    have hreceiver : (0x60 : UInt8) &&& 0x60 = 0x60 := by decide
    exact ⟨hreceiver.trans hq.symm, r.call.opcode_mem, h.instanceId, h.requestId⟩
  size := h.size
  requestTimestamp := h.call.timestamp_lt

/-- The data server reads the request that the client has written. -/
theorem Fits.readRequest_eq (h : r.Fits q) (hp : p.sender = 0x10) {d : ProtocolHeader × List UInt8}
    (hd : r.packet.Delivered p q d) (hlength : d.2.length ≤ q.bufferSize) :
    readRequest cfg d = some r := by
  have hsize := q.bufferSize_lt
  have hheld : (Memory.place 0 d.2).Holds 0 r.call.payload := hd.holds
  obtain ⟨hheader, hpayload⟩ := hd
  have hmagic : d.1.magic = 0x01 := by
    rw [hheader]
    exact (by decide : (0x01 : UInt8) &&& 0x07 = 0x01)
  have hsender : d.1.sender = 0x10 := by
    rw [hheader, Packet.header, Protocol.Envelope.header, hp]
    exact (by decide : (0x10 : UInt8) &&& 0x18 = 0x10)
  have hcall : readCall cfg d.1 (Memory.place 0 d.2) d.2.length = some r.call :=
    readCall_eq h.call (by rw [hheader]; rfl) (by rw [hheader]; rfl) hheld
      ((Nat.zero_add _).trans_le hpayload.length_le) (by omega)
  rw [readRequest, if_neg (by simp [hmagic, hsender]), hcall, Option.map_some, hheader]
  rfl

end ClientRequest

/-! ## Responses -/

/-- What a client is told. -/
inductive ClientResult
  | set (success : Bool)
  | get (message : Option Client.KeyValueMessage)
  | update (success : Bool)
deriving DecidableEq

/-- What a client is told of what the data server has done. Nobody is told of a chunk that is
sealed. -/
def ObjectResponse.result : ObjectResponse → Option ClientResult
  | .set result => some (.set (result ≠ .existing))
  | .get message => some (.get message)
  | .update success => some (.update success)
  | .sealAll => none

namespace ClientRequest

/-- A response with the ids of the request. -/
def response (r : ClientRequest cfg) (success : Bool) (opcode : UInt8) (payload : List UInt8)
    (isLarge : Bool) : Packet :=
  ⟨⟨if success then 0x02 else 0x03, 0x40, opcode, r.instanceId, r.requestId⟩, payload, 0, isLarge⟩

end ClientRequest

namespace ObjectStore

/-- What the response to a SET request says of the chunk of the object, and of the chunks that were
sealed. All ids are `uint32_t`. -/
def backupFields (s : ObjectStore cfg shape) (timestamp : ℕ) (o : Object cfg) :
    Option BackupFields :=
  (s.server.set o.key o.payload o.valueSize o.splitOffset false).map fun r =>
    { timestamp := u32 timestamp
      chunk := ⟨u32 r.2.1.listId, u32 r.2.1.stripeId, u32 r.2.1.chunkId⟩
      sealed := r.2.2.map fun md => ⟨u32 md.listId, u32 md.stripeId, u32 md.chunkId⟩ }

/-- The payload of the response to a GET request for the object at `ptr`. -/
def getPayload (cfg : GlobalConfig) (m : Memory) (ptr : ℕ) : List UInt8 :=
  let kv := deserialize cfg m ptr
  let isLarge := LargeObjectUtil.isLarge cfg kv.keySize kv.valueSize
  generateKeyValuePayload (m.read kv.key kv.keySize) (m.read kv.value kv.valueSize) kv.valueSize
    (if isLarge then kv.splitOffset else 0)
    (if isLarge then LargeObjectUtil.splitSize cfg kv.keySize kv.valueSize else 0)

/-- `ServerWorker::dispatch`, for what the handler of the request has made of it. The response to an
UPDATE request has the key of the object that was found. -/
def respond (s : ObjectStore cfg shape) (timestamp : ℕ) (r : ClientRequest cfg)
    (response : ObjectResponse) : Packet :=
  match r.call with
  | .set o =>
    let success := decide (response ≠ .set .existing)
    r.response success 0x02 (generateKeyBackupPayload
      ⟨if success then s.backupFields timestamp o else none, o.mapKey⟩) o.isLarge
  | .get key =>
    match Map.lookup cfg s.memory s.keys key with
    | some ptr => r.response true 0x01 (getPayload cfg s.memory ptr) false
    | none => r.response false 0x01 (generateKeyPayload (Key.plain key)) false
  | .update _ _ u =>
    match Map.lookup cfg s.memory s.keys u.key with
    | some ptr => r.response true 0x03 (generateKeyValueUpdatePayload { u with
        key := u.key.take (deserialize cfg s.memory ptr).keySize
        valueUpdate := [] }) false
    | none =>
      r.response false 0x03 (generateKeyValueUpdatePayload { u with valueUpdate := [] }) false

end ObjectStore

/-- The handlers for the opcodes of the responses, up to what they parse. -/
def readResult (cfg : GlobalConfig) (success : Bool) (opcode : UInt8) (m : Memory) (size : ℕ) :
    Option ClientResult :=
  if opcode = 0x01 then
    if success then
      ((objectFormat cfg).parse m size 0).map fun o => .get (some (ObjectMap.message o))
    else ((keyFormat false).parse m size 0).map fun _ => .get none
  else if opcode = 0x02 then (keyBackupFormat.parse m size 0).map fun _ => .set success
  else if opcode = 0x03 then
    ((keyValueUpdateFormat false).parse m size 0).map fun _ => .update success
  else none

/-- What the magic code of a response says. -/
def successOf (magic : UInt8) : Option Bool :=
  if magic = 0x02 ∨ magic = 0x07 then some true
  else if magic = 0x03 then some false
  else none

/-- `ClientWorker::dispatch`, for what a data server has sent: the ids and the result. The handlers
are told the size of the message. -/
def readResponse (cfg : GlobalConfig) (d : ProtocolHeader × List UInt8) :
    Option (ℕ × ℕ × ClientResult) :=
  if d.1.sender ≠ 0x18 then none
  else (successOf d.1.magic).bind fun success =>
    (readResult cfg success d.1.opcode (Memory.place 0 d.2) d.1.length).map fun result =>
      (d.1.instanceId, d.1.requestId, result)

/-- A client and a data server: their codes, and room for every response in the buffer of the
client. -/
structure Parties (cfg : GlobalConfig) where
  client : Protocol
  server : Protocol
  client_sender : client.sender = 0x10
  client_receiver : client.receiver = 0x40
  server_sender : server.sender = 0x18
  server_receiver : server.receiver = 0x60
  room : 16 + max cfg.chunkSize 302 ≤ client.bufferSize

theorem room_le_getSuggestedBufferSize (cfg : GlobalConfig) (supportLargeObject : Bool) :
    16 + max cfg.chunkSize 302 ≤
      getSuggestedBufferSize cfg.keySize cfg.chunkSize supportLargeObject := by
  have hkey := cfg.keySize_le
  have hchunk := cfg.chunkSize_le
  have hret : cfg.chunkSize + 20 ≤
      u32 (20 + cfg.keySize + if supportLargeObject then 16777216 else cfg.chunkSize) := by
    cases supportLargeObject
    · rw [if_neg Bool.false_ne_true, u32_eq (by omega)]
      omega
    · rw [if_pos rfl, u32_eq (by omega)]
      omega
  unfold getSuggestedBufferSize
  generalize u32 _ = ret at hret ⊢
  dsimp only
  split_ifs <;> omega

/-- The parties after `Protocol::init`, with what is in their buffers. -/
def Parties.init (cfg : GlobalConfig) (clientRecv serverRecv : Memory) : Parties cfg where
  client := .init 0x10 0x40 clientRecv cfg.keySize_le cfg.chunkSize_le false
  server := .init 0x18 0x60 serverRecv cfg.keySize_le cfg.chunkSize_le false
  client_sender := rfl
  client_receiver := rfl
  server_sender := rfl
  server_receiver := rfl
  room := room_le_getSuggestedBufferSize cfg false

/-- The client reads the message as a response with the ids of the request. -/
structure Answers (P : Parties cfg) (r : ClientRequest cfg) (m : Packet) (result : ClientResult) :
    Prop where
  fits : m.Fits P.client
  read : ∀ d, m.Delivered P.server P.client d → d.2.length ≤ P.client.bufferSize →
    readResponse cfg d = some (r.instanceId, r.requestId, result)

section Answers

variable {P : Parties cfg} {r : ClientRequest cfg} {success isLarge : Bool} {opcode : UInt8}
  {payload : List UInt8} {result : ClientResult}

theorem successOf_magic (success : Bool) :
    successOf ((if success then 0x02 else 0x03) &&& 0x07) = some success := by
  cases success <;> decide

/-- A response is read when its payload is. -/
theorem answers_of_read (hr : r.Fits P.server) (hopcode : opcode ∈ Protocol.opcodes)
    (hsize : 16 + payload.length ≤ P.client.bufferSize)
    (hread : ∀ m size, m.Holds 0 payload → 0 + payload.length ≤ size → size < 2 ^ 64 →
      readResult cfg success opcode m size = some result) :
    Answers P r (r.response success opcode payload isLarge) result where
  fits := by
    have hreceiver : (0x40 : UInt8) &&& 0x60 = 0x40 := by decide
    exact ⟨⟨hreceiver.trans P.client_receiver.symm, hopcode, hr.instanceId, hr.requestId⟩, hsize,
      Nat.two_pow_pos 32⟩
  read d hd hlength := by
    have hlt : payload.length < 2 ^ 64 := by
      have hbuffer := P.client.bufferSize_lt
      omega
    have hheld := hd.holds
    obtain ⟨hheader, hpayload⟩ := hd
    have hsender : d.1.sender = 0x18 := by
      rw [hheader, Packet.header, Protocol.Envelope.header, P.server_sender]
      exact (by decide : (0x18 : UInt8) &&& 0x18 = 0x18)
    have hsuccess : successOf d.1.magic = some success := by
      rw [hheader]
      exact successOf_magic success
    have hresult : readResult cfg success d.1.opcode (Memory.place 0 d.2) d.1.length =
        some result := by
      rw [hheader]
      exact hread _ _ hheld (Nat.zero_add _).le hlt
    rw [readResponse, if_neg (not_not.mpr hsender), hsuccess, Option.bind_some, hresult,
      Option.map_some, hheader]
    rfl

end Answers

/-! ### What is answered -/

namespace ObjectStore

variable {P : Parties cfg} {s s' : ObjectStore cfg shape} {t : ObjectMap cfg} {n0 : ℕ}
  {used0 : List ℕ} {log : DataServer.SetLog cfg} {rand : ℕ → ℕ} {r : ClientRequest cfg}
  {timestamp : ℕ}

theorem length_sealed_pick_le {server server' : DataServer cfg} {size c : ℕ} {index : Option ℕ}
    {sealed : List Metadata} (h : server.pick size = some (server', c, index, sealed)) :
    sealed.length ≤ 1 := by
  unfold DataServer.pick at h
  split at h
  · cases h
    exact Nat.zero_le 1
  · split at h
    · cases h
      exact Nat.zero_le 1
    · dsimp only at h
      split at h <;> cases h
      exact le_rfl

theorem length_sealed_flushIfFull_le {server server' : DataServer cfg} {c : ℕ} {index : Option ℕ}
    {sealed : List Metadata} (h : server.flushIfFull c index = some (server', sealed)) :
    sealed.length ≤ 1 := by
  unfold DataServer.flushIfFull at h
  split at h
  · split at h
    · split at h <;> cases h
      exact le_rfl
    · cases h
      exact Nat.zero_le 1
  · cases h
    exact Nat.zero_le 1

/-- At most one chunk is sealed before an object is stored, and one after it. -/
theorem length_sealed_le {server server' : DataServer cfg} {key value : List UInt8}
    {valueSize splitOffset : ℕ} {degradedSet : Bool} {md : KeyMetadata} {sealed : List Metadata}
    (h : server.set key value valueSize splitOffset degradedSet = some (server', md, sealed)) :
    sealed.length ≤ 2 := by
  unfold DataServer.set at h
  dsimp only at h
  split at h
  · cases h
  · next s₁ c index sealed1 hpick =>
    split at h
    · cases h
    · next s₂ sealed2 hflush =>
      cases h
      have hfirst := length_sealed_pick_le hpick
      have hsecond := length_sealed_flushIfFull_le hflush
      rw [List.length_append]
      omega

theorem backupFields_fits {o : Object cfg} {f : BackupFields}
    (h : s.backupFields timestamp o = some f) : f.Fits := by
  obtain ⟨⟨server, md, sealed⟩, hset, rfl⟩ := Option.map_eq_some_iff.mp h
  have hu32 : ∀ n, u32 n < 2 ^ 32 := fun n => Nat.mod_lt n (Nat.two_pow_pos 32)
  refine ⟨hu32 _, ⟨hu32 _, hu32 _, hu32 _⟩, ?_, fun md' hmd' => ?_⟩
  · rw [List.length_map]
    exact length_sealed_le hset
  · obtain ⟨md, -, rfl⟩ := List.mem_map.mp hmd'
    exact ⟨hu32 _, hu32 _, hu32 _⟩

theorem length_generateKeyBackupPayload {b : KeyBackup} (hb : b.Fits) :
    (generateKeyBackupPayload b).length ≤ 44 + b.key.data.length := by
  have hflat : ∀ l : List Metadata, (l.flatMap Metadata.bytes).length = 12 * l.length := by
    intro l
    simp [List.length_flatMap, Nat.mul_comm]
  unfold generateKeyBackupPayload
  cases h : b.forData with
  | none =>
    simp
    omega
  | some f =>
    have hcount := (hb.forData f h).count
    simp [hflat]
    omega

/-- The response to a SET request. -/
theorem answers_set (hr : r.Fits P.server) {o : Object cfg} (hcall : r.call = .set o)
    (result : SetResult) :
    Answers P r (s.respond timestamp r (.set result)) (.set (result ≠ .existing)) := by
  have hkey := o.length_key
  have hsize := o.mapKey_size
  have hroom := P.room
  unfold respond
  rw [hcall]
  dsimp only
  set success := decide (ObjectResponse.set result ≠ .set .existing) with hsuccess
  have htold : decide (result ≠ .existing) = success := by
    rw [hsuccess]
    cases result <;> rfl
  have hb : KeyBackup.Fits ⟨if success then s.backupFields timestamp o else none, o.mapKey⟩ := by
    refine ⟨fun f hf => ?_, by dsimp only; omega⟩
    dsimp only at hf
    split_ifs at hf
    exact backupFields_fits hf
  have hdata : o.mapKey.data.length ≤ 258 := by
    rw [o.mapKey.length_data, Key.extent]
    split_ifs <;> omega
  have hlength := length_generateKeyBackupPayload hb
  rw [htold]
  refine answers_of_read hr (by decide) (by dsimp only at hlength; omega)
    fun m size hheld hlow hhigh => ?_
  have hparse := keyBackupFormat_roundTrip _ m size 0 hb hheld hlow hhigh
  rw [readResult, if_neg (by decide), if_pos rfl, hparse, Option.map_some]

/-- The response to an UPDATE request. -/
theorem answers_update (hr : r.Fits P.server) {checkGetChunk : Bool} {sent : ℕ} {u : KeyValueUpdate}
    (hcall : r.call = .update checkGetChunk sent u) (response : ObjectResponse) :
    Answers P r (s.respond timestamp r response)
      (.update (Map.lookup cfg s.memory s.keys u.key).isSome) := by
  have hroom := P.room
  obtain ⟨-, hu⟩ : sent < 2 ^ 32 ∧ u.Fits true := by
    have hfits := hr.call
    rwa [hcall] at hfits
  have hkey := hu.key
  have hread : ∀ (key : List UInt8) (success : Bool), key.length ≤ u.key.length →
      Answers P r (r.response success 0x03
        (generateKeyValueUpdatePayload { u with key, valueUpdate := [] }) false)
        (.update success) := by
    intro key success hle
    have hfits : KeyValueUpdate.Fits false { u with key, valueUpdate := [] } :=
      ⟨by dsimp only; omega, hu.valueUpdateOffset, hu.valueUpdateSize, rfl⟩
    refine answers_of_read hr (by decide) ?_ fun m size hheld hlow hhigh => ?_
    · simp only [generateKeyValueUpdatePayload, List.length_append, length_beBytes, List.length_nil]
      omega
    · have hparse := keyValueUpdateFormat_roundTrip false _ m size 0 hfits hheld hlow hhigh
      rw [readResult, if_neg (by decide), if_neg (by decide), if_pos rfl, hparse, Option.map_some]
  unfold respond
  rw [hcall]
  dsimp only
  cases Map.lookup cfg s.memory s.keys u.key with
  | some ptr => exact hread _ true (List.length_take_le' _ _)
  | none => exact hread u.key false le_rfl

/-- A stored object is sent as it is. -/
theorem getPayload_eq {m : Memory} {ptr : ℕ} {o : Object cfg} (h : m.Holds ptr o.bytes) :
    getPayload cfg m ptr = (objectFormat cfg).generate o := by
  have hl : LargeObjectUtil.isLarge cfg o.key.length o.valueSize = o.isLarge := rfl
  have hvalue := o.holds_payload h
  have hlength := o.length_payload
  have hkey : m.read (ptr + 4) o.key.length = o.key := by
    rw [Object.bytes, List.append_assoc, Memory.holds_append, Memory.holds_append,
      Object.length_header, Object.keyBytes, Memory.holds_append] at h
    exact h.2.1.1
  unfold getPayload
  rw [Object.deserialize_eq h]
  dsimp only [objectFormat]
  rw [hl, hkey]
  cases hlarge : o.isLarge with
  | false =>
    have hplain : LargeObjectUtil.splitSize cfg o.key.length o.valueSize = o.valueSize := by
      rw [LargeObjectUtil.splitSize, hl, hlarge, if_neg Bool.false_ne_true]
    have hpayload := o.payload_of_plain hlarge
    rw [if_neg Bool.false_ne_true, if_neg Bool.false_ne_true, generateKeyValuePayload,
      generateKeyValuePayload, if_pos (.inl rfl), if_pos (.inr hplain), ← hpayload, hvalue]
  | true =>
    have hbig := o.isLarge_iff.mp hlarge
    have hpayload := o.payload_of_large hlarge
    have hsplit := Object.splitSize_of_large hlarge
    have hroom := o.room hlarge
    have hpart : ¬(LargeObjectUtil.splitSize cfg o.key.length o.valueSize = 0 ∨
        LargeObjectUtil.splitSize cfg o.key.length o.valueSize = o.valueSize) := by omega
    rw [payloadSize, if_pos (hl.trans hlarge)] at hlength
    rw [if_pos rfl, if_pos rfl, generateKeyValuePayload, generateKeyValuePayload, if_neg hpart,
      if_neg hpart, ← hlength, Memory.take_read _ _ (by omega), hvalue, List.take_length]

/-- The response to a GET request. -/
theorem Represents.answers_get (h : Represents n0 used0 s log t) (hr : r.Fits P.server)
    {key : List UInt8} (hcall : r.call = .get key) (hkey : ∀ k ∈ lookupKeys key, t.Unambiguous k)
    (response : ObjectResponse) :
    Answers P r (s.respond timestamp r response) (.get (s.handleGetRequest key)) := by
  have hroom := P.room
  have hlength : key.length < 2 ^ 8 := by
    have hfits := hr.call
    rwa [hcall] at hfits
  unfold respond handleGetRequest
  rw [hcall]
  dsimp only
  rcases h.lookup hkey with ⟨⟨md, o⟩, hp, hlookup, -, -⟩ | ⟨hlookup, -⟩
  · have hholds := memory_holds h.buffer hp
    have hsize : ((objectFormat cfg).generate o).length ≤ cfg.chunkSize :=
      (congrArg List.length o.generateKeyValuePayload_eq).trans_le o.size_le
    have hpayload := getPayload_eq hholds
    rw [hlookup, Option.map_some, resGet_eq hholds]
    dsimp only at hpayload ⊢
    rw [hpayload]
    refine answers_of_read hr (by decide) (by omega) fun m size hheld hlow hhigh => ?_
    have hparse := objectFormat_roundTrip cfg o m size 0 trivial hheld hlow hhigh
    rw [readResult, if_pos rfl, if_pos rfl, hparse, Option.map_some]
  · rw [hlookup, Option.map_none]
    refine answers_of_read hr (by decide) ?_ fun m size hheld hlow hhigh => ?_
    · simp only [generateKeyPayload, Key.plain, List.length_append, length_beBytes]
      omega
    · have hparse := keyFormat_roundTrip false (Key.plain key) m size 0 ⟨rfl, hlength⟩ hheld hlow
        hhigh
      rw [readResult, if_pos rfl, if_neg Bool.false_ne_true, hparse, Option.map_some]

/-- The client reads what the data server has done. -/
theorem Represents.answers (h : Represents n0 used0 s log t) (hr : r.Fits P.server)
    (hallowed : s.Allowed t r.call.request) {response : ObjectResponse}
    (hstep : s.step rand r.call.request = some (s', response)) :
    ∃ result, response.result = some result ∧
      Answers P r (s.respond timestamp r response) result := by
  cases hcall : r.call with
  | set o =>
    rw [hcall] at hstep
    obtain ⟨⟨s₁, result⟩, -, heq⟩ := Option.map_eq_some_iff.mp hstep
    obtain ⟨rfl, rfl⟩ := Prod.mk.inj heq
    exact ⟨_, rfl, answers_set hr hcall result⟩
  | get key =>
    rw [hcall] at hstep hallowed
    obtain ⟨rfl, rfl⟩ := Prod.mk.inj (Option.some.inj hstep)
    exact ⟨_, rfl, h.answers_get hr hcall hallowed _⟩
  | update checkGetChunk sent u =>
    rw [hcall] at hstep
    obtain ⟨rfl, rfl⟩ := Prod.mk.inj (Option.some.inj hstep)
    have hsuccess : (s.handleUpdateRequest u.key u.valueUpdateOffset u.valueUpdate).2 =
        (Map.lookup cfg s.memory s.keys u.key).isSome := by
      unfold handleUpdateRequest
      cases Map.lookup cfg s.memory s.keys u.key <;> rfl
    refine ⟨_, rfl, ?_⟩
    rw [hsuccess]
    exact answers_update hr hcall _

end ObjectStore

end MemEC.Server
