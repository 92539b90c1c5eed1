import MemEC.Common.Connection
import MemEC.Common.DegradedMessages

/-!
# Messages over a connection

The kinds of messages, and what becomes of messages that the threads of a party
send: the handlers of the other party read the values that were written, whatever
else is in the buffer behind them.
-/

namespace MemEC.Common

open MemEC.Lib

/-! ## The kinds -/

/-- The kinds of messages, by the functions that write and read them. A flag says whether the key is
that of a split, whether the message is a request, or whether it is for a client. -/
inductive MessageKind
  | key (isLarge : Bool)
  | chunkKey
  | keyBackup
  | keyValue
  | keyValueUpdate (isRequest : Bool)
  | chunkKeyValueUpdate (isRequest : Bool)
  | chunkUpdate (isRequest : Bool)
  | chunk
  | chunkData
  | acknowledgement
  | deltaAcknowledgement
  | remappingLock
  | degradedLockReq
  | degradedSet
  | forwardKey (isRequest : Bool)
  | listStripeKey (isLarge : Bool)
  | degradedReleaseRes
  | address
  | srcDstAddress
  | loadStats (toClient : Bool)
deriving DecidableEq

namespace MessageKind

variable (cfg : GlobalConfig)

/-- What a message of the kind says. -/
def Value : MessageKind → Type
  | .key _ => Key
  | .chunkKey => ChunkKey
  | .keyBackup => KeyBackup
  | .keyValue => Object cfg
  | .keyValueUpdate _ => KeyValueUpdate
  | .chunkKeyValueUpdate _ => ChunkKeyValueUpdate
  | .chunkUpdate _ => ChunkUpdate
  | .chunk => Metadata
  | .chunkData => ChunkData
  | .acknowledgement => AcknowledgementHeader
  | .deltaAcknowledgement => DeltaAcknowledgement
  | .remappingLock => KeyRedirections
  | .degradedLockReq => KeyRedirections
  | .degradedSet => DegradedSet cfg
  | .forwardKey _ => ForwardKey
  | .listStripeKey _ => ListStripeKey
  | .degradedReleaseRes => DegradedReleaseResHeader
  | .address => NetworkAddr
  | .srcDstAddress => NetworkAddr × NetworkAddr
  | .loadStats _ => LoadStats

def format : (kind : MessageKind) → Format (kind.Value cfg)
  | .key isLarge => keyFormat isLarge
  | .chunkKey => chunkKeyFormat
  | .keyBackup => keyBackupFormat
  | .keyValue => objectFormat cfg
  | .keyValueUpdate isRequest => keyValueUpdateFormat isRequest
  | .chunkKeyValueUpdate isRequest => chunkKeyValueUpdateFormat isRequest
  | .chunkUpdate isRequest => chunkUpdateFormat isRequest
  | .chunk => chunkFormat
  | .chunkData => chunkDataFormat
  | .acknowledgement => acknowledgementFormat
  | .deltaAcknowledgement => deltaAcknowledgementFormat
  | .remappingLock => remappingLockFormat
  | .degradedLockReq => degradedLockReqFormat
  | .degradedSet => degradedSetFormat cfg
  | .forwardKey isRequest => forwardKeyFormat isRequest
  | .listStripeKey isLarge => listStripeKeyFormat isLarge
  | .degradedReleaseRes => degradedReleaseResFormat
  | .address => addressFormat
  | .srcDstAddress => srcDstAddressFormat
  | .loadStats toClient => loadStatsFormat toClient

/-- The fields fit into the types that they are written with. -/
def Fits : (kind : MessageKind) → kind.Value cfg → Prop
  | .key isLarge => KeyFits isLarge
  | .chunkKey => ChunkKey.Fits
  | .keyBackup => KeyBackup.Fits
  | .keyValue => fun _ => True
  | .keyValueUpdate isRequest => KeyValueUpdate.Fits isRequest
  | .chunkKeyValueUpdate isRequest => ChunkKeyValueUpdate.Fits isRequest
  | .chunkUpdate isRequest => ChunkUpdate.Fits isRequest
  | .chunk => Metadata.Fits
  | .chunkData => ChunkData.Fits
  | .acknowledgement => AcknowledgementHeader.Fits
  | .deltaAcknowledgement => DeltaAcknowledgement.Fits
  | .remappingLock => KeyRedirections.Fits
  | .degradedLockReq => KeyRedirections.Fits
  | .degradedSet => DegradedSet.Fits
  | .forwardKey isRequest => ForwardKey.Fits isRequest
  | .listStripeKey isLarge => ListStripeKey.Fits isLarge
  | .degradedReleaseRes => fun r => r.count < 2 ^ 32
  | .address => fun _ => True
  | .srcDstAddress => fun _ => True
  | .loadStats toClient => LoadStats.Fits toClient

/-- Messages are shorter than the buffers, whose size is a `uint32_t`. -/
theorem roundTrip (kind : MessageKind) :
    (kind.format cfg).RoundTrip (2 ^ 32) (kind.Fits cfg) := by
  cases kind with
  | key isLarge => exact (keyFormat_roundTrip isLarge).mono (by norm_num)
  | chunkKey => exact chunkKeyFormat_roundTrip.mono (by norm_num)
  | keyBackup => exact keyBackupFormat_roundTrip.mono (by norm_num)
  | keyValue => exact (objectFormat_roundTrip cfg).mono (by norm_num)
  | keyValueUpdate isRequest => exact (keyValueUpdateFormat_roundTrip isRequest).mono (by norm_num)
  | chunkKeyValueUpdate isRequest =>
    exact (chunkKeyValueUpdateFormat_roundTrip isRequest).mono (by norm_num)
  | chunkUpdate isRequest => exact (chunkUpdateFormat_roundTrip isRequest).mono (by norm_num)
  | chunk => exact chunkFormat_roundTrip.mono (by norm_num)
  | chunkData => exact chunkDataFormat_roundTrip.mono (by norm_num)
  | acknowledgement => exact acknowledgementFormat_roundTrip.mono (by norm_num)
  | deltaAcknowledgement => exact deltaAcknowledgementFormat_roundTrip.mono (by norm_num)
  | remappingLock => exact remappingLockFormat_roundTrip.mono (by norm_num)
  | degradedLockReq => exact degradedLockReqFormat_roundTrip.mono (by norm_num)
  | degradedSet => exact (degradedSetFormat_roundTrip cfg).mono (by norm_num)
  | forwardKey isRequest => exact (forwardKeyFormat_roundTrip isRequest).mono (by norm_num)
  | listStripeKey isLarge => exact (listStripeKeyFormat_roundTrip isLarge).mono (by norm_num)
  | degradedReleaseRes => exact degradedReleaseResFormat_roundTrip.mono (by norm_num)
  | address => exact addressFormat_roundTrip.mono (by norm_num)
  | srcDstAddress => exact srcDstAddressFormat_roundTrip.mono (by norm_num)
  | loadStats toClient => exact loadStatsFormat_roundTrip toClient

/-- Every kind of message is read as it was written, with anything behind it. So a message says one
thing only, and none is the beginning of another one of its kind. -/
theorem readable (kind : MessageKind) :
    (kind.format cfg).RoundTrip (2 ^ 32) (kind.Fits cfg) ∧
    ∀ a b, kind.Fits cfg a → kind.Fits cfg b →
      (kind.format cfg).generate a <+: (kind.format cfg).generate b →
      ((kind.format cfg).generate b).length < 2 ^ 32 → a = b :=
  ⟨kind.roundTrip cfg, fun _ _ ha hb => (kind.roundTrip cfg).eq_of_begins ha hb⟩

end MessageKind

/-! ## Sending and receiving -/

theorem Packet.Delivered.holds {p q : Protocol} {d : ProtocolHeader × List UInt8} {m : Packet}
    (hd : m.Delivered p q d) : (Memory.place 0 d.2).Holds 0 m.payload := by
  obtain ⟨more, hmore⟩ := hd.payload
  have h := Memory.holds_write 0 0 d.2
  rw [← hmore] at h ⊢
  exact (Memory.holds_append.mp h).1

/-- A message with what it says. -/
structure Message (cfg : GlobalConfig) where
  kind : MessageKind
  value : kind.Value cfg
  envelope : Protocol.Envelope
  requestTimestamp : ℕ
  isLarge : Bool

namespace Message

variable {cfg : GlobalConfig} {p q : Protocol}

/-- The message as it is sent. -/
def packet (m : Message cfg) : Packet :=
  ⟨m.envelope, (m.kind.format cfg).generate m.value, m.requestTimestamp, m.isLarge⟩

structure Fits (q : Protocol) (m : Message cfg) : Prop where
  packet : m.packet.Fits q
  value : m.kind.Fits cfg m.value

/-- The worker hands on the header of the message, and the handler reads what it says, whether it is
told the size of the message or that of all bytes that are there. -/
structure Received (p q : Protocol) (d : ProtocolHeader × List UInt8) (m : Message cfg) : Prop where
  header : d.1 = m.packet.header p q
  value : ∀ size, d.1.length ≤ size → size ≤ d.2.length →
    (m.kind.format cfg).parse (Memory.place 0 d.2) size 0 = some m.value

theorem Fits.received {m : Message cfg} (hm : m.Fits q) {d : ProtocolHeader × List UInt8}
    (hd : m.packet.Delivered p q d) (hlength : d.2.length ≤ q.bufferSize) : m.Received p q d := by
  have hheld : (Memory.place 0 d.2).Holds 0 ((m.kind.format cfg).generate m.value) := hd.holds
  refine ⟨hd.header, fun size hlow hhigh => ?_⟩
  have hle : 0 + ((m.kind.format cfg).generate m.value).length ≤ size := by
    rw [hd.header] at hlow
    exact (Nat.zero_add _).trans_le hlow
  exact m.kind.roundTrip cfg m.value _ _ 0 hm.value hheld hle
    (lt_of_le_of_lt (hhigh.trans hlength) q.bufferSize_lt)

end Message

namespace Connection

variable {ι : Type} [DecidableEq ι] {cfg : GlobalConfig} {p q : Protocol}
  {todo : ι → List (Message cfg)} {s : Connection ι} {ops : List (ConnectionAction ι)}

/-- The packets of the messages. -/
def packets (todo : ι → List (Message cfg)) (t : ι) : List Packet := (todo t).map Message.packet

/-- What the worker has handed on was read as it was written. -/
structure HasReceived (p q : Protocol) (todo : ι → List (Message cfg)) (s : Connection ι)
    (received : List (ι × Message cfg)) : Prop where
  dispatched : List.Forall₂ (fun d e => e.2.Received p q d) s.receiver.dispatched received
  sublist : ∀ t, (entriesOf t received).Sublist (todo t)
  complete : s.failed = [] → ∀ t, entriesOf t received <+: todo t
  all : s.Settled p → ∀ t, entriesOf t received = todo t

theorem Inv.exists_received (h : Inv p q (packets todo) s) (hb : Bounded q s.receiver)
    (hfits : ∀ t, ∀ m ∈ todo t, m.Fits q) : ∃ received, s.HasReceived p q todo received := by
  obtain ⟨received, hdelivered, hsub, hfirst, hall⟩ := h.exists_dispatched
  refine ⟨received, List.forall₂_iff_zip.mpr ⟨hdelivered.length_eq, fun {d e} hde => ?_⟩, hsub,
    hfirst, hall⟩
  obtain ⟨hd, he⟩ := List.of_mem_zip hde
  exact (hfits e.1 e.2 ((hsub e.1).subset (mem_entriesOf he))).received
    ((List.forall₂_iff_zip.mp hdelivered).2 hde) (hb.dispatched d hd)

end Connection

end MemEC.Common
