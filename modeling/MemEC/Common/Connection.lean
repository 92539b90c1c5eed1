import MemEC.Common.Protocol
import MemEC.Lib.Run
import MemEC.Lib.Threads

/-!
# Connections

The threads of a party send their messages over one socket. `Socket::send` holds
the lock of the socket until all bytes are written, however few of them a call of
`write` takes. The worker of the other party reads as much as there is, and hands
on one message after the other; what is missing of the last one it waits for.

The messages are handed on in the order in which the lock was taken for them, each
as it was sent, whatever the calls of `write` and `read` return.
-/

namespace MemEC.Common

open MemEC.Lib

/-! ## Messages -/

/-- A message: the arguments of `generateHeader`, and what follows the header. -/
structure Packet where
  envelope : Protocol.Envelope
  payload : List UInt8
  requestTimestamp : ℕ
  isLarge : Bool

namespace Packet

/-- The message as it is written. -/
def bytes (p : Protocol) (m : Packet) : List UInt8 :=
  p.generateHeader m.envelope.magic m.envelope.receiver m.envelope.opcode m.payload.length
    m.envelope.instanceId m.envelope.requestId m.requestTimestamp m.isLarge ++ m.payload

/-- Its header as it is read. -/
def header (p q : Protocol) (m : Packet) : ProtocolHeader :=
  m.envelope.header p q m.payload.length m.requestTimestamp m.isLarge

/-- The message is for `q` and fits into its buffer. -/
structure Fits (q : Protocol) (m : Packet) : Prop where
  envelope : m.envelope.Fits q
  size : 16 + m.payload.length ≤ q.bufferSize
  requestTimestamp : m.requestTimestamp < 2 ^ 32

variable {p q : Protocol} {m : Packet}

theorem length_bytes (p : Protocol) (m : Packet) :
    (m.bytes p).length = 16 + m.payload.length := by
  rw [bytes, List.length_append, Protocol.length_generateHeader]

theorem drop_bytes (p : Protocol) (m : Packet) : (m.bytes p).drop 16 = m.payload :=
  List.drop_left' (Protocol.length_generateHeader p _ _ _ _ _ _ _ _)

end Packet

/-! ## The receiver -/

/-- What `read` and `write` return: a number of bytes, `-1` with `EAGAIN`, or `-1` with another
error. -/
inductive CallResult
  | bytes (n : ℕ)
  | again
  | error
deriving DecidableEq

/-- Where a worker is in `dispatch`: in `recv`, in front of the `while` loop or at its end, or in
`recvRem` until `expected` bytes are there. A connection that was lost is not read again. -/
inductive ReceivePhase
  | recv
  | loop
  | recvRem (expected : ℕ)
  | stopped
deriving DecidableEq

/-- A worker, with the bytes from `buffer.data` on, and what it has handed on: a header, and all
bytes behind it. -/
structure Receiver where
  phase : ReceivePhase
  data : List UInt8
  dispatched : List (ProtocolHeader × List UInt8)
deriving DecidableEq

namespace Receiver

/-- The number of bytes that `read` is asked for. -/
def wanted (q : Protocol) (r : Receiver) : ℕ :=
  match r.phase with
  | .recv => q.bufferSize - r.data.length
  | .recvRem expected => expected - r.data.length
  | .loop => 0
  | .stopped => 0

/-- `Socket::recv`, a call of `read` that finds the bytes `wire`, with what it leaves of them. The
loop goes on until it has what it wants; at first it does not wait for more than there is. The call
returns no more bytes than it is asked for, and than there are. -/
def read (q : Protocol) (wire : List UInt8) (r : Receiver) :
    CallResult → Option (Receiver × List UInt8)
  | .again =>
    match r.phase with
    | .recv => some ({ r with phase := .loop }, wire)
    | .recvRem _ => some (r, wire)
    | .loop => none
    | .stopped => none
  | .error => if r.wanted q = 0 then none else some ({ r with phase := .stopped }, wire)
  | .bytes n =>
    if r.wanted q = 0 then none
    else if n = 0 then some ({ r with phase := .stopped }, wire)
    else if n ≤ r.wanted q ∧ n ≤ wire.length then
      some ({ r with
        phase := if n = r.wanted q then .loop else r.phase
        data := r.data ++ wire.take n }, wire.drop n)
    else none

/-- `WORKER_RECEIVE_WHOLE_MESSAGE_FROM_EVENT_SOCKET` and what `dispatch` does around it: a message
that is there is handed on. After an undefined one the rest is forgotten. -/
def process (q : Protocol) (r : Receiver) : Receiver :=
  if r.data = [] then { r with phase := .recv }
  else if r.data.length < 16 then { r with phase := .recvRem 16 }
  else
    match q.parseHeader (some (Memory.place 0 r.data)) r.data.length with
    | none => { r with phase := .recv, data := [] }
    | some header =>
      if r.data.length < 16 + header.length then
        { r with phase := .recvRem (16 + header.length) }
      else
        { r with
          data := r.data.drop (16 + header.length)
          dispatched := r.dispatched ++ [(header, r.data.drop 16)] }

/-- How much a worker has still to do with what it has. -/
def work (r : Receiver) : ℕ :=
  2 * r.data.length + match r.phase with
    | .recv => if r.data = [] then 0 else 2
    | .loop => 1
    | .recvRem _ => 0
    | .stopped => 0

theorem read_dispatched {q : Protocol} {r r' : Receiver} {wire wire' : List UInt8}
    {result : CallResult} (hread : r.read q wire result = some (r', wire')) :
    r'.dispatched = r.dispatched := by
  cases result with
  | again =>
    rw [read] at hread
    split at hread <;> cases hread <;> rfl
  | error =>
    rw [read] at hread
    split_ifs at hread
    cases hread
    rfl
  | bytes n =>
    rw [read] at hread
    split_ifs at hread <;> cases hread <;> rfl

theorem process_dispatched (q : Protocol) (r : Receiver) :
    (r.process q).dispatched = r.dispatched ∨
      ∃ d, (r.process q).dispatched = r.dispatched ++ [d] := by
  rw [process]
  split_ifs
  · exact .inl rfl
  · exact .inl rfl
  · cases q.parseHeader (some (Memory.place 0 r.data)) r.data.length with
    | none => exact .inl rfl
    | some header =>
      dsimp only
      split_ifs
      · exact .inl rfl
      · exact .inr ⟨_, rfl⟩

end Receiver

/-! ## The connection -/

/-- A thread in `Socket::send`: the message and the number of bytes that are written. -/
structure Sending (ι : Type) where
  thread : ι
  message : Packet
  bytes : ℕ

/-- The threads with the messages that they have to send, the one that has the lock, and the bytes
on their way. `log` has the messages for which the lock was taken; those of which no byte could be
written are in `failed`. `lost` is the rest of a message that was cut off. -/
structure Connection (ι : Type) where
  todo : ι → List Packet
  writeLock : Option (Sending ι)
  wire : List UInt8
  receiver : Receiver
  log : List (ι × Packet)
  failed : List (ι × Packet)
  lost : List UInt8

/-- A thread takes the lock, a call of `write` or `read` returns, or a worker looks at what it
has. -/
inductive ConnectionAction (ι : Type)
  | lock (thread : ι)
  | write (result : CallResult)
  | read (result : CallResult)
  | process
deriving DecidableEq

namespace Connection

variable {ι : Type} [DecidableEq ι] (p q : Protocol)

/-- The bytes of the message under the lock that are not yet written. -/
def unsent (s : Connection ι) : List UInt8 :=
  match s.writeLock with
  | none => []
  | some w => (w.message.bytes p).drop w.bytes

/-- `Socket::send` gives up. -/
def giveUp (s : Connection ι) (w : Sending ι) : Connection ι :=
  if w.bytes = 0 then
    { s with
      writeLock := none
      log := s.log.dropLast
      failed := s.failed ++ [(w.thread, w.message)] }
  else { s with writeLock := none, lost := s.lost ++ s.unsent p }

/-- `Socket::send`, a call of `write`, which takes no more bytes than it is given. -/
def write (s : Connection ι) (w : Sending ι) : CallResult → Option (Connection ι)
  | .again => some s
  | .error => some (s.giveUp p w)
  | .bytes n =>
    if n = 0 then some (s.giveUp p w)
    else if n ≤ (s.unsent p).length then
      some { s with
        writeLock := if n = (s.unsent p).length then none else some { w with bytes := w.bytes + n }
        wire := s.wire ++ (s.unsent p).take n }
    else none

def step (s : Connection ι) : ConnectionAction ι → Option (Connection ι)
  | .lock t =>
    match s.writeLock, s.todo t with
    | none, m :: rest =>
      some { s with
        todo := Function.update s.todo t rest
        writeLock := some ⟨t, m, 0⟩
        log := s.log ++ [(t, m)] }
    | _, _ => none
  | .write result => s.writeLock.bind fun w => s.write p w result
  | .read result =>
    (s.receiver.read q s.wire result).map fun r => { s with receiver := r.1, wire := r.2 }
  | .process =>
    if s.receiver.phase = .loop then some { s with receiver := s.receiver.process q } else none

/-- Before the first message. -/
def start (todo : ι → List Packet) : Connection ι :=
  ⟨todo, none, [], ⟨.recv, [], []⟩, [], [], []⟩

/-- A socket takes no byte after it has cut off a message. -/
def Allowed (s : Connection ι) : ConnectionAction ι → Prop
  | .write (.bytes n) => n = 0 ∨ s.lost = []
  | _ => True

instance (s : Connection ι) : DecidablePred s.Allowed := fun a =>
  match a with
  | .write (.bytes _) => inferInstanceAs (Decidable (_ ∨ _))
  | .write .again => .isTrue trivial
  | .write .error => .isTrue trivial
  | .lock _ => .isTrue trivial
  | .read _ => .isTrue trivial
  | .process => .isTrue trivial

end Connection

/-! ## One step -/

namespace Packet

variable {p q : Protocol} {m : Packet}

theorem Fits.length_lt (hm : m.Fits q) : m.payload.length < 2 ^ 32 :=
  lt_of_le_of_lt (Nat.le_trans (Nat.le_add_left _ 16) hm.size) q.bufferSize_lt

/-- The header of a message is read from the bytes that are there, if these are enough. -/
theorem Fits.parseHeader_eq (hm : m.Fits q) {data sent rest : List UInt8}
    (h : m.bytes p ++ sent = data ++ rest) (hlen : 16 ≤ data.length) :
    q.parseHeader (some (Memory.place 0 data)) data.length = some (m.header p q) := by
  have htake : data.take 16 = (m.bytes p).take 16 := by
    have hbytes : 16 ≤ (m.bytes p).length := (m.length_bytes p).symm ▸ Nat.le_add_right 16 _
    have htaken : (data ++ rest).take 16 = data.take 16 := List.take_append_of_le_length hlen
    rw [← htaken, ← h, List.take_append_of_le_length hbytes]
  have hheld : (Memory.place 0 data).Holds 0 ((m.bytes p).take 16 ++ data.drop 16) := by
    rw [← htake, List.take_append_drop]
    exact Memory.holds_write 0 0 data
  rw [bytes, List.take_left' (Protocol.length_generateHeader p _ _ _ _ _ _ _ _),
    Memory.holds_append] at hheld
  exact Protocol.parseHeader_generateHeader hheld.1 hlen hm.envelope.receiver hm.envelope.opcode
    hm.length_lt hm.envelope.instanceId hm.envelope.requestId hm.requestTimestamp

/-- A message that is handed on: its header, and its payload with bytes of later messages behind. -/
structure Delivered (p q : Protocol) (d : ProtocolHeader × List UInt8) (m : Packet) : Prop where
  header : d.1 = m.header p q
  payload : m.payload <+: d.2

end Packet

namespace Connection

variable {ι : Type} {p q : Protocol} {s s' : Connection ι}

/-- The bytes of the messages of the log that the worker has not handed on. -/
def remaining (p : Protocol) (s : Connection ι) : List UInt8 :=
  s.receiver.data ++ s.wire ++ s.lost ++ s.unsent p

/-- The worker does not fill its buffer without looking at it, and waits only for a message of which
it has some bytes, never for more than its buffer takes. -/
def PhaseInv (p q : Protocol) (r : Receiver) (pending : List (ι × Packet)) : Prop :=
  match r.phase with
  | .recv => 0 < q.bufferSize → r.data.length < q.bufferSize
  | .recvRem expected => r.data ≠ [] ∧ r.data.length < expected ∧ expected ≤ q.bufferSize ∧
      ∃ e ∈ pending.head?, expected ≤ (e.2.bytes p).length
  | .loop => True
  | .stopped => True

/-- The messages handed on are the first ones of the log, and the bytes of the others are those that
are left. -/
structure InOrder (p q : Protocol) (s : Connection ι) (done pending : List (ι × Packet)) : Prop where
  log : s.log = done ++ pending
  delivered : List.Forall₂ (fun d e => Packet.Delivered p q d e.2) s.receiver.dispatched done
  bytes : (pending.flatMap fun e => e.2.bytes p) = s.remaining p
  phase : PhaseInv p q s.receiver pending

structure Inv [DecidableEq ι] (p q : Protocol) (todo : ι → List Packet) (s : Connection ι) :
    Prop where
  todoFits : ∀ t, ∀ m ∈ s.todo t, m.Fits q
  logFits : ∀ e ∈ s.log, e.2.Fits q
  sending : ∀ w, s.writeLock = some w →
    w.bytes < (w.message.bytes p).length ∧ ∃ l, s.log = l ++ [(w.thread, w.message)]
  inOrder : ∃ done pending, s.InOrder p q done pending
  sublist : ∀ t, (entriesOf t s.log ++ s.todo t).Sublist (todo t)
  complete : s.failed = [] → ∀ t, entriesOf t s.log ++ s.todo t = todo t

theorem Inv.start [DecidableEq ι] {todo : ι → List Packet}
    (h : ∀ t, ∀ m ∈ todo t, m.Fits q) : Inv p q todo (start todo) where
  todoFits := h
  logFits _ he := absurd he List.not_mem_nil
  sending _ hw := nomatch hw
  inOrder := ⟨[], [], rfl, .nil, rfl, id⟩
  sublist _ := List.Sublist.refl _
  complete _ _ := rfl

/-- Later messages do not matter to the worker. -/
theorem PhaseInv.of_head {r : Receiver} {pending pending' : List (ι × Packet)}
    (h : PhaseInv p q r pending)
    (hhead : r.data ≠ [] → ∀ e ∈ pending.head?, e ∈ pending'.head?) : PhaseInv p q r pending' := by
  unfold PhaseInv at h ⊢
  cases hphase : r.phase with
  | recv =>
    rw [hphase] at h
    exact h
  | recvRem expected =>
    rw [hphase] at h
    obtain ⟨hdata, hlt, hle, e, he, hsize⟩ := h
    exact ⟨hdata, hlt, hle, e, hhead hdata e he, hsize⟩
  | loop => trivial
  | stopped => trivial

/-- The worker has got `bs`. -/
theorem PhaseInv.received {r : Receiver} {pending : List (ι × Packet)}
    (h : PhaseInv p q r pending) {n : ℕ} {bs : List UInt8} (hn : n ≤ r.wanted q)
    (hbs : bs.length = n) :
    PhaseInv p q { r with
      phase := if n = r.wanted q then .loop else r.phase
      data := r.data ++ bs } pending := by
  by_cases hall : n = r.wanted q
  · rw [if_pos hall]
    trivial
  · rw [if_neg hall]
    unfold Receiver.wanted at hn hall
    unfold PhaseInv at h ⊢
    dsimp only
    rw [List.length_append, hbs]
    cases hphase : r.phase with
    | recv =>
      rw [hphase] at h hn hall
      intro hpos
      have := h hpos
      dsimp only at hn hall
      omega
    | recvRem expected =>
      rw [hphase] at h hn hall
      obtain ⟨hdata, hlt, hle, hhead⟩ := h
      dsimp only at hn hall
      exact ⟨fun hnil => hdata (List.append_eq_nil_iff.mp hnil).1, by omega, hle, hhead⟩
    | loop => trivial
    | stopped => trivial

section Step

variable [DecidableEq ι] {todo : ι → List Packet}

theorem Inv.lock (h : Inv p q todo s) {t : ι} (hstep : step p q s (.lock t) = some s') :
    Inv p q todo s' := by
  rw [step] at hstep
  split at hstep
  next m rest hfree htodo =>
    obtain rfl := Option.some.inj hstep
    obtain ⟨done, pending, hlog, hdelivered, hbytes, hphase⟩ := h.inOrder
    have hm : m.Fits q := h.todoFits t m (htodo ▸ List.mem_cons_self)
    have hunsent : s.unsent p = [] := by rw [unsent, hfree]
    have hremaining : s.remaining p ++ m.bytes p =
        s.receiver.data ++ s.wire ++ s.lost ++ (m.bytes p).drop 0 := by
      rw [remaining, hunsent, List.append_nil, List.drop_zero]
    have horder : ∀ u, entriesOf u (s.log ++ [(t, m)]) ++ Function.update s.todo t rest u =
        entriesOf u s.log ++ s.todo u := by
      intro u
      by_cases hu : u = t
      · subst hu
        rw [entriesOf_append, Function.update_self, htodo, List.append_assoc]
        simp [entriesOf]
      · rw [entriesOf_append, Function.update_of_ne hu]
        simp [entriesOf, Ne.symm hu]
    have hrest : ∀ u, ∀ x ∈ Function.update s.todo t rest u, x.Fits q := by
      intro u x hx
      by_cases hu : u = t
      · subst hu
        rw [Function.update_self] at hx
        exact h.todoFits u x (htodo ▸ List.mem_cons_of_mem m hx)
      · rw [Function.update_of_ne hu] at hx
        exact h.todoFits u x hx
    exact
      { todoFits := hrest
        logFits := by
          intro e he
          rcases List.mem_append.mp he with he | he
          · exact h.logFits e he
          · obtain rfl := List.mem_singleton.mp he
            exact hm
        sending := by
          intro w hw
          obtain rfl := Option.some.inj hw
          refine ⟨?_, s.log, rfl⟩
          rw [m.length_bytes]
          exact Nat.add_pos_left (by norm_num) _
        inOrder := by
          refine ⟨done, pending ++ [(t, m)], ?_, hdelivered, ?_, ?_⟩
          · rw [hlog, List.append_assoc]
          · rw [List.flatMap_append, hbytes, List.flatMap_singleton]
            exact hremaining
          · exact hphase.of_head fun _ e he => List.mem_head?_append_of_mem_head? he
        sublist := fun u => (horder u).symm ▸ h.sublist u
        complete := fun hfailed u => (horder u).trans (h.complete hfailed u) }
  next => cases hstep

/-- Without a byte written, the message is taken back; with some, its rest is lost. -/
theorem Inv.giveUp (h : Inv p q todo s) {w : Sending ι} (hw : s.writeLock = some w) :
    Inv p q todo (s.giveUp p w) := by
  obtain ⟨done, pending, hlog, hdelivered, hbytes, hphase⟩ := h.inOrder
  obtain ⟨hlt, l, hlast⟩ := h.sending w hw
  have hunsent : s.unsent p = (w.message.bytes p).drop w.bytes := by rw [unsent, hw]
  rw [Connection.giveUp]
  split_ifs with hzero
  · -- the log ends with the message, which is not handed on
    have hpending : ∃ l', pending = l' ++ [(w.thread, w.message)] ∧ l = done ++ l' := by
      rcases List.eq_nil_or_concat pending with rfl | ⟨l', e, rfl⟩
      · have hnil := congrArg List.length hbytes
        simp only [remaining, hunsent, List.flatMap_nil, List.length_nil, List.length_append,
          List.length_drop] at hnil
        omega
      · rw [List.concat_eq_append] at hlog ⊢
        rw [hlast, ← List.append_assoc] at hlog
        obtain ⟨hl, he⟩ := List.append_inj' hlog rfl
        exact ⟨l', by rw [List.singleton_inj.mp he], hl⟩
    obtain ⟨l', rfl, rfl⟩ := hpending
    have hdrop : s.log.dropLast = done ++ l' := by rw [hlast, List.dropLast_concat]
    have hleft : l'.flatMap (fun e => e.2.bytes p) = s.receiver.data ++ s.wire ++ s.lost := by
      rw [List.flatMap_append, List.flatMap_singleton, remaining, hunsent, hzero,
        List.drop_zero] at hbytes
      exact List.append_cancel_right hbytes
    exact
      { todoFits := h.todoFits
        logFits := fun e he => h.logFits e (List.mem_of_mem_dropLast he)
        sending := fun w hw => nomatch hw
        inOrder := by
          refine ⟨done, l', hdrop, hdelivered, hleft.trans (List.append_nil _).symm,
            hphase.of_head fun hdata e he => ?_⟩
          cases l' with
          | nil =>
            rw [List.flatMap_nil, List.append_assoc] at hleft
            exact absurd (List.append_eq_nil_iff.mp hleft.symm).1 hdata
          | cons e' l' => exact he
        sublist := by
          intro t
          refine (List.Sublist.append_right ?_ _).trans (h.sublist t)
          exact ((List.dropLast_sublist _).filter _).map _
        complete := by
          intro hfailed
          exact absurd hfailed (by simp) }
  · have hremaining : s.remaining p = s.receiver.data ++ s.wire ++ (s.lost ++ s.unsent p) ++ [] := by
      rw [remaining, List.append_nil, List.append_assoc _ s.lost]
    exact
      { todoFits := h.todoFits
        logFits := h.logFits
        sending := fun w hw => nomatch hw
        inOrder := ⟨done, pending, hlog, hdelivered, hbytes.trans hremaining, hphase⟩
        sublist := h.sublist
        complete := h.complete }

theorem Inv.write (h : Inv p q todo s) {result : CallResult}
    (hallowed : s.Allowed (.write result)) (hstep : step p q s (.write result) = some s') :
    Inv p q todo s' := by
  obtain ⟨w, hw, hwrite⟩ := Option.bind_eq_some_iff.mp hstep
  obtain ⟨hlt, hlast⟩ := h.sending w hw
  have hunsent : s.unsent p = (w.message.bytes p).drop w.bytes := by rw [unsent, hw]
  cases result with
  | again =>
    obtain rfl := Option.some.inj hwrite
    exact h
  | error =>
    obtain rfl := Option.some.inj hwrite
    exact h.giveUp hw
  | bytes n =>
    by_cases hzero : n = 0
    · rw [Connection.write, if_pos hzero] at hwrite
      obtain rfl := Option.some.inj hwrite
      exact h.giveUp hw
    by_cases hle : n ≤ (s.unsent p).length
    · rw [Connection.write, if_neg hzero, if_pos hle] at hwrite
      obtain rfl := Option.some.inj hwrite
      obtain ⟨done, pending, hlog, hdelivered, hbytes, hphase⟩ := h.inOrder
      have hlost : s.lost = [] := hallowed.resolve_left hzero
      have hlen : (s.unsent p).length = (w.message.bytes p).length - w.bytes := by
        rw [hunsent, List.length_drop]
      -- what is written moves from the one to the other
      have hmoved : ∀ l, l = (s.unsent p).drop n →
          s.remaining p = s.receiver.data ++ (s.wire ++ (s.unsent p).take n) ++ s.lost ++ l := by
        rintro _ rfl
        simp only [remaining, hlost, List.append_nil, List.append_assoc, List.take_append_drop]
      refine ⟨h.todoFits, h.logFits, ?_, ⟨done, pending, hlog, hdelivered, ?_, hphase⟩, h.sublist,
        h.complete⟩
      · intro w' hw'
        by_cases hall : n = (s.unsent p).length
        · rw [if_pos hall] at hw'
          cases hw'
        · rw [if_neg hall] at hw'
          obtain rfl := Option.some.inj hw'
          refine ⟨?_, hlast⟩
          dsimp only
          omega
      · rw [hbytes]
        refine hmoved _ ?_
        by_cases hall : n = (s.unsent p).length
        · rw [if_pos hall, hall, List.drop_length]
          rfl
        · rw [if_neg hall, hunsent, List.drop_drop]
          rfl
    · rw [Connection.write, if_neg hzero, if_neg hle] at hwrite
      cases hwrite

theorem Inv.read (h : Inv p q todo s) {result : CallResult}
    (hstep : step p q s (.read result) = some s') : Inv p q todo s' := by
  obtain ⟨⟨r, wire⟩, hread, rfl⟩ := Option.map_eq_some_iff.mp hstep
  obtain ⟨done, pending, hlog, hdelivered, hbytes, hphase⟩ := h.inOrder
  suffices hr : r.dispatched = s.receiver.dispatched ∧
      r.data ++ wire = s.receiver.data ++ s.wire ∧ PhaseInv p q r pending by
    obtain ⟨hdispatched, hdata, hphase'⟩ := hr
    refine ⟨h.todoFits, h.logFits, h.sending, ⟨done, pending, hlog, ?_, ?_, hphase'⟩, h.sublist,
      h.complete⟩
    · exact hdispatched ▸ hdelivered
    · rw [hbytes]
      change s.receiver.data ++ s.wire ++ s.lost ++ s.unsent p = r.data ++ wire ++ s.lost ++ _
      rw [hdata]
      rfl
  cases result with
  | again =>
    rw [Receiver.read] at hread
    split at hread
    · obtain ⟨rfl, rfl⟩ := Prod.mk.inj (Option.some.inj hread)
      exact ⟨rfl, rfl, trivial⟩
    · obtain ⟨rfl, rfl⟩ := Prod.mk.inj (Option.some.inj hread)
      exact ⟨rfl, rfl, hphase⟩
    · cases hread
    · cases hread
  | error =>
    rw [Receiver.read] at hread
    split_ifs at hread
    obtain ⟨rfl, rfl⟩ := Prod.mk.inj (Option.some.inj hread)
    exact ⟨rfl, rfl, trivial⟩
  | bytes n =>
    by_cases hwanted : s.receiver.wanted q = 0
    · rw [Receiver.read, if_pos hwanted] at hread
      cases hread
    by_cases hzero : n = 0
    · rw [Receiver.read, if_neg hwanted, if_pos hzero] at hread
      obtain ⟨rfl, rfl⟩ := Prod.mk.inj (Option.some.inj hread)
      exact ⟨rfl, rfl, trivial⟩
    by_cases hle : n ≤ s.receiver.wanted q ∧ n ≤ s.wire.length
    · rw [Receiver.read, if_neg hwanted, if_neg hzero, if_pos hle] at hread
      obtain ⟨rfl, rfl⟩ := Prod.mk.inj (Option.some.inj hread)
      refine ⟨rfl, ?_, hphase.received hle.1 (List.length_take_of_le hle.2)⟩
      rw [List.append_assoc, List.take_append_drop]
    · rw [Receiver.read, if_neg hwanted, if_neg hzero, if_neg hle] at hread
      cases hread

theorem Inv.process (h : Inv p q todo s) (hstep : step p q s .process = some s') :
    Inv p q todo s' := by
  rw [step] at hstep
  split_ifs at hstep with hloop
  obtain rfl := Option.some.inj hstep
  obtain ⟨done, pending, hlog, hdelivered, hbytes, hphase⟩ := h.inOrder
  suffices hr : ∃ done pending, s.log = done ++ pending ∧
      List.Forall₂ (fun d e => Packet.Delivered p q d e.2) (s.receiver.process q).dispatched done ∧
      (pending.flatMap fun e => e.2.bytes p) =
        (s.receiver.process q).data ++ (s.wire ++ s.lost ++ s.unsent p) ∧
      PhaseInv p q (s.receiver.process q) pending by
    obtain ⟨done', pending', hlog', hdelivered', hbytes', hphase'⟩ := hr
    refine ⟨h.todoFits, h.logFits, h.sending, ⟨done', pending', hlog', hdelivered', ?_, hphase'⟩,
      h.sublist, h.complete⟩
    rw [hbytes', ← List.append_assoc, ← List.append_assoc]
    rfl
  have hrest : s.remaining p = s.receiver.data ++ (s.wire ++ s.lost ++ s.unsent p) := by
    simp only [remaining, List.append_assoc]
  rw [hrest] at hbytes
  rw [Receiver.process]
  by_cases hnil : s.receiver.data = []
  · rw [if_pos hnil]
    refine ⟨done, pending, hlog, hdelivered, hbytes, fun hpos => ?_⟩
    rw [hnil]
    exact hpos
  -- the bytes that are there are the first ones of the next message
  rw [if_neg hnil]
  cases pending with
  | nil => exact absurd (List.append_eq_nil_iff.mp hbytes.symm).1 hnil
  | cons e pending =>
    have hfits : e.2.Fits q := h.logFits e (hlog ▸ List.mem_append_right _ List.mem_cons_self)
    have hsize := hfits.size
    rw [List.flatMap_cons] at hbytes
    by_cases hshort : s.receiver.data.length < 16
    · rw [if_pos hshort]
      refine ⟨done, e :: pending, hlog, hdelivered, hbytes, hnil, hshort, by omega, e, rfl, ?_⟩
      rw [e.2.length_bytes]
      exact Nat.le_add_right 16 _
    rw [if_neg hshort, hfits.parseHeader_eq hbytes (Nat.le_of_not_lt hshort)]
    have hlength : (e.2.header p q).length = e.2.payload.length := rfl
    dsimp only
    rw [hlength]
    by_cases hpart : s.receiver.data.length < 16 + e.2.payload.length
    · rw [if_pos hpart]
      exact ⟨done, e :: pending, hlog, hdelivered, hbytes, hnil, hpart, hsize, e, rfl,
        (e.2.length_bytes p).ge⟩
    rw [if_neg hpart]
    obtain ⟨later, hlater⟩ : e.2.bytes p <+: s.receiver.data := by
      refine List.prefix_of_prefix_length_le ⟨_, hbytes⟩ ⟨_, rfl⟩ ?_
      rw [e.2.length_bytes]
      exact Nat.le_of_not_lt hpart
    have hdrop : s.receiver.data.drop (16 + e.2.payload.length) = later := by
      rw [← hlater, List.drop_left' (e.2.length_bytes p)]
    have hhanded : s.receiver.data.drop 16 = e.2.payload ++ later := by
      rw [← hlater, List.drop_append_of_le_length ((e.2.length_bytes p).symm ▸ Nat.le_add_right _ _),
        e.2.drop_bytes]
    refine ⟨done ++ [e], pending, ?_, ?_, ?_, ?_⟩
    · rw [hlog, List.append_assoc]
      rfl
    · exact List.rel_append hdelivered (.cons ⟨rfl, hhanded ▸ List.prefix_append _ _⟩ .nil)
    · rw [hdrop]
      rw [← hlater, List.append_assoc] at hbytes
      exact List.append_cancel_left hbytes
    · unfold PhaseInv
      dsimp only
      rw [hloop]
      trivial

theorem Inv.step (h : Inv p q todo s) {a : ConnectionAction ι} (hallowed : s.Allowed a)
    (hstep : step p q s a = some s') : Inv p q todo s' := by
  cases a with
  | lock t => exact h.lock hstep
  | write result => exact h.write hallowed hstep
  | read result => exact h.read hstep
  | process => exact h.process hstep

/-- What a step does to the worker. -/
theorem receiver_of_step {a : ConnectionAction ι} (hstep : Connection.step p q s a = some s') :
    s'.receiver = s.receiver ∨
    (∃ result wire, s.receiver.read q s.wire result = some (s'.receiver, wire)) ∨
    s'.receiver = s.receiver.process q := by
  cases a with
  | lock t =>
    rw [Connection.step] at hstep
    split at hstep
    · obtain rfl := Option.some.inj hstep
      exact .inl rfl
    · cases hstep
  | write result =>
    obtain ⟨w, hw, hwrite⟩ := Option.bind_eq_some_iff.mp hstep
    refine .inl ?_
    unfold Connection.write Connection.giveUp at hwrite
    cases result with
    | again =>
      obtain rfl := Option.some.inj hwrite
      rfl
    | error =>
      obtain rfl := Option.some.inj hwrite
      split_ifs <;> rfl
    | bytes n =>
      dsimp only at hwrite
      split_ifs at hwrite <;> obtain rfl := Option.some.inj hwrite <;> rfl
  | read result =>
    obtain ⟨⟨r, wire⟩, hread, rfl⟩ := Option.map_eq_some_iff.mp hstep
    exact .inr (.inl ⟨result, wire, hread⟩)
  | process =>
    rw [Connection.step] at hstep
    split_ifs at hstep
    obtain rfl := Option.some.inj hstep
    exact .inr (.inr rfl)

/-- A step hands on at most one message. -/
theorem dispatched_of_step {a : ConnectionAction ι} (hstep : Connection.step p q s a = some s') :
    s'.receiver.dispatched = s.receiver.dispatched ∨
      ∃ d, s'.receiver.dispatched = s.receiver.dispatched ++ [d] := by
  rcases receiver_of_step hstep with hsame | ⟨result, wire, hread⟩ | hprocess
  · exact .inl (congrArg Receiver.dispatched hsame)
  · exact .inl (Receiver.read_dispatched hread)
  · rw [hprocess]
    exact s.receiver.process_dispatched q

end Step

/-! ## Runs -/

section Runs

variable [DecidableEq ι] {todo : ι → List Packet} {ops : List (ConnectionAction ι)}

/-- A worker reads into its buffer, and not past it. -/
theorem Inv.wanted_le (h : Inv p q todo s) :
    0 < s.receiver.wanted q → s.receiver.data.length + s.receiver.wanted q ≤ q.bufferSize := by
  obtain ⟨done, pending, -, -, -, hphase⟩ := h.inOrder
  intro hpos
  unfold PhaseInv at hphase
  unfold Receiver.wanted at hpos ⊢
  cases hcase : s.receiver.phase with
  | recv =>
    rw [hcase] at hpos
    dsimp only at hpos ⊢
    omega
  | recvRem expected =>
    rw [hcase] at hpos hphase
    obtain ⟨-, hlt, hle, -⟩ := hphase
    dsimp only
    omega
  | loop => simp [hcase] at hpos
  | stopped => simp [hcase] at hpos

/-- The bytes of the worker, and those that it has handed on, are in its buffer. -/
structure Bounded (q : Protocol) (r : Receiver) : Prop where
  data : r.data.length ≤ q.bufferSize
  dispatched : ∀ d ∈ r.dispatched, d.2.length ≤ q.bufferSize

theorem Bounded.process {r : Receiver} (h : Bounded q r) : Bounded q (r.process q) := by
  rw [Receiver.process]
  by_cases hnil : r.data = []
  · rw [if_pos hnil]
    exact ⟨h.data, h.dispatched⟩
  by_cases hshort : r.data.length < 16
  · rw [if_neg hnil, if_pos hshort]
    exact ⟨h.data, h.dispatched⟩
  rw [if_neg hnil, if_neg hshort]
  cases q.parseHeader (some (Memory.place 0 r.data)) r.data.length with
  | none => exact ⟨Nat.zero_le _, h.dispatched⟩
  | some header =>
    have hdrop : ∀ n, (r.data.drop n).length ≤ q.bufferSize := fun n =>
      (List.length_drop ▸ Nat.sub_le _ n).trans h.data
    dsimp only
    split_ifs
    · exact ⟨h.data, h.dispatched⟩
    · refine ⟨hdrop _, fun d hd => ?_⟩
      rcases List.mem_append.mp hd with hd | hd
      · exact h.dispatched d hd
      · obtain rfl := List.mem_singleton.mp hd
        exact hdrop 16

theorem Bounded.read {r r' : Receiver} {wire wire' : List UInt8} {result : CallResult}
    (h : Bounded q r) (hwanted : 0 < r.wanted q → r.data.length + r.wanted q ≤ q.bufferSize)
    (hread : r.read q wire result = some (r', wire')) : Bounded q r' := by
  cases result with
  | again =>
    rw [Receiver.read] at hread
    split at hread
    · obtain ⟨rfl, -⟩ := Prod.mk.inj (Option.some.inj hread)
      exact ⟨h.data, h.dispatched⟩
    · obtain ⟨rfl, -⟩ := Prod.mk.inj (Option.some.inj hread)
      exact h
    · cases hread
    · cases hread
  | error =>
    rw [Receiver.read] at hread
    split_ifs at hread
    obtain ⟨rfl, -⟩ := Prod.mk.inj (Option.some.inj hread)
    exact ⟨h.data, h.dispatched⟩
  | bytes n =>
    by_cases hzero : r.wanted q = 0
    · rw [Receiver.read, if_pos hzero] at hread
      cases hread
    by_cases hn : n = 0
    · rw [Receiver.read, if_neg hzero, if_pos hn] at hread
      obtain ⟨rfl, -⟩ := Prod.mk.inj (Option.some.inj hread)
      exact ⟨h.data, h.dispatched⟩
    by_cases hle : n ≤ r.wanted q ∧ n ≤ wire.length
    · rw [Receiver.read, if_neg hzero, if_neg hn, if_pos hle] at hread
      obtain ⟨rfl, -⟩ := Prod.mk.inj (Option.some.inj hread)
      refine ⟨?_, h.dispatched⟩
      have hpos := hwanted (Nat.pos_of_ne_zero hzero)
      rw [List.length_append, List.length_take_of_le hle.2]
      omega
    · rw [Receiver.read, if_neg hzero, if_neg hn, if_neg hle] at hread
      cases hread

theorem Inv.bounded_step (h : Inv p q todo s) (hb : Bounded q s.receiver) {a : ConnectionAction ι}
    (hstep : Connection.step p q s a = some s') : Bounded q s'.receiver := by
  rcases receiver_of_step hstep with hsame | ⟨result, wire, hread⟩ | hprocess
  · exact hsame ▸ hb
  · exact hb.read h.wanted_le hread
  · exact hprocess ▸ hb.process

end Runs

/-! ### What is sent -/

section Sent

variable [DecidableEq ι] {α : Type} {f : α → Packet} {todo : ι → List α}

/-- Everything was sent, and nothing is on its way any more. -/
structure Settled (p : Protocol) (s : Connection ι) : Prop where
  failed : s.failed = []
  todo : ∀ t, s.todo t = []
  remaining : s.remaining p = []

omit [DecidableEq ι] in
/-- No message is without bytes. -/
theorem eq_nil_of_bytes {pending : List (ι × Packet)}
    (h : (pending.flatMap fun e => e.2.bytes p) = []) : pending = [] := by
  cases pending with
  | nil => rfl
  | cons e pending =>
    have hlength := e.2.length_bytes p
    rw [List.flatMap_cons, List.append_eq_nil_iff] at h
    rw [h.1, List.length_nil] at hlength
    omega

/-- Where the messages are written down as something else, what was handed on is the first of it for
each thread, without a failure nothing is left out, and in the end it is all of it. -/
theorem Inv.exists_dispatched (h : Inv p q (fun t => (todo t).map f) s) :
    ∃ done : List (ι × α),
      List.Forall₂ (fun d e => (f e.2).Delivered p q d) s.receiver.dispatched done ∧
      (∀ t, (entriesOf t done).Sublist (todo t)) ∧
      (s.failed = [] → ∀ t, entriesOf t done <+: todo t) ∧
      (s.Settled p → ∀ t, entriesOf t done = todo t) := by
  obtain ⟨done, pending, hlog, hdelivered, hbytes, -⟩ := h.inOrder
  have hdone : ∀ t, entriesOf t done <+: entriesOf t s.log := fun t =>
    ⟨entriesOf t pending, by rw [hlog, entriesOf_append]⟩
  suffices hl : ∃ l : ι → List α, (∀ t, entriesOf t done = (l t).map f) ∧
      (∀ t, (l t).Sublist (todo t)) ∧ (s.failed = [] → ∀ t, l t <+: todo t) ∧
      (s.Settled p → ∀ t, l t = todo t) by
    obtain ⟨l, hmap, hsub, hfirst, hall⟩ := hl
    obtain ⟨done', rfl, hentries⟩ := exists_log_of_map f hmap
    rw [List.forall₂_map_right_iff] at hdelivered
    exact ⟨done', hdelivered, fun t => hentries t ▸ hsub t, fun hf t => hentries t ▸ hfirst hf t,
      fun hs t => hentries t ▸ hall hs t⟩
  by_cases hfailed : s.failed = []
  · refine ⟨fun t => (todo t).take (entriesOf t done).length, fun t => ?_,
      fun t => List.take_sublist _ _, fun _ t => List.take_prefix _ _, fun hs t => ?_⟩
    · have hfirst : entriesOf t done <+: (todo t).map f :=
        (hdone t).trans ⟨s.todo t, h.complete hfailed t⟩
      rw [List.map_take]
      exact List.prefix_iff_eq_take.mp hfirst
    · have hnil : pending = [] := eq_nil_of_bytes (hbytes.trans hs.remaining)
      have hall := h.complete hfailed t
      rw [hs.todo t, List.append_nil, hlog, hnil, List.append_nil] at hall
      dsimp only
      rw [hall, List.length_map, List.take_length]
  · have hsub : ∀ t, ∃ l : List α, l.Sublist (todo t) ∧ entriesOf t done = l.map f := fun t =>
      List.sublist_map_iff.mp
        ((hdone t).sublist.trans ((List.sublist_append_left _ _).trans (h.sublist t)))
    choose l hl hmap using hsub
    exact ⟨l, hmap, hl, fun hnil => absurd hnil hfailed, fun hs => absurd hs.failed hfailed⟩

end Sent

/-! ### More messages -/

section Enqueue

variable [DecidableEq ι] {todo : ι → List Packet} {t u : ι} {m : Packet}

/-- A thread has another message to send. -/
def enqueue (s : Connection ι) (t : ι) (m : Packet) : Connection ι :=
  { s with todo := Function.update s.todo t (s.todo t ++ [m]) }

@[simp] theorem enqueue_todo_self (s : Connection ι) (t : ι) (m : Packet) :
    (s.enqueue t m).todo t = s.todo t ++ [m] := Function.update_self t _ s.todo

@[simp] theorem enqueue_todo_of_ne (h : u ≠ t) (s : Connection ι) (m : Packet) :
    (s.enqueue t m).todo u = s.todo u := Function.update_of_ne h _ s.todo

@[simp] theorem enqueue_log (s : Connection ι) (t : ι) (m : Packet) :
    (s.enqueue t m).log = s.log := rfl

theorem Inv.enqueue (h : Inv p q todo s) (hm : m.Fits q) :
    Inv p q (Function.update todo t (todo t ++ [m])) (s.enqueue t m) where
  todoFits u x hx := by
    by_cases hu : u = t
    · subst hu
      rw [enqueue_todo_self] at hx
      rcases List.mem_append.mp hx with hx | hx
      · exact h.todoFits u x hx
      · exact List.mem_singleton.mp hx ▸ hm
    · rw [enqueue_todo_of_ne hu] at hx
      exact h.todoFits u x hx
  logFits := h.logFits
  sending := h.sending
  inOrder := by
    obtain ⟨done, pending, hlog, hdelivered, hbytes, hphase⟩ := h.inOrder
    exact ⟨done, pending, hlog, hdelivered, hbytes, hphase⟩
  sublist u := by
    by_cases hu : u = t
    · subst hu
      rw [enqueue_todo_self, Function.update_self, enqueue_log, ← List.append_assoc]
      exact (h.sublist u).append (List.Sublist.refl [m])
    · rw [enqueue_todo_of_ne hu, Function.update_of_ne hu]
      exact h.sublist u
  complete hfailed u := by
    by_cases hu : u = t
    · subst hu
      rw [enqueue_todo_self, Function.update_self, enqueue_log, ← List.append_assoc,
        h.complete hfailed u]
    · rw [enqueue_todo_of_ne hu, Function.update_of_ne hu]
      exact h.complete hfailed u

end Enqueue

/-! ### Progress -/

section Progress

variable [DecidableEq ι] {todo : ι → List Packet} {ops : List (ConnectionAction ι)}

/-- Nothing has failed. -/
structure Healthy (s : Connection ι) : Prop where
  failed : s.failed = []
  lost : s.lost = []
  phase : s.receiver.phase ≠ .stopped

/-- How far it is to the end. -/
def rank [Fintype ι] (p : Protocol) (s : Connection ι) : ℕ :=
  7 * ∑ t, ((s.todo t).map fun m => (m.bytes p).length).sum + 6 * (s.unsent p).length +
    5 * s.wire.length + s.receiver.work

/-- Some step brings the end nearer. -/
def Progress [Fintype ι] (p q : Protocol) (s : Connection ι) : Prop :=
  ∃ a s', step p q s a = some s' ∧ s.Allowed a ∧ s'.Healthy ∧ s'.rank p < s.rank p

variable [Fintype ι]

end Progress

/-! ### An example -/

/-- A party with a buffer of 40 bytes. -/
def peer (sender receiver : UInt8) : Protocol := ⟨sender, receiver, 40, 0, by decide⟩

end Connection

end MemEC.Common
