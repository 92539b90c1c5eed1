import MemEC.Common.Key
import MemEC.Lib.Ring
import MemEC.Lib.Run
import MemEC.Lib.Threads

/-!
# The event queue

Producers put events into a normal queue or into one for prioritized events, and
consumers take them out, the prioritized ones first. A consumer that finds neither
waits at the normal queue only. So a producer that has put an event into the other
one looks whether the normal queue has got shorter, and puts a dummy event there if
it has.

A step is what one thread does while it holds one mutex. The queues have been
started, and the normal one is blocking.
-/

namespace MemEC.Common

open MemEC.Lib

/-! ## The ring buffer -/

/-- `RingBuffer`. -/
structure RingBuffer (T : Type) where
  readIndex : ℕ
  writeIndex : ℕ
  count : ℕ
  max : ℕ
  buffer : ℕ → T

namespace RingBuffer

variable {T : Type}

/-- The constructor, whose parameter is an `int`. -/
def init [Inhabited T] (size : UInt32) : RingBuffer T where
  readIndex := 0
  writeIndex := 0
  count := 0
  max := if size.toNat < 2 ∨ 2 ^ 31 ≤ size.toNat then 2 else size.toNat
  buffer := fun _ => default

variable (r : RingBuffer T)

def nextVal (x : ℕ) : ℕ := if r.max ≤ x + 1 then 0 else x + 1

/-- `Insert`, with `none` as long as the buffer is full. -/
def insert (data : T) : Option (RingBuffer T) :=
  if r.count = r.max then none
  else some { r with
    buffer := Function.update r.buffer r.writeIndex data
    writeIndex := r.nextVal r.writeIndex
    count := r.count + 1 }

/-- `Extract`, with `none` when the buffer is empty. -/
def extract : Option (RingBuffer T × T) :=
  if r.count = 0 then none
  else some ({ r with
    readIndex := r.nextVal r.readIndex
    count := r.count - 1 }, r.buffer r.readIndex)

end RingBuffer

/-- A ring buffer with all that has been inserted and all that has been extracted. -/
structure Channel (T : Type) where
  ring : RingBuffer T
  inserted : List T
  extracted : List T

namespace Channel

variable {T : Type}

def init [Inhabited T] (size : UInt32) : Channel T := ⟨.init size, [], []⟩

variable (q : Channel T)

def insert (data : T) : Option (Channel T) :=
  (q.ring.insert data).map fun ring => { q with ring, inserted := q.inserted ++ [data] }

def extract : Option (Channel T) :=
  q.ring.extract.map fun (ring, data) => { q with ring, extracted := q.extracted ++ [data] }

/-- The buffer holds what has been inserted and not been extracted, in this order. -/
def Sound : Prop :=
  2 ≤ q.ring.max ∧ ∃ xs, RingHolds q.ring.max q.ring.buffer q.ring.readIndex q.ring.writeIndex xs ∧
    q.ring.count = xs.length ∧ q.inserted = q.extracted ++ xs

variable {q} {q' : Channel T} {data : T}

theorem sound_init [Inhabited T] (size : UInt32) : (init size : Channel T).Sound := by
  refine ⟨?_, [], ringHolds_nil _ _, rfl, rfl⟩
  simp only [init, RingBuffer.init]
  split_ifs <;> omega

theorem Sound.insert (h : q.Sound) (hq' : q.insert data = some q') :
    q'.Sound ∧ q'.inserted = q.inserted ++ [data] ∧ q'.extracted = q.extracted ∧
      q'.ring.count = q.ring.count + 1 := by
  obtain ⟨hmax, xs, hxs, hcount, hin⟩ := h
  obtain ⟨ring, hring, rfl⟩ := Option.map_eq_some_iff.mp hq'
  unfold RingBuffer.insert at hring
  split_ifs at hring with hfull
  obtain rfl := Option.some.inj hring
  have hle := hxs.length_le
  refine ⟨⟨hmax, xs ++ [data], hxs.push (by omega) data, ?_, ?_⟩, rfl, rfl, rfl⟩
  · rw [List.length_append, hcount]
    rfl
  · dsimp only
    rw [hin, List.append_assoc]

theorem Sound.extract (h : q.Sound) (hq' : q.extract = some q') :
    q'.Sound ∧ q'.inserted = q.inserted ∧ q'.ring.count + 1 = q.ring.count := by
  obtain ⟨hmax, xs, hxs, hcount, hin⟩ := h
  obtain ⟨⟨ring, data⟩, hring, rfl⟩ := Option.map_eq_some_iff.mp hq'
  unfold RingBuffer.extract at hring
  split_ifs at hring with hempty
  obtain ⟨rfl, rfl⟩ := Prod.mk.inj (Option.some.inj hring)
  cases xs with
  | nil => exact absurd hcount hempty
  | cons x xs =>
    obtain ⟨hx, hrest⟩ := hxs.pop
    rw [List.length_cons] at hcount
    refine ⟨⟨hmax, xs, hrest, ?_, ?_⟩, rfl, ?_⟩
    · dsimp only
      omega
    · dsimp only
      rw [hin, hx, List.append_assoc, List.singleton_append]
    · dsimp only
      omega

/-- What comes out comes out in the order in which it went in. -/
theorem Sound.in_order (h : q.Sound) : q.extracted <+: q.inserted := by
  obtain ⟨-, xs, -, -, hin⟩ := h
  exact ⟨xs, hin.symm⟩

theorem extract_eq_none_iff : q.extract = none ↔ q.ring.count = 0 := by
  simp only [extract, RingBuffer.extract, Option.map_eq_none_iff]
  split_ifs with h <;> simp [h]

/-- There is room in an empty buffer. -/
theorem Sound.insert_of_empty (h : q.Sound) (hempty : q.ring.count = 0) (data : T) :
    ∃ q', q.insert data = some q' := by
  have hmax := h.1
  have hroom : q.ring.count ≠ q.ring.max := by omega
  exact ⟨_, congrArg (Option.map _) (if_neg hroom)⟩

end Channel

/-! ## Producers and consumers -/

/-- Where a producer is. The number is what it took for `count`. A mixed event is `none` for a dummy
event. -/
inductive Producer (E : Type)
  | idle
  | inserting (mixedEvent : Option E)
  | counted (event : E) (count : ℕ)
  | locked (event : E) (count : ℕ)
  | admitted (event : E) (count : ℕ)
  | inserted (count : ℕ)
  | checking (count : ℕ)

/-- Where a consumer is in `extractMixed`. -/
inductive Consumer
  | extracting
  | extracted
  | locked
  | waiting
deriving DecidableEq

/-- `EventQueue` with the threads that use it. `calls` are the events that `insert` and
`prioritizedInsert` were called with. -/
structure EventQueue (E P C : Type) where
  mixed : Channel (Option E)
  priority : Channel (Option E)
  capacity : ℕ
  count : ℕ
  locked : Bool
  producers : P → Producer E
  consumers : C → Consumer
  calls : List E

/-- What happens next: a producer calls `insert` or `prioritizedInsert`, or a thread goes on. -/
inductive EventQueueStep (E P C : Type)
  | insert (p : P) (event : E)
  | prioritizedInsert (p : P) (event : E)
  | producer (p : P)
  | consumer (c : C)

namespace EventQueue

variable {E P C : Type}

/-- `init` and `start`. Without a queue for prioritized events nothing is ever put there. -/
def init (mixed pMixed : UInt32) : EventQueue E P C where
  mixed := .init mixed
  priority := .init pMixed
  capacity := pMixed.toNat
  count := 0
  locked := false
  producers := fun _ => .idle
  consumers := fun _ => .extracting
  calls := []

variable [DecidableEq P] [DecidableEq C] (s : EventQueue E P C)

def setProducer (p : P) (state : Producer E) : EventQueue E P C :=
  { s with producers := Function.update s.producers p state }

def setConsumer (c : C) (state : Consumer) : EventQueue E P C :=
  { s with consumers := Function.update s.consumers c state }

/-- A producer goes on, unless it has to wait. -/
def stepProducer (p : P) : Option (EventQueue E P C) :=
  match s.producers p with
  | .idle => none
  | .inserting mixedEvent =>
    (s.mixed.insert mixedEvent).map fun mixed => { s with mixed }.setProducer p .idle
  | .counted event count =>
    if count = 0 ∨ s.locked then some (s.setProducer p (.inserting (some event)))
    else some ({ s with locked := true }.setProducer p (.locked event count))
  | .locked event count =>
    if s.count < s.capacity then
      some ({ s with count := u32 (s.count + 1) }.setProducer p (.admitted event count))
    else some ({ s with locked := false }.setProducer p (.inserting (some event)))
  | .admitted event count =>
    (s.priority.insert (some event)).map fun priority =>
      { s with priority }.setProducer p (.inserted count)
  | .inserted count => some ({ s with locked := false }.setProducer p (.checking count))
  -- Avoid all worker threads are blocked by the empty normal queue
  | .checking count =>
    if s.mixed.ring.count < count then some (s.setProducer p (.inserting none))
    else some (s.setProducer p .idle)

/-- A consumer goes on, unless it has to wait. -/
def stepConsumer (c : C) : Option (EventQueue E P C) :=
  match s.consumers c with
  | .extracting =>
    match s.priority.extract with
    | some priority => some ({ s with priority }.setConsumer c .extracted)
    | none => some (s.setConsumer c .waiting)
  | .extracted =>
    if s.locked then none else some ({ s with locked := true }.setConsumer c .locked)
  | .locked => some ({ s with count := sub32 s.count 1, locked := false }.setConsumer c .extracting)
  | .waiting => s.mixed.extract.map fun mixed => { s with mixed }.setConsumer c .extracting

/-- One step. A producer makes one call at a time. -/
def step : EventQueueStep E P C → Option (EventQueue E P C)
  | .insert p event =>
    match s.producers p with
    | .idle => some ({ s with calls := s.calls ++ [event] }.setProducer p (.inserting (some event)))
    | _ => none
  | .prioritizedInsert p event =>
    match s.producers p with
    | .idle =>
      some ({ s with calls := s.calls ++ [event] }.setProducer p
        (.counted event s.mixed.ring.count))
    | _ => none
  | .producer p => s.stepProducer p
  | .consumer c => s.stepConsumer c

end EventQueue

/-! ## What holds in every state -/

namespace Producer

variable {E : Type}

/-- What a producer has added to `priority.count` for an event that it has not inserted yet. -/
def admissions : Producer E → ℕ
  | admitted _ _ => 1
  | _ => 0

/-- How often a producer is going to insert the event. -/
def carries [DecidableEq E] (e : E) : Producer E → ℕ
  | inserting mixedEvent => if mixedEvent = some e then 1 else 0
  | counted event _ | locked event _ | admitted event _ => if event = e then 1 else 0
  | _ => 0

/-- Only a producer that has seen an event in the normal queue goes for the other one. -/
def Noted : Producer E → Prop
  | locked _ count | admitted _ count | inserted count | checking count => count ≠ 0
  | _ => True

/-- A producer that is yet to compare the counts, or to insert a dummy event. -/
def Minding : Producer E → Prop
  | inserted _ | checking _ => True
  | inserting none => True
  | _ => False

end Producer

/-- What a consumer has extracted and not subtracted from `priority.count` yet. -/
def Consumer.takings : Consumer → ℕ
  | extracted | locked => 1
  | _ => 0

namespace EventQueue

variable {E P C : Type} [DecidableEq E] [DecidableEq P] [DecidableEq C] [Fintype P] [Fintype C]

structure Inv (s : EventQueue E P C) : Prop where
  mixed : s.mixed.Sound
  priority : s.priority.Sound
  count_eq : s.count = s.priority.ring.count + ∑ p, (s.producers p).admissions +
    ∑ c, (s.consumers c).takings
  count_le : s.count ≤ s.capacity
  capacity_lt : s.capacity < 2 ^ 32
  calls_eq : ∀ e, s.calls.count e = s.mixed.inserted.count (some e) +
    s.priority.inserted.count (some e) + ∑ p, (s.producers p).carries e
  noted : ∀ p, (s.producers p).Noted
  attended : s.priority.ring.count ≠ 0 → s.mixed.ring.count ≠ 0 ∨
    (∃ c, s.consumers c ≠ .waiting) ∨ ∃ p, (s.producers p).Minding

variable {s s' : EventQueue E P C}

omit [DecidableEq P] [DecidableEq C] in
theorem Inv.init (mixed pMixed : UInt32) : (init mixed pMixed : EventQueue E P C).Inv where
  mixed := Channel.sound_init mixed
  priority := Channel.sound_init pMixed
  count_eq := by simp [EventQueue.init, Channel.init, RingBuffer.init, Producer.admissions,
    Consumer.takings]
  count_le := Nat.zero_le _
  capacity_lt := pMixed.toNat_lt
  calls_eq := fun e => by simp [EventQueue.init, Channel.init, Producer.carries]
  noted := fun _ => trivial
  attended := fun h => absurd rfl h

omit [DecidableEq P] [DecidableEq C] in
/-- What a consumer is going to subtract has been added. -/
theorem Inv.count_pos (h : s.Inv) {c : C} (hc : s.consumers c = .locked) : 1 ≤ s.count := by
  have hle := weight_le_sum Consumer.takings s.consumers c
  have heq := h.count_eq
  rw [hc] at hle
  change 1 ≤ _ at hle
  omega

omit [DecidableEq C] in
/-- A step of a producer. -/
theorem Inv.of_producer (h : s.Inv) {p : P} {before : Producer E} (hp : s.producers p = before)
    (state : Producer E) (hmixed : s'.mixed.Sound) (hpriority : s'.priority.Sound)
    (hproducers : s'.producers = Function.update s.producers p state)
    (hconsumers : s'.consumers = s.consumers) (hcapacity : s'.capacity = s.capacity)
    (hcount : s'.count + before.admissions + s.priority.ring.count =
      s.count + state.admissions + s'.priority.ring.count)
    (hle : s'.count ≤ s.capacity)
    (hcalls : ∀ e, s'.calls.count e + s.mixed.inserted.count (some e) +
      s.priority.inserted.count (some e) + before.carries e =
      s.calls.count e + s'.mixed.inserted.count (some e) +
      s'.priority.inserted.count (some e) + state.carries e)
    (hnoted : state.Noted) (hgrows : s.mixed.ring.count ≤ s'.mixed.ring.count)
    (hnew : s'.priority.ring.count = s.priority.ring.count ∨ state.Minding)
    (hminding : before.Minding → state.Minding ∨ s'.mixed.ring.count ≠ 0) :
    s'.Inv where
  mixed := hmixed
  priority := hpriority
  count_eq := by
    have hsum := sum_update_add Producer.admissions s.producers p state
    have hold := h.count_eq
    rw [hp] at hsum
    rw [hproducers, hconsumers]
    omega
  count_le := hle.trans_eq hcapacity.symm
  capacity_lt := hcapacity ▸ h.capacity_lt
  calls_eq := by
    intro e
    have hsum := sum_update_add (Producer.carries e) s.producers p state
    have hold := h.calls_eq e
    have hnow := hcalls e
    rw [hp] at hsum
    rw [hproducers]
    omega
  noted := by
    intro q
    rw [hproducers]
    by_cases hq : q = p
    · rwa [hq, Function.update_self]
    · rw [Function.update_of_ne hq]
      exact h.noted q
  attended := by
    intro hne
    rw [hconsumers, hproducers]
    have hself : state.Minding → ∃ q, (Function.update s.producers p state q).Minding :=
      fun hm => ⟨p, by rwa [Function.update_self]⟩
    rcases hnew with hsame | hm
    · rcases h.attended (hsame ▸ hne) with hold | hc | ⟨q, hq⟩
      · exact .inl (by omega)
      · exact .inr (.inl hc)
      · by_cases hqp : q = p
        · rw [hqp, hp] at hq
          rcases hminding hq with hm | hgrown
          · exact .inr (.inr (hself hm))
          · exact .inl hgrown
        · exact .inr (.inr ⟨q, by rwa [Function.update_of_ne hqp]⟩)
    · exact .inr (.inr (hself hm))

omit [DecidableEq C] in
/-- A producer goes on without an event. -/
theorem Inv.of_move (h : s.Inv) {p : P} {before : Producer E} (hp : s.producers p = before)
    (state : Producer E) (locked : Bool) (hadmissions : before.admissions = state.admissions)
    (hcarries : ∀ e, before.carries e = state.carries e) (hnoted : state.Noted)
    (hminding : before.Minding → state.Minding ∨ s.mixed.ring.count ≠ 0) :
    ({ s with locked }.setProducer p state).Inv :=
  h.of_producer hp state h.mixed h.priority rfl rfl rfl (by rw [hadmissions]; rfl) h.count_le
    (fun e => by rw [hcarries e]; rfl) hnoted le_rfl (.inl rfl) hminding

omit [DecidableEq P] in
/-- A step of a consumer, which does not wait as long as there are prioritized events. -/
theorem Inv.of_consumer (h : s.Inv) {c : C} {before : Consumer} (hc : s.consumers c = before)
    (state : Consumer) (hmixed : s'.mixed.Sound) (hpriority : s'.priority.Sound)
    (hproducers : s'.producers = s.producers)
    (hconsumers : s'.consumers = Function.update s.consumers c state)
    (hcapacity : s'.capacity = s.capacity)
    (hcount : s'.count + before.takings + s.priority.ring.count =
      s.count + state.takings + s'.priority.ring.count)
    (hle : s'.count ≤ s.capacity) (hcalls : s'.calls = s.calls)
    (hin : s'.mixed.inserted = s.mixed.inserted)
    (hpin : s'.priority.inserted = s.priority.inserted)
    (hwait : state ≠ .waiting ∨ s'.priority.ring.count = 0) : s'.Inv where
  mixed := hmixed
  priority := hpriority
  count_eq := by
    have hsum := sum_update_add Consumer.takings s.consumers c state
    have hold := h.count_eq
    rw [hc] at hsum
    rw [hproducers, hconsumers]
    omega
  count_le := hle.trans_eq hcapacity.symm
  capacity_lt := hcapacity ▸ h.capacity_lt
  calls_eq := by
    intro e
    rw [hcalls, hin, hpin, hproducers]
    exact h.calls_eq e
  noted := by
    rw [hproducers]
    exact h.noted
  attended := by
    intro hne
    refine .inr (.inl ⟨c, ?_⟩)
    rw [hconsumers, Function.update_self]
    exact hwait.resolve_right hne

omit [DecidableEq C] in
theorem Inv.stepProducer (h : s.Inv) {p : P} (hs' : s.stepProducer p = some s') : s'.Inv := by
  unfold EventQueue.stepProducer at hs'
  have hnoted := h.noted p
  cases hp : s.producers p with
  | idle =>
    rw [hp] at hs'
    cases hs'
  | inserting mixedEvent =>
    rw [hp] at hs'
    obtain ⟨mixed, hmixed, rfl⟩ := Option.map_eq_some_iff.mp hs'
    obtain ⟨hsound, hin, -, hcount⟩ := h.mixed.insert hmixed
    refine h.of_producer hp .idle hsound h.priority rfl rfl rfl rfl h.count_le ?_
      trivial ?_ (.inl rfl) fun _ => .inr ?_
    · intro e
      dsimp only [EventQueue.setProducer, Producer.carries]
      rw [hin, List.count_append, List.count_singleton]
      by_cases heq : mixedEvent = some e <;> simp [heq]
      omega
    · dsimp only [EventQueue.setProducer]
      omega
    · dsimp only [EventQueue.setProducer]
      omega
  | counted event count =>
    rw [hp] at hs'
    dsimp only at hs'
    split_ifs at hs' with hfail
    · obtain rfl := Option.some.inj hs'
      refine h.of_move hp (.inserting (some event)) s.locked rfl (fun e => ?_) trivial False.elim
      simp [Producer.carries]
    · obtain rfl := Option.some.inj hs'
      refine h.of_move hp (.locked event count) true rfl (fun _ => rfl) ?_ False.elim
      exact fun hzero => hfail (.inl hzero)
  | locked event count =>
    rw [hp] at hs' hnoted
    dsimp only at hs'
    split_ifs at hs' with hroom
    · obtain rfl := Option.some.inj hs'
      have hlt := h.capacity_lt
      have hnext : u32 (s.count + 1) = s.count + 1 := u32_eq (by omega)
      refine h.of_producer hp (.admitted event count) h.mixed h.priority rfl rfl rfl ?_ ?_
        (fun _ => rfl) hnoted le_rfl (.inl rfl) False.elim
      · dsimp only [EventQueue.setProducer, Producer.admissions]
        rw [hnext]
      · dsimp only [EventQueue.setProducer]
        omega
    · obtain rfl := Option.some.inj hs'
      refine h.of_move hp (.inserting (some event)) false rfl (fun e => ?_) trivial False.elim
      simp [Producer.carries]
  | admitted event count =>
    rw [hp] at hs' hnoted
    obtain ⟨priority, hpriority, rfl⟩ := Option.map_eq_some_iff.mp hs'
    obtain ⟨hsound, hin, -, hcount⟩ := h.priority.insert hpriority
    refine h.of_producer hp (.inserted count) h.mixed hsound rfl rfl rfl ?_ h.count_le ?_ hnoted
      le_rfl (.inr trivial) False.elim
    · dsimp only [EventQueue.setProducer, Producer.admissions]
      omega
    · intro e
      dsimp only [EventQueue.setProducer, Producer.carries]
      rw [hin, List.count_append, List.count_singleton]
      by_cases heq : event = e <;> simp [heq]
      omega
  | inserted count =>
    rw [hp] at hs' hnoted
    obtain rfl := Option.some.inj hs'
    exact h.of_move hp (.checking count) false rfl (fun _ => rfl) hnoted fun _ => .inl trivial
  | checking count =>
    rw [hp] at hs' hnoted
    dsimp only at hs'
    split_ifs at hs' with hless
    · obtain rfl := Option.some.inj hs'
      exact h.of_move hp (.inserting none) s.locked rfl (fun _ => rfl) trivial fun _ => .inl trivial
    · obtain rfl := Option.some.inj hs'
      -- The normal queue is not empty, as it has not got shorter.
      have hpos : count ≠ 0 := hnoted
      refine h.of_move hp .idle s.locked rfl (fun _ => rfl) trivial fun _ => .inr ?_
      omega

omit [DecidableEq P] in
theorem Inv.stepConsumer (h : s.Inv) {c : C} (hs' : s.stepConsumer c = some s') : s'.Inv := by
  unfold EventQueue.stepConsumer at hs'
  cases hc : s.consumers c with
  | extracting =>
    rw [hc] at hs'
    cases hq : s.priority.extract with
    | none =>
      rw [hq] at hs'
      obtain rfl := Option.some.inj hs'
      have hempty := Channel.extract_eq_none_iff.mp hq
      exact h.of_consumer hc .waiting h.mixed h.priority rfl rfl rfl rfl h.count_le rfl rfl rfl
        (.inr hempty)
    | some priority =>
      rw [hq] at hs'
      obtain rfl := Option.some.inj hs'
      obtain ⟨hsound, hin, hcount⟩ := h.priority.extract hq
      refine h.of_consumer hc .extracted h.mixed hsound rfl rfl rfl ?_ h.count_le rfl rfl hin
        (.inl (by decide))
      dsimp only [EventQueue.setConsumer, Consumer.takings]
      omega
  | extracted =>
    rw [hc] at hs'
    dsimp only at hs'
    split_ifs at hs'
    obtain rfl := Option.some.inj hs'
    exact h.of_consumer hc .locked h.mixed h.priority rfl rfl rfl rfl h.count_le rfl rfl rfl
      (.inl (by decide))
  | locked =>
    have hpos := h.count_pos hc
    have hle := h.count_le
    have hlt := h.capacity_lt
    have hless : sub32 s.count 1 = s.count - 1 := sub32_eq (by omega) hpos
    rw [hc] at hs'
    dsimp only at hs'
    rw [hless] at hs'
    obtain rfl := Option.some.inj hs'
    refine h.of_consumer hc .extracting h.mixed h.priority rfl rfl rfl ?_ ?_ rfl rfl rfl
      (.inl (by decide))
    · dsimp only [EventQueue.setConsumer, Consumer.takings]
      omega
    · dsimp only [EventQueue.setConsumer]
      omega
  | waiting =>
    rw [hc] at hs'
    obtain ⟨mixed, hmixed, rfl⟩ := Option.map_eq_some_iff.mp hs'
    obtain ⟨hsound, hin, -⟩ := h.mixed.extract hmixed
    exact h.of_consumer hc .extracting hsound h.priority rfl rfl rfl rfl h.count_le rfl hin rfl
      (.inl (by decide))

theorem Inv.step (h : s.Inv) {a : EventQueueStep E P C} (hs' : s.step a = some s') : s'.Inv := by
  cases a with
  | insert p event =>
    cases hp : s.producers p with
    | idle =>
      simp only [EventQueue.step, hp] at hs'
      obtain rfl := Option.some.inj hs'
      refine h.of_producer hp (.inserting (some event)) h.mixed h.priority rfl rfl rfl rfl h.count_le
        (fun e => ?_) trivial le_rfl (.inl rfl) False.elim
      simp only [EventQueue.setProducer, Producer.carries, List.count_append,
        List.count_singleton, Option.some.injEq, beq_iff_eq]
      omega
    | _ => simp [EventQueue.step, hp] at hs'
  | prioritizedInsert p event =>
    cases hp : s.producers p with
    | idle =>
      simp only [EventQueue.step, hp] at hs'
      obtain rfl := Option.some.inj hs'
      refine h.of_producer hp (.counted event s.mixed.ring.count) h.mixed h.priority rfl rfl rfl rfl
        h.count_le (fun e => ?_) trivial le_rfl (.inl rfl) False.elim
      simp only [EventQueue.setProducer, Producer.carries, List.count_append,
        List.count_singleton, beq_iff_eq]
      omega
    | _ => simp [EventQueue.step, hp] at hs'
  | producer p => exact h.stepProducer hs'
  | consumer c => exact h.stepConsumer hs'

theorem Inv.run (h : s.Inv) {ops : List (EventQueueStep E P C)}
    (hs' : tryRun EventQueue.step s ops = some s') : s'.Inv :=
  tryRun_preserves Inv h (fun _ _ _ h hs => h.step hs) hs'

/-! ## Waking the consumers up -/

/-- All consumers wait for the empty normal queue while there is a prioritized event. -/
def Unnoticed (s : EventQueue E P C) : Prop :=
  (∀ c, s.consumers c = .waiting) ∧ s.mixed.ring.count = 0 ∧ s.priority.ring.count ≠ 0

/-- The producer that goes on puts an event into the normal queue within `n` steps. -/
def RousedBy (s : EventQueue E P C) (p : P) (n : ℕ) : Prop :=
  ∃ s', tryRun step s (List.replicate n (.producer p)) = some s' ∧ s'.mixed.ring.count ≠ 0

omit [DecidableEq E] [Fintype P] [Fintype C] in
theorem rousedBy_succ {p : P} {n : ℕ} (hs' : s.stepProducer p = some s') (h : s'.RousedBy p n) :
    s.RousedBy p (n + 1) := by
  obtain ⟨s₂, hs₂, hcount⟩ := h
  refine ⟨s₂, ?_, hcount⟩
  rw [List.replicate_succ, tryRun_cons]
  exact (congrArg (Option.bind · _) hs').trans hs₂

omit [DecidableEq E] [Fintype P] [Fintype C] in
theorem rousedBy_of_inserting {p : P} (h : s.mixed.Sound) (hempty : s.mixed.ring.count = 0)
    (hp : s.producers p = .inserting none) : s.RousedBy p 1 := by
  obtain ⟨mixed, hmixed⟩ := h.insert_of_empty hempty none
  refine @rousedBy_succ _ _ _ _ _ _ ({ s with mixed }.setProducer p .idle) _ _ ?_ ⟨_, rfl, ?_⟩
  · simp only [stepProducer, hp, hmixed, Option.map_some]
  · have hcount := (h.insert hmixed).2.2.2
    dsimp only [setProducer]
    omega

omit [DecidableEq E] [Fintype P] [Fintype C] in
theorem rousedBy_of_checking {p : P} {count : ℕ} (h : s.mixed.Sound)
    (hempty : s.mixed.ring.count = 0) (hcount : count ≠ 0) (hp : s.producers p = .checking count) :
    s.RousedBy p 2 := by
  have hless : s.mixed.ring.count < count := by omega
  have hstep : s.stepProducer p = some (s.setProducer p (.inserting none)) := by
    simp only [stepProducer, hp, if_pos hless]
  refine rousedBy_succ hstep (rousedBy_of_inserting ?_ ?_ ?_)
  · exact h
  · exact hempty
  · exact Function.update_self _ _ _

omit [DecidableEq E] [Fintype P] [Fintype C] in
theorem rousedBy_of_inserted {p : P} {count : ℕ} (h : s.mixed.Sound)
    (hempty : s.mixed.ring.count = 0) (hcount : count ≠ 0) (hp : s.producers p = .inserted count) :
    s.RousedBy p 3 := by
  have hstep : s.stepProducer p =
      some ({ s with locked := false }.setProducer p (.checking count)) := by
    simp only [stepProducer, hp]
  refine rousedBy_succ hstep (rousedBy_of_checking ?_ ?_ hcount ?_)
  · exact h
  · exact hempty
  · exact Function.update_self _ _ _

/-- When no consumer has noticed a prioritized event, a producer is on its way to wake one up. -/
theorem Inv.roused (h : s.Inv) (hs : s.Unnoticed) : ∃ p, ∃ n ≤ 3, s.RousedBy p n := by
  obtain ⟨hwaiting, hempty, hpriority⟩ := hs
  rcases h.attended hpriority with hne | ⟨c, hc⟩ | ⟨p, hp⟩
  · exact absurd hempty hne
  · exact absurd (hwaiting c) hc
  · have hnoted := h.noted p
    refine ⟨p, ?_⟩
    cases hstate : s.producers p with
    | inserting mixedEvent =>
      rw [hstate] at hp
      cases mixedEvent with
      | none => exact ⟨1, by decide, rousedBy_of_inserting h.mixed hempty hstate⟩
      | some event => exact hp.elim
    | inserted count =>
      rw [hstate] at hnoted
      exact ⟨3, le_rfl, rousedBy_of_inserted h.mixed hempty hnoted hstate⟩
    | checking count =>
      rw [hstate] at hnoted
      exact ⟨2, by decide, rousedBy_of_checking h.mixed hempty hnoted hstate⟩
    | _ =>
      rw [hstate] at hp
      exact hp.elim

/-- What the queue is for. -/
structure Orderly (s : EventQueue E P C) : Prop where
  once : ∀ e, s.mixed.extracted.count (some e) + s.priority.extracted.count (some e) ≤
    s.calls.count e
  mixed_order : s.mixed.extracted <+: s.mixed.inserted
  priority_order : s.priority.extracted <+: s.priority.inserted
  count_le : s.count ≤ s.capacity
  count_pos : ∀ c, s.consumers c = .locked → 0 < s.count
  roused : s.Unnoticed → ∃ p, ∃ n ≤ 3, s.RousedBy p n

theorem Inv.orderly (h : s.Inv) : s.Orderly where
  once := by
    intro e
    have hmixed := h.mixed.in_order.sublist.count_le (some e)
    have hpriority := h.priority.in_order.sublist.count_le (some e)
    have hcalls := h.calls_eq e
    omega
  mixed_order := h.mixed.in_order
  priority_order := h.priority.in_order
  count_le := h.count_le
  count_pos := fun _ hc => h.count_pos hc
  roused := h.roused

/-- For any number of producers and consumers, in every state that any interleaving of their steps
reaches. -/
theorem orderly_run (mixed pMixed : UInt32) (ops : List (EventQueueStep E P C))
    (hs : tryRun step (init mixed pMixed) ops = some s) : s.Orderly :=
  ((Inv.init mixed pMixed).run hs).orderly

/-- The only consumer takes the event that a producer has counted, and waits for another one before
the producer inserts a prioritized event. -/
def overtaken : List (EventQueueStep ℕ Unit Unit) :=
  [.insert () 7, .producer (), .prioritizedInsert () 8, .consumer (), .consumer (), .consumer (),
    .producer (), .producer (), .producer ()]

theorem orderly_overtaken :
    ∃ s, tryRun step (init 2 2) overtaken = some s ∧ s.Orderly :=
  ⟨_, rfl, orderly_run 2 2 overtaken rfl⟩

theorem unnoticed_of_overtaken : ¬∀ (mixed pMixed : UInt32)
    (ops : List (EventQueueStep ℕ Unit Unit)) (s : EventQueue ℕ Unit Unit),
    tryRun step (init mixed pMixed) ops = some s → ¬s.Unnoticed := by
  intro h
  obtain ⟨s, hs, hwaiting, hempty, hpriority⟩ : ∃ s, tryRun step (init 2 2) overtaken = some s ∧
      s.consumers () = .waiting ∧ s.mixed.ring.count = 0 ∧ s.priority.ring.count = 1 :=
    ⟨_, rfl, by decide, by decide, by decide⟩
  exact h 2 2 overtaken s hs ⟨fun _ => hwaiting, hempty, by omega⟩

end EventQueue

end MemEC.Common
