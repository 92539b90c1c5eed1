import MemEC.Server.ParityLedger

/-!
# Runs of a parity server

A run is the sequence of the messages of a list in the order in which the
parity server receives them. `Event` is a message together with the objects
that it is about. As long as every event of a run may come at its time, the
buffer follows the ledger; and what the ledger says at the end does not depend
on the order of the events.
-/

namespace MemEC.Server

open MemEC.Lib MemEC.Common

variable {cfg : GlobalConfig}

namespace ParityChunkBuffer

/-- A buffer of a list that has not received anything. -/
def fresh (coding : Coding cfg) (listId parity : ℕ) : ParityChunkBuffer cfg where
  coding := coding
  listId := listId
  chunkId := coding.dataChunkCount + parity
  chunks := ∅
  keys := ∅
  pending := ∅
  getChunkBuffer := ∅
  folded := []
  isParity := Nat.le_add_right _ _

/-- The messages of a list come one after the other. -/
def receiveAll (b : ParityChunkBuffer cfg) (ms : List Message) : Option (ParityChunkBuffer cfg) :=
  ms.foldlM (fun b m => b.handle m) b

@[simp] theorem receiveAll_nil (b : ParityChunkBuffer cfg) : b.receiveAll [] = some b := rfl

theorem receiveAll_cons (b : ParityChunkBuffer cfg) (m : Message) (ms : List Message) :
    b.receiveAll (m :: ms) = (b.handle m).bind (·.receiveAll ms) := rfl

theorem receiveAll_append (b : ParityChunkBuffer cfg) (as bs : List Message) :
    b.receiveAll (as ++ bs) = (b.receiveAll as).bind (·.receiveAll bs) := List.foldlM_append

end ParityChunkBuffer

/-! ## Events -/

/-- A message with the objects that it is about. -/
inductive Event (cfg : GlobalConfig)
  | set (x : Item cfg)
  | sealChunk (request : SealRequest) (xs : List (Item cfg))
  | update (x : Item cfg) (valueUpdateOffset : ℕ) (valueUpdate : List UInt8)

namespace Event

/-- The message as it is received. -/
def message : Event cfg → Message
  | set x => .set x.object.bytes x.chunkId
  | sealChunk request _ => .sealChunk request
  | update x offset valueUpdate => .update (x.updateHeader offset valueUpdate)

/-- The event in the ledger. -/
def apply (l : Ledger cfg) : Event cfg → Ledger cfg
  | set x => l.change x .arrive
  | sealChunk _ xs => l.listAll xs
  | update x offset valueUpdate => l.revise x (x.revision offset valueUpdate)

/-- The object that arrives. -/
def arrivals : Event cfg → List (Item cfg)
  | set x => [x]
  | _ => []

/-- The objects that are listed. -/
def listings : Event cfg → List (Item cfg)
  | sealChunk _ xs => xs
  | _ => []

/-- What is changed of an object. -/
def revisionOf (x : Item cfg) : Event cfg → Memory
  | update y offset valueUpdate => if x = y then y.revision offset valueUpdate else 0
  | _ => 0

/-- The event updates the object. -/
def revises (x : Item cfg) : Event cfg → Bool
  | update y _ _ => x = y
  | _ => false

/-- The message is about objects of the stripes, and a SEAL_CHUNK request lists them one behind the
other. -/
def WellFormed (c : Coding cfg) (items : List (Item cfg)) : Event cfg → Prop
  | set x => x ∈ items
  | sealChunk request xs => request.records = xs.map Item.sealRecord ∧
      request.count = xs.length ∧ request.chunkId < c.dataChunkCount ∧
      (∀ x ∈ xs, x ∈ items ∧ x.stripeId = request.stripeId ∧ x.chunkId = request.chunkId) ∧
      xs.Pairwise fun x y => x.offset + x.object.size ≤ y.offset
  | update x offset valueUpdate =>
      x ∈ items ∧ offset + valueUpdate.length ≤ x.object.payload.length

/-- The event may come in this state of the ledger. -/
def Allowed (l : Ledger cfg) : Event cfg → Prop
  | set x => (l x).phase = .unknown ∨ (l x).phase = .awaited
  | sealChunk _ xs => xs.Nodup ∧ ∀ x ∈ xs, (l x).phase = .unknown ∨ (l x).phase = .stored
  | update x _ _ => (l x).phase ≠ .unknown

end Event

namespace Tracks

variable {c : Coding cfg} {chunkId : ℕ} {items : List (Item cfg)} {l : Ledger cfg}
  {extra : ℕ → ℕ → Memory} {b : ParityChunkBuffer cfg}

theorem init (c : Coding cfg) (listId parity : ℕ) (items : List (Item cfg)) :
    Tracks c (c.dataChunkCount + parity) items .init (Ledger.init.data items + 0)
      (.fresh c listId parity) where
  coding := rfl
  chunkId := rfl
  agrees := fun x _ => ⟨rfl, rfl, rfl, rfl⟩
  encodes := by
    intro s i _
    rw [Ledger.data_init, add_zero, Pi.zero_apply, map_zero]
    rfl

/-- One message. -/
theorem step (h : Tracks c chunkId items l (l.data items + extra) b) (hc : Catalogued c items)
    {e : Event cfg} (hwf : e.WellFormed c items) (hallowed : e.Allowed l) :
    ∃ b', b.handle e.message = some b' ∧
      Tracks c chunkId items (e.apply l) ((e.apply l).data items + extra) b' := by
  cases e with
  | set x => exact h.arrive hc hwf hallowed
  | sealChunk request xs =>
    obtain ⟨hrecords, hcount, hcid, hxs, horder⟩ := hwf
    exact h.list hc hrecords hcount hxs hcid hallowed.1 hallowed.2 horder
  | update x offset valueUpdate => exact h.revise hc hwf.1 hallowed hwf.2

/-- A run all of whose events may come at their time. -/
theorem run (h : Tracks c chunkId items l (l.data items + extra) b) (hc : Catalogued c items)
    {es : List (Event cfg)} (hwf : ∀ e ∈ es, e.WellFormed c items)
    (hallowed : ∀ as e bs, es = as ++ e :: bs → e.Allowed (as.foldl Event.apply l)) :
    ∃ b', b.receiveAll (es.map Event.message) = some b' ∧
      Tracks c chunkId items (es.foldl Event.apply l)
        ((es.foldl Event.apply l).data items + extra) b' := by
  induction es generalizing l b with
  | nil => exact ⟨b, rfl, h⟩
  | cons e es ih =>
    obtain ⟨b₁, hb₁, h₁⟩ := h.step hc (hwf e List.mem_cons_self) (hallowed [] e es rfl)
    obtain ⟨b₂, hb₂, h₂⟩ := ih h₁ (fun e' he' => hwf e' (List.mem_cons_of_mem _ he'))
      fun as e' bs heq => hallowed (e :: as) e' bs (by rw [heq]; rfl)
    refine ⟨b₂, ?_, h₂⟩
    rw [List.map_cons, ParityChunkBuffer.receiveAll_cons, hb₁]
    exact hb₂

end Tracks

/-! ## What the ledger says after a run -/

/-- The phase of an object whose SET has come or not, and whose listing has come or not. -/
def Phase.of (arrived listed : Bool) : Phase :=
  match arrived, listed with
  | false, false => .unknown
  | true, false => .stored
  | false, true => .awaited
  | true, true => .folded

theorem Ledger.listAll_apply (l : Ledger cfg) (xs : List (Item cfg)) (x : Item cfg) :
    l.listAll xs x = if x ∈ xs then (l x).list else l x := by
  have hidem : ∀ st : ItemState, st.list.list = st.list := by
    rintro ⟨phase, revised, delta⟩
    cases phase <;> rfl
  induction xs generalizing l with
  | nil => rfl
  | cons y xs ih =>
    refine (ih (l.change y .list)).trans ?_
    by_cases hx : x = y
    · subst hx
      simp [hidem]
    · simp [hx, l.change_of_ne hx]

namespace Event

variable (l : Ledger cfg) (e : Event cfg) (x : Item cfg)

theorem phase_apply {a s : Bool} (h : (l x).phase = .of a s) :
    (e.apply l x).phase = .of (a || decide (x ∈ e.arrivals)) (s || decide (x ∈ e.listings)) := by
  cases e with
  | set y =>
    by_cases hx : x = y
    · subst hx
      cases a <;> cases s <;>
        simp_all [apply, arrivals, listings, ItemState.arrive, Phase.of]
    · simp [apply, arrivals, listings, hx, l.change_of_ne hx, h]
  | sealChunk request ys =>
    simp only [apply, arrivals, listings, Ledger.listAll_apply]
    by_cases hx : x ∈ ys
    · cases a <;> cases s <;> simp_all [ItemState.list, Phase.of]
    · simp [hx, h]
  | update y offset valueUpdate =>
    have hphase : (apply l (update y offset valueUpdate) x).phase = (l x).phase := by
      by_cases hx : x = y
      · subst hx
        simp [apply, Ledger.revise, ItemState.revise]
      · simp [apply, Ledger.revise, l.change_of_ne hx]
    simp [hphase, h, arrivals, listings]

theorem delta_apply : (e.apply l x).delta = (l x).delta + e.revisionOf x := by
  cases e with
  | set y =>
    by_cases hx : x = y
    · subst hx
      simp only [apply, Ledger.change_same, ItemState.arrive, revisionOf, add_zero]
      split <;> rfl
    · simp [apply, l.change_of_ne hx, revisionOf]
  | sealChunk request ys =>
    simp only [apply, Ledger.listAll_apply, revisionOf, add_zero]
    split_ifs
    · simp only [ItemState.list]
      split <;> rfl
    · rfl
  | update y offset valueUpdate =>
    by_cases hx : x = y
    · subst hx
      simp [apply, Ledger.revise, ItemState.revise, revisionOf]
    · simp [apply, Ledger.revise, l.change_of_ne hx, revisionOf, hx]

theorem revised_apply : (e.apply l x).revised = ((l x).revised || e.revises x) := by
  cases e with
  | set y =>
    by_cases hx : x = y
    · subst hx
      simp only [apply, Ledger.change_same, ItemState.arrive, revises, Bool.or_false]
      split <;> rfl
    · simp [apply, l.change_of_ne hx, revises]
  | sealChunk request ys =>
    simp only [apply, Ledger.listAll_apply, revises, Bool.or_false]
    split_ifs
    · simp only [ItemState.list]
      split <;> rfl
    · rfl
  | update y offset valueUpdate =>
    by_cases hx : x = y
    · subst hx
      simp [apply, Ledger.revise, ItemState.revise, revises]
    · simp [apply, Ledger.revise, l.change_of_ne hx, revises, hx]

end Event

namespace Ledger

variable (x : Item cfg)

theorem phase_run (es : List (Event cfg)) : (es.foldl Event.apply Ledger.init x).phase =
    .of (decide (x ∈ es.flatMap Event.arrivals)) (decide (x ∈ es.flatMap Event.listings)) := by
  induction es using List.reverseRecOn with
  | nil => rfl
  | append_singleton es e ih =>
    rw [List.foldl_append, List.foldl_cons, List.foldl_nil, Event.phase_apply _ _ _ ih]
    simp [List.flatMap_append]

theorem delta_run (es : List (Event cfg)) : (es.foldl Event.apply Ledger.init x).delta =
    (es.map (Event.revisionOf x)).sum := by
  induction es using List.reverseRecOn with
  | nil => rfl
  | append_singleton es e ih =>
    rw [List.foldl_append, List.foldl_cons, List.foldl_nil, Event.delta_apply, ih]
    simp

theorem revised_run (es : List (Event cfg)) : (es.foldl Event.apply Ledger.init x).revised =
    es.any (Event.revises x) := by
  induction es using List.reverseRecOn with
  | nil => rfl
  | append_singleton es e ih =>
    rw [List.foldl_append, List.foldl_cons, List.foldl_nil, Event.revised_apply, ih]
    simp

/-- The data of one chunk, when the objects are given chunk by chunk. -/
theorem data_flatMap {δ : Type} (l : Ledger cfg) (ids : δ → ℕ × ℕ) (items : δ → List (Item cfg))
    {ds : List δ} (hids : ∀ d ∈ ds, ∀ x ∈ items d, (x.stripeId, x.chunkId) = ids d)
    (hnodup : (ds.map ids).Nodup) (s c : ℕ) :
    data (ds.flatMap items) l s c = ((ds.find? fun d => ids d = (s, c)).map fun d =>
      ((items d).map fun x => (l x).content x).sum).getD 0 := by
  have hinject : ∀ (x : Item cfg) (m : Memory),
      x.inject m s c = if (x.stripeId, x.chunkId) = (s, c) then m else 0 := by
    intro x m
    rw [x.inject_apply]
    by_cases hs : x.stripeId = s
    · subst hs
      simp [Pi.single_apply, eq_comm]
    · simp [hs]
  have hchunk : ∀ d ∈ ds, ((items d).map fun x => x.inject ((l x).content x) s c).sum =
      if ids d = (s, c) then ((items d).map fun x => (l x).content x).sum else 0 := by
    intro d hd
    have hmap : ((items d).map fun x => x.inject ((l x).content x) s c) =
        (items d).map fun x => if ids d = (s, c) then (l x).content x else 0 :=
      List.map_congr_left fun x hx => by rw [hinject, hids d hd x hx]
    rw [hmap]
    split_ifs with h
    · rfl
    · simp
  rw [data, Pi.list_sum_apply, Pi.list_sum_apply, List.map_map, List.map_map, List.map_flatMap,
    List.flatMap, List.sum_flatten, List.map_map]
  rw [← sum_map_ite_eq_find? ids _ hnodup]
  exact congrArg List.sum (List.map_congr_left hchunk)

end Ledger

/-- When every object arrives once and is listed once, the SETs and the SEAL_CHUNK requests of a
run may come at any time. -/
theorem Event.allowed_of_nodup {es as bs : List (Event cfg)} {e : Event cfg}
    (hes : es = as ++ e :: bs) (harrivals : (es.flatMap arrivals).Nodup)
    (hlistings : (es.flatMap listings).Nodup)
    (hupdate : ∀ x offset valueUpdate, e = update x offset valueUpdate →
      (as.foldl apply Ledger.init x).phase ≠ .unknown) :
    e.Allowed (as.foldl apply Ledger.init) := by
  subst hes
  rw [List.flatMap_append, List.flatMap_cons] at harrivals hlistings
  cases e with
  | set x =>
    have hx : x ∉ as.flatMap arrivals := fun h =>
      (List.nodup_append.mp harrivals).2.2 x h x (List.mem_append_left _ List.mem_cons_self) rfl
    simp only [Allowed, Ledger.phase_run, hx, decide_false]
    cases decide (x ∈ as.flatMap listings) with
    | false => exact Or.inl rfl
    | true => exact Or.inr rfl
  | sealChunk request xs =>
    refine ⟨(List.nodup_append.mp (List.nodup_append.mp hlistings).2.1).1, fun x hmem => ?_⟩
    have hx : x ∉ as.flatMap listings := fun h =>
      (List.nodup_append.mp hlistings).2.2 x h x (List.mem_append_left _ hmem) rfl
    simp only [Ledger.phase_run, hx, decide_false]
    cases decide (x ∈ as.flatMap arrivals) with
    | false => exact Or.inl rfl
    | true => exact Or.inr rfl
  | update x offset valueUpdate => exact hupdate x offset valueUpdate rfl

/-! ## Runs in which everything comes -/

namespace Tracks

variable {c : Coding cfg} {items : List (Item cfg)} {l : Ledger cfg} {b : ParityChunkBuffer cfg}

/-- When every object arrives once and is listed once, and updates come for objects that are known,
all objects end up in the parity. -/
theorem run_of_perm (hc : Catalogued c items) (listId parity : ℕ) {es : List (Event cfg)}
    (hwf : ∀ e ∈ es, e.WellFormed c items) (harrivals : (es.flatMap Event.arrivals).Perm items)
    (hlistings : (es.flatMap Event.listings).Perm items)
    (hupdate : ∀ as x offset valueUpdate bs, es = as ++ .update x offset valueUpdate :: bs →
      (as.foldl Event.apply Ledger.init x).phase ≠ .unknown) :
    ∃ b, (ParityChunkBuffer.fresh c listId parity).receiveAll (es.map Event.message) = some b ∧
      Tracks c (c.dataChunkCount + parity) items (es.foldl Event.apply Ledger.init)
        ((es.foldl Event.apply Ledger.init).data items) b ∧
      ∀ x ∈ items, (es.foldl Event.apply Ledger.init x).phase = .folded := by
  obtain ⟨b, hb, htracks⟩ := (Tracks.init c listId parity items).run hc hwf fun as e bs heq =>
    Event.allowed_of_nodup heq (harrivals.nodup_iff.mpr hc.nodup)
      (hlistings.nodup_iff.mpr hc.nodup) fun x offset valueUpdate he =>
        hupdate as x offset valueUpdate bs (he ▸ heq)
  rw [add_zero] at htracks
  refine ⟨b, hb, htracks, fun x hx => ?_⟩
  rw [Ledger.phase_run, decide_eq_true (harrivals.mem_iff.mpr hx),
    decide_eq_true (hlistings.mem_iff.mpr hx)]
  rfl

/-- The parity chunks are the encoding of what the ledger says. -/
theorem encoded {parity : ℕ}
    (h : Tracks c (c.dataChunkCount + parity) items l (l.data items) b) {stripeId : ℕ}
    {data : ℕ → Memory} (hdata : ∀ ci, ∀ j < cfg.chunkSize, l.data items stripeId ci j = data ci j)
    {i : ℕ} (hi : i < cfg.chunkSize) :
    (b.getWrapper stripeId).chunk i = c.encode data 0 (parity + 1) 0 0 i := by
  have hindex : b.parityIndex = parity + 1 := by
    rw [ParityChunkBuffer.parityIndex, h.coding, h.chunkId, Nat.add_sub_cancel_left]
  rw [h.encodes stripeId i hi, h.coding, hindex]
  exact congrFun (c.parity_congr (parity + 1) fun ci _ j hj => hdata ci j hj) i

end Tracks

end MemEC.Server
