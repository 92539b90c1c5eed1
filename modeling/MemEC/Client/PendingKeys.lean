import MemEC.Client.Pending
import MemEC.Lib.Lists

/-!
# Looking up a pending request by its key

A response is matched with the entry that has its IDs, its socket and its key. Of the key only a
pointer is given, into the message that was received: the comparison goes as far as the key of the
entry is long, into what lies behind the given key if need be.
-/

namespace MemEC.Client

open MemEC.Lib MemEC.Common

/-- What is looked up. The socket is 0 when none is given. -/
structure KeyQuery where
  instanceId : ℕ
  requestId : ℕ
  ptr : ℕ
  key : List UInt8
  /-- What lies behind the key in the message. -/
  behind : List UInt8

namespace KeyQuery

def pointer (q : KeyQuery) : List UInt8 := q.key ++ q.behind

variable {V : Type} (q : KeyQuery) (key : V → List UInt8)

/-! ## The loops -/

/-- The entries of the IDs. -/
def range (m : EntryMap V) : EntryMap V := m.filter fun e => e.1.is q.instanceId q.requestId

def differs (e : TimedIdentifier × V) : Bool :=
  strncmp (key e.2).length q.pointer (key e.2) != 0

/-- `SEARCH_KEY_RANGE`: the entry at which the loop stops is checked once more. -/
def searchKeyRange (m : EntryMap V) : Option (TimedIdentifier × V) :=
  if q.ptr ≠ 0 then
    let rest := (q.range m).dropWhile fun e => e.1.ptr != q.ptr || q.differs key e
    rest.head?.filter fun e => e.1.ptr == q.ptr && !q.differs key e
  else
    let rest := (q.range m).dropWhile (q.differs key)
    rest.head?.filter fun e => !q.differs key e

/-- The loop of `eraseKeyValue` without the check behind it, which checks the same. -/
def searchKeyValue : EntryMap V → Option (TimedIdentifier × V)
  | [] => none
  | e :: rest =>
    if q.ptr ≠ 0 then
      if e.1.ptr = q.ptr then
        if q.differs key e then searchKeyValue rest else some e
      else searchKeyValue rest
    else if q.differs key e then searchKeyValue rest
    else some e

/-- The entries that the functions go for. -/
def isEntry : TimedIdentifier × V → Bool :=
  EntryMap.isEntry key q.instanceId q.requestId q.ptr (some q.pointer)

theorem isEntry_eq (e : TimedIdentifier × V) : q.isEntry key e =
    (e.1.is q.instanceId q.requestId && ((q.ptr == 0 || e.1.ptr == q.ptr) && !q.differs key e)) := by
  rw [isEntry, EntryMap.isEntry, differs, Bool.and_assoc]
  simp [bne]

theorem find?_range {p : TimedIdentifier × V → Bool}
    (hp : ∀ e, p e = ((q.ptr == 0 || e.1.ptr == q.ptr) && !q.differs key e)) (m : EntryMap V) :
    (q.range m).find? p = m.find? (q.isEntry key) := by
  rw [range, List.find?_filter]
  congr 1
  funext e
  rw [isEntry_eq, hp, Bool.decide_and, Bool.decide_eq_true, Bool.decide_eq_true]

/-- The loops of the macro stop at the first such entry. -/
theorem searchKeyRange_eq (m : EntryMap V) :
    q.searchKeyRange key m = m.find? (q.isEntry key) := by
  rw [searchKeyRange]
  split_ifs with hptr
  · rw [← find?_range q key (p := fun e => e.1.ptr == q.ptr && !q.differs key e),
      ← head?_filter_dropWhile]
    · simp only [Bool.not_and, Bool.not_not, bne]
    · intro e
      rw [beq_eq_false_iff_ne.mpr hptr, Bool.false_or]
  · rw [← find?_range q key (p := fun e => !q.differs key e), ← head?_filter_dropWhile]
    · simp only [Bool.not_not]
    · simp [not_not.mp hptr]

/-- So does the loop of `eraseKeyValue`. -/
theorem searchKeyValue_eq (m : EntryMap V) :
    q.searchKeyValue key (q.range m) = m.find? (q.isEntry key) := by
  rw [← find?_range q key (fun _ => rfl)]
  generalize q.range m = l
  induction l with
  | nil => rfl
  | cons e l ih =>
    rw [searchKeyValue, List.find?_cons]
    by_cases hptr : q.ptr = 0
    · cases q.differs key e <;> simp [hptr, ih]
    · by_cases hsocket : e.1.ptr = q.ptr
      · cases q.differs key e <;> simp [hptr, hsocket, ih]
      · have hpass : (q.ptr == 0 || e.1.ptr == q.ptr) = false := by simp [hptr, hsocket]
        rw [if_pos hptr, if_neg hsocket, hpass, Bool.false_and]
        exact ih

/-! ## The entry with the key -/

/-- What the functions are to go for. -/
structure IsEntryOf (e : TimedIdentifier × V) : Prop where
  ids : e.1.is q.instanceId q.requestId = true
  socket : q.ptr = 0 ∨ e.1.ptr = q.ptr
  key : key e.2 = q.key

/-- An entry passes when its key is the same as the bytes behind the pointer, up to its length or to
a first NUL. -/
theorem isEntry_iff (e : TimedIdentifier × V) : q.isEntry key e = true ↔
    e.1.is q.instanceId q.requestId = true ∧ (q.ptr = 0 ∨ e.1.ptr = q.ptr) ∧
      cString (key e.2).length q.pointer = cString (key e.2).length (key e.2) := by
  rw [isEntry_eq, differs, ← strncmp_eq_zero_iff]
  simp

theorem IsEntryOf.isEntry {e : TimedIdentifier × V} (h : q.IsEntryOf key e) :
    q.isEntry key e = true := by
  refine (isEntry_iff q key e).mpr ⟨h.ids, h.socket, ?_⟩
  rw [h.key, pointer, cString, cString, List.take_left, List.take_length]

/-- In front of an entry that passes without having the key stands one that has it. -/
def TellsApart (m : EntryMap V) : Prop :=
  ∀ before e after, m = before ++ e :: after → q.isEntry key e = true → key e.2 ≠ q.key →
    ∃ e' ∈ before, q.IsEntryOf key e'

theorem find?_isEntryOf_iff (m : EntryMap V) :
    (∀ e, m.find? (q.isEntry key) = some e → q.IsEntryOf key e) ↔ q.TellsApart key m := by
  rw [find?_satisfies_iff fun e => IsEntryOf.isEntry q key]
  refine forall₄_congr fun before e after hsplit => forall_congr' fun he => ?_
  obtain ⟨hids, hsocket, -⟩ := (isEntry_iff q key e).mp he
  exact imp_congr_left (not_congr ⟨fun h => h.key, fun h => ⟨hids, hsocket, h⟩⟩)

/-- An entry is selected exactly when there is one. -/
structure FindsEntry (m : EntryMap V) (result : Option (TimedIdentifier × V)) : Prop where
  isEntryOf : ∀ e, result = some e → e ∈ m ∧ q.IsEntryOf key e
  complete : result = none → ∀ e ∈ m, ¬q.IsEntryOf key e

/-- As `FindsEntry`, and that entry alone is taken out, or stays in the form that `taken` gives it. -/
structure TakesEntry (taken : V → V) (stays : V → Bool) (m : EntryMap V)
    (result : Option ((TimedIdentifier × V) × EntryMap V)) : Prop where
  isEntryOf : ∀ e' m', result = some (e', m') → ∃ before e after, m = before ++ e :: after ∧
    q.IsEntryOf key e ∧ e' = (e.1, taken e.2) ∧
      m' = before ++ ((if stays (taken e.2) then [e'] else []) ++ after)
  complete : result = none → ∀ e ∈ m, ¬q.IsEntryOf key e

theorem findsEntry_iff (m : EntryMap V) :
    q.FindsEntry key m (m.find? (q.isEntry key)) ↔ q.TellsApart key m := by
  rw [← find?_isEntryOf_iff]
  constructor
  · exact fun h e he => (h.isEntryOf e he).2
  · intro h
    refine ⟨fun e he => ⟨List.mem_of_find?_eq_some he, h e he⟩, fun hnone e he hentry => ?_⟩
    exact List.find?_eq_none.mp hnone e he (hentry.isEntry q key)

theorem takesEntry_iff {taken : V → V} (htaken : ∀ v, key (taken v) = key v) (stays : V → Bool)
    (m : EntryMap V) :
    q.TakesEntry key taken stays m (EntryMap.eraseEntry taken stays (q.isEntry key) m) ↔
      q.TellsApart key m := by
  rw [← find?_isEntryOf_iff, EntryMap.eraseEntry]
  cases hfind : m.find? (q.isEntry key) with
  | none =>
    refine iff_of_true ⟨?_, fun _ e he hentry => ?_⟩ (by simp)
    · simp
    · exact List.find?_eq_none.mp hfind e he (hentry.isEntry q key)
  | some e =>
    obtain ⟨before, after, hsplit, herase, hidx⟩ := split_of_find? hfind
    constructor
    · rintro h e' he'
      obtain rfl := Option.some.inj he'
      obtain ⟨-, e', -, -, hentry, heq, -⟩ := h.isEntryOf _ _ rfl
      obtain ⟨hid, hvalue⟩ := Prod.mk.inj heq
      refine ⟨hid ▸ hentry.ids, hid ▸ hentry.socket, ?_⟩
      rw [← htaken, hvalue, htaken, hentry.key]
    · intro h
      refine ⟨?_, by simp⟩
      rintro e' m' hresult
      obtain ⟨rfl, rfl⟩ := Prod.mk.inj (Option.some.inj hresult)
      refine ⟨before, e, after, hsplit, h e rfl, rfl, ?_⟩
      split_ifs
      · rw [hidx, hsplit, set_length_append]
        rfl
      · rw [herase]
        rfl

end KeyQuery

/-! ## The functions -/

/-- `Pending::findKey`. The memory that it attaches to the key is left out. -/
def findKey (instanceId requestId ptr : ℕ) (checkKey : Option (List UInt8))
    (m : EntryMap (List UInt8)) : Option (TimedIdentifier × List UInt8) :=
  m.find? (EntryMap.isEntry id instanceId requestId ptr checkKey)

/-- No message of an update remains. -/
def KeyValueUpdate.settle (u : KeyValueUpdate) : KeyValueUpdate := { u with remaining := 0 }

/-- `Pending::eraseKeyValueUpdate` for the updates that were sent to servers. -/
def eraseSentUpdate (instanceId requestId ptr : ℕ) (checkKey : Option (List UInt8)) :
    EntryMap KeyValueUpdate → Option ((TimedIdentifier × KeyValueUpdate) × EntryMap KeyValueUpdate) :=
  EntryMap.eraseEntry KeyValueUpdate.settle (fun _ => false)
    (EntryMap.isEntry KeyValueUpdate.key instanceId requestId ptr checkKey)

theorem KeyValueUpdate.key_decrement (u : KeyValueUpdate) : u.decrement.key = u.key := rfl

theorem KeyValueUpdate.key_settle (u : KeyValueUpdate) : u.settle.key = u.key := rfl

namespace KeyQuery

/-- The keys of the requests are told apart exactly when no entry whose key only passes for the
given one comes first. The entry of an update of an application stays until no message remains. -/
theorem selectsByKey_iff (q : KeyQuery) :
    (∀ m, q.TakesEntry id id (fun _ => false) m
        (eraseKey q.instanceId q.requestId q.ptr (some q.pointer) m) ↔ q.TellsApart id m) ∧
    (∀ m, q.FindsEntry id m (findKey q.instanceId q.requestId q.ptr (some q.pointer) m) ↔
      q.TellsApart id m) ∧
    (∀ m, q.TakesEntry KeyValueBackup.key id (fun _ => false) m
        (eraseKeyValue q.instanceId q.requestId q.ptr (some q.pointer) m) ↔
      q.TellsApart KeyValueBackup.key m) ∧
    (∀ m, q.TakesEntry KeyValueUpdate.key KeyValueUpdate.decrement (fun u => u.remaining != 0) m
        (eraseKeyValueUpdate q.instanceId q.requestId q.ptr (some q.pointer) m) ↔
      q.TellsApart KeyValueUpdate.key m) ∧
    ∀ m, q.TakesEntry KeyValueUpdate.key KeyValueUpdate.settle (fun _ => false) m
        (eraseSentUpdate q.instanceId q.requestId q.ptr (some q.pointer) m) ↔
      q.TellsApart KeyValueUpdate.key m :=
  ⟨q.takesEntry_iff id (fun _ => rfl) _, q.findsEntry_iff id,
    q.takesEntry_iff KeyValueBackup.key (fun _ => rfl) _,
    q.takesEntry_iff KeyValueUpdate.key KeyValueUpdate.key_decrement _,
    q.takesEntry_iff KeyValueUpdate.key KeyValueUpdate.key_settle _⟩

/-- A key of two bytes, and an entry whose key is the first of them. -/
def longKey : KeyQuery := ⟨1, 1, 5, [134, 135], []⟩

def shortEntry : EntryMap (List UInt8) := [(⟨⟨1, 0, 1, 0, 5⟩, 0⟩, [134])]

/-- The entry of the shorter key is taken. -/
theorem not_takesEntry_of_longKey :
    ¬∀ q m, TakesEntry q id id (fun _ => false) m
      (eraseKey q.instanceId q.requestId q.ptr (some q.pointer) m) := by
  intro h
  obtain ⟨-, e, -, -, hentry, heq, -⟩ := (h longKey shortEntry).isEntryOf _ _ rfl
  have hkey : [134] = e.2 := (Prod.mk.inj heq).2
  have hwrong : [134] = longKey.key := hkey.trans hentry.key
  exact absurd hwrong (by decide)

end KeyQuery

end MemEC.Client
