import MemEC.Common.KeyValue
import MemEC.Lib.Displacement

/-!
# The cuckoo hash table

A table of `2 ^ hashPower` buckets of `BUCKET_SIZE` (`4`) pointers. A pointer is
an address; a null pointer is `0` and marks a free slot (the tags of the source
are not compiled in). A table with `keySize = 0` points to objects, one with
another `keySize` to anything that starts with a key of this size.

`insert` puts a pointer into one of the two buckets of its key. When both are
full it looks for a path of entries each of which can go to its other bucket,
with `rand` to choose among the entries of a full bucket, and moves them from
the end of the path. `MAX_CUCKOO_COUNT` is `500` and `CUCKOO_HASH_WIDTH` is `1`,
so `cp[ depth ][ 0 ]` is `cp depth` here.
-/

namespace MemEC.Common

open MemEC.Lib

/-- The parameters of a table, as `init` and `setKeySize` leave them. -/
structure TableShape where
  hashPower : ℕ
  keySize : ℕ
  hashPower_pos : 0 < hashPower
  hashPower_lt : hashPower < 32
  keySize_le : keySize ≤ 255

/-- An entry of the path `cp`. -/
structure PathEntry where
  bucket : ℕ
  slot : Fin 4
  ptr : ℕ

def PathEntry.position (e : PathEntry) : ℕ × Fin 4 := (e.bucket, e.slot)

/-- `CuckooHash`. `buckets (i, j)` is `buckets[ i ].ptr[ j ]`, and `randCalls` counts the calls of
`rand`. -/
structure CuckooHash (shape : TableShape) where
  buckets : Slots ℕ (Fin 4) ℕ
  kickCount : ℕ
  cp : ℕ → PathEntry
  randCalls : ℕ

/-! ## Hashing -/

/-- The hash that `find`, `insert` and `del` compute: the split offset is left out when its three
bytes are zero. -/
def Key.hashValue (key : Key) : ℕ :=
  if key.isLarge ∧ key.data.drop key.size = [0, 0, 0] then HashFunc.hash (key.data.take key.size)
  else HashFunc.hash key.data

namespace TableShape

variable (shape : TableShape)

/-- `1 << power`. -/
def size : ℕ := 2 ^ shape.hashPower

def indexHash (hashValue : ℕ) : ℕ := hashValue >>> (32 - shape.hashPower)

def tagHash (hashValue : ℕ) : ℕ :=
  let r := hashValue &&& 0xff
  r + if r = 0 then 1 else 0

/-- `altIndex`. The mask is `size - 1`. -/
def altIndex (index tag : ℕ) : ℕ :=
  (index ^^^ u32 ((tag &&& 0xff) * 0x5bd1e995)) &&& (shape.size - 1)

/-- The first bucket of a hash. -/
def bucket₁ (hashValue : ℕ) : ℕ := shape.indexHash hashValue

/-- The second bucket of a hash. -/
def bucket₂ (hashValue : ℕ) : ℕ :=
  shape.altIndex (shape.indexHash hashValue) (tagHash hashValue)

/-- The two buckets that `find` looks into. -/
def Homes (hashValue bucket : ℕ) : Prop :=
  bucket = shape.bucket₁ hashValue ∨ bucket = shape.bucket₂ hashValue

instance (hashValue bucket : ℕ) : Decidable (shape.Homes hashValue bucket) :=
  inferInstanceAs (Decidable (_ ∨ _))

end TableShape

/-- `KeyValue::key( true )`. -/
def KeyValue.key (cfg : GlobalConfig) (m : Memory) (data : ℕ) : Key :=
  let kv := KeyValue.deserialize cfg m data
  .ofMemory m kv.key kv.keySize (LargeObjectUtil.isLarge cfg kv.keySize kv.valueSize)

namespace CuckooHash

variable (cfg : GlobalConfig) (shape : TableShape) (m : Memory)

/-- `init`. The path is not initialised. -/
def init : CuckooHash shape := ⟨0, 0, fun _ => ⟨0, 0, 0⟩, 0⟩

/-- The hash that `cpSearch` recomputes for an entry. -/
def relocationHash (ptr : ℕ) : ℕ :=
  if shape.keySize = 0 then
    let kv := KeyValue.deserialize cfg m ptr
    let n := if LargeObjectUtil.isLarge cfg kv.keySize kv.valueSize then 3 else 0
    HashFunc.hash (m.read (kv.key - n) (kv.keySize + n))
  else HashFunc.hash (m.read ptr shape.keySize)

/-- The bucket that `cpSearch` finds for an entry of bucket `i`. -/
def altOf (ptr i : ℕ) : ℕ :=
  shape.altIndex i (TableShape.tagHash (relocationHash cfg shape m ptr))

/-- The comparison of an entry with a key. -/
def isEqual (key : Key) (ptr : ℕ) : Bool :=
  if shape.keySize = 0 then (KeyValue.key cfg m ptr).equal key
  else m.read ptr shape.keySize = key.data.take shape.keySize

variable {shape} (t : CuckooHash shape)

/-- The first slot of bucket `i` that holds an entry with the key. -/
def slotOf (i : ℕ) (key : Key) : Option (Fin 4) :=
  (List.finRange 4).find? fun j =>
    t.buckets (i, j) ≠ 0 && isEqual cfg shape m key (t.buckets (i, j))

/-- `find`, with `none` for a null pointer. -/
def find (key : Key) : Option ℕ :=
  let i1 := shape.bucket₁ key.hashValue
  let i2 := shape.bucket₂ key.hashValue
  match t.slotOf cfg m i1 key with
  | some j => some (t.buckets (i1, j))
  | none => (t.slotOf cfg m i2 key).map fun j => t.buckets (i2, j)

/-- `tryDel`. -/
def tryDel (key : Key) (i : ℕ) : CuckooHash shape × Bool :=
  match t.slotOf cfg m i key with
  | some j => ({ t with buckets := t.buckets.put (i, j) 0 }, true)
  | none => (t, false)

/-- `del`. -/
def del (key : Key) : CuckooHash shape :=
  let (t, deleted) := t.tryDel cfg m key (shape.bucket₁ key.hashValue)
  if deleted then t else (t.tryDel cfg m key (shape.bucket₂ key.hashValue)).1

/-- The first slot of bucket `i` with `IS_SLOT_EMPTY`. -/
def emptySlot (i : ℕ) : Option (Fin 4) := (List.finRange 4).find? fun j => t.buckets (i, j) = 0

/-- `tryAdd`. -/
def tryAdd (ptr i : ℕ) : CuckooHash shape × Bool :=
  match t.emptySlot i with
  | some j => ({ t with buckets := t.buckets.put (i, j) ptr }, true)
  | none => (t, false)

variable (rand : ℕ → ℕ)

/-- A round of `cpSearch` at a full bucket. -/
def kick (depth : ℕ) : CuckooHash shape :=
  let i := (t.cp depth).bucket
  let j : Fin 4 := ⟨rand t.randCalls % 4, Nat.mod_lt _ (Nat.succ_pos 3)⟩
  let ptr := t.buckets (i, j)
  let cp := Function.update t.cp depth ⟨i, j, ptr⟩
  { t with
    kickCount := t.kickCount + 1
    randCalls := t.randCalls + 1
    cp := Function.update cp (depth + 1)
      { cp (depth + 1) with bucket := altOf cfg shape m ptr i } }

/-- The loop of `cpSearch`. The first argument is `MAX_CUCKOO_COUNT - 1 - depth`. -/
def cpSearchLoop : ℕ → CuckooHash shape → ℕ → CuckooHash shape × Option ℕ
  | 0, t, _ => (t, none)
  | left + 1, t, depth =>
    if t.kickCount < 500 then
      match t.emptySlot (t.cp depth).bucket with
      | some j => ({ t with
          cp := Function.update t.cp depth { t.cp depth with slot := j } }, some depth)
      | none => cpSearchLoop left (t.kick cfg m rand depth) (depth + 1)
    else (t, none)

/-- `cpSearch`, with `none` for `-1`. -/
def cpSearch (depthStart : ℕ) : CuckooHash shape × Option ℕ :=
  cpSearchLoop cfg m rand (499 - depthStart) t depthStart

/-- `cpBackmove`, with `none` for an assertion that fails. -/
def cpBackmove : ℕ → CuckooHash shape → Option (CuckooHash shape × ℕ)
  | 0, t => some (t, 0)
  | depth + 1, t =>
    let a := (t.cp depth).position
    let b := (t.cp (depth + 1)).position
    if t.buckets a ≠ (t.cp depth).ptr then some (t, depth + 1)
    else if t.buckets b ≠ 0 then none
    else cpBackmove depth { t with buckets := t.buckets.move a b }

/-- The loop of `cuckoo`, with `false` for `-1`. `fuel` bounds the rounds. -/
def cuckooLoop : ℕ → CuckooHash shape → ℕ → Option (CuckooHash shape × Bool)
  | 0, _, _ => none
  | fuel + 1, t, depth =>
    match t.cpSearch cfg m rand depth with
    | (t, none) => some (t, false)
    | (t, some current) =>
      match cpBackmove current t with
      | none => none
      | some (t, 0) => some (t, true)
      | some (t, current + 1) => cuckooLoop fuel t current

/-- `cuckoo( 0 )`. Every round that is not the last one comes after a kick or at a smaller depth,
so there are at most `MAX_CUCKOO_COUNT + 1` of them. -/
def cuckoo : Option (CuckooHash shape × Bool) :=
  cuckooLoop cfg m rand 501 { t with kickCount := 0 } 0

/-- `insert`, with `none` for an assertion that fails. -/
def insert (key : Key) (ptr : ℕ) : Option (CuckooHash shape × Bool) :=
  let i1 := shape.bucket₁ key.hashValue
  let i2 := shape.bucket₂ key.hashValue
  match t.tryAdd ptr i1 with
  | (t, true) => some (t, true)
  | (t, false) =>
    match t.tryAdd ptr i2 with
    | (t, true) => some (t, true)
    | (t, false) =>
      match cuckoo cfg m { t with
          cp := Function.update t.cp 0 { t.cp 0 with bucket := i2 } } rand with
      | none => none
      | some (t, false) => some (t, false)
      | some (t, true) => some (t.tryAdd ptr (t.cp 0).bucket)

end CuckooHash

end MemEC.Common
