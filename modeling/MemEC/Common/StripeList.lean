import MemEC.Common.CuckooHash
import MemEC.Lib.Ranks

/-!
# The stripe lists

The servers of each stripe list are marked in two bitmaps, one for the data and
one for the parity servers; the array of the list's servers, in which a chunk
id is an index, is derived from the bitmaps by counting. `generate` marks and
derives, `update` derives again from other sockets, and `list` counts for one
server. Consistent hashing is not compiled in.
-/

namespace MemEC.Common

open MemEC.Lib

/-! ## Bitmaps -/

/-- `BitmaskArray`: `count` entries of `size` bits, one after another. -/
structure BitmaskArray where
  size : ℕ
  bits : ℕ → Bool

namespace BitmaskArray

def set (b : BitmaskArray) (entry bit : ℕ) : BitmaskArray :=
  { b with bits := Function.update b.bits (entry * b.size + bit) true }

def check (b : BitmaskArray) (entry bit : ℕ) : Bool := b.bits (entry * b.size + bit)

/-- The bits of an entry that are set. -/
def members (b : BitmaskArray) (entry : ℕ) : Finset ℕ :=
  (Finset.range b.size).filter fun bit => b.check entry bit = true

end BitmaskArray

/-! ## The lists -/

/-- An entry of `list`. -/
structure StripeListIndex where
  listId : ℕ
  stripeId : ℕ
  chunkId : ℕ
  isParity : Bool
  deriving DecidableEq

/-- What the minimum is searched with. -/
structure Minimum where
  index : Option ℕ
  load : ℕ
  count : ℕ

/-- What the lists are generated from: the code, the number of lists and the mapped servers. -/
structure StripeListParams (T : Type) where
  n : ℕ
  k : ℕ
  numLists : ℕ
  numServers : ℕ
  useAlgo : Bool
  servers : ℕ → T

structure StripeList (T : Type) extends StripeListParams T where
  data : BitmaskArray
  parity : BitmaskArray
  load : ℕ → ℕ
  count : ℕ → ℕ
  /-- The arrays are allocated, but not initialized. -/
  lists : ℕ → ℕ → T
  /-- How often `rand` has been called. -/
  draws : ℕ

namespace StripeList

variable {T : Type} (s : StripeList T)

/-- The server should not be selected before. -/
def Free (listIndex i : ℕ) : Prop :=
  s.data.check listIndex i = false ∧ s.parity.check listIndex i = false

instance (listIndex i : ℕ) : Decidable (s.Free listIndex i) := inferInstanceAs (Decidable (_ ∧ _))

/-- One server of `pickMin`. -/
def compare (listIndex : ℕ) (best : Minimum) (i : ℕ) : Minimum :=
  if (s.load i < best.load ∨ s.load i = best.load ∧ s.count i < best.count) ∧
      s.Free listIndex i then ⟨some i, s.load i, s.count i⟩
  else best

/-- `pickMin`. The first server is returned when there is none to assign. -/
def pickMin (listIndex : ℕ) : ℕ :=
  ((List.range s.numServers).foldl (s.compare listIndex)
    ⟨none, 2 ^ 32 - 1, 2 ^ 32 - 1⟩).index.getD 0

/-- `pickRand`, with the number of calls of `rand` after it. -/
def pickRand (rand : ℕ → ℕ) (listIndex : ℕ) : ℕ → ℕ → Option (ℕ × ℕ)
  | 0, _ => none
  | fuel + 1, draws =>
    let i := rand draws % s.numServers
    if s.Free listIndex i then some (i, draws + 1)
    else pickRand rand listIndex fuel (draws + 1)

/-- Either of them. The index of the list is an `int` there: a negative one is an access
outside of the bitmaps. -/
def pick (rand : ℕ → ℕ) (fuel listIndex : ℕ) : Option (ℕ × ℕ) :=
  if 2 ^ 31 ≤ listIndex then none
  else if s.useAlgo then some (s.pickMin listIndex, s.draws)
  else s.pickRand rand listIndex fuel s.draws

def pickParity (rand : ℕ → ℕ) (fuel listIndex : ℕ) : Option (StripeList T) :=
  (s.pick rand fuel listIndex).map fun (index, draws) =>
    { s with parity := s.parity.set listIndex index, draws }

def pickData (rand : ℕ → ℕ) (fuel listIndex : ℕ) : Option (StripeList T) :=
  (s.pick rand fuel listIndex).map fun (index, draws) =>
    { s with data := s.data.set listIndex index, draws }

/-- One server of the loop that sorts the servers of a list: the array and the counters of
data and parity servers. -/
def arrangeServer (i : ℕ) (acc : (ℕ → T) × ℕ × ℕ) (j : ℕ) : (ℕ → T) × ℕ × ℕ :=
  if s.data.check i j then
    (Function.update acc.1 acc.2.1 (s.servers j), acc.2.1 + 1, acc.2.2)
  else if s.parity.check i j then
    (Function.update acc.1 (s.k + acc.2.2) (s.servers j), acc.2.1, acc.2.2 + 1)
  else acc

def arrange (i : ℕ) : StripeList T :=
  let list := ((List.range s.numServers).foldl (s.arrangeServer i) (s.lists i, 0, 0)).1
  { s with lists := Function.update s.lists i list }

/-- What the same loop of `generate` adds to the load and the count of each server. -/
def charge (i : ℕ) : StripeList T :=
  { s with
    load := fun j => if s.numServers ≤ j then s.load j
      else if s.data.check i j then u32 (s.load j + 1)
      else if s.parity.check i j then u32 (s.load j + s.k)
      else s.load j
    count := fun j => if s.numServers ≤ j then s.count j
      else if s.data.check i j ∨ s.parity.check i j then u32 (s.count j + 1)
      else s.count j }

/-- One list of `generate`. -/
def generateList (rand : ℕ → ℕ) (fuel : ℕ) (s : StripeList T) (i : ℕ) : Option (StripeList T) := do
  let s ← (List.range (s.n - s.k)).foldlM (fun s _ => s.pickParity rand fuel i) s
  let s ← (List.range s.k).foldlM (fun s _ => s.pickData rand fuel i) s
  return (s.arrange i).charge i

/-- The constructor, from what lies in the allocated arrays. -/
def construct (params : StripeListParams T) (allocated : ℕ → ℕ → T) (rand : ℕ → ℕ) (fuel : ℕ) :
    Option (StripeList T) :=
  (List.range params.numLists).foldlM (generateList rand fuel)
    { params with
      data := ⟨params.numServers, fun _ => false⟩
      parity := ⟨params.numServers, fun _ => false⟩
      load := fun _ => 0
      count := fun _ => 0
      lists := allocated
      draws := 0 }

/-- `update`, on lists that have been generated. -/
def update : StripeList T := (List.range s.numLists).foldl (fun s i => s.arrange i) s

/-- `update` after each replacement of the sockets of the servers. -/
def updates (replaced : List (ℕ → T)) : StripeList T :=
  replaced.foldl (fun s servers => { s with servers }.update) s

/-! ## Lookups -/

/-- The number of bits set in an entry below a server, as the loops of `list` count them. -/
def countBefore (b : BitmaskArray) (i index : ℕ) : ℕ :=
  ((List.range s.numServers).takeWhile (· ≠ index)).foldl
    (fun chunkId j => if b.check i j then chunkId + 1 else chunkId) 0

def list (index : ℕ) : List StripeListIndex :=
  (List.range s.numLists).filterMap fun i =>
    if s.data.check i index then
      some { listId := i, stripeId := 0, chunkId := s.countBefore s.data i index, isParity := false }
    else if s.parity.check i index then
      some { listId := i, stripeId := 0, chunkId := s.k + s.countBefore s.parity i index,
             isParity := true }
    else none

/-- `get`, by list and chunk. -/
def get (listIndex chunkIndex : ℕ) : T := s.lists listIndex chunkIndex

/-- The data servers of a list. -/
def dataServers (listIndex : ℕ) : List T := (List.range s.k).map (s.get listIndex)

/-- The parity servers of a list. -/
def parityServers (listIndex : ℕ) : List T :=
  (List.range (s.n - s.k)).map fun i => s.get listIndex (s.k + i)

/-- The hash of the bytes of a number, the lowest byte first. -/
def hashNumber (value : ℕ) : ℕ := HashFunc.hash (beBytes 4 value).reverse

def listOfHash (hashValue : ℕ) : ℕ := hashNumber hashValue % s.numLists

/-- What `get` by key finds. -/
structure KeyLookup (T : Type) where
  listIndex : ℕ
  dataIndex : ℕ
  data : List T
  parity : List T

/-- `get`, by key. -/
def getByKey (key : List UInt8) (full : Bool) : KeyLookup T :=
  let hashValue := HashFunc.hash key
  let dataIndex := hashValue % s.k
  let listIndex := s.listOfHash hashValue
  { listIndex, dataIndex
    data := if full then s.dataServers listIndex else [s.get listIndex dataIndex]
    parity := s.parityServers listIndex }

def getByHash (hashValue : ℕ) : ℕ × List T × List T :=
  let listIndex := s.listOfHash hashValue
  (listIndex, s.dataServers listIndex, s.parityServers listIndex)

/-- `get`, by list. -/
def getByList (listIndex : ℕ) : List T × List T :=
  (s.parityServers listIndex, s.dataServers listIndex)

/-- `get`, with a jump. -/
def getByJump (listIndex dataIndex jump : ℕ) : T × ℕ :=
  let index := u32 (hashNumber dataIndex + jump) % s.n
  (s.get listIndex index, index)

end StripeList

end MemEC.Common
