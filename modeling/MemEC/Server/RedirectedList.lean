import MemEC.Common.DegradedProtocol
import MemEC.Common.StripeList
import MemEC.Lib.Lists

/-!
# Looking for the own entry of a degraded lock

The server that gets a degraded request looks for the redirection to itself. On
the way it notes whether a data chunk or a parity chunk is to be reconstructed,
but it stops at its own entry: what the entries behind it would add is not
noted.
-/

namespace MemEC.Server

open MemEC.Lib MemEC.Common

/-- What `ServerWorker::findInRedirectedList` is called with besides the list, and the lists of
this server with the number of data chunks. -/
structure RedirectedSearch where
  lists : List StripeListIndex
  dataChunkCount : ℕ
  ongoingAtChunk : ℕ
  dataChunkId : ℕ
  isSealed : Bool

/-- The variables of the loop. `ret` is `none` for `-1`. -/
structure RedirectedScan where
  ret : Option ℕ
  self : Bool
  reconstructParity : Bool
  reconstructData : Bool

/-- The returned index and the two flags. -/
structure RedirectedIndex where
  ret : Option ℕ
  reconstructParity : Bool
  reconstructData : Bool
deriving DecidableEq

namespace RedirectedSearch

variable (s : RedirectedSearch)

/-- The chunk of this server in a list, by the first match. -/
def chunkIn (listId : ℕ) : Option ℕ :=
  (s.lists.find? fun x => listId = x.listId).map StripeListIndex.chunkId

/-- One round of the loop, up to the comparison with the own chunk. -/
def note (chunkId : ℕ) (r : RedirectedScan) (e : Redirection) : RedirectedScan :=
  let r :=
    if s.dataChunkCount ≤ e.original.2 then { r with reconstructParity := true }
    else if s.dataChunkId = e.original.2 then { r with reconstructData := true }
    else r
  let r :=
    if s.dataChunkId = s.ongoingAtChunk then
      if e.original.2 < s.dataChunkCount then { r with reconstructData := true } else r
    else r
  if !r.self && chunkId = s.ongoingAtChunk then { r with self := true } else r

/-- The loop from index `i` on. `ret` is still `-1` whenever a round begins. -/
def scan (chunkId : ℕ) : ℕ → RedirectedScan → List Redirection → RedirectedScan
  | _, r, [] => r
  | i, r, e :: entries =>
    let r := s.note chunkId r e
    if e.target.2 = chunkId then { r with ret := some i } else scan chunkId (i + 1) r entries

/-- `ServerWorker::findInRedirectedList`. -/
def findInRedirectedList (entries : List Redirection) : RedirectedIndex :=
  match entries with
  | [] => ⟨none, false, false⟩
  | e :: _ =>
    match s.chunkIn e.target.1 with
    | none => ⟨none, false, false⟩
    | some chunkId =>
      let r := s.scan chunkId 0 ⟨none, false, false, false⟩ entries
      let reconstructParity := r.reconstructParity && (r.self || !s.isSealed)
      ⟨r.ret, if r.reconstructData then false else reconstructParity, r.reconstructData⟩

/-! ## What the loop notes -/

/-- The entry is for a parity chunk. -/
def isParity (e : Redirection) : Bool := s.dataChunkCount ≤ e.original.2

/-- The entry is for a data chunk that the request needs. -/
def needsData (e : Redirection) : Bool :=
  e.original.2 < s.dataChunkCount &&
    (s.dataChunkId = e.original.2 || s.dataChunkId = s.ongoingAtChunk)

/-- The entry is redirected to this server. -/
def isHere (e : Redirection) : Bool := s.chunkIn e.target.1 = some e.target.2

theorem note_eq (chunkId : ℕ) (r : RedirectedScan) (e : Redirection) :
    s.note chunkId r e = ⟨r.ret, r.self || chunkId = s.ongoingAtChunk,
      r.reconstructParity || s.isParity e, r.reconstructData || s.needsData e⟩ := by
  obtain ⟨ret, self, parity, data⟩ := r
  rw [note, isParity, needsData]
  by_cases hk : s.dataChunkCount ≤ e.original.2
  · have hnot : ¬e.original.2 < s.dataChunkCount := hk.not_gt
    cases self <;> by_cases hc : chunkId = s.ongoingAtChunk <;> simp [hk, hnot, hc]
  · have hlt : e.original.2 < s.dataChunkCount := not_le.mp hk
    simp only [hk, hlt, if_false, if_true, decide_false, decide_true, Bool.or_false, Bool.true_and]
    by_cases hd : s.dataChunkId = e.original.2
    · cases self <;> by_cases hc : chunkId = s.ongoingAtChunk <;> simp [hd, hc]
    · simp only [hd, if_false, decide_false, Bool.false_or]
      cases self <;> by_cases hc : chunkId = s.ongoingAtChunk <;>
        by_cases ho : s.dataChunkId = s.ongoingAtChunk <;> simp [hc, ho]

/-- The entries that are looked at are those up to the own one. -/
theorem scan_eq (chunkId i : ℕ) (r : RedirectedScan) (entries : List Redirection) :
    s.scan chunkId i r entries =
      let seen := throughFirst (fun e => e.target.2 = chunkId) entries
      ⟨((entries.findIdx? fun e => e.target.2 = chunkId).map (i + ·)).or r.ret,
        r.self || (chunkId = s.ongoingAtChunk && !entries.isEmpty),
        r.reconstructParity || seen.any s.isParity,
        r.reconstructData || seen.any s.needsData⟩ := by
  induction entries generalizing i r with
  | nil => simp [scan, throughFirst]
  | cons e entries ih =>
    rw [scan, throughFirst]
    by_cases he : e.target.2 = chunkId
    · simp [he, note_eq, List.findIdx?_cons]
    · simp only [he, if_false, ih, note_eq, List.findIdx?_cons, decide_false,
        Bool.false_eq_true, List.any_cons, Bool.or_assoc, Option.map_map]
      congr 1
      · congr 2
        funext j
        simp only [Function.comp_apply]
        omega
      · by_cases hc : chunkId = s.ongoingAtChunk <;> simp [hc]

/-! ## The result -/

/-- The redirections of a lock are those of one stripe. -/
def OneList (listId : ℕ) (entries : List Redirection) : Prop :=
  ∀ e ∈ entries, e.target.1 = listId

variable {s} {listId chunkId : ℕ} {entries : List Redirection}

theorem OneList.perm {entries' : List Redirection} (h : OneList listId entries)
    (hperm : entries'.Perm entries) : OneList listId entries' :=
  fun e he => h e (hperm.mem_iff.mp he)

theorem isHere_of_none (h : s.chunkIn listId = none) {e : Redirection}
    (he : e.target.1 = listId) : s.isHere e = false := by
  simp [isHere, he, h]

theorem isHere_of_some (h : s.chunkIn listId = some chunkId) {e : Redirection}
    (he : e.target.1 = listId) : s.isHere e = decide (e.target.2 = chunkId) := by
  simp [isHere, he, h, eq_comm]

theorem findInRedirectedList_of_none (h : s.chunkIn listId = none)
    (hone : OneList listId entries) : s.findInRedirectedList entries = ⟨none, false, false⟩ := by
  cases entries with
  | nil => rfl
  | cons e entries =>
    rw [findInRedirectedList, hone e List.mem_cons_self, h]

/-- What is noted before the own entry decides the flags. -/
theorem findInRedirectedList_of_some (h : s.chunkIn listId = some chunkId)
    (hone : OneList listId entries) :
    s.findInRedirectedList entries =
      let seen := throughFirst s.isHere entries
      ⟨entries.findIdx? s.isHere,
        seen.any s.isParity && (chunkId = s.ongoingAtChunk || !s.isSealed) &&
          !seen.any s.needsData,
        seen.any s.needsData⟩ := by
  cases entries with
  | nil => rfl
  | cons e entries =>
    have hfirst := throughFirst_congr fun x hx => isHere_of_some h (hone x hx)
    have hindex := findIdx?_congr fun x hx => isHere_of_some h (hone x hx)
    rw [findInRedirectedList, hone e List.mem_cons_self, h, hfirst, hindex]
    simp only [scan_eq, Nat.zero_add, Option.map_id', Option.or_none, Bool.false_or,
      List.isEmpty_cons, Bool.not_false, Bool.and_true]
    cases (throughFirst (fun x => decide (x.target.2 = chunkId)) (e :: entries)).any s.needsData
      <;> simp

/-- The index is that of an entry redirected to this server, and `-1` when there is none. -/
def IsOwnIndex (s : RedirectedSearch) (entries : List Redirection) (ret : Option ℕ) : Prop :=
  (∀ i, ret = some i → ∃ e, entries[i]? = some e ∧ s.isHere e = true) ∧
    (ret = none → ∀ e ∈ entries, s.isHere e = false)

theorem isOwnIndex_findIdx? : s.IsOwnIndex entries (entries.findIdx? s.isHere) := by
  constructor
  · intro i hi
    obtain ⟨hlt, hhere, -⟩ := List.findIdx?_eq_some_iff_getElem.mp hi
    exact ⟨entries[i], List.getElem?_eq_getElem hlt, hhere⟩
  · intro hnone
    exact List.findIdx?_eq_none_iff.mp hnone

theorem isOwnIndex (hone : OneList listId entries) :
    s.IsOwnIndex entries (s.findInRedirectedList entries).ret := by
  cases h : s.chunkIn listId with
  | none =>
    rw [findInRedirectedList_of_none h hone]
    exact ⟨nofun, fun _ e he => isHere_of_none h (hone e he)⟩
  | some chunkId =>
    rw [findInRedirectedList_of_some h hone]
    exact isOwnIndex_findIdx?

/-- Neither flag depends on the order of the entries. -/
def FlagsOrderFree (s : RedirectedSearch) (entries : List Redirection) : Prop :=
  ∀ entries', entries'.Perm entries →
    (s.findInRedirectedList entries').reconstructParity =
        (s.findInRedirectedList entries).reconstructParity ∧
      (s.findInRedirectedList entries').reconstructData =
        (s.findInRedirectedList entries).reconstructData

/-- No parity chunk is to be reconstructed: the chunk is sealed, and the chunk of this server is
not the one at which the reconstruction runs. -/
def ParityIsUpToDate (s : RedirectedSearch) (entries : List Redirection) : Prop :=
  s.isSealed = true ∧ ∀ e ∈ entries, s.isHere e = true → e.target.2 ≠ s.ongoingAtChunk

/-- The own entries, when there are any, tell everything that the others could tell. -/
def OwnEntriesSuffice (s : RedirectedSearch) (entries : List Redirection) : Prop :=
  (∀ e ∈ entries, s.isHere e = false) ∨
  (∀ e ∈ entries, s.isHere e = true → s.needsData e = true) ∨
  (∀ e ∈ entries, s.needsData e = false) ∧
    (s.ParityIsUpToDate entries ∨
      (∀ e ∈ entries, s.isHere e = true → s.isParity e = true) ∨
      ∀ e ∈ entries, s.isParity e = false)

theorem any_needsData_of_none {entries' : List Redirection} (hperm : entries'.Perm entries)
    (h : ∀ e ∈ entries, s.needsData e = false) (p : Redirection → Bool) :
    (throughFirst p entries').any s.needsData = false := by
  refine List.any_eq_false.mpr fun e he => ?_
  simp [h e (hperm.mem_iff.mp (throughFirst_subset p entries' he))]

/-- Without an own entry, all entries are looked at. -/
theorem flagsOrderFree_of_none (h : s.chunkIn listId = some chunkId)
    (hone : OneList listId entries) (hnot : ∀ e ∈ entries, s.isHere e = false) :
    s.FlagsOrderFree entries := by
  intro entries' hperm
  have hnot' : ∀ e ∈ entries', s.isHere e = false := fun e he => hnot e (hperm.mem_iff.mp he)
  rw [findInRedirectedList_of_some h hone, findInRedirectedList_of_some h (hone.perm hperm)]
  simp only [throughFirst_eq_self hnot, throughFirst_eq_self hnot', hperm.any_eq, and_self]

theorem flagsOrderFree_iff (h : s.chunkIn listId = some chunkId) (hone : OneList listId entries) :
    s.FlagsOrderFree entries ↔ s.OwnEntriesSuffice entries := by
  have hdata := any_throughFirst_perm_iff s.isHere s.needsData entries
  have hparity := any_throughFirst_perm_iff s.isHere s.isParity entries
  have heq : ∀ entries', entries'.Perm entries → s.findInRedirectedList entries' = _ :=
    fun entries' hperm => findInRedirectedList_of_some h (hone.perm hperm)
  constructor
  · intro hfree
    rcases hdata.mp fun entries' hperm => by
      simpa only [heq entries' hperm, heq entries (List.Perm.refl entries)]
        using (hfree entries' hperm).2 with hown | hnone | hnot
    · exact Or.inr (Or.inl hown)
    · refine Or.inr (Or.inr ⟨hnone, ?_⟩)
      cases hg : (decide (chunkId = s.ongoingAtChunk) || !s.isSealed) with
      | false =>
        left
        simp only [Bool.or_eq_false_iff, decide_eq_false_iff_not, Bool.not_eq_false'] at hg
        refine ⟨hg.2, fun e he hhere => ?_⟩
        rw [isHere_of_some h (hone e he), decide_eq_true_eq] at hhere
        rw [hhere]
        exact hg.1
      | true =>
        right
        rcases hparity.mp fun entries' hperm => by
          simpa only [heq entries' hperm, heq entries (List.Perm.refl entries), hg,
            any_needsData_of_none hperm hnone, any_needsData_of_none (List.Perm.refl _) hnone,
            Bool.and_true, Bool.not_false] using (hfree entries' hperm).1
          with hown | hno | hnot
        · exact Or.inl hown
        · exact Or.inr hno
        · exact Or.inl fun e he hhere => by simp [hnot e he] at hhere
    · exact Or.inl hnot
  · intro hsuffice
    by_cases hnot : ∀ e ∈ entries, s.isHere e = false
    · exact flagsOrderFree_of_none h hone hnot
    obtain ⟨own, hmem, hhere⟩ : ∃ e ∈ entries, s.isHere e = true := by
      push Not at hnot
      simpa using hnot
    intro entries' hperm
    rw [heq entries' hperm, heq entries (List.Perm.refl entries)]
    rcases hsuffice with hnot' | hown | ⟨hnone, hrest⟩
    · exact absurd hnot' hnot
    · -- some own entry is looked at, so that data is to be reconstructed
      obtain ⟨e, he, hhere⟩ := exists_hit_of_mem hmem hhere
      have hneeds : (throughFirst s.isHere entries).any s.needsData = true :=
        List.any_eq_true.mpr ⟨e, he, hown e (throughFirst_subset _ _ he) hhere⟩
      simp only [hdata.mpr (Or.inl hown) entries' hperm, hneeds, Bool.not_true, Bool.and_false,
        and_self]
    · simp only [any_needsData_of_none hperm hnone,
        any_needsData_of_none (List.Perm.refl entries) hnone, Bool.not_false, Bool.and_true,
        and_true]
      rcases hrest with ⟨hsealed, hother⟩ | hown | hno
      · have hne : chunkId ≠ s.ongoingAtChunk := by
          have htarget := isHere_of_some h (hone own hmem)
          rw [hhere] at htarget
          rw [← of_decide_eq_true htarget.symm]
          exact hother own hmem hhere
        simp only [hne, hsealed, decide_false, Bool.not_true, Bool.or_self, Bool.and_false]
      · rw [hparity.mpr (Or.inl hown) entries' hperm]
      · rw [hparity.mpr (Or.inr (Or.inl hno)) entries' hperm]

/-- The index is always right. The flags do not depend on the order of the entries if and only if
what is found up to an own entry is all that can be found. -/
theorem findInRedirectedList_iff (s : RedirectedSearch) {listId : ℕ} {entries : List Redirection}
    (hone : OneList listId entries) :
    s.IsOwnIndex entries (s.findInRedirectedList entries).ret ∧ s.FlagsOrderFree entries ↔
      s.OwnEntriesSuffice entries := by
  rw [and_iff_right (isOwnIndex hone)]
  cases h : s.chunkIn listId with
  | some chunkId => exact flagsOrderFree_iff h hone
  | none =>
    refine iff_of_true (fun entries' hperm => ?_)
      (Or.inl fun e he => isHere_of_none h (hone e he))
    rw [findInRedirectedList_of_none h hone, findInRedirectedList_of_none h (hone.perm hperm)]
    exact ⟨rfl, rfl⟩

/-- A server with chunk 3 of list 0, where chunk 0 is asked for and reconstructed. -/
def unsealedSearch : RedirectedSearch := ⟨[⟨0, 0, 3, true⟩], 2, 0, 0, false⟩

/-- The data chunk 1 is redirected elsewhere, the parity chunk 2 to this server. -/
def dataAndParity : List Redirection := [⟨(0, 1), (0, 0)⟩, ⟨(0, 2), (0, 3)⟩]

theorem findInRedirectedList_iff_dataAndParity :
    unsealedSearch.IsOwnIndex dataAndParity
          (unsealedSearch.findInRedirectedList dataAndParity).ret ∧
        unsealedSearch.FlagsOrderFree dataAndParity ↔
      unsealedSearch.OwnEntriesSuffice dataAndParity :=
  findInRedirectedList_iff unsealedSearch
    (show OneList 0 dataAndParity by simp [OneList, dataAndParity])

/-- The reply to the lock request puts the parity chunk in front, and the data chunk is not
reconstructed. -/
theorem findInRedirectedList_of_isRelated :
    (dataAndParity.map Redirection.original).Nodup ∧
      let related := dataAndParity.filter (Redirection.isRelated 0 2)
      let others := dataAndParity.filter fun e => !Redirection.isRelated 0 2 e
      (related ++ others).Perm dataAndParity ∧
      unsealedSearch.findInRedirectedList dataAndParity = ⟨some 1, false, true⟩ ∧
      unsealedSearch.findInRedirectedList (related ++ others) = ⟨some 0, true, false⟩ ∧
      ¬unsealedSearch.FlagsOrderFree dataAndParity := by
  have hperm : (dataAndParity.filter (Redirection.isRelated 0 2) ++
      dataAndParity.filter fun e => !Redirection.isRelated 0 2 e).Perm dataAndParity := by decide
  refine ⟨by decide, hperm, by decide, by decide, fun hfree => ?_⟩
  exact absurd (hfree _ hperm).2 (by decide)

end RedirectedSearch

end MemEC.Server
