import Mathlib.Data.List.GetD
import Mathlib.Tactic
import MemEC.Client.Pending
import MemEC.Common.RemapState

/-!
# Where failed chunks are remapped to

For a request that touches failed servers the client chooses a stand-in for each of them among the
servers of the stripe list: the one with the least latency of those that are in the normal state and
that are not chosen yet. All entries are of one stripe list, and of an entry only the chunk ID is
kept. Servers are numbered.
-/

namespace MemEC.Client

open MemEC.Common

/-! ## Latencies -/

structure Latency where
  sec : ℕ
  nsec : ℕ
  deriving DecidableEq

namespace Latency

/-- `operator<`, which holds for equal latencies as well. -/
def lt (a b : Latency) : Bool :=
  if a.sec < b.sec then true
  else if b.sec < a.sec then false
  else if b.nsec < a.nsec then false
  else true

/-- `operator+`. -/
def add (a b : Latency) : Latency :=
  if 1000000000 ≤ u32 (a.nsec + b.nsec) then
    ⟨u32 (u32 (a.sec + b.sec) + 1), u32 (a.nsec + b.nsec) - 1000000000⟩
  else ⟨u32 (a.sec + b.sec), u32 (a.nsec + b.nsec)⟩

def increment : Latency := ⟨0, 100⟩

end Latency

/-! ## The scheme -/

/-- The stripe list and the states of its servers. -/
structure RemappingScheme where
  dataChunkCount : ℕ
  parityChunkCount : ℕ
  /-- The server of a chunk. -/
  server : ℕ → ℕ
  serversState : ℕ → Option RemapState
  /-- The servers of a stripe list are different ones. -/
  injOn : Set.InjOn server (Set.Iio (dataChunkCount + parityChunkCount))

/-- What `redirect` writes: the entries to remap with their new chunks, and the latencies. -/
structure Redirection where
  original : List ℕ
  remapped : List ℕ
  latency : ℕ → Option Latency

namespace RemappingScheme

variable (sch : RemappingScheme)

def chunkCount : ℕ := sch.dataChunkCount + sch.parityChunkCount

/-- `allowRemapping`: the server has failed. -/
def allowRemapping (server : ℕ) : Bool :=
  sch.serversState server = some .intermediate || sch.serversState server = some .waitDegraded ||
    sch.serversState server = some .degraded

def useCoordinatedFlow (server : ℕ) : Bool :=
  sch.serversState server ≠ none && sch.serversState server ≠ some .normal

/-- The servers that are not to be selected: those of all entries, if there are not more entries
than data chunks, and else those of the entries behind the object's own. -/
def selectedServers (entries : List ℕ) : List ℕ :=
  (if entries.length ≤ sch.dataChunkCount then entries
    else entries.drop (1 + sch.parityChunkCount)).map sch.server

/-- The entries that are to be remapped. -/
def toRemap (entries : List ℕ) (isGet : Bool) : List ℕ :=
  entries.filter fun e =>
    sch.allowRemapping (sch.server e) && (!isGet || decide (e < sch.dataChunkCount))

/-- The choice so far. It is the chunk itself while there is none. -/
structure Choice where
  chunk : ℕ
  latency : Option Latency

/-- Whether a latency is known to be less than that of the choice so far. -/
def isLess (node target : Option Latency) : Bool :=
  match target, node with
  | some t, some l => l.lt t
  | _, _ => false

/-- One chunk of the loop that looks for a target for the chunk `original`. -/
def consider (selectedServers redirectedServers : List ℕ) (latency : ℕ → Option Latency)
    (original : ℕ) (c : Choice) (j : ℕ) : Choice :=
  if sch.server j ∈ selectedServers then c
  else if sch.server j ∈ redirectedServers then c
  else if sch.useCoordinatedFlow (sch.server j) then c
  else if c.chunk = original ∨ isLess (latency (sch.server j)) c.latency then
    ⟨j, latency (sch.server j)⟩
  else c

def choose (selectedServers redirectedServers : List ℕ) (latency : ℕ → Option Latency)
    (original : ℕ) : ℕ :=
  ((List.range sch.chunkCount).foldl
    (sch.consider selectedServers redirectedServers latency original) ⟨original, none⟩).chunk

/-- What the loop over the entries keeps. -/
structure Progress where
  remapped : List ℕ
  redirectedServers : List ℕ
  latency : ℕ → Option Latency

/-- One entry. When there is no target, the entry is left as it is, and the error is logged. -/
def remapEntry (selectedServers : List ℕ) (p : Progress) (original : ℕ) : Progress :=
  let chunk := sch.choose selectedServers p.redirectedServers p.latency original
  if chunk = original then { p with remapped := p.remapped ++ [chunk] }
  else
    { remapped := p.remapped ++ [chunk]
      redirectedServers := sch.server chunk :: p.redirectedServers
      latency := Function.update p.latency (sch.server chunk)
        ((p.latency (sch.server chunk)).map fun l => l.add .increment) }

/-- `BasicRemappingScheme::redirect`. -/
def redirect (latency : ℕ → Option Latency) (entries : List ℕ) (isGet : Bool) : Redirection :=
  let original := sch.toRemap entries isGet
  let p := original.foldl (sch.remapEntry (sch.selectedServers entries)) ⟨[], [], latency⟩
  ⟨original, p.remapped, p.latency⟩

/-- The entries that `getServers` passes: the data chunk of the key, the parity chunks, and the other
data chunks that are degraded, when the request changes a value. -/
def entriesOf (opcode : RequestOpcode) (chunkId : ℕ) (isDegraded : ℕ → Bool) : List ℕ :=
  chunkId :: (List.range sch.parityChunkCount).map (sch.dataChunkCount + ·) ++
    if opcode = .update ∨ opcode = .delete then
      (List.range sch.dataChunkCount).filter fun i => i ≠ chunkId && isDegraded i
    else []

/-! ## One entry -/

variable {sch}
variable {selected redirected : List ℕ} {latency : ℕ → Option Latency} {original j : ℕ}

/-- A chunk whose server may be chosen. -/
structure IsCandidate (sch : RemappingScheme) (selected redirected : List ℕ) (j : ℕ) : Prop where
  lt : j < sch.chunkCount
  unselected : sch.server j ∉ selected
  unredirected : sch.server j ∉ redirected
  normal : sch.useCoordinatedFlow (sch.server j) = false

theorem consider_of_candidate (h : sch.IsCandidate selected redirected j) (c : Choice) :
    sch.consider selected redirected latency original c j =
      if c.chunk = original ∨ isLess (latency (sch.server j)) c.latency then
        ⟨j, latency (sch.server j)⟩ else c := by
  rw [consider, if_neg h.unselected, if_neg h.unredirected, h.normal, if_neg Bool.false_ne_true]

theorem consider_of_not_candidate (hj : j < sch.chunkCount)
    (h : ¬sch.IsCandidate selected redirected j) (c : Choice) :
    sch.consider selected redirected latency original c j = c := by
  rw [consider]
  split_ifs with hselected hredirected hnormal
  · rfl
  · rfl
  · rfl
  · exact absurd ⟨hj, hselected, hredirected, Bool.eq_false_of_not_eq_true hnormal⟩ h
  · rfl

/-- As long as there is a candidate, one is chosen. -/
theorem choose_candidate (h : ∃ j, sch.IsCandidate selected redirected j) :
    sch.IsCandidate selected redirected (sch.choose selected redirected latency original) := by
  have hscan : ∀ m ≤ sch.chunkCount,
      let c := (List.range m).foldl (sch.consider selected redirected latency original)
        ⟨original, none⟩
      (c.chunk = original ∧ ∀ j < m, ¬sch.IsCandidate selected redirected j) ∨
        sch.IsCandidate selected redirected c.chunk := by
    intro m hm
    induction m with
    | zero => exact .inl ⟨rfl, fun j hj => absurd hj (Nat.not_lt_zero j)⟩
    | succ m ih =>
      simp only [List.range_succ, List.foldl_append, List.foldl_cons, List.foldl_nil]
      by_cases hcandidate : sch.IsCandidate selected redirected m
      · right
        rw [consider_of_candidate hcandidate]
        split_ifs with htake
        · exact hcandidate
        · exact (ih (by omega)).resolve_left fun hnone => htake (.inl hnone.1)
      · rw [consider_of_not_candidate (by omega) hcandidate]
        rcases ih (by omega) with ⟨hchunk, hnone⟩ | hfound
        · refine .inl ⟨hchunk, fun j hj => ?_⟩
          rcases Nat.lt_succ_iff_lt_or_eq.mp hj with hlt | rfl
          · exact hnone j hlt
          · exact hcandidate
        · exact .inr hfound
  rcases hscan sch.chunkCount le_rfl with ⟨-, hnone⟩ | hfound
  · obtain ⟨j, hj⟩ := h
    exact absurd hj (hnone j hj.lt)
  · exact hfound

/-! ## All entries -/

/-- The chunks whose servers are normal and not selected from the start. -/
def spare (sch : RemappingScheme) (selected : List ℕ) : Finset ℕ :=
  (Finset.range sch.chunkCount).filter fun j =>
    sch.server j ∉ selected ∧ sch.useCoordinatedFlow (sch.server j) = false

/-- While fewer servers are taken than there are to spare, there is a candidate. -/
theorem exists_candidate (h : redirected.length < (sch.spare selected).card) :
    ∃ j, sch.IsCandidate selected redirected j := by
  have hinj : Set.InjOn sch.server (sch.spare selected) := fun a ha b hb hab =>
    sch.injOn (Finset.mem_range.mp (Finset.mem_of_mem_filter a ha))
      (Finset.mem_range.mp (Finset.mem_of_mem_filter b hb)) hab
  have hcard : redirected.toFinset.card < ((sch.spare selected).image sch.server).card := by
    rw [Finset.card_image_of_injOn hinj]
    exact (List.toFinset_card_le redirected).trans_lt h
  obtain ⟨server, hmem, hnot⟩ := Finset.exists_mem_notMem_of_card_lt_card hcard
  obtain ⟨j, hj, rfl⟩ := Finset.mem_image.mp hmem
  obtain ⟨hlt, hselected, hnormal⟩ := Finset.mem_filter.mp hj
  exact ⟨j, Finset.mem_range.mp hlt, hselected, fun hr => hnot (List.mem_toFinset.mpr hr), hnormal⟩

/-- What holds while the entries `done` are remapped. -/
structure Remapped (sch : RemappingScheme) (selected done : List ℕ) (p : Progress) : Prop where
  length_eq : p.remapped.length = done.length
  redirected : p.redirectedServers = (p.remapped.map sch.server).reverse
  spare : ∀ j ∈ p.remapped, j ∈ sch.spare selected
  nodup : (p.remapped.map sch.server).Nodup

theorem Remapped.start : sch.Remapped selected [] ⟨[], [], latency⟩ :=
  ⟨rfl, rfl, fun _ hj => absurd hj List.not_mem_nil, List.nodup_nil⟩

theorem Remapped.remapEntry {done : List ℕ} {p : Progress} (h : sch.Remapped selected done p)
    (horiginal : sch.useCoordinatedFlow (sch.server original) = true)
    (hroom : done.length < (sch.spare selected).card) :
    sch.Remapped selected (done ++ [original]) (sch.remapEntry selected p original) := by
  have hlength : p.redirectedServers.length = done.length := by
    rw [h.redirected, List.length_reverse, List.length_map, h.length_eq]
  have hnot : ¬sch.IsCandidate selected p.redirectedServers original := fun hc =>
    Bool.false_ne_true (hc.normal.symm.trans horiginal)
  have hchosen : sch.IsCandidate selected p.redirectedServers
      (sch.choose selected p.redirectedServers p.latency original) :=
    choose_candidate (exists_candidate (hlength ▸ hroom))
  have hne : sch.choose selected p.redirectedServers p.latency original ≠ original :=
    fun heq => hnot (heq ▸ hchosen)
  have hfresh : sch.server (sch.choose selected p.redirectedServers p.latency original) ∉
      p.remapped.map sch.server := by
    rw [← List.mem_reverse, ← h.redirected]
    exact hchosen.unredirected
  rw [RemappingScheme.remapEntry, if_neg hne]
  constructor
  · simp [h.length_eq]
  · simp [h.redirected]
  · intro j hj
    rcases List.mem_append.mp hj with hj | hj
    · exact h.spare j hj
    · rw [List.mem_singleton.mp hj]
      exact Finset.mem_filter.mpr
        ⟨Finset.mem_range.mpr hchosen.lt, hchosen.unselected, hchosen.normal⟩
  · rw [List.map_append, List.nodup_append]
    refine ⟨h.nodup, List.nodup_singleton _, fun a ha b hb hab => ?_⟩
    rw [List.map_singleton, List.mem_singleton] at hb
    exact hfresh (hab.trans hb ▸ ha)

theorem remapped_foldl (originals : List ℕ)
    (horiginals : ∀ e ∈ originals, sch.useCoordinatedFlow (sch.server e) = true)
    (hroom : originals.length ≤ (sch.spare selected).card) :
    sch.Remapped selected originals
      (originals.foldl (sch.remapEntry selected) ⟨[], [], latency⟩) := by
  induction originals using List.reverseRecOn with
  | nil => exact .start
  | append_singleton originals original ih =>
    rw [List.length_append, List.length_singleton] at hroom
    rw [List.foldl_append]
    refine (ih (fun e he => ?_) (by omega)).remapEntry ?_ (by omega)
    · exact horiginals e (List.mem_append_left _ he)
    · exact horiginals original (List.mem_append_right _ (List.mem_singleton_self original))

/-! ## Requests -/

theorem useCoordinatedFlow_of_allowRemapping {server : ℕ} (h : sch.allowRemapping server = true) :
    sch.useCoordinatedFlow server = true := by
  simp only [allowRemapping, Bool.or_eq_true, decide_eq_true_eq] at h
  rcases h with (h | h) | h <;> simp [useCoordinatedFlow, h]

variable {opcode : RequestOpcode} {chunkId : ℕ} {isDegraded : ℕ → Bool}

theorem lt_of_mem_entriesOf (hchunk : chunkId < sch.dataChunkCount) {e : ℕ}
    (he : e ∈ sch.entriesOf opcode chunkId isDegraded) : e < sch.chunkCount := by
  rw [chunkCount]
  rw [entriesOf, List.cons_append, List.mem_cons, List.mem_append, List.mem_map] at he
  rcases he with rfl | ⟨i, hi, rfl⟩ | he
  · omega
  · have hlt := List.mem_range.mp hi
    omega
  · split_ifs at he
    · have hlt := List.mem_range.mp (List.mem_of_mem_filter he)
      omega
    · cases he

theorem nodup_entriesOf (hchunk : chunkId < sch.dataChunkCount) :
    (sch.entriesOf opcode chunkId isDegraded).Nodup := by
  have hinj : Function.Injective (sch.dataChunkCount + ·) := fun a b h => Nat.add_left_cancel h
  have hparity : ((List.range sch.parityChunkCount).map (sch.dataChunkCount + ·)).Nodup :=
    List.nodup_range.map hinj
  rw [entriesOf, List.cons_append, List.nodup_cons, List.nodup_append]
  refine ⟨fun hmem => ?_, hparity, ?_, fun a ha b hb hab => ?_⟩
  · rcases List.mem_append.mp hmem with hmem | hmem
    · obtain ⟨i, -, hi⟩ := List.mem_map.mp hmem
      omega
    · split_ifs at hmem
      · simpa using List.of_mem_filter hmem
      · cases hmem
  · split_ifs
    · exact List.nodup_range.filter _
    · exact List.nodup_nil
  · obtain ⟨i, -, rfl⟩ := List.mem_map.mp ha
    split_ifs at hb
    · have hlt := List.mem_range.mp (List.mem_of_mem_filter hb)
      omega
    · cases hb

/-- The normal servers of the list that hold none of the chunks, and their number. -/
def others (sch : RemappingScheme) (entries : List ℕ) : Finset ℕ :=
  (Finset.range sch.chunkCount).filter fun j =>
    j ∉ entries ∧ sch.useCoordinatedFlow (sch.server j) = false

/-- Chunks of different servers of the list are different. -/
theorem server_mem_map_iff {entries : List ℕ} (hentries : ∀ e ∈ entries, e < sch.chunkCount)
    (hj : j < sch.chunkCount) : sch.server j ∈ entries.map sch.server ↔ j ∈ entries := by
  constructor
  · intro hmem
    obtain ⟨e, he, heq⟩ := List.mem_map.mp hmem
    obtain rfl := sch.injOn (hentries e he) hj heq
    exact he
  · exact fun hmem => List.mem_map_of_mem hmem

theorem selectedServers_subset (entries : List ℕ) :
    sch.selectedServers entries ⊆ entries.map sch.server := by
  rw [selectedServers]
  split_ifs
  · exact List.Subset.refl _
  · exact (List.map_subset _ (List.drop_subset _ _))

theorem others_subset_spare {entries : List ℕ} (hentries : ∀ e ∈ entries, e < sch.chunkCount) :
    sch.others entries ⊆ sch.spare (sch.selectedServers entries) := by
  intro j hj
  obtain ⟨hlt, hnot, hnormal⟩ := Finset.mem_filter.mp hj
  refine Finset.mem_filter.mpr ⟨hlt, fun hmem => hnot ?_, hnormal⟩
  exact (server_mem_map_iff hentries (Finset.mem_range.mp hlt)).mp (selectedServers_subset _ hmem)

end RemappingScheme

/-- Where a chunk is after the redirection. -/
def Redirection.place (r : Redirection) (e : ℕ) : ℕ := r.remapped.getD (r.original.idxOf e) e

namespace RemappingScheme

variable {sch : RemappingScheme} {latency : ℕ → Option Latency} {entries : List ℕ} {isGet : Bool}

/-- What a redirection keeps apart. -/
structure Separates (sch : RemappingScheme) (entries : List ℕ) (isGet : Bool) (r : Redirection) :
    Prop where
  original : r.original = sch.toRemap entries isGet
  length_eq : r.remapped.length = r.original.length
  normal : ∀ j ∈ r.remapped, j < sch.chunkCount ∧ sch.useCoordinatedFlow (sch.server j) = false
  distinct : (r.remapped.map sch.server).Nodup
  apartFromLost : ∀ j ∈ r.remapped, ∀ e ∈ entries.drop (1 + sch.parityChunkCount),
    sch.server j ≠ sch.server e
  apart : entries.length ≤ sch.dataChunkCount → ∀ j ∈ r.remapped, ∀ e ∈ entries,
    sch.server j ≠ sch.server e
  placed : entries.length ≤ sch.dataChunkCount →
    (entries.map fun e => sch.server (r.place e)).Nodup

theorem place_of_notMem {r : Redirection} (hlength : r.remapped.length = r.original.length) {e : ℕ}
    (he : e ∉ r.original) : r.place e = e := by
  rw [Redirection.place, List.idxOf_eq_length he, ← hlength]
  exact List.getD_eq_default _ _ le_rfl

theorem place_mem {r : Redirection} (hlength : r.remapped.length = r.original.length) {e : ℕ}
    (he : e ∈ r.original) : r.place e ∈ r.remapped := by
  have hidx : r.original.idxOf e < r.remapped.length := hlength ▸ List.idxOf_lt_length_of_mem he
  rw [Redirection.place, List.getD_eq_getElem _ _ hidx]
  exact List.getElem_mem hidx

theorem place_inj {r : Redirection} (hlength : r.remapped.length = r.original.length)
    (hnodup : r.remapped.Nodup) {e e' : ℕ} (he : e ∈ r.original) (he' : e' ∈ r.original)
    (h : r.place e = r.place e') : e = e' := by
  have hidx : r.original.idxOf e < r.remapped.length := hlength ▸ List.idxOf_lt_length_of_mem he
  have hidx' : r.original.idxOf e' < r.remapped.length := hlength ▸ List.idxOf_lt_length_of_mem he'
  rw [Redirection.place, Redirection.place, List.getD_eq_getElem _ _ hidx,
    List.getD_eq_getElem _ _ hidx'] at h
  exact (List.idxOf_inj he).mp ((hnodup.getElem_inj_iff).mp h)

theorem redirect_remapped (latency : ℕ → Option Latency) (hentries : ∀ e ∈ entries, e < sch.chunkCount)
    (hroom : (sch.toRemap entries isGet).length ≤ (sch.others entries).card) :
    ∃ p, sch.Remapped (sch.selectedServers entries) (sch.toRemap entries isGet) p ∧
      sch.redirect latency entries isGet =
        ⟨sch.toRemap entries isGet, p.remapped, p.latency⟩ := by
  refine ⟨_, remapped_foldl _ (fun e he => ?_) ?_, rfl⟩
  · have hremap := List.of_mem_filter he
    rw [Bool.and_eq_true] at hremap
    exact useCoordinatedFlow_of_allowRemapping hremap.1
  · exact hroom.trans (Finset.card_le_card (others_subset_spare hentries))

theorem redirect_separates_of (hentries : ∀ e ∈ entries, e < sch.chunkCount)
    (hnodup : entries.Nodup)
    (hroom : (sch.toRemap entries isGet).length ≤ (sch.others entries).card) :
    sch.Separates entries isGet (sch.redirect latency entries isGet) := by
  obtain ⟨p, hp, heq⟩ := redirect_remapped latency hentries hroom
  rw [heq]
  have hspare : ∀ j ∈ p.remapped, j < sch.chunkCount ∧
      sch.server j ∉ sch.selectedServers entries ∧
        sch.useCoordinatedFlow (sch.server j) = false := by
    intro j hj
    obtain ⟨hlt, hrest⟩ := Finset.mem_filter.mp (hp.spare j hj)
    exact ⟨Finset.mem_range.mp hlt, hrest⟩
  have hapart : entries.length ≤ sch.dataChunkCount → ∀ j ∈ p.remapped, ∀ e ∈ entries,
      sch.server j ≠ sch.server e := by
    intro hfew j hj e he hserver
    refine (hspare j hj).2.1 ?_
    rw [selectedServers, if_pos hfew, hserver]
    exact List.mem_map_of_mem he
  refine ⟨rfl, hp.length_eq, fun j hj => ⟨(hspare j hj).1, (hspare j hj).2.2⟩, hp.nodup, ?_,
    hapart, fun hfew => ?_⟩
  · intro j hj e he hserver
    refine (hspare j hj).2.1 ?_
    rw [selectedServers]
    split_ifs
    · rw [hserver]
      exact List.mem_map_of_mem ((List.drop_subset _ _) he)
    · rw [hserver]
      exact List.mem_map_of_mem he
  · refine (List.nodup_map_iff_inj_on hnodup).mpr fun e he e' he' hserver => ?_
    have hmem := fun {x} => place_mem (r := ⟨sch.toRemap entries isGet, p.remapped, p.latency⟩)
      hp.length_eq (e := x)
    have hself := fun {x} => place_of_notMem
      (r := ⟨sch.toRemap entries isGet, p.remapped, p.latency⟩) hp.length_eq (e := x)
    by_cases hr : e ∈ sch.toRemap entries isGet
    · by_cases hr' : e' ∈ sch.toRemap entries isGet
      · have hplace := List.inj_on_of_nodup_map hp.nodup (hmem hr) (hmem hr') hserver
        exact place_inj hp.length_eq hp.nodup.of_map hr hr' hplace
      · rw [hself hr'] at hserver
        exact absurd hserver (hapart hfew _ (hmem hr) e' he')
    · rw [hself hr] at hserver
      by_cases hr' : e' ∈ sch.toRemap entries isGet
      · exact absurd hserver.symm (hapart hfew _ (hmem hr') e he)
      · rw [hself hr'] at hserver
        exact sch.injOn (hentries e he) (hentries e' he') hserver

/-- The failed entries of a request (of a GET the data chunk, if it is one) are remapped to different
normal servers, when there are enough that hold no chunk of the entries. If there are not more entries
than data chunks, none of the entries' own servers is chosen, and all chunks are on different servers
afterwards; otherwise the servers of the lost data chunks behind the object's own are not chosen. -/
theorem redirect_separates (sch : RemappingScheme) (latency : ℕ → Option Latency)
    (opcode : RequestOpcode) (chunkId : ℕ) (isDegraded : ℕ → Bool)
    (hchunk : chunkId < sch.dataChunkCount)
    (hroom : (sch.toRemap (sch.entriesOf opcode chunkId isDegraded) (opcode = .get)).length ≤
      (sch.others (sch.entriesOf opcode chunkId isDegraded)).card) :
    sch.Separates (sch.entriesOf opcode chunkId isDegraded) (opcode = .get)
      (sch.redirect latency (sch.entriesOf opcode chunkId isDegraded) (opcode = .get)) :=
  redirect_separates_of (fun _ he => lt_of_mem_entriesOf hchunk he) (nodup_entriesOf hchunk) hroom

/-- A data server and the parity server have failed. -/
def failedParity : RemappingScheme where
  dataChunkCount := 3
  parityChunkCount := 1
  server := id
  serversState i := some (if i = 0 ∨ i = 3 then .degraded else .normal)
  injOn := Function.injective_id.injOn

theorem redirect_separates_failedParity :
    failedParity.Separates (failedParity.entriesOf .set 0 fun _ => false) false
      (failedParity.redirect (fun _ => none) (failedParity.entriesOf .set 0 fun _ => false) false) :=
  redirect_separates failedParity (fun _ => none) .set 0 (fun _ => false) (by decide) (by decide)

/-! ## Redirections that do not keep chunks apart -/

/-- All that a redirection could keep apart: the failed entries of every request are remapped, to
servers without a chunk of the entries that has not failed. -/
structure SeparatesAll (sch : RemappingScheme) (entries : List ℕ) (r : Redirection) : Prop where
  original : r.original = entries.filter fun e => sch.allowRemapping (sch.server e)
  normal : ∀ j ∈ r.remapped, sch.useCoordinatedFlow (sch.server j) = false
  distinct : (r.remapped.map sch.server).Nodup
  apart : ∀ j ∈ r.remapped, ∀ e ∈ entries, sch.allowRemapping (sch.server e) = false →
    sch.server j ≠ sch.server e
  placed : (entries.map fun e => sch.server (r.place e)).Nodup

def SeparatesRequests (opcode : RequestOpcode) : Prop :=
  ∀ (sch : RemappingScheme) (latency : ℕ → Option Latency) (chunkId : ℕ) (isDegraded : ℕ → Bool),
    chunkId < sch.dataChunkCount →
      ((sch.entriesOf opcode chunkId isDegraded).filter
        fun e => sch.allowRemapping (sch.server e)).length ≤
          (sch.others (sch.entriesOf opcode chunkId isDegraded)).card →
      sch.SeparatesAll (sch.entriesOf opcode chunkId isDegraded)
        (sch.redirect latency (sch.entriesOf opcode chunkId isDegraded) (opcode = .get))

/-- As many parity as data servers. -/
def manyParity : RemappingScheme where
  dataChunkCount := 2
  parityChunkCount := 2
  server := id
  serversState i := some (if i = 0 then .degraded else .normal)
  injOn := Function.injective_id.injOn

/-- The parity chunk of a GET is not remapped, and a SET is remapped to the parity server with the
least latency. -/
theorem not_separatesRequests : ¬SeparatesRequests .get ∧ ¬SeparatesRequests .set := by
  constructor
  · intro h
    have horiginal := (h failedParity (fun _ => none) 0 (fun _ => false) (by decide)
      (by decide)).original
    exact absurd horiginal (by decide)
  · intro h
    have hapart := (h manyParity (fun i => some ⟨0, if i = 2 then 1 else 5⟩) 0 (fun _ => false)
      (by decide) (by decide)).apart
    exact absurd hapart (by decide)

end RemappingScheme

end MemEC.Client
