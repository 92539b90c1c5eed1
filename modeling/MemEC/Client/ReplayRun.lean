import MemEC.Client.Replay
import MemEC.Lib.Lists

/-!
# A replay queues each request once

The entries of a server find their requests in the maps of the applications. When
no entry fits the request of another one, the search finds these requests, whatever
was erased and inserted again before. The map then holds all of them if and only if
their timestamps differ, and the loop goes around it from the oldest on.
-/

namespace MemEC.Client

open MemEC.Lib MemEC.Common

/-! ## The search -/

namespace EntryMap

variable {V : Type} {taken : V → V} {stays : V → Bool} {p : TimedIdentifier × V → Bool}
  {m : EntryMap V} {a : TimedIdentifier × V}

variable (taken stays) in
/-- What is handed out is the first entry with the property. The others are found as before. -/
theorem eraseEntry_of_find? (h : m.find? p = some a) :
    ∃ m', eraseEntry taken stays p m = some ((a.1, taken a.2), m') ∧
      ∀ q, q a = false → q (a.1, taken a.2) = false → m'.find? q = m.find? q := by
  unfold eraseEntry
  rw [h]
  refine ⟨_, rfl, ?_⟩
  intro q hq htaken
  split_ifs
  · exact find?_set_of_find? h hq htaken
  · exact find?_eraseP_of_find? h hq

theorem filter_cons_of_ptr {server : ℕ} {e : TimedIdentifier × V} (h : e.1.ptr = server)
    (m : EntryMap V) : (e :: m).filter (fun e => e.1.ptr = server) =
      e :: m.filter fun e => e.1.ptr = server :=
  List.filter_cons_of_pos (decide_eq_true h)

theorem filter_cons_of_ptr_ne {server : ℕ} {e : TimedIdentifier × V} (h : e.1.ptr ≠ server)
    (m : EntryMap V) : (e :: m).filter (fun e => e.1.ptr = server) =
      m.filter fun e => e.1.ptr = server :=
  List.filter_cons_of_neg fun heq => h (of_decide_eq_true heq)

end EntryMap

namespace ReplayKind

variable {V A : Type} (k : ReplayKind V A) {server : ℕ} {currentTime : TimestampValue}

/-- The entry of an application that an entry of a server asks for. -/
def isBackup (e : TimedIdentifier × V) : TimedIdentifier × A → Bool :=
  EntryMap.isEntry k.key e.1.parentInstanceId e.1.parentRequestId 0 (some (k.serverKey e.2))

theorem key_taken (a : A) : k.key (k.taken a) = k.key a := by
  rw [← k.key_request, k.request_taken, k.key_request]

theorem isBackup_taken (e : TimedIdentifier × V) (a : TimedIdentifier × A) :
    k.isBackup e (a.1, k.taken a.2) = k.isBackup e a := by
  unfold isBackup EntryMap.isEntry
  dsimp only
  rw [k.key_taken]

theorem isBackup_reinserted (e : TimedIdentifier × V) (a : TimedIdentifier × A) :
    k.isBackup e (a.1.reinserted, k.taken a.2) = k.isBackup e a := by
  rw [← k.isBackup_taken e a]
  rfl

theorem fits_backup (e : TimedIdentifier × V) (a : TimedIdentifier × A) :
    (k.entry e).fits (k.backup a).event = k.isBackup e a := by
  simp only [ServerEntry.fits, entry, backup, ApplicationRequest.event, ApplicationRequest.info,
    RequestInfo.event, isBackup, EntryMap.isEntry, PendingIdentifier.is, k.opcode_request,
    k.key_request, decide_true, Bool.true_and, beq_self_eq_true, Bool.true_or, Bool.and_true]
  rfl

theorem find?_backup (applications : EntryMap A) (e : TimedIdentifier × V) :
    (applications.map k.backup).find? (fun a => (k.entry e).fits a.event) =
      (applications.find? (k.isBackup e)).map k.backup := by
  rw [List.find?_map]
  congr 2
  funext a
  exact k.fits_backup e a

/-- The requests that the entries of a server find. -/
def backups (server : ℕ) (m : EntryMap V) (applications : EntryMap A) : List ApplicationRequest :=
  (m.filter fun e => e.1.ptr = server).filterMap fun e =>
    (applications.find? (k.isBackup e)).map k.backup

theorem backups_congr {m : EntryMap V} {applications applications' : EntryMap A}
    (h : ∀ e ∈ m, e.1.ptr = server →
      applications'.find? (k.isBackup e) = applications.find? (k.isBackup e)) :
    k.backups server m applications' = k.backups server m applications := by
  apply List.filterMap_congr
  intro e he
  obtain ⟨hmem, hptr⟩ := List.mem_filter.mp he
  rw [h e hmem (of_decide_eq_true hptr)]

theorem searchMap_cons_of_ne {kept todo : EntryMap V} {e : TimedIdentifier × V}
    (h : e.1.ptr ≠ server) (applications : EntryMap A) (s : ReplaySearch) :
    k.searchMap server currentTime kept (e :: todo) applications s =
      k.searchMap server currentTime (kept ++ [e]) todo applications s := by
  rw [searchMap, if_pos h]

variable (currentTime) in
/-- An entry leaves the map of the server, and its request is added. The entries that do not fit
this request find what they would have found before. -/
theorem searchMap_cons_of_found {e : TimedIdentifier × V} {applications : EntryMap A}
    {a : TimedIdentifier × A} (hptr : e.1.ptr = server)
    (ha : applications.find? (k.isBackup e) = some a) (kept todo : EntryMap V) (s : ReplaySearch) :
    ∃ applications', k.searchMap server currentTime kept (e :: todo) applications s =
        k.searchMap server currentTime kept todo applications' (s.add currentTime (k.backup a)) ∧
      ∀ e', k.isBackup e' a = false →
        applications'.find? (k.isBackup e') = applications.find? (k.isBackup e') := by
  obtain ⟨rest, herase, hsame⟩ := EntryMap.eraseEntry_of_find? k.taken k.stays ha
  have hfound : k.erase e.1.parentInstanceId e.1.parentRequestId 0 (some (k.serverKey e.2))
      applications = some ((a.1, k.taken a.2), rest) := (k.erase_eq _ _ _ _ _).trans herase
  have hrest : ∀ e', k.isBackup e' a = false →
      rest.find? (k.isBackup e') = applications.find? (k.isBackup e') :=
    fun e' hnot => hsame _ hnot ((k.isBackup_taken e' a).trans hnot)
  rw [searchMap, if_neg (not_not_intro hptr), hfound]
  dsimp only
  rw [k.request_taken]
  refine ⟨_, rfl, ?_⟩
  intro e' hnot
  split_ifs
  · rw [List.find?_cons_of_neg, hrest e' hnot]
    rw [k.isBackup_reinserted, hnot]
    exact Bool.false_ne_true
  · exact hrest e' hnot

theorem backups_cons_of_ne {todo : EntryMap V} {e : TimedIdentifier × V} (h : e.1.ptr ≠ server)
    (applications : EntryMap A) :
    k.backups server (e :: todo) applications = k.backups server todo applications := by
  unfold backups
  rw [EntryMap.filter_cons_of_ptr_ne h]

theorem backups_cons_of_found {todo : EntryMap V} {e : TimedIdentifier × V}
    {applications : EntryMap A} {a : TimedIdentifier × A} (hptr : e.1.ptr = server)
    (ha : applications.find? (k.isBackup e) = some a) :
    k.backups server (e :: todo) applications =
      k.backup a :: k.backups server todo applications := by
  unfold backups
  rw [EntryMap.filter_cons_of_ptr hptr, List.filterMap_cons, ha]
  rfl

theorem searchMap_eq {kept todo : EntryMap V} {applications : EntryMap A} {s : ReplaySearch}
    (hfound : ∀ e ∈ todo, e.1.ptr = server → ∃ a, applications.find? (k.isBackup e) = some a)
    (hapart : (todo.filter fun e => e.1.ptr = server).Pairwise fun e e' =>
      ∀ a, applications.find? (k.isBackup e) = some a → k.isBackup e' a = false) :
    (k.searchMap server currentTime kept todo applications s).1 =
        kept ++ todo.filter (fun e => e.1.ptr ≠ server) ∧
      (k.searchMap server currentTime kept todo applications s).2.2 =
        (k.backups server todo applications).foldl (ReplaySearch.add currentTime) s := by
  induction todo generalizing kept applications s with
  | nil => exact ⟨(List.append_nil kept).symm, rfl⟩
  | cons e todo ih =>
    have hrest : ∀ e' ∈ todo, e'.1.ptr = server →
        ∃ a, applications.find? (k.isBackup e') = some a :=
      fun e' he' => hfound e' (List.mem_cons_of_mem e he')
    by_cases hptr : e.1.ptr = server
    · obtain ⟨a, ha⟩ := hfound e List.mem_cons_self hptr
      rw [EntryMap.filter_cons_of_ptr hptr, List.pairwise_cons] at hapart
      obtain ⟨applications', hstep, hsame⟩ :=
        k.searchMap_cons_of_found currentTime hptr ha kept todo s
      have hlater : ∀ e' ∈ todo, e'.1.ptr = server →
          applications'.find? (k.isBackup e') = applications.find? (k.isBackup e') := by
        intro e' he' hptr'
        apply hsame
        exact hapart.1 e' (List.mem_filter.mpr ⟨he', decide_eq_true hptr'⟩) a ha
      have hfound' : ∀ e' ∈ todo, e'.1.ptr = server →
          ∃ b, applications'.find? (k.isBackup e') = some b := by
        intro e' he' hptr'
        rw [hlater e' he' hptr']
        exact hrest e' he' hptr'
      have hapart' : (todo.filter fun e => e.1.ptr = server).Pairwise fun e e' =>
          ∀ b, applications'.find? (k.isBackup e) = some b → k.isBackup e' b = false := by
        apply hapart.2.imp_of_mem
        intro e' e'' he' _ hnot b hb
        obtain ⟨hmem, hptr'⟩ := List.mem_filter.mp he'
        rw [hlater e' hmem (of_decide_eq_true hptr')] at hb
        exact hnot b hb
      obtain ⟨hkept, hadded⟩ :=
        @ih kept applications' (s.add currentTime (k.backup a)) hfound' hapart'
      rw [hstep, k.backups_cons_of_found hptr ha, ← k.backups_congr hlater]
      constructor
      · rw [hkept, List.filter_cons_of_neg]
        simp [hptr]
      · exact hadded
    · rw [EntryMap.filter_cons_of_ptr_ne hptr] at hapart
      obtain ⟨hkept, hadded⟩ := @ih (kept ++ [e]) applications s hrest hapart
      rw [k.searchMap_cons_of_ne hptr, k.backups_cons_of_ne hptr]
      constructor
      · rw [hkept, List.filter_cons_of_pos, List.append_assoc]
        · rfl
        · simp [hptr]
      · exact hadded

end ReplayKind

/-! ## The start -/

theorem ReplaySearch.smallestTime_add (currentTime : TimestampValue) (s : ReplaySearch)
    (a : ApplicationRequest) :
    (s.add currentTime a).smallestTime = min a.pid.timestamp s.smallestTime := by
  unfold ReplaySearch.add
  dsimp only
  split_ifs with hlt
  · exact (min_eq_left hlt.le).symm
  · exact (min_eq_right (not_lt.mp hlt)).symm

/-- The times are those of the requests found so far. -/
structure Scanned (currentTime : TimestampValue) (l : List ApplicationRequest) (s : ReplaySearch) :
    Prop where
  le_current : s.smallestTime ≤ currentTime
  smallest_mem : s.smallestTime = currentTime ∨ ∃ a ∈ l, a.pid.timestamp = s.smallestTime
  smallest_le : ∀ a ∈ l, s.smallestTime ≤ a.pid.timestamp
  after : (s.smallestTimeAfterCurrent = currentTime ∧ ∀ a ∈ l, a.pid.timestamp ≤ currentTime) ∨
    (currentTime < s.smallestTimeAfterCurrent ∧
      (∃ a ∈ l, a.pid.timestamp = s.smallestTimeAfterCurrent) ∧
      ∀ a ∈ l, currentTime < a.pid.timestamp → s.smallestTimeAfterCurrent ≤ a.pid.timestamp)

namespace Scanned

variable {currentTime : TimestampValue} {l : List ApplicationRequest} {s : ReplaySearch}

theorem nil (map : RequestMap) : Scanned currentTime [] ⟨map, currentTime, currentTime⟩ where
  le_current := le_rfl
  smallest_mem := Or.inl rfl
  smallest_le := fun _ ha => absurd ha List.not_mem_nil
  after := Or.inl ⟨rfl, fun _ ha => absurd ha List.not_mem_nil⟩

theorem after_add (h : Scanned currentTime l s) (a : ApplicationRequest) :
    ((s.add currentTime a).smallestTimeAfterCurrent = currentTime ∧
        ∀ b ∈ l ++ [a], b.pid.timestamp ≤ currentTime) ∨
      (currentTime < (s.add currentTime a).smallestTimeAfterCurrent ∧
        (∃ b ∈ l ++ [a], b.pid.timestamp = (s.add currentTime a).smallestTimeAfterCurrent) ∧
        ∀ b ∈ l ++ [a], currentTime < b.pid.timestamp →
          (s.add currentTime a).smallestTimeAfterCurrent ≤ b.pid.timestamp) := by
  have hsplit : ∀ {P : ApplicationRequest → Prop}, (∀ b ∈ l, P b) → P a → ∀ b ∈ l ++ [a], P b := by
    intro P hl ha b hb
    rcases List.mem_append.mp hb with hb | hb
    · exact hl b hb
    · exact (List.mem_singleton.mp hb) ▸ ha
  have hnew : a ∈ l ++ [a] := List.mem_append_right l List.mem_cons_self
  unfold ReplaySearch.add
  dsimp only
  rcases h.after with ⟨hnone, hall⟩ | ⟨hlt, ⟨b, hb, hb_eq⟩, hmin⟩
  · rw [hnone]
    split_ifs with hif
    · right
      refine ⟨hif.1, ⟨a, hnew, rfl⟩, ?_⟩
      apply hsplit
      · exact fun b hb hlt => absurd (hall b hb) (not_le.mpr hlt)
      · exact fun _ => le_rfl
    · left
      refine ⟨rfl, hsplit hall ?_⟩
      by_contra hgt
      exact hif ⟨not_le.mp hgt, Or.inr rfl⟩
  · split_ifs with hif
    · right
      refine ⟨hif.1, ⟨a, hnew, rfl⟩, ?_⟩
      apply hsplit
      · intro b hb hlt'
        rcases hif.2 with hless | heq
        · exact hless.le.trans (hmin b hb hlt')
        · exact absurd heq hlt.ne'
      · exact fun _ => le_rfl
    · right
      refine ⟨hlt, ⟨b, List.mem_append_left [a] hb, hb_eq⟩, ?_⟩
      apply hsplit hmin
      intro hlt'
      by_contra hless
      exact hif ⟨hlt', Or.inl (not_le.mp hless)⟩

theorem add (h : Scanned currentTime l s) (a : ApplicationRequest) :
    Scanned currentTime (l ++ [a]) (s.add currentTime a) where
  le_current := by
    rw [ReplaySearch.smallestTime_add]
    exact (min_le_right _ _).trans h.le_current
  smallest_mem := by
    rw [ReplaySearch.smallestTime_add]
    rcases min_choice a.pid.timestamp s.smallestTime with hmin | hmin
    · right
      exact ⟨a, List.mem_append_right l List.mem_cons_self, hmin.symm⟩
    · rw [hmin]
      rcases h.smallest_mem with heq | ⟨b, hb, heq⟩
      · exact Or.inl heq
      · exact Or.inr ⟨b, List.mem_append_left [a] hb, heq⟩
  smallest_le := by
    intro b hb
    rw [ReplaySearch.smallestTime_add]
    rcases List.mem_append.mp hb with hb | hb
    · exact (min_le_right _ _).trans (h.smallest_le b hb)
    · rw [List.mem_singleton.mp hb]
      exact min_le_left _ _
  after := h.after_add a

theorem foldl (h : Scanned currentTime l s) (l' : List ApplicationRequest) :
    Scanned currentTime (l ++ l') (l'.foldl (ReplaySearch.add currentTime) s) := by
  induction l' generalizing l s with
  | nil =>
    rw [List.append_nil]
    exact h
  | cons a l' ih =>
    have hnext := ih (h.add a)
    rw [List.append_assoc] at hnext
    exact hnext

end Scanned

theorem ReplaySearch.map_foldl_add (currentTime : TimestampValue) (l : List ApplicationRequest)
    (s : ReplaySearch) : (l.foldl (ReplaySearch.add currentTime) s).map =
      s.map.insertAll (l.map fun a => (a.pid.timestamp, a.info)) := by
  induction l generalizing s with
  | nil => rfl
  | cons a l ih => exact ih _

namespace Pending

theorem le_age_of_le {currentTime t t' : TimestampValue} (h : t ≤ t') (h' : t' ≤ currentTime) :
    age currentTime t' ≤ age currentTime t := by
  rw [Fin.le_def] at *
  unfold age
  rw [Fin.val_sub, Fin.val_sub]
  have := currentTime.isLt
  omega

theorem le_age_of_lt {currentTime t t' : TimestampValue} (h : currentTime < t) (h' : t ≤ t') :
    age currentTime t' ≤ age currentTime t := by
  rw [Fin.le_def] at *
  rw [Fin.lt_def] at h
  unfold age
  rw [Fin.val_sub, Fin.val_sub]
  have := t'.isLt
  omega

theorem le_age_of_wrap {currentTime t t' : TimestampValue} (h : currentTime < t)
    (h' : t' ≤ currentTime) : age currentTime t' ≤ age currentTime t := by
  rw [Fin.le_def] at *
  rw [Fin.lt_def] at h
  unfold age
  rw [Fin.val_sub, Fin.val_sub]
  have := t.isLt
  omega

/-! ## The loop -/

section

variable {entries : List (TimestampValue × RequestInfo)} {rit : ℕ}

/-- Behind the end of the map, up to the start. -/
theorem replayLoop_wrapped (hrit : rit < entries.length) {lit passes : ℕ} (hlit : lit < rit)
    (hpasses : rit ≤ lit + passes) (queued : List ApplicationEvent) :
    replayLoop entries rit passes lit queued =
      some (queued ++ ((entries.take rit).drop lit).map fun entry => entry.2.event, rit) := by
  induction passes generalizing lit queued with
  | zero => omega
  | succ passes ih =>
    have hlt : lit < (entries.take rit).length := by
      rw [List.length_take]
      omega
    rw [replayLoop, List.getElem?_eq_getElem (hlit.trans hrit), List.drop_eq_getElem_cons hlt]
    dsimp only
    rw [if_neg (by omega : ¬ lit + 1 = entries.length), List.getElem_take, List.map_cons]
    by_cases hlast : lit + 1 = rit
    · rw [if_neg (fun hcond => hcond.1 hlast), List.drop_of_length_le, hlast]
      · rfl
      · rw [List.length_take]
        omega
    · rw [if_pos ⟨hlast, by omega⟩, ih (by omega) (by omega), List.append_assoc]
      rfl

/-- Up to the end of the map, and around it. -/
theorem replayLoop_eq (hrit : rit < entries.length) {lit passes : ℕ} (hle : rit ≤ lit)
    (hlit : lit < entries.length) (hpasses : entries.length + rit ≤ lit + passes)
    (queued : List ApplicationEvent) :
    replayLoop entries rit passes lit queued =
      some (queued ++ (entries.drop lit ++ entries.take rit).map fun entry => entry.2.event,
        rit) := by
  induction passes generalizing lit queued with
  | zero => omega
  | succ passes ih =>
    rw [replayLoop, List.getElem?_eq_getElem hlit, List.drop_eq_getElem_cons hlit]
    dsimp only
    by_cases hlast : lit + 1 = entries.length
    · rw [if_pos hlast, List.drop_of_length_le hlast.ge]
      by_cases hzero : 0 = rit
      · rw [if_neg (fun hcond => hcond.1 hzero), ← hzero]
        rfl
      · rw [if_pos ⟨hzero, by omega⟩,
          replayLoop_wrapped hrit (Nat.pos_of_ne_zero (Ne.symm hzero)) (by omega),
          List.append_assoc, List.drop_zero]
        rfl
    · rw [if_neg hlast, if_pos ⟨by omega, by omega⟩, ih (by omega) (by omega) (by omega),
        List.append_assoc]
      rfl

end

/-! ## The order -/

section

variable {currentTime : TimestampValue} {l : List ApplicationRequest} {s : ReplaySearch}

variable (currentTime s) in
/-- The start that is marked after the search. -/
def startTime : TimestampValue :=
  if s.smallestTimeAfterCurrent = currentTime then s.smallestTime else s.smallestTimeAfterCurrent

/-- Either nothing was given out after the current time and the start is the first of all, or the
start is the first after it. -/
theorem startTime_cases (h : Scanned currentTime l s) :
    ((∀ a ∈ l, a.pid.timestamp ≤ currentTime) ∧
        ∀ a ∈ l, startTime currentTime s ≤ a.pid.timestamp) ∨
      (currentTime < startTime currentTime s ∧
        ∀ a ∈ l, a.pid.timestamp < startTime currentTime s → a.pid.timestamp ≤ currentTime) := by
  unfold startTime
  rcases h.after with ⟨hnone, hall⟩ | ⟨hlt, -, hmin⟩
  · left
    rw [if_pos hnone]
    exact ⟨hall, h.smallest_le⟩
  · right
    rw [if_neg hlt.ne']
    refine ⟨hlt, ?_⟩
    intro a ha hless
    by_contra hgt
    exact absurd (hmin a ha (not_le.mp hgt)) (not_le.mpr hless)

theorem exists_startTime (h : Scanned currentTime l s) (hl : l ≠ []) :
    ∃ a ∈ l, a.pid.timestamp = startTime currentTime s := by
  unfold startTime
  rcases h.after with ⟨hnone, hall⟩ | ⟨hlt, hmem, -⟩
  · rw [if_pos hnone]
    rcases h.smallest_mem with heq | hmem
    · obtain ⟨a, ha⟩ := List.exists_mem_of_ne_nil l hl
      refine ⟨a, ha, le_antisymm ?_ (h.smallest_le a ha)⟩
      rw [heq]
      exact hall a ha
    · exact hmem
  · rw [if_neg hlt.ne']
    exact hmem

/-- Around the map from the start on, the requests get younger. -/
theorem pairwise_age (h : Scanned currentTime l s) {map : RequestMap}
    (hmap : ∀ entry ∈ map.entries, ∃ a ∈ l, a.pid.timestamp = entry.1) {rit : ℕ}
    (hrit : rit < map.entries.length)
    (hfirst : map.entries.findIdx (fun entry => entry.1 = startTime currentTime s) = rit) :
    (map.entries.drop rit ++ map.entries.take rit).Pairwise fun x y =>
      age currentTime y.1 ≤ age currentTime x.1 := by
  have hat : (map.entries[rit]).1 = startTime currentTime s := by
    subst hfirst
    exact of_decide_eq_true (@List.findIdx_getElem _
      (fun entry : TimestampValue × RequestInfo => decide (entry.1 = startTime currentTime s))
      map.entries hrit)
  have hsorted := map.sorted
  rw [← List.take_append_drop rit map.entries] at hsorted
  obtain ⟨htake, hdrop, hcross⟩ := List.pairwise_append.mp hsorted
  have hhead := List.drop_eq_getElem_cons hrit
  have hlate : ∀ x ∈ map.entries.drop rit, startTime currentTime s ≤ x.1 := by
    intro x hx
    rw [hhead] at hx hdrop
    rcases List.mem_cons.mp hx with rfl | hx
    · exact hat.ge
    · exact hat ▸ (List.pairwise_cons.mp hdrop).1 x hx
  have hearly : ∀ x ∈ map.entries.take rit, x.1 < startTime currentTime s := by
    intro x hx
    have hmem : map.entries[rit] ∈ map.entries.drop rit := by
      rw [hhead]
      exact List.mem_cons_self
    apply lt_of_le_of_ne
    · exact hat ▸ hcross x hx _ hmem
    · obtain ⟨j, hj, rfl⟩ := List.mem_take_iff_getElem.mp hx
      have hj' : j < map.entries.findIdx fun entry => decide (entry.1 = startTime currentTime s) := by
        rw [hfirst]
        exact (lt_min_iff.mp hj).1
      exact of_decide_eq_false (List.not_of_lt_findIdx hj')
  have hof : ∀ P : TimestampValue → Prop, (∀ a ∈ l, P a.pid.timestamp) →
      ∀ x ∈ map.entries, P x.1 := by
    intro P hP x hx
    obtain ⟨a, ha, heq⟩ := hmap x hx
    exact heq ▸ hP a ha
  have hsub_take := (List.take_sublist rit map.entries).subset
  have hsub_drop := (List.drop_sublist rit map.entries).subset
  apply List.pairwise_append.mpr
  rcases startTime_cases h with ⟨hall, hmin⟩ | ⟨hlt, hbefore⟩
  · have hall_map : ∀ x ∈ map.entries, x.1 ≤ currentTime := hof (· ≤ currentTime) hall
    have hmin_map : ∀ x ∈ map.entries, startTime currentTime s ≤ x.1 := hof (_ ≤ ·) hmin
    have hno : ∀ x ∈ map.entries.take rit, False := fun x hx =>
      absurd (hmin_map x (hsub_take hx)) (not_le.mpr (hearly x hx))
    refine ⟨?_, ?_, ?_⟩
    · apply hdrop.imp_of_mem
      intro x y _ hy hxy
      exact le_age_of_le hxy (hall_map y (hsub_drop hy))
    · apply htake.imp_of_mem
      intro x y hx
      exact (hno x hx).elim
    · intro x _ y hy
      exact (hno y hy).elim
  · have hbefore_map : ∀ x ∈ map.entries, x.1 < startTime currentTime s → x.1 ≤ currentTime :=
      hof (fun t => t < startTime currentTime s → t ≤ currentTime) hbefore
    have hle : ∀ x ∈ map.entries.take rit, x.1 ≤ currentTime := fun x hx =>
      hbefore_map x (hsub_take hx) (hearly x hx)
    refine ⟨?_, ?_, ?_⟩
    · apply hdrop.imp_of_mem
      intro x y hx _ hxy
      exact le_age_of_lt (hlt.trans_le (hlate x hx)) hxy
    · apply htake.imp_of_mem
      intro x y _ hy hxy
      exact le_age_of_le hxy (hle y hy)
    · intro x hx y hy
      exact le_age_of_wrap (hlt.trans_le (hlate x hx)) (hle y hy)

end

/-! ## The whole search -/

section

variable {V A : Type} (k : ReplayKind V A) {p : Pending} {server : ℕ} {m : EntryMap V}
  {applications : EntryMap A}

/-- The requests that the entries of the server find in the pending maps, one after another. -/
theorem filterMap_request
    (hrequest : ∀ e, p.request (k.entry e) = (applications.find? (k.isBackup e)).map k.backup) :
    (k.entries server m).filterMap p.request = k.backups server m applications := by
  unfold ReplayKind.entries ReplayKind.backups
  rw [List.filterMap_map]
  exact List.filterMap_congr fun e _ => hrequest e

theorem searchMap_of_apart (currentTime : TimestampValue) (s : ReplaySearch)
    (hrequest : ∀ e, p.request (k.entry e) = (applications.find? (k.isBackup e)).map k.backup)
    (hfound : ∀ e ∈ k.entries server m, ∃ a, p.request e = some a)
    (hapart : (k.entries server m).Pairwise fun e e' =>
      ∀ a, p.request e = some a → e'.fits a.event = false) :
    ∃ rest, k.searchMap server currentTime [] m applications s =
      (m.filter fun e => e.1.ptr ≠ server, rest,
        ((k.entries server m).filterMap p.request).foldl (ReplaySearch.add currentTime) s) := by
  have hsearch : (k.searchMap server currentTime [] m applications s).1 =
        m.filter (fun e => e.1.ptr ≠ server) ∧
      (k.searchMap server currentTime [] m applications s).2.2 =
        (k.backups server m applications).foldl (ReplaySearch.add currentTime) s := by
    apply k.searchMap_eq
    · intro e he hptr
      have hmem : k.entry e ∈ k.entries server m :=
        List.mem_map_of_mem (List.mem_filter.mpr ⟨he, decide_eq_true hptr⟩)
      obtain ⟨a, ha⟩ := hfound _ hmem
      rw [hrequest] at ha
      obtain ⟨b, hb, -⟩ := Option.map_eq_some_iff.mp ha
      exact ⟨b, hb⟩
    · apply (List.pairwise_map.mp hapart).imp
      intro e e' hnot a ha
      rw [← k.fits_backup]
      apply hnot
      rw [hrequest, ha]
      rfl
  rw [filterMap_request k hrequest]
  exact ⟨_, Prod.ext hsearch.1 (Prod.ext rfl hsearch.2)⟩

theorem entries_filter_ne : k.entries server (m.filter fun e => e.1.ptr ≠ server) = [] := by
  unfold ReplayKind.entries
  rw [List.filter_filter, List.map_eq_nil_iff, List.filter_eq_nil_iff]
  intro e _
  simp

end

section

variable (p : Pending) (server : ℕ) (currentTime : TimestampValue)

/-- An idle client has no requests that were prepared and not replayed. -/
def Idle : Prop := ∀ map, p.requests = some map → map.entries = []

/-- No entry fits the request of another one. -/
def Apart : Prop := (p.serverEntries server).Pairwise fun e e' =>
  ∀ a, p.request e = some a → e'.fits a.event = false

/-- What is inserted into the map for the replay. -/
def found : List ApplicationRequest := (p.serverEntries server).filterMap p.request

variable {p server}

theorem replayRequestPrepare_eq (hfound : ∀ e ∈ p.serverEntries server, ∃ a, p.request e = some a)
    (hapart : p.Apart server) {s : ReplaySearch}
    (hs : s = (p.found server).foldl (ReplaySearch.add currentTime)
      ⟨p.requests.getD Multimap.empty, currentTime, currentTime⟩) :
    (p.replayRequestPrepare server currentTime).serverEntries server = [] ∧
      (p.replayRequestPrepare server currentTime).requests = some s.map ∧
      (p.replayRequestPrepare server currentTime).requestsStartTime =
        some (startTime currentTime s) := by
  unfold Apart at hapart
  unfold serverEntries at hfound hapart
  obtain ⟨hapart, hapart_del, -⟩ := List.pairwise_append.mp hapart
  obtain ⟨hapart, hapart_update, -⟩ := List.pairwise_append.mp hapart
  obtain ⟨hapart_set, hapart_get, -⟩ := List.pairwise_append.mp hapart
  have hs_after : currentTime < s.smallestTimeAfterCurrent ∨
      s.smallestTimeAfterCurrent = currentTime := by
    rw [hs]
    rcases ((Scanned.nil _).foldl (p.found server)).after with ⟨heq, -⟩ | ⟨hlt, -⟩
    · exact Or.inr heq
    · exact Or.inl hlt
  unfold found serverEntries at hs
  rw [List.filterMap_append, List.filterMap_append, List.filterMap_append, List.foldl_append,
    List.foldl_append, List.foldl_append] at hs
  generalize hs₀ : (⟨p.requests.getD Multimap.empty, currentTime, currentTime⟩ : ReplaySearch) = s₀
    at hs
  generalize hs₁ : ((ReplayKind.set.entries server p.servers.set).filterMap p.request).foldl
    (ReplaySearch.add currentTime) s₀ = s₁ at hs
  generalize hs₂ : ((ReplayKind.get.entries server p.servers.get).filterMap p.request).foldl
    (ReplaySearch.add currentTime) s₁ = s₂ at hs
  generalize hs₃ : ((ReplayKind.update.entries server p.servers.update).filterMap p.request).foldl
    (ReplaySearch.add currentTime) s₂ = s₃ at hs
  obtain ⟨_, hset⟩ := searchMap_of_apart ReplayKind.set currentTime s₀
    (ReplayKind.set.find?_backup p.applications.set) (fun e he => hfound e (by simp [he]))
    hapart_set
  obtain ⟨_, hget⟩ := searchMap_of_apart ReplayKind.get currentTime s₁
    (ReplayKind.get.find?_backup p.applications.get) (fun e he => hfound e (by simp [he]))
    hapart_get
  obtain ⟨_, hupdate⟩ := searchMap_of_apart ReplayKind.update currentTime s₂
    (ReplayKind.update.find?_backup p.applications.update) (fun e he => hfound e (by simp [he]))
    hapart_update
  obtain ⟨_, hdel⟩ := searchMap_of_apart ReplayKind.delete currentTime s₃
    (ReplayKind.delete.find?_backup p.applications.del) (fun e he => hfound e (by simp [he]))
    hapart_del
  simp only [replayRequestPrepare, hs₀, hset, hs₁, hget, hs₂, hupdate, hs₃, hdel, ← hs]
  refine ⟨?_, trivial, ?_⟩
  · simp only [serverEntries, entries_filter_ne, List.append_nil]
  · unfold startTime
    split_ifs with hnone hlt
    · rfl
    · rfl
    · exact absurd hs_after (not_or.mpr ⟨hlt, hnone⟩)

theorem Idle.getD_eq (h : p.Idle) : p.requests.getD Multimap.empty = Multimap.empty := by
  cases hrequests : p.requests with
  | none => rfl
  | some map =>
    have hentries := h map hrequests
    cases map
    subst hentries
    rfl

/-- What is in the map with its timestamps after the search. -/
def prepared (p : Pending) (server : ℕ) : RequestMap :=
  Multimap.empty.insertAll ((p.found server).map fun a => (a.pid.timestamp, a.info))

theorem exists_timestamp_iff (t : TimestampValue) :
    (∃ entry ∈ (p.prepared server).entries, entry.1 = t) ↔
      ∃ a ∈ p.found server, a.pid.timestamp = t := by
  unfold prepared
  rw [Multimap.mem_insertAll_iff]
  constructor
  · rintro (⟨entry, hentry, rfl⟩ | ⟨entry, hentry, -⟩)
    · obtain ⟨a, ha, rfl⟩ := List.mem_map.mp hentry
      exact ⟨a, ha, rfl⟩
    · exact absurd hentry List.not_mem_nil
  · rintro ⟨a, ha, rfl⟩
    exact Or.inl ⟨_, List.mem_map_of_mem ha, rfl⟩

/-- A replay goes once around the map that was prepared, from the oldest request on. -/
theorem replay_eq (hidle : p.Idle) (hfound : ∀ e ∈ p.serverEntries server, ∃ a, p.request e = some a)
    (hapart : p.Apart server) : ∃ (around : List (TimestampValue × RequestInfo)) (p' : Pending),
      p.replay server currentTime = some (around.map fun entry => entry.2.event, p') ∧
      p'.serverEntries server = [] ∧ around.Perm (p.prepared server).entries ∧
      around.Pairwise fun x y => age currentTime y.1 ≤ age currentTime x.1 := by
  obtain ⟨s, hs⟩ : ∃ s, s = (p.found server).foldl (ReplaySearch.add currentTime)
      ⟨p.requests.getD Multimap.empty, currentTime, currentTime⟩ := ⟨_, rfl⟩
  obtain ⟨hservers, hrequests, hstart⟩ := replayRequestPrepare_eq currentTime hfound hapart hs
  have hscanned : Scanned currentTime (p.found server) s := hs ▸ (Scanned.nil _).foldl _
  have hmap : s.map = p.prepared server := by
    rw [hs, ReplaySearch.map_foldl_add, hidle.getD_eq]
    rfl
  rw [hmap] at hrequests
  unfold replay replayRequest
  rw [hrequests, hstart]
  dsimp only
  by_cases hnil : (p.prepared server).entries = []
  · refine ⟨[], _, ?_, hservers, ?_, List.Pairwise.nil⟩
    · rw [if_pos hnil]
      rfl
    · rw [hnil]
  · have hmem : ∀ entry ∈ (p.prepared server).entries,
        ∃ a ∈ p.found server, a.pid.timestamp = entry.1 :=
      fun entry hentry => (exists_timestamp_iff entry.1).mp ⟨entry, hentry, rfl⟩
    have hsome : p.found server ≠ [] := by
      intro hempty
      obtain ⟨entry, hentry⟩ := List.exists_mem_of_ne_nil _ hnil
      obtain ⟨a, ha, -⟩ := hmem entry hentry
      rw [hempty] at ha
      exact absurd ha List.not_mem_nil
    obtain ⟨entry, hentry, heq⟩ :=
      (exists_timestamp_iff _).mpr (exists_startTime hscanned hsome)
    have hrit : (p.prepared server).entries.findIdx
        (fun entry => decide (entry.1 = startTime currentTime s)) <
        (p.prepared server).entries.length :=
      List.findIdx_lt_length.mpr ⟨entry, hentry, decide_eq_true heq⟩
    have haround := pairwise_age hscanned hmem hrit rfl
    generalize (p.prepared server).entries.findIdx
      (fun entry => decide (entry.1 = startTime currentTime s)) = rit at hrit haround ⊢
    have hlast : (if rit = 0 then (p.prepared server).entries.length else rit) - 1 <
        (p.prepared server).entries.length := by
      split_ifs <;> omega
    rw [if_neg hnil, replayLoop_eq hrit le_rfl hrit (by omega)]
    dsimp only
    rw [List.getElem?_eq_getElem hlast]
    refine ⟨_, _, rfl, hservers, ?_, haround⟩
    apply List.perm_append_comm.trans
    rw [List.take_append_drop]

/-! ## A replay leaves nothing prepared -/

theorem le_searchMap {V A : Type} (k : ReplayKind V A) (kept todo : EntryMap V)
    (applications : EntryMap A) {s : ReplaySearch} (h : currentTime ≤ s.smallestTimeAfterCurrent) :
    currentTime ≤
      (k.searchMap server currentTime kept todo applications s).2.2.smallestTimeAfterCurrent := by
  have hadd : ∀ (s : ReplaySearch) (a : ApplicationRequest),
      currentTime ≤ s.smallestTimeAfterCurrent →
      currentTime ≤ (s.add currentTime a).smallestTimeAfterCurrent := by
    intro s a hle
    unfold ReplaySearch.add
    dsimp only
    split_ifs with hif
    · exact hif.1.le
    · exact hle
  induction todo generalizing kept applications s with
  | nil => exact h
  | cons e todo ih =>
    unfold ReplayKind.searchMap
    split_ifs
    · exact ih _ _ h
    · cases k.erase e.1.parentInstanceId e.1.parentRequestId 0 (some (k.serverKey e.2))
        applications with
      | none => exact ih _ _ h
      | some found => exact ih _ _ (hadd _ _ h)

/-- So the next replay, of any server, starts with an empty map again. -/
theorem idle_of_replay {queued : List ApplicationEvent} {p' : Pending}
    (h : p.replay server currentTime = some (queued, p')) : p'.Idle := by
  have hstart : ∃ start, (p.replayRequestPrepare server currentTime).requestsStartTime =
      some start := by
    dsimp only [replayRequestPrepare]
    split_ifs with heq hlt
    · exact ⟨_, rfl⟩
    · exact ⟨_, rfl⟩
    · refine absurd (lt_of_le_of_ne (le_searchMap currentTime _ _ _ _ ?_) (Ne.symm heq)) hlt
      iterate 3 apply le_searchMap
      exact le_rfl
  obtain ⟨start, hstart⟩ := hstart
  have hsome : (p.replayRequestPrepare server currentTime).requests ≠ none :=
    Option.some_ne_none _
  unfold replay replayRequest at h
  rw [hstart] at h
  intro map hmap
  split at h
  · rename_i prepared _ hprepared hstart'
    split_ifs at h with hempty
    · obtain ⟨-, rfl⟩ := Prod.mk.inj (Option.some.inj h)
      obtain rfl := Option.some.inj (hprepared.symm.trans hmap)
      exact hempty
    · dsimp only at h
      split at h
      · cases h
      · split at h
        · cases h
        · obtain ⟨-, rfl⟩ := Prod.mk.inj (Option.some.inj h)
          obtain rfl := Option.some.inj hmap
          rfl
  · rename_i hno
    obtain ⟨prepared, hprepared⟩ := Option.ne_none_iff_exists'.mp hsome
    exact (hno prepared start hprepared rfl).elim

/-! ## The requests of the entries -/

theorem map_snd_requestsOf : (p.requestsOf server).map Prod.snd = p.found server := by
  unfold requestsOf found
  rw [List.map_filterMap]
  apply List.filterMap_congr
  intro e _
  rw [Option.map_map]
  exact Option.map_id'

theorem map_fst_requestsOf (hfound : ∀ e ∈ p.serverEntries server, ∃ a, p.request e = some a) :
    (p.requestsOf server).map Prod.fst = p.serverEntries server := by
  unfold requestsOf
  rw [List.map_filterMap]
  have hall : ∀ e ∈ p.serverEntries server,
      ((p.request e).map fun a => (e, a)).map Prod.fst = some e := by
    intro e he
    obtain ⟨a, ha⟩ := hfound e he
    rw [ha]
    rfl
  rw [List.filterMap_congr hall, List.filterMap_some]

theorem mem_requestsOf {x : ServerEntry × ApplicationRequest} (hx : x ∈ p.requestsOf server) :
    x.1 ∈ p.serverEntries server ∧ p.request x.1 = some x.2 := by
  obtain ⟨e, he, hmap⟩ := List.mem_filterMap.mp hx
  obtain ⟨a, ha, rfl⟩ := Option.map_eq_some_iff.mp hmap
  exact ⟨he, ha⟩

theorem fits_of_request {e : ServerEntry} {a : ApplicationRequest} (h : p.request e = some a) :
    e.fits a.event = true :=
  List.find?_some (p := fun a : ApplicationRequest => e.fits a.event) h

/-- No entry fits the request of another one: each fits one request. -/
theorem pairwise_requestsOf_iff :
    (p.requestsOf server).Pairwise (fun x y =>
        x.1.fits y.2.event = false ∧ y.1.fits x.2.event = false) ↔
      ∀ x ∈ p.requestsOf server,
        (p.requestsOf server).countP (fun y => x.1.fits y.2.event) = 1 :=
  pairwise_iff_countP (r := fun x y => x.1.fits y.2.event)
    fun _ hx => fits_of_request (mem_requestsOf hx).2

theorem apart_of_pairwise (hfound : ∀ e ∈ p.serverEntries server, ∃ a, p.request e = some a)
    (h : (p.requestsOf server).Pairwise fun x y =>
      x.1.fits y.2.event = false ∧ y.1.fits x.2.event = false) : p.Apart server := by
  unfold Apart
  apply (List.pairwise_filterMap.mp h).imp_of_mem
  intro e e' _ he' hnot a ha
  obtain ⟨a', ha'⟩ := hfound e' he'
  exact (hnot (e, a) (by rw [ha]; rfl) (e', a') (by rw [ha']; rfl)).2

theorem countP_event (e : ServerEntry) (l : List (ServerEntry × ApplicationRequest)) :
    (l.map fun x => x.2.event).countP e.fits = l.countP fun x => e.fits x.2.event := by
  rw [List.countP_map]
  rfl

/-! ## The result -/

theorem replayed_of_separate (hidle : p.Idle) (h : p.Separate server) :
    ∃ queued p', p.replay server currentTime = some (queued, p') ∧
      p.Replayed server currentTime queued p' := by
  have hapart : (p.requestsOf server).Pairwise fun x y =>
      x.1.fits y.2.event = false ∧ y.1.fits x.2.event = false := h.apart.imp And.right
  obtain ⟨around, p', hreplay, hcleared, hperm, hage⟩ :=
    replay_eq currentTime hidle h.found (apart_of_pairwise h.found hapart)
  have hnodup : ((p.found server).map fun a => a.pid.timestamp).Nodup := by
    rw [← map_snd_requestsOf, List.map_map]
    exact List.pairwise_map.mpr (h.apart.imp And.left)
  have hkeys : (((p.found server).map fun a => (a.pid.timestamp, a.info)).map Prod.fst).Nodup := by
    rw [List.map_map]
    exact hnodup
  have hall : around.Perm ((p.requestsOf server).map fun x => (x.2.pid.timestamp, x.2.info)) := by
    apply hperm.trans
    apply (Multimap.insertAll_empty_perm hkeys).trans
    rw [← map_snd_requestsOf, List.map_map]
    rfl
  obtain ⟨order, rfl, horder⟩ := exists_perm_of_perm_map hall
  refine ⟨_, p', hreplay, ?_, ?_, hcleared⟩
  · refine ⟨order, ?_, ?_, ?_, ?_⟩
    · exact map_fst_requestsOf h.found ▸ horder.map Prod.fst
    · exact fun x hx => (mem_requestsOf (horder.mem_iff.mp hx)).2
    · exact List.pairwise_map.mp hage
    · rw [List.map_map]
      rfl
  · intro e he
    obtain ⟨a, ha⟩ := h.found e he
    have hmem : (e, a) ∈ p.requestsOf server :=
      List.mem_filterMap.mpr ⟨e, he, by rw [ha]; rfl⟩
    rw [List.map_map]
    exact (countP_event e order).trans
      ((horder.countP_eq _).trans (pairwise_requestsOf_iff.mp hapart _ hmem))

theorem separate_of_replayed (hidle : p.Idle) {queued : List ApplicationEvent} {p' : Pending}
    (hreplay : p.replay server currentTime = some (queued, p'))
    (h : p.Replayed server currentTime queued p') : p.Separate server := by
  obtain ⟨order, hfst, hrequest, -, rfl⟩ := h.ordered
  have hfound : ∀ e ∈ p.serverEntries server, ∃ a, p.request e = some a := by
    intro e he
    obtain ⟨x, hx, rfl⟩ := List.mem_map.mp (hfst.mem_iff.mpr he)
    exact ⟨x.2, hrequest x hx⟩
  have horder : order.Perm (p.requestsOf server) := by
    have hmap : (order.map Prod.fst).filterMap (fun e => (p.request e).map fun a => (e, a)) =
        order := by
      rw [List.filterMap_map]
      have hself : ∀ x ∈ order,
          ((fun e => (p.request e).map fun a => (e, a)) ∘ Prod.fst) x = some x := by
        intro x hx
        change (p.request x.1).map _ = _
        rw [hrequest x hx]
        rfl
      rw [List.filterMap_congr hself, List.filterMap_some]
    rw [← hmap]
    exact hfst.filterMap _
  have hapart : (p.requestsOf server).Pairwise fun x y =>
      x.1.fits y.2.event = false ∧ y.1.fits x.2.event = false := by
    apply pairwise_requestsOf_iff.mpr
    intro x hx
    have honce := h.once x.1 (mem_requestsOf hx).1
    rw [countP_event, horder.countP_eq] at honce
    exact honce
  obtain ⟨around, p'', haround, -, hperm, -⟩ :=
    replay_eq currentTime hidle hfound (apart_of_pairwise hfound hapart)
  obtain ⟨hqueued, -⟩ := Prod.mk.inj (Option.some.inj (haround.symm.trans hreplay))
  have hlength : (p.prepared server).entries.length = (p.found server).length := by
    rw [← hperm.length_eq, ← map_snd_requestsOf, List.length_map, ← horder.length_eq]
    have hsame := congrArg List.length hqueued
    rwa [List.length_map, List.length_map] at hsame
  have hkeys : (((p.found server).map fun a => (a.pid.timestamp, a.info)).map Prod.fst).Nodup := by
    apply Multimap.nodup_of_length_insertAll_empty
    rw [List.length_map]
    exact hlength
  constructor
  · exact hfound
  · rw [← map_snd_requestsOf, List.map_map, List.map_map] at hkeys
    exact (List.pairwise_map.mp hkeys).and hapart

/-- For every set of pending requests: a replay does what it promises exactly when the entries of
the server belong to requests of their own with different timestamps. -/
theorem replayed_iff_separate (hidle : p.Idle) :
    (∃ queued p', p.replay server currentTime = some (queued, p') ∧
      p.Replayed server currentTime queued p') ↔ p.Separate server := by
  constructor
  · rintro ⟨queued, p', hreplay, h⟩
    exact separate_of_replayed currentTime hidle hreplay h
  · exact replayed_of_separate currentTime hidle

end

/-- Two SETs of an application, pending for server 7, with these timestamps. -/
def sample (first second : TimestampValue) : Pending where
  applications :=
    { set := [(⟨⟨1, 1, 10, 10, 5⟩, first⟩, ⟨[97], [1]⟩), (⟨⟨1, 1, 11, 11, 5⟩, second⟩, ⟨[98], [2]⟩)]
      get := []
      update := []
      del := [] }
  servers :=
    { set := [(⟨⟨0, 1, 100, 10, 7⟩, 0⟩, [97]), (⟨⟨0, 1, 101, 11, 7⟩, 0⟩, [98])]
      get := []
      update := []
      del := [] }
  requests := none
  requestsStartTime := none

theorem idle_sample (first second : TimestampValue) : (sample first second).Idle :=
  fun _ h => absurd h (by simp [sample])

/-- The counter has gone around between the two. -/
theorem replayed_iff_separate_sample :
    ∃ queued p', (sample 3 4294967290).replay 7 5 = some (queued, p') ∧
      (sample 3 4294967290).Replayed 7 5 queued p' := by
  apply (replayed_iff_separate 5 (idle_sample _ _)).mpr
  constructor
  · intro e he
    apply Option.isSome_iff_exists.mp
    revert e
    decide +kernel
  · decide +kernel

/-- Both SETs were replayed before, for another server, and inserted again with timestamp 0. -/
theorem not_replayed_of_equal_timestamps :
    ¬ ∃ queued p', (sample 0 0).replay 7 5 = some (queued, p') ∧
      (sample 0 0).Replayed 7 5 queued p' := by
  rintro ⟨queued, p', hreplay, h⟩
  have hapart := (separate_of_replayed 5 (idle_sample _ _) hreplay h).apart
  revert hapart
  decide +kernel

end Pending

end MemEC.Client
