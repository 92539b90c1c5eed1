import Mathlib.Algebra.BigOperators.Group.List.Basic
import Mathlib.Data.List.Basic
import Mathlib.Data.List.Perm.Basic
import Mathlib.Tactic

/-!
# Lists with a distinguished position
-/

namespace MemEC.Lib

variable {α : Type}

theorem split_of_getElem? {l : List α} {i : ℕ} {a : α} (h : l[i]? = some a) :
    ∃ as bs, l = as ++ a :: bs ∧ as.length = i := by
  obtain ⟨hlt, rfl⟩ := List.getElem?_eq_some_iff.mp h
  refine ⟨l.take i, l.drop (i + 1), ?_, List.length_take_of_le hlt.le⟩
  rw [List.getElem_cons_drop, List.take_append_drop]

theorem set_length_append (as : List α) (a b : α) (bs : List α) :
    (as ++ a :: bs).set as.length b = as ++ b :: bs := by
  rw [List.set_append_right _ _ le_rfl, Nat.sub_self, List.set_cons_zero]

/-- Replacing an entry and keeping the old one elsewhere adds just the new one. -/
theorem perm_set_of_getElem? {l : List α} {i : ℕ} {a : α} (h : l[i]? = some a) (b : α) :
    (a :: l.set i b).Perm (b :: l) := by
  obtain ⟨as, bs, rfl, rfl⟩ := split_of_getElem? h
  rw [set_length_append]
  calc List.Perm (a :: (as ++ b :: bs)) (a :: b :: (as ++ bs)) := List.perm_middle.cons a
    List.Perm _ (b :: a :: (as ++ bs)) := List.Perm.swap _ _ _
    List.Perm _ (b :: (as ++ a :: bs)) := List.perm_middle.symm.cons b

/-- A list is its entry at a position and the rest. -/
theorem perm_eraseIdx_of_getElem? {l : List α} {i : ℕ} {a : α} (h : l[i]? = some a) :
    l.Perm (a :: l.eraseIdx i) := by
  obtain ⟨hlt, rfl⟩ := List.getElem?_eq_some_iff.mp h
  exact (List.getElem_cons_eraseIdx_perm hlt).symm

theorem sum_map_eq_add_eraseIdx {l : List α} {i : ℕ} {a : α} (h : l[i]? = some a) (f : α → ℕ) :
    (l.map f).sum = f a + ((l.eraseIdx i).map f).sum := by
  rw [((perm_eraseIdx_of_getElem? h).map f).sum_eq, List.map_cons, List.sum_cons]

/-- A permutation of the images comes from a permutation. -/
theorem exists_perm_of_perm_map {β : Type} {f : α → β} {l : List α} {bs : List β}
    (h : bs.Perm (l.map f)) : ∃ l' : List α, bs = l'.map f ∧ l'.Perm l :=
  (congrFun₂ (List.eq_map_comp_perm f) bs l).mpr h

/-- When the image of one entry grows, so do the images of all. -/
theorem perm_flatMap_set {β : Type} {l : List α} {i : ℕ} {a b : α} (h : l[i]? = some a)
    {f : α → List β} {new : List β} (hb : f b = f a ++ new) :
    ((l.set i b).flatMap f).Perm (l.flatMap f ++ new) := by
  obtain ⟨as, bs, rfl, rfl⟩ := split_of_getElem? h
  rw [set_length_append, List.flatMap_append, List.flatMap_append, List.flatMap_cons,
    List.flatMap_cons, hb, List.append_assoc, List.append_assoc, List.append_assoc]
  exact (List.perm_append_comm.append_left _).append_left _

/-- At most one summand has the key `k`. -/
theorem sum_map_ite_eq_find? {κ M : Type} [DecidableEq κ] [AddCommMonoid M] (key : α → κ)
    (f : α → M) {l : List α} (h : (l.map key).Nodup) (k : κ) :
    (l.map fun a => if key a = k then f a else 0).sum =
      ((l.find? fun a => key a = k).map f).getD 0 := by
  induction l with
  | nil => rfl
  | cons a l ih =>
    rw [List.map_cons, List.nodup_cons] at h
    rw [List.map_cons, List.sum_cons, ih h.2, List.find?_cons]
    by_cases hk : key a = k
    · have hnone : (l.find? fun a => key a = k) = none := by
        refine List.find?_eq_none.mpr fun b hb hbk => h.1 ?_
        rw [decide_eq_true_eq] at hbk
        rw [hk, ← hbk]
        exact List.mem_map_of_mem hb
      simp [hk, hnone]
    · simp [hk]

/-- An entry is found by its key. -/
theorem find?_key_eq {κ : Type} [DecidableEq κ] {key : α → κ} {l : List α}
    (h : (l.map key).Nodup) {a : α} (ha : a ∈ l) : (l.find? fun b => key b = key a) = some a := by
  cases hfind : l.find? fun b => key b = key a with
  | none =>
    have hnot := List.find?_eq_none.mp hfind a ha
    simp at hnot
  | some b =>
    have hkey : key b = key a := by simpa using List.find?_some hfind
    rw [List.inj_on_of_nodup_map h (List.mem_of_find?_eq_some hfind) ha hkey]

/-- Related lists are filtered in the same way by conditions that agree. -/
theorem forall₂_filter {β : Type} {R S : α → β → Prop} {p : α → Bool} {q : β → Bool} {as : List α}
    {bs : List β} (h : List.Forall₂ R as bs) (hpq : ∀ a b, R a b → p a = q b)
    (hS : ∀ a b, R a b → p a = true → S a b) :
    List.Forall₂ S (as.filter p) (bs.filter q) := by
  induction h with
  | nil => exact .nil
  | @cons a b as bs hab _ ih =>
    rw [List.filter_cons, List.filter_cons, ← hpq a b hab]
    cases hp : p a with
    | true => exact .cons (hS a b hab hp) ih
    | false => exact ih

/-- Where everything is its own inverse, adding some summands once more takes them away. -/
theorem sum_map_add_filter {M : Type} [AddCommMonoid M] (hself : ∀ m : M, m + m = 0) (f : α → M)
    (p : α → Bool) (l : List α) :
    (l.map f).sum + ((l.filter p).map f).sum = ((l.filter fun a => !p a).map f).sum := by
  induction l with
  | nil => exact add_zero 0
  | cons a l ih =>
    cases hp : p a with
    | true =>
      simp only [List.filter_cons, hp, if_true, List.map_cons, List.sum_cons, Bool.not_true,
        Bool.false_eq_true, if_false]
      rw [add_add_add_comm, hself, zero_add, ih]
    | false =>
      simp only [List.filter_cons, hp, Bool.false_eq_true, if_false, List.map_cons, List.sum_cons,
        Bool.not_false, if_true]
      rw [add_assoc, ih]

/-- And a summand that comes an even number of times leaves nothing behind. -/
theorem sum_map_ite_of_self {M : Type} [AddCommMonoid M] (hself : ∀ m : M, m + m = 0) (c : M)
    (p : α → Bool) (l : List α) : (l.map fun a => if p a then c else 0).sum =
      if Odd (l.countP p) then c else 0 := by
  induction l with
  | nil => simp
  | cons a l ih =>
    rw [List.map_cons, List.sum_cons, ih]
    cases hp : p a with
    | true =>
      rw [List.countP_cons_of_pos hp, if_pos rfl]
      by_cases hodd : Odd (l.countP p) <;> simp [Nat.odd_add_one, hodd, hself]
    | false => simp [hp]

/-- The first entry with a property is also the first with a stronger one that it has. -/
theorem find?_eq_some_of_imp {p q : α → Bool} {l : List α} {a : α} (h : l.find? q = some a)
    (himp : ∀ x, p x = true → q x = true) (hp : p a = true) : l.find? p = some a := by
  induction l with
  | nil => exact absurd h (by simp)
  | cons x l ih =>
    rw [List.find?_cons] at h ⊢
    cases hq : q x with
    | true =>
      rw [hq] at h
      obtain rfl : x = a := Option.some.inj h
      rw [hp]
    | false =>
      rw [hq] at h
      have hx : p x = false := Bool.eq_false_iff.mpr fun hx => by simp [himp x hx] at hq
      rw [hx]
      exact ih h

/-- Two searches that fail together end at the same place. -/
theorem findSome?_eq_some_of_imp {β γ : Type} {f : α → Option β} {g : α → Option γ} {l : List α}
    {b : β} {c : γ} (h : l.findSome? g = some c) (hnone : ∀ a, g a = none → f a = none)
    (hsome : ∀ a, g a = some c → f a = some b) : l.findSome? f = some b := by
  induction l with
  | nil => exact absurd h (by simp)
  | cons a l ih =>
    rw [List.findSome?_cons] at h ⊢
    cases hg : g a with
    | none =>
      rw [hg] at h
      rw [hnone a hg]
      exact ih h
    | some c' =>
      rw [hg] at h
      obtain rfl : c' = c := Option.some.inj h
      rw [hsome a hg]

/-- The entry that a search finds, between those in front of it and those behind it. -/
theorem split_of_find? {p : α → Bool} {l : List α} {a : α} (h : l.find? p = some a) :
    ∃ as bs, l = as ++ a :: bs ∧ l.eraseP p = as ++ bs ∧ l.findIdx p = as.length := by
  obtain ⟨ha, as, bs, rfl, has⟩ := List.find?_eq_some_iff_append.mp h
  have hfalse : ∀ x ∈ as, p x = false := fun x hx => by simpa using has x hx
  refine ⟨as, bs, rfl, ?_, ?_⟩
  · rw [List.eraseP_append_right _ fun x hx => by simp [hfalse x hx], List.eraseP_cons_of_pos ha]
  · have hlen := List.findIdx_eq_length_of_false hfalse
    rw [List.findIdx_append, if_neg hlen.ge.not_gt, List.findIdx_cons, ha, cond_true, Nat.zero_add]

/-- A search for a weaker property finds an entry with the property exactly when no other entry
with the weaker one stands in front of all of these. -/
theorem find?_satisfies_iff {p : α → Bool} {P : α → Prop} (hp : ∀ a, P a → p a = true)
    (l : List α) : (∀ a, l.find? p = some a → P a) ↔
      ∀ before a after, l = before ++ a :: after → p a = true → ¬P a → ∃ b ∈ before, P b := by
  induction l with
  | nil => simp
  | cons x l ih =>
    cases hx : p x with
    | true =>
      rw [List.find?_cons_of_pos hx]
      constructor
      · intro h before a after hsplit ha hnot
        cases before with
        | nil =>
          obtain ⟨rfl, -⟩ := List.cons.inj hsplit
          exact absurd (h x rfl) hnot
        | cons b before =>
          obtain ⟨rfl, -⟩ := List.cons.inj hsplit
          exact ⟨x, List.mem_cons_self, h x rfl⟩
      · intro h a ha
        obtain rfl := Option.some.inj ha
        by_contra hnot
        obtain ⟨b, hb, -⟩ := h [] x l rfl hx hnot
        cases hb
    | false =>
      have hPx : ¬P x := fun h => Bool.false_ne_true (hx.symm.trans (hp x h))
      rw [List.find?_cons_of_neg (by simp [hx]), ih]
      constructor
      · intro h before a after hsplit ha hnot
        cases before with
        | nil =>
          obtain ⟨rfl, -⟩ := List.cons.inj hsplit
          exact absurd (hx.symm.trans ha) Bool.false_ne_true
        | cons y before =>
          obtain ⟨-, hrest⟩ := List.cons.inj hsplit
          obtain ⟨b, hb, hPb⟩ := h before a after hrest ha hnot
          exact ⟨b, List.mem_cons_of_mem _ hb, hPb⟩
      · intro h before a after hsplit ha hnot
        obtain ⟨b, hb, hPb⟩ := h (x :: before) a after (by rw [hsplit]; rfl) ha hnot
        rcases List.mem_cons.mp hb with rfl | hb
        · exact absurd hPb hPx
        · exact ⟨b, hb, hPb⟩

/-- What a loop stops at when it skips the entries without a property. -/
theorem head?_filter_dropWhile (p : α → Bool) (l : List α) :
    ((l.dropWhile fun a => !p a).head?).filter p = l.find? p := by
  induction l with
  | nil => rfl
  | cons a l ih =>
    cases hp : p a with
    | true =>
      rw [List.dropWhile_cons_of_neg (by simp [hp]), List.find?_cons_of_pos hp]
      simp [hp]
    | false =>
      rw [List.dropWhile_cons_of_pos (by simp [hp]), ih, List.find?_cons_of_neg (by simp [hp])]

/-- A list is the entry that a search finds and the rest. -/
theorem perm_eraseP_of_find? {p : α → Bool} {l : List α} {a : α} (h : l.find? p = some a) :
    l.Perm (a :: l.eraseP p) := by
  obtain ⟨as, bs, rfl, herase, -⟩ := split_of_find? h
  rw [herase]
  exact List.perm_middle

/-- A search does not see that an entry without the property is erased. -/
theorem find?_eraseP_of_find? {p q : α → Bool} {l : List α} {a : α} (h : l.find? p = some a)
    (hq : q a = false) : (l.eraseP p).find? q = l.find? q := by
  obtain ⟨as, bs, rfl, herase, -⟩ := split_of_find? h
  rw [herase, List.find?_append, List.find?_append, List.find?_cons_of_neg (by simp [hq])]

/-- Nor that it is replaced by another one without the property. -/
theorem find?_set_of_find? {p q : α → Bool} {l : List α} {a b : α} (h : l.find? p = some a)
    (hq : q a = false) (hb : q b = false) :
    (l.set (l.findIdx p) b).find? q = l.find? q := by
  obtain ⟨as, bs, rfl, -, hidx⟩ := split_of_find? h
  rw [hidx, set_length_append, List.find?_append, List.find?_append,
    List.find?_cons_of_neg (by simp [hb]), List.find?_cons_of_neg (by simp [hq])]

/-- The first entry with a property is changed. -/
def modifyFirst (p : α → Bool) (f : α → α) : List α → List α
  | [] => []
  | x :: l => if p x then f x :: l else x :: modifyFirst p f l

theorem map_modifyFirst {β : Type} {g : α → β} {f : α → α} (hf : ∀ x, g (f x) = g x)
    (p : α → Bool) (l : List α) : (modifyFirst p f l).map g = l.map g := by
  induction l with
  | nil => rfl
  | cons x l ih =>
    rw [modifyFirst]
    split_ifs
    · rw [List.map_cons, List.map_cons, hf]
    · rw [List.map_cons, List.map_cons, ih]

/-- Each member is related to itself alone. -/
theorem pairwise_iff_countP {r : α → α → Bool} {l : List α} (hself : ∀ x ∈ l, r x x = true) :
    (l.Pairwise fun x y => r x y = false ∧ r y x = false) ↔ ∀ x ∈ l, l.countP (r x) = 1 := by
  induction l with
  | nil => simp
  | cons a l ih =>
    have hl := ih fun x hx => hself x (List.mem_cons_of_mem a hx)
    have ha : r a a = true := hself a List.mem_cons_self
    rw [List.pairwise_cons]
    constructor
    · rintro ⟨hfirst, hrest⟩ x hx
      rcases List.mem_cons.mp hx with rfl | hx
      · have hnone : l.countP (r x) = 0 := by
          apply List.countP_eq_zero.mpr
          intro y hy
          simp [(hfirst y hy).1]
        rw [List.countP_cons_of_pos ha, hnone]
      · rw [List.countP_cons_of_neg (by simp [(hfirst x hx).2])]
        exact hl.mp hrest x hx
    · intro hcount
      have hfirst := hcount a List.mem_cons_self
      rw [List.countP_cons_of_pos ha] at hfirst
      have hnone := List.countP_eq_zero.mp (Nat.succ.inj hfirst)
      have hother : ∀ y ∈ l, r y a = false ∧ l.countP (r y) = 1 := by
        intro y hy
        have hy1 := hcount y (List.mem_cons_of_mem a hy)
        have hpos : 0 < l.countP (r y) := List.countP_pos_iff.mpr
          ⟨y, hy, hself y (List.mem_cons_of_mem a hy)⟩
        cases hya : r y a with
        | true =>
          rw [List.countP_cons_of_pos hya] at hy1
          omega
        | false =>
          rw [List.countP_cons_of_neg (by simp [hya])] at hy1
          exact ⟨rfl, hy1⟩
      constructor
      · intro y hy
        exact ⟨Bool.eq_false_iff.mpr (hnone y hy), (hother y hy).1⟩
      · exact hl.mpr fun y hy => (hother y hy).2

/-! ## Searches that stop at the first hit -/

/-- The entries that a search looks at: those up to the first hit. -/
def throughFirst (p : α → Bool) : List α → List α
  | [] => []
  | x :: l => if p x then [x] else x :: throughFirst p l

theorem throughFirst_subset (p : α → Bool) (l : List α) : throughFirst p l ⊆ l := by
  induction l with
  | nil => exact List.Subset.refl _
  | cons x l ih =>
    rw [throughFirst]
    split_ifs
    · simp
    · exact List.cons_subset_cons x ih

theorem throughFirst_congr {p q : α → Bool} {l : List α} (h : ∀ x ∈ l, p x = q x) :
    throughFirst p l = throughFirst q l := by
  induction l with
  | nil => rfl
  | cons x l ih =>
    rw [throughFirst, throughFirst, h x List.mem_cons_self,
      ih fun y hy => h y (List.mem_cons_of_mem x hy)]

theorem findIdx?_congr {p q : α → Bool} {l : List α} (h : ∀ x ∈ l, p x = q x) :
    l.findIdx? p = l.findIdx? q := by
  induction l with
  | nil => rfl
  | cons x l ih =>
    rw [List.findIdx?_cons, List.findIdx?_cons, h x List.mem_cons_self,
      ih fun y hy => h y (List.mem_cons_of_mem x hy)]

theorem throughFirst_append {p : α → Bool} {as : List α} (h : ∀ x ∈ as, p x = false)
    (bs : List α) : throughFirst p (as ++ bs) = as ++ throughFirst p bs := by
  induction as with
  | nil => rfl
  | cons x as ih =>
    rw [List.cons_append, throughFirst, h x List.mem_cons_self, if_neg Bool.false_ne_true,
      ih fun y hy => h y (List.mem_cons_of_mem _ hy), List.cons_append]

theorem throughFirst_eq_self {p : α → Bool} {l : List α} (h : ∀ x ∈ l, p x = false) :
    throughFirst p l = l := by
  have happend := throughFirst_append h []
  rwa [List.append_nil, throughFirst, List.append_nil] at happend

/-- The last entry that is looked at is a hit when there is one. -/
theorem exists_hit_of_mem {p : α → Bool} {l : List α} {x : α} (hx : x ∈ l) (hp : p x = true) :
    ∃ y ∈ throughFirst p l, p y = true := by
  induction l with
  | nil => cases hx
  | cons z l ih =>
    rw [throughFirst]
    split_ifs with hz
    · exact ⟨z, List.mem_cons_self, hz⟩
    · rcases List.mem_cons.mp hx with rfl | hx
      · exact absurd hp hz
      · obtain ⟨y, hy, hpy⟩ := ih hx
        exact ⟨y, List.mem_cons_of_mem _ hy, hpy⟩

/-- Any hit may come first of all. -/
theorem exists_perm_hit_first {p : α → Bool} {l : List α} {x : α} (hx : x ∈ l)
    (hp : p x = true) : ∃ l', l'.Perm l ∧ throughFirst p l' = [x] := by
  obtain ⟨as, bs, rfl⟩ := List.append_of_mem hx
  exact ⟨x :: (as ++ bs), List.perm_middle.symm, by rw [throughFirst, if_pos hp]⟩

/-- And everything else may come in front of it. -/
theorem exists_perm_hit_last {p : α → Bool} {l : List α} {x : α} (hx : x ∈ l)
    (hp : p x = true) : ∃ l', l'.Perm l ∧
      throughFirst p l' = (l.filter fun y => !p y) ++ [x] := by
  obtain ⟨hits, hhits⟩ : ∃ hits, (l.filter p).Perm (x :: hits) := by
    obtain ⟨as, bs, heq⟩ := List.append_of_mem (List.mem_filter.mpr ⟨hx, hp⟩)
    exact ⟨as ++ bs, heq ▸ List.perm_middle⟩
  refine ⟨(l.filter fun y => !p y) ++ (x :: hits), ?_, ?_⟩
  · have hsplit := List.filter_append_perm p l
    exact (hhits.symm.append_left _).trans (List.perm_append_comm.trans hsplit)
  · rw [throughFirst_append (fun y hy => by simpa using (List.mem_filter.mp hy).2), throughFirst,
      if_pos hp]

/-- What is found out on the way to the first hit does not depend on the order, if and only if
every hit shows it, or nothing does, or there is no hit. -/
theorem any_throughFirst_perm_iff (p q : α → Bool) (l : List α) :
    (∀ l', l'.Perm l → (throughFirst p l').any q = (throughFirst p l).any q) ↔
      (∀ x ∈ l, p x = true → q x = true) ∨ (∀ x ∈ l, q x = false) ∨ ∀ x ∈ l, p x = false := by
  constructor
  · intro h
    by_cases hnone : ∀ x ∈ l, p x = false
    · exact Or.inr (Or.inr hnone)
    push Not at hnone
    obtain ⟨x, hx, hpx⟩ := hnone
    rw [ne_eq, Bool.not_eq_false] at hpx
    cases hq : (throughFirst p l).any q with
    | true =>
      left
      intro y hy hpy
      obtain ⟨l', hperm, hfirst⟩ := exists_perm_hit_first hy hpy
      have hany := h l' hperm
      rw [hfirst, hq] at hany
      simpa using hany
    | false =>
      right
      left
      intro y hy
      cases hpy : p y with
      | true =>
        obtain ⟨l', hperm, hfirst⟩ := exists_perm_hit_first hy hpy
        have hany := h l' hperm
        rw [hfirst, hq] at hany
        simpa using hany
      | false =>
        obtain ⟨l', hperm, hlast⟩ := exists_perm_hit_last hx hpx
        have hany := h l' hperm
        rw [hlast, hq, List.any_eq_false] at hany
        have hmem : y ∈ (l.filter fun y => !p y) ++ [x] :=
          List.mem_append_left _ (List.mem_filter.mpr ⟨hy, by simp [hpy]⟩)
        simpa using hany y hmem
  · intro h l' hperm
    rcases h with h | h | h
    · by_cases hnone : ∀ x ∈ l, p x = false
      · rw [throughFirst_eq_self hnone,
          throughFirst_eq_self fun x hx => hnone x (hperm.mem_iff.mp hx), hperm.any_eq]
      push Not at hnone
      obtain ⟨x, hx, hpx⟩ := hnone
      rw [ne_eq, Bool.not_eq_false] at hpx
      have hany : ∀ l', l'.Perm l → (throughFirst p l').any q = true := by
        intro l' hperm
        obtain ⟨y, hy, hpy⟩ := exists_hit_of_mem (hperm.mem_iff.mpr hx) hpx
        have hmem := hperm.mem_iff.mp (throughFirst_subset p l' hy)
        exact List.any_eq_true.mpr ⟨y, hy, h y hmem hpy⟩
      rw [hany l' hperm, hany l (List.Perm.refl l)]
    · have hany : ∀ l', l'.Perm l → (throughFirst p l').any q = false := by
        intro l' hperm
        refine List.any_eq_false.mpr fun y hy => ?_
        simp [h y (hperm.mem_iff.mp (throughFirst_subset p l' hy))]
      rw [hany l' hperm, hany l (List.Perm.refl l)]
    · rw [throughFirst_eq_self h, throughFirst_eq_self fun x hx => h x (hperm.mem_iff.mp hx),
        hperm.any_eq]

/-! ## Collections for each index -/

section Collections

variable {β : Type} {f g : α → List β} {l : List α} {a : α} {bs : List β}

/-- What is added to one of the collections is added to all of them together. -/
theorem flatMap_perm_append (hl : l.Nodup) (ha : a ∈ l) (hadd : g a = f a ++ bs)
    (hsame : ∀ b, b ≠ a → g b = f b) : (l.flatMap g).Perm (l.flatMap f ++ bs) := by
  induction l with
  | nil => exact absurd ha List.not_mem_nil
  | cons b l ih =>
    obtain ⟨hb, hl⟩ := List.nodup_cons.mp hl
    rw [List.flatMap_cons, List.flatMap_cons]
    rcases List.mem_cons.mp ha with rfl | ha
    · have hrest : l.flatMap g = l.flatMap f := by
        rw [List.flatMap_def, List.flatMap_def]
        exact congrArg List.flatten
          (List.map_congr_left fun c hc => hsame c fun heq => hb (heq ▸ hc))
      rw [hadd, hrest, List.append_assoc, List.append_assoc]
      exact List.perm_append_comm.append_left _
    · rw [hsame b fun heq => hb (heq ▸ ha), List.append_assoc]
      exact (ih hl ha).append_left _

end Collections

end MemEC.Lib
