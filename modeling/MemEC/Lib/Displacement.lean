import Mathlib.Logic.Function.Basic
import Mathlib.Logic.Relation
import Mathlib.Tactic

/-!
# Tables with displacement

A table of buckets with slots. An entry that is in the way may be displaced: it
goes from its slot to a free slot of the bucket that `alt` gives for it. A
displacement neither loses nor doubles an entry, and it keeps every entry in one
of its homes as long as `alt` leads from a home of the entry to a home of it.

`R` is the set of buckets that displacements may start from.
-/

namespace MemEC.Lib

/-- The entries of a table by bucket and slot. A free slot holds `0`. -/
abbrev Slots (B S P : Type) := B × S → P

namespace Slots

variable {B S P : Type} [DecidableEq B] [DecidableEq S] [Zero P]

/-- `p` is an entry of the table. -/
def Has (t : Slots B S P) (p : P) : Prop := p ≠ 0 ∧ ∃ a, t a = p

/-- Every entry is in one slot only. -/
def Once (t : Slots B S P) : Prop := ∀ a b, t a ≠ 0 → t a = t b → a = b

/-- Every entry is in a bucket that is a home of it. -/
def Housed (homes : P → B → Prop) (t : Slots B S P) : Prop := ∀ a, t a ≠ 0 → homes (t a) a.1

/-- Every slot of the bucket is taken. -/
def Full (t : Slots B S P) (b : B) : Prop := ∀ s, t (b, s) ≠ 0

def put (t : Slots B S P) (a : B × S) (p : P) : Slots B S P := Function.update t a p

def move (t : Slots B S P) (a b : B × S) : Slots B S P := (t.put b (t a)).put a 0

variable {t u : Slots B S P} {a b : B × S} {p q : P}

omit [Zero P] in
theorem put_apply (t : Slots B S P) (a : B × S) (p : P) (b : B × S) :
    t.put a p b = if b = a then p else t b := Function.update_apply t a p b

omit [Zero P] in
@[simp] theorem put_self (t : Slots B S P) (a : B × S) (p : P) : t.put a p a = p := by
  rw [put_apply, if_pos rfl]

omit [Zero P] in
@[simp] theorem put_of_ne (t : Slots B S P) (p : P) (h : b ≠ a) : t.put a p b = t b := by
  rw [put_apply, if_neg h]

/-! ## Taking a free slot -/

theorem has_put (ha : t a = 0) (hp : p ≠ 0) : (t.put a p).Has q ↔ t.Has q ∨ q = p := by
  constructor
  · rintro ⟨hq, b, hb⟩
    rw [put_apply] at hb
    split_ifs at hb with hba
    · exact Or.inr hb.symm
    · exact Or.inl ⟨hq, b, hb⟩
  · rintro (⟨hq, b, hb⟩ | rfl)
    · have hba : b ≠ a := by
        rintro rfl
        exact hq (hb.symm.trans ha)
      exact ⟨hq, b, (put_of_ne t p hba).trans hb⟩
    · exact ⟨hp, a, put_self t a q⟩

theorem Once.put (h : t.Once) (hp : ¬t.Has p) : (t.put a p).Once := by
  intro b c hb hbc
  rw [put_apply] at hb
  rw [put_apply, put_apply] at hbc
  split_ifs at hb hbc with hba hca hca
  · rw [hba, hca]
  · exact absurd ⟨hb, c, hbc.symm⟩ hp
  · exact absurd ⟨hbc ▸ hb, b, hbc⟩ hp
  · exact h b c hb hbc

theorem Housed.put {homes : P → B → Prop} (h : t.Housed homes) (hp : homes p a.1) :
    (t.put a p).Housed homes := by
  intro b hb
  rw [put_apply] at hb ⊢
  split_ifs at hb ⊢ with hba
  · rwa [hba]
  · exact h b hb

/-! ## Freeing a slot -/

/-- A freed slot takes its entry out of the table when no other slot holds it. -/
theorem has_clear_of_unique (h : ∀ b, t b ≠ 0 → t b = t a → b = a) :
    (t.put a 0).Has q ↔ t.Has q ∧ q ≠ t a := by
  constructor
  · rintro ⟨hq, b, hb⟩
    rw [put_apply] at hb
    split_ifs at hb with hba
    · exact absurd hb.symm hq
    · refine ⟨⟨hq, b, hb⟩, ?_⟩
      rintro rfl
      exact hba (h b (hb ▸ hq) hb)
  · rintro ⟨⟨hq, b, hb⟩, hqa⟩
    have hba : b ≠ a := by
      rintro rfl
      exact hqa hb.symm
    exact ⟨hq, b, (put_of_ne t 0 hba).trans hb⟩

theorem has_clear (h : t.Once) : (t.put a 0).Has q ↔ t.Has q ∧ q ≠ t a :=
  has_clear_of_unique fun b hb heq => h b a hb heq

/-- `p` is in one slot at most. -/
def Single (t : Slots B S P) (p : P) : Prop := ∀ a b, t a = p → t b = p → a = b

/-- A freed slot takes its entry out of the table exactly if the entry was in no other one. -/
theorem has_clear_iff_single (ha : t a ≠ 0) :
    (∀ q, (t.put a 0).Has q ↔ t.Has q ∧ q ≠ t a) ↔ t.Single (t a) := by
  constructor
  · intro h b c hb hc
    have hgone : ¬(t.put a 0).Has (t a) := fun hhas => ((h _).mp hhas).2 rfl
    have hslot : ∀ b, t b = t a → b = a := by
      intro b hb
      by_contra hba
      exact hgone ⟨ha, b, (put_of_ne t 0 hba).trans hb⟩
    rw [hslot b hb, hslot c hc]
  · intro h q
    exact has_clear_of_unique fun b _ heq => h b a heq rfl

theorem Once.clear (h : t.Once) : (t.put a 0).Once :=
  h.put fun hz => hz.1 rfl

theorem Housed.clear {homes : P → B → Prop} (h : t.Housed homes) :
    (t.put a 0).Housed homes := by
  intro b hb
  rw [put_apply] at hb ⊢
  split_ifs at hb ⊢ with hba
  · exact absurd rfl hb
  · exact h b hb

/-- An entry of the table with one more is that one or an old one. -/
theorem Has.of_put (h : (t.put a p).Has q) : t.Has q ∨ q = p := by
  obtain ⟨hq, b, hb⟩ := h
  rw [put_apply] at hb
  split_ifs at hb with hba
  · exact Or.inr hb.symm
  · exact Or.inl ⟨hq, b, hb⟩

/-- `u` is `t` with slots freed, all of entries for which `gone` holds. -/
def Cleared (gone : P → Prop) (t u : Slots B S P) : Prop := ∀ a, u a = t a ∨ u a = 0 ∧ gone (t a)

section

variable {gone gone' : P → Prop} {v : Slots B S P}

omit [DecidableEq B] [DecidableEq S]

theorem Cleared.refl (t : Slots B S P) : Cleared gone t t := fun _ => Or.inl rfl

theorem Cleared.mono (h : Cleared gone t u) (hgone : ∀ p, gone p → gone' p) : Cleared gone' t u :=
  fun a => (h a).imp id fun ha => ⟨ha.1, hgone _ ha.2⟩

theorem Cleared.trans (h : Cleared gone t u) (h' : Cleared gone u v) : Cleared gone t v := by
  intro a
  rcases h a with ha | ⟨ha, hgone⟩
  · rw [← ha]
    exact h' a
  · rcases h' a with hv | ⟨hv, -⟩
    · exact Or.inr ⟨hv.trans ha, hgone⟩
    · exact Or.inr ⟨hv, hgone⟩

theorem Cleared.eq_of_ne (h : Cleared gone t u) (ha : u a ≠ 0) : u a = t a :=
  (h a).resolve_right fun hz => ha hz.1

theorem Cleared.has (h : Cleared gone t u) (hq : u.Has q) : t.Has q := by
  obtain ⟨hne, a, rfl⟩ := hq
  exact ⟨hne, a, (h.eq_of_ne hne).symm⟩

theorem Cleared.has_of_not (h : Cleared gone t u) (hq : t.Has q) (hgone : ¬gone q) : u.Has q := by
  obtain ⟨hne, a, rfl⟩ := hq
  exact ⟨hne, a, (h a).resolve_right fun hz => hgone hz.2⟩

theorem Cleared.once (h : Cleared gone t u) (ht : t.Once) : u.Once := by
  intro a b ha hab
  have hta := h.eq_of_ne ha
  have htb := h.eq_of_ne (hab ▸ ha)
  exact ht a b (hta ▸ ha) (by rw [← hta, ← htb, hab])

theorem Cleared.not_full {b : B} (h : Cleared gone t u) (hb : ¬t.Full b) : ¬u.Full b := by
  intro hfull
  exact hb fun s => h.eq_of_ne (hfull s) ▸ hfull s

end

theorem Cleared.put {gone : P → Prop} (h : gone (t a)) : Cleared gone t (t.put a 0) := by
  intro b
  rw [put_apply]
  split_ifs with hba
  · exact Or.inr ⟨rfl, hba ▸ h⟩
  · exact Or.inl rfl

/-! ## Displacing an entry -/

theorem move_apply (t : Slots B S P) (a b c : B × S) :
    t.move a b c = if c = a then 0 else if c = b then t a else t c := by
  rw [move, put_apply, put_apply]

/-- An entry of the table after a displacement is the displaced one or one that stayed. -/
theorem move_cases {c : B × S} (hc : t.move a b c ≠ 0) :
    (c = b ∧ t.move a b c = t a) ∨ (c ≠ a ∧ c ≠ b ∧ t.move a b c = t c) := by
  rw [move_apply] at hc ⊢
  split_ifs at hc ⊢ with hca hcb
  · exact absurd rfl hc
  · exact Or.inl ⟨hcb, rfl⟩
  · exact Or.inr ⟨hca, hcb, rfl⟩

theorem has_move (ha : t a ≠ 0) (hb : t b = 0) : (t.move a b).Has q ↔ t.Has q := by
  have hba : b ≠ a := by
    rintro rfl
    exact ha hb
  constructor
  · rintro ⟨hq, c, rfl⟩
    rcases move_cases hq with ⟨-, hc⟩ | ⟨-, -, hc⟩
    · exact ⟨hq, a, hc.symm⟩
    · exact ⟨hq, c, hc.symm⟩
  · rintro ⟨hq, c, rfl⟩
    by_cases hca : c = a
    · refine ⟨hq, b, ?_⟩
      rw [move_apply, if_neg hba, if_pos rfl, hca]
    · have hcb : c ≠ b := by
        rintro rfl
        exact hq hb
      refine ⟨hq, c, ?_⟩
      rw [move_apply, if_neg hca, if_neg hcb]

theorem Once.move (h : t.Once) : (t.move a b).Once := by
  intro c d hc hcd
  have hd : t.move a b d ≠ 0 := hcd ▸ hc
  rcases move_cases hc with ⟨hcb, hct⟩ | ⟨hca, hcb, hct⟩ <;>
    rcases move_cases hd with ⟨hdb, hdt⟩ | ⟨hda, hdb, hdt⟩
  · rw [hcb, hdb]
  · have had := h a d (hct ▸ hc) (by rw [← hct, hcd, hdt])
    exact absurd had.symm hda
  · have hac := h a c (hdt ▸ hd) (by rw [← hdt, ← hcd, hct])
    exact absurd hac.symm hca
  · exact h c d (hct ▸ hc) (by rw [← hct, hcd, hdt])

variable (alt : P → B → B) (R : B → Prop)

/-- One displacement. -/
def Step (t u : Slots B S P) : Prop :=
  ∃ a b, R a.1 ∧ t a ≠ 0 ∧ t b = 0 ∧ b.1 = alt (t a) a.1 ∧ u = t.move a b

/-- Any number of displacements. -/
def Displaced : Slots B S P → Slots B S P → Prop := Relation.ReflTransGen (Step alt R)

/-- `alt` does not lead out of `R`, and leads back. -/
structure Closed (t : Slots B S P) : Prop where
  closed : ∀ a, R a.1 → t a ≠ 0 → R (alt (t a) a.1)
  back : ∀ p b, R b → alt p (alt p b) = b

/-- The entries in the buckets of `R` are displaced from home to home. -/
def Faithful (homes : P → B → Prop) (t : Slots B S P) : Prop :=
  ∀ a, R a.1 → t a ≠ 0 → ∀ b, homes (t a) b → homes (t a) (alt (t a) b)

variable {alt R}

theorem Displaced.has_iff (h : Displaced alt R t u) : u.Has q ↔ t.Has q := by
  induction h with
  | refl => rfl
  | tail _ hstep ih =>
    obtain ⟨a, b, -, ha, hb, -, rfl⟩ := hstep
    exact (has_move ha hb).trans ih

theorem Displaced.once (h : Displaced alt R t u) (ht : t.Once) : u.Once := by
  induction h with
  | refl => exact ht
  | tail _ hstep ih =>
    obtain ⟨a, b, -, -, -, -, rfl⟩ := hstep
    exact ih.move

theorem Closed.step (h : Closed alt R t) (hs : Step alt R t u) : Closed alt R u := by
  obtain ⟨a, b, hRa, ha, -, hab, rfl⟩ := hs
  refine ⟨fun c hRc hc => ?_, h.back⟩
  rcases move_cases hc with ⟨rfl, hct⟩ | ⟨-, -, hct⟩
  · rwa [hct, hab, h.back _ _ hRa]
  · rw [hct] at hc ⊢
    exact h.closed c hRc hc

theorem Closed.displaced (h : Closed alt R t) (hd : Displaced alt R t u) : Closed alt R u := by
  induction hd with
  | refl => exact h
  | tail _ hstep ih => exact ih.step hstep

theorem Faithful.step {homes : P → B → Prop} (h : Faithful alt R homes t)
    (hs : Step alt R t u) : Faithful alt R homes u := by
  obtain ⟨a, b, hRa, ha, -, -, rfl⟩ := hs
  intro c hRc hc
  rcases move_cases hc with ⟨rfl, hct⟩ | ⟨-, -, hct⟩
  · rw [hct]
    exact h a hRa ha
  · rw [hct] at hc ⊢
    exact h c hRc hc

theorem Housed.step {homes : P → B → Prop} (h : t.Housed homes) (hf : Faithful alt R homes t)
    (hs : Step alt R t u) : u.Housed homes := by
  obtain ⟨a, b, hRa, ha, -, hab, rfl⟩ := hs
  intro c hc
  rcases move_cases hc with ⟨rfl, hct⟩ | ⟨-, -, hct⟩
  · rw [hct, hab]
    exact hf a hRa ha a.1 (h a ha)
  · rw [hct] at hc ⊢
    exact h c hc

/-- Displacements from home to home keep every entry at home. -/
theorem Housed.displaced {homes : P → B → Prop} (h : t.Housed homes)
    (hf : Faithful alt R homes t) (hd : Displaced alt R t u) : u.Housed homes := by
  have hboth : u.Housed homes ∧ Faithful alt R homes u := by
    induction hd with
    | refl => exact ⟨h, hf⟩
    | tail _ hstep ih => exact ⟨ih.1.step ih.2 hstep, ih.2.step hstep⟩
  exact hboth.1

/-! ## Insertion with displacement -/

/-- What an insertion of `p` with the homes `i₁` and `i₂` does to the slots, and what it returns:
displacements start from `i₂`, and only when both homes are full. -/
inductive Inserted (alt : P → B → B) (R : B → Prop) (i₁ i₂ : B) (p : P) (t : Slots B S P) :
    Slots B S P → Bool → Prop
  | free (a : B × S) (home : a.1 = i₁ ∨ a.1 = i₂) (ha : t a = 0) :
      Inserted alt R i₁ i₂ p t (t.put a p) true
  | displaced (u : Slots B S P) (a : B × S) (full : t.Full i₁ ∧ t.Full i₂)
      (hu : Displaced alt R t u) (home : a.1 = i₂) (ha : u a = 0) :
      Inserted alt R i₁ i₂ p t (u.put a p) true
  | failed (u : Slots B S P) (full : t.Full i₁ ∧ t.Full i₂) (hu : Displaced alt R t u) :
      Inserted alt R i₁ i₂ p t u false

variable {i₁ i₂ : B} {ok : Bool}

/-- A successful insertion adds the new entry, and a failed one nothing. -/
theorem Inserted.has_iff (h : Inserted alt R i₁ i₂ p t u ok) (hp : p ≠ 0) :
    u.Has q ↔ t.Has q ∨ (ok = true ∧ q = p) := by
  cases h with
  | free a _ ha => simp only [has_put ha hp, true_and]
  | displaced v a _ hv _ ha => simp only [has_put ha hp, hv.has_iff, true_and]
  | failed _ _ hu => simp [hu.has_iff]

theorem Inserted.has_or (h : Inserted alt R i₁ i₂ p t u ok) (hq : u.Has q) : t.Has q ∨ q = p := by
  cases h with
  | free a _ _ => exact hq.of_put
  | displaced v a _ hv _ _ => exact hq.of_put.imp hv.has_iff.mp id
  | failed _ _ hu => exact Or.inl (hu.has_iff.mp hq)

/-- With a free slot at home, an insertion succeeds. -/
theorem Inserted.ok_of_not_full (h : Inserted alt R i₁ i₂ p t u ok)
    (hfree : ¬(t.Full i₁ ∧ t.Full i₂)) : ok = true := by
  cases h with
  | free _ _ _ => rfl
  | displaced _ _ _ _ _ _ => rfl
  | failed _ full _ => exact absurd full hfree

theorem Inserted.once (h : Inserted alt R i₁ i₂ p t u ok) (ht : t.Once) (hp : ¬t.Has p) :
    u.Once := by
  cases h with
  | free a _ _ => exact ht.put hp
  | displaced v a _ hv _ _ => exact (hv.once ht).put (mt hv.has_iff.mp hp)
  | failed _ _ hu => exact hu.once ht

/-- An insertion keeps the entries at home, if it displaces none or only from home to home. -/
theorem Inserted.housed {homes : P → B → Prop} (h : Inserted alt R i₁ i₂ p t u ok)
    (ht : t.Housed homes) (h₁ : homes p i₁) (h₂ : homes p i₂)
    (hf : t.Full i₁ → t.Full i₂ → Faithful alt R homes t) : u.Housed homes := by
  cases h with
  | free a home _ =>
    refine ht.put ?_
    rcases home with home | home
    · rwa [home]
    · rwa [home]
  | displaced v a full hv home _ =>
    have hv' := ht.displaced (hf full.1 full.2) hv
    exact hv'.put (by rwa [home])
  | failed _ full hu => exact ht.displaced (hf full.1 full.2) hu

/-! ## Filling free slots -/

/-- `u` has the entries of `t` in their slots, and in free slots of `t` what `new` allows there. -/
structure Extended (new : P → B → Prop) (t u : Slots B S P) : Prop where
  kept : ∀ a, t a ≠ 0 → u a = t a
  added : ∀ a, t a = 0 → u a ≠ 0 → new (u a) a.1

section

variable {new new' : P → B → Prop} {v : Slots B S P}

omit [DecidableEq B] [DecidableEq S]

theorem Extended.refl (t : Slots B S P) : Extended new t t where
  kept _ _ := rfl
  added _ ha hne := absurd ha hne

theorem Extended.mono (h : Extended new t u) (hnew : ∀ p b, new p b → new' p b) :
    Extended new' t u where
  kept := h.kept
  added a ha hne := hnew _ _ (h.added a ha hne)

theorem Extended.trans (h : Extended new t u) (h' : Extended new u v) : Extended new t v := by
  constructor
  · intro a ha
    have hu := h.kept a ha
    rw [h'.kept a (hu ▸ ha), hu]
  · intro a ha hne
    by_cases hu : u a = 0
    · exact h'.added a hu hne
    · rw [h'.kept a hu]
      exact h.added a ha hu

end

theorem Extended.put (ha : t a = 0) (hp : new p a.1) : Extended new t (t.put a p) := by
  constructor
  · intro b hb
    apply put_of_ne
    rintro rfl
    exact hb ha
  · intro b hb hne
    rw [put_apply] at hne ⊢
    split_ifs at hne ⊢ with hba
    · rwa [hba]
    · exact absurd hb hne

/-- Full buckets that displacements do not leave stay as they are. -/
theorem Displaced.eq_of_full {alt : P → B → B} {R : B → Prop} (h : Displaced alt R t u)
    (hclosed : Closed alt R t) (hfull : ∀ b, R b → t.Full b) : u = t := by
  induction h with
  | refl => rfl
  | tail _ hstep ih =>
    subst ih
    obtain ⟨a, b, hRa, ha, hb, hab, -⟩ := hstep
    exact absurd hb (hfull b.1 (hab ▸ hclosed.closed a hRa ha) b.2)

/-- An insertion from which displacements lead only to the two homes displaces nothing. -/
theorem Inserted.extended {alt : P → B → B} {R : B → Prop} {i₁ i₂ : B} {ok : Bool}
    (h : Inserted alt R i₁ i₂ p t u ok) (hclosed : Closed alt R t)
    (hR : ∀ b, R b → b = i₁ ∨ b = i₂) :
    Extended (fun q b => q = p ∧ (b = i₁ ∨ b = i₂)) t u := by
  have hfull : t.Full i₁ ∧ t.Full i₂ → ∀ b, R b → t.Full b := by
    rintro ⟨h₁, h₂⟩ b hb
    rcases hR b hb with rfl | rfl
    · exact h₁
    · exact h₂
  cases h with
  | free a home ha => exact Extended.put ha ⟨rfl, home⟩
  | displaced v a full hv home ha =>
    rw [hv.eq_of_full hclosed (hfull full)] at ha
    obtain ⟨b, s⟩ := a
    obtain rfl : b = i₂ := home
    exact absurd ha (full.2 s)
  | failed _ full hu =>
    rw [hu.eq_of_full hclosed (hfull full)]
    exact Extended.refl t

section

variable [DecidableEq P] [Fintype S]

/-- The number of slots of the bucket that are taken. -/
def used (t : Slots B S P) (b : B) : ℕ := (Finset.univ.filter fun s => t (b, s) ≠ 0).card

omit [DecidableEq B] [DecidableEq S] in
theorem not_full_of_used_lt {b : B} (h : t.used b < Fintype.card S) : ¬t.Full b := by
  intro hfull
  have hall : (Finset.univ.filter fun s => t (b, s) ≠ 0) = Finset.univ :=
    Finset.filter_true_of_mem fun s _ => hfull s
  rw [used, hall, Finset.card_univ] at h
  exact absurd h (lt_irrefl _)

omit [DecidableEq B] [DecidableEq S] in
theorem used_le (t : Slots B S P) (b : B) : t.used b ≤ Fintype.card S :=
  Finset.card_le_univ _

theorem used_put (ha : t a = 0) (hp : p ≠ 0) (b : B) :
    (t.put a p).used b = t.used b + if b = a.1 then 1 else 0 := by
  obtain ⟨c, s⟩ := a
  by_cases hb : b = c
  · subst hb
    have hput : (Finset.univ.filter fun s' => t.put (b, s) p (b, s') ≠ 0) =
        insert s (Finset.univ.filter fun s' => t (b, s') ≠ 0) := by
      ext s'
      by_cases hs : s' = s
      · subst hs
        simp [hp]
      · simp [hs]
    have hnew : s ∉ Finset.univ.filter fun s' => t (b, s') ≠ 0 := by
      simp [ha]
    rw [used, hput, Finset.card_insert_of_notMem hnew, if_pos rfl]
    rfl
  · have hput : ∀ s', t.put (c, s) p (b, s') = t (b, s') :=
      fun s' => put_of_ne t p fun h => hb (Prod.mk.inj h).1
    rw [if_neg hb, add_zero]
    simp only [used, hput]

end

/-! ## The buckets within reach -/

/-- The buckets that a path of displacements from `b` can lead to. -/
def Reach (alt : P → B → B) (t : Slots B S P) : B → B → Prop :=
  Relation.ReflTransGen fun b c => ∃ s, t (b, s) ≠ 0 ∧ c = alt (t (b, s)) b

omit [DecidableEq B] [DecidableEq S] in
theorem closed_reach {size : B → Prop} (hb : size i₂) (halt : ∀ p b, size (alt p b))
    (hback : ∀ p b, size b → alt p (alt p b) = b) : Closed alt (Reach alt t i₂) t where
  closed := fun a hR ha => hR.tail ⟨a.2, ha, rfl⟩
  back := by
    intro p b hR
    refine hback p b ?_
    cases hR with
    | refl => exact hb
    | tail _ hstep =>
      obtain ⟨s, -, rfl⟩ := hstep
      exact halt _ _

end Slots

end MemEC.Lib
