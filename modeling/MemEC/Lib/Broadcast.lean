import MemEC.Lib.Lists
import MemEC.Lib.Run

/-!
# Messages that come in any order

Messages are sent to a receiver and wait in its inbox, from where they come in
any order. What a receiver has got and what is under way to it is together all
that was sent. An order that the senders keep to is a condition on a message
and those that the receiver got before: it has to hold when the message is
sent, and what the receiver gets in the meantime must not break it.
-/

namespace MemEC.Lib

variable {σ μ : Type}

/-- A receiver, and the messages that are under way to it. -/
structure Receiver (σ μ : Type) where
  state : σ
  inbox : List μ

namespace Receiver

/-- Messages are sent. -/
def post (r : Receiver σ μ) (ms : List μ) : Receiver σ μ := { r with inbox := r.inbox ++ ms }

/-- The message at this place of the inbox comes, if there is one. -/
def deliver (receive : σ → μ → Option σ) (r : Receiver σ μ) (j : ℕ) : Option (Receiver σ μ) :=
  match r.inbox[j]? with
  | none => some r
  | some m => (receive r.state m).map fun state => ⟨state, r.inbox.eraseIdx j⟩

/-- The receiver started with `init` and has got `past`, of all that was sent to it. Everything came
when it was ready, and so will everything that is under way. -/
structure History (receive : σ → μ → Option σ) (Ready : List μ → μ → Prop) (init : σ)
    (sent : List μ) (r : Receiver σ μ) (past : List μ) : Prop where
  state : tryRun receive init past = some r.state
  perm : (past ++ r.inbox).Perm sent
  ready : ∀ as m bs, past = as ++ m :: bs → Ready as m
  waiting : ∀ m ∈ r.inbox, Ready past m

namespace History

variable {receive : σ → μ → Option σ} {Ready : List μ → μ → Prop} {init : σ} {sent : List μ}
  {r : Receiver σ μ} {past : List μ}

theorem start (receive : σ → μ → Option σ) (Ready : List μ → μ → Prop) (init : σ) :
    History receive Ready init [] ⟨init, []⟩ [] where
  state := rfl
  perm := List.Perm.refl _
  ready as m bs h := by simp at h
  waiting m hm := absurd hm List.not_mem_nil

/-- Messages are sent for which the receiver is ready. -/
theorem post (h : History receive Ready init sent r past) {ms sent' : List μ}
    (hsent : sent'.Perm (sent ++ ms)) (hready : ∀ m ∈ ms, Ready past m) :
    History receive Ready init sent' (r.post ms) past where
  state := h.state
  perm := by
    refine List.Perm.trans ?_ hsent.symm
    rw [Receiver.post, ← List.append_assoc]
    exact h.perm.append_right ms
  ready := h.ready
  waiting m hm := (List.mem_append.mp hm).elim (h.waiting m) (hready m)

/-- What is under way comes, if the receiver can take it. -/
theorem deliver (h : History receive Ready init sent r past)
    (hmono : ∀ past m m', Ready past m → Ready (past ++ [m']) m)
    (hreceive : ∀ s, ∀ m ∈ sent, ∃ s', receive s m = some s') (j : ℕ) :
    ∃ r' past', r.deliver receive j = some r' ∧ History receive Ready init sent r' past' := by
  rw [Receiver.deliver]
  cases hj : r.inbox[j]? with
  | none => exact ⟨r, past, rfl, h⟩
  | some m =>
    have hmem : m ∈ r.inbox := List.mem_of_getElem? hj
    obtain ⟨s', hs'⟩ :=
      hreceive r.state m (h.perm.mem_iff.mp (List.mem_append_right _ hmem))
    refine ⟨⟨s', r.inbox.eraseIdx j⟩, past ++ [m], by simp only [hs', Option.map_some], ?_⟩
    constructor
    · rw [tryRun_concat, h.state]
      exact hs'
    · refine List.Perm.trans ?_ h.perm
      rw [List.append_assoc]
      exact (perm_eraseIdx_of_getElem? hj).symm.append_left past
    · intro as m' bs heq
      rcases List.eq_nil_or_concat bs with rfl | ⟨bs', b, rfl⟩
      · obtain ⟨rfl, hm⟩ := List.append_inj' heq rfl
        obtain rfl : m = m' := List.singleton_inj.mp hm
        exact h.waiting m hmem
      · rw [List.concat_eq_append, ← List.cons_append, ← List.append_assoc] at heq
        exact h.ready as m' bs' (List.append_inj' heq rfl).1
    · intro m' hm'
      exact hmono past m' m (h.waiting m' (List.mem_of_mem_eraseIdx hm'))

/-- When nothing is under way, the receiver has got all that was sent. -/
theorem perm_of_quiet (h : History receive Ready init sent r past) (hquiet : r.inbox = []) :
    past.Perm sent := by
  have hperm := h.perm
  rwa [hquiet, List.append_nil] at hperm

end History

end Receiver

end MemEC.Lib
