import Mathlib.Logic.Function.Basic
import PuppyTalk.Rotation

namespace PuppyTalk.Rotation

/-- What a request is about to do to a slot; a request that has emptied a slot because of change
number `n` still has to return. -/
inductive Intent (κ δ : Type) where
  | none
  | store (k : κ) (d : δ)
  | rotate (k : κ) (old new : δ)
  | returning (k : κ) (n : Nat)

def Intent.token : Intent κ δ → Option δ
  | .store _ d => some d
  | .rotate _ _ d => some d
  | _ => Option.none

/-- Slots shared by concurrent requests. A token has an origin, the number of the change before
which the chain of its predecessors began; `revoked` and `returned` are the last changes that have
emptied a slot and reported it. -/
structure Slots (ι κ δ : Type) where
  slot : κ → Option δ
  intent : ι → Intent κ δ
  issued : List δ
  log : List (Event κ δ)
  origin : δ → Nat
  revoked : κ → Nat
  returned : κ → Nat

section
variable {ι κ δ : Type} [DecidableEq ι] [DecidableEq κ] [DecidableEq δ]

/-- One atomic step of some request; `allowed` restricts what may be stored. -/
inductive Move (allowed : κ → δ → Prop) (v : Slots ι κ δ) : Slots ι κ δ → Prop where
  | stay : Move allowed v v
  | settle (p : ι) : Move allowed v { v with intent := Function.update v.intent p .none }
  | createStore (p : ι) (k : κ) (d : δ) (n : Nat) (hd : d ∉ v.issued) :
      Move allowed v { v with
        intent := Function.update v.intent p (.store k d)
        issued := d :: v.issued
        origin := Function.update v.origin d n }
  | createRotate (p : ι) (k : κ) (old d : δ) (hd : d ∉ v.issued) :
      Move allowed v { v with
        intent := Function.update v.intent p (.rotate k old d)
        issued := d :: v.issued }
  | store (p : ι) (k : κ) (d : δ) (hp : v.intent p = .store k d) (ha : allowed k d) :
      Move allowed v { v with
        slot := Function.update v.slot k (some d)
        intent := Function.update v.intent p .none
        log := .stored k d :: v.log }
  | rotate (p : ι) (k : κ) (old new : δ) (hp : v.intent p = .rotate k old new)
      (hold : v.slot k = some old) :
      Move allowed v { v with
        slot := Function.update v.slot k (some new)
        intent := Function.update v.intent p .none
        log := .rotated k old new :: v.log
        origin := Function.update v.origin new (v.origin old) }
  | delete (k : κ) :
      Move allowed v { v with
        slot := Function.update v.slot k none
        log := .deleted k :: v.log }
  | revoke (p : ι) (k : κ) (n : Nat) :
      Move allowed v { v with
        slot := Function.update v.slot k none
        intent := Function.update v.intent p (.returning k n)
        log := .deleted k :: v.log
        revoked := Function.update v.revoked k (max (v.revoked k) n) }
  | report (p : ι) (k : κ) (n : Nat) (hp : v.intent p = .returning k n) :
      Move allowed v { v with
        intent := Function.update v.intent p .none
        returned := Function.update v.returned k (max (v.returned k) n) }

structure Fresh (v : Slots ι κ δ) : Prop where
  valid : Valid v.log
  slot : ∀ k, v.slot k = current k v.log
  issued : ∀ d ∈ tokens v.log, d ∈ v.issued
  pending : ∀ p d, (v.intent p).token = some d → d ∈ v.issued ∧ d ∉ tokens v.log
  distinct : ∀ p q d, (v.intent p).token = some d → (v.intent q).token = some d → p = q

end

variable {ι κ δ : Type} [DecidableEq ι]

theorem update_token {f : ι → Intent κ δ} (hi : i.token = none)
    (h : (Function.update f p i q).token = some d) : q ≠ p ∧ (f q).token = some d := by
  by_cases hq : q = p
  · subst hq
    rw [Function.update_self, hi] at h
    cases h
  · rw [Function.update_of_ne hq] at h
    exact ⟨hq, h⟩

variable [DecidableEq κ]

theorem Fresh.pending_settle {v : Slots ι κ δ} (h : Fresh v) (hi : i.token = none) :
    ∀ q d, (Function.update v.intent p i q).token = some d → d ∈ v.issued ∧ d ∉ tokens v.log :=
  fun q d hq => h.pending q d (update_token hi hq).2

theorem Fresh.distinct_settle {v : Slots ι κ δ} (h : Fresh v) (hi : i.token = none) :
    ∀ q r d, (Function.update v.intent p i q).token = some d →
      (Function.update v.intent p i r).token = some d → q = r :=
  fun q r d hq hr => h.distinct q r d (update_token hi hq).2 (update_token hi hr).2

theorem Fresh.create {v : Slots ι κ δ} (h : Fresh v) (hd : d ∉ v.issued) (hi : i.token = some d)
    (f : δ → Nat) : Fresh { v with
      intent := Function.update v.intent p i
      issued := d :: v.issued
      origin := f } := by
  -- another request cannot hold the token, since every token it could hold was issued before
  have hother {q d'} (hq : (Function.update v.intent p i q).token = some d') :
      q = p ∧ d' = d ∨ q ≠ p ∧ (v.intent q).token = some d' := by
    by_cases hqp : q = p
    · subst hqp
      rw [Function.update_self, hi] at hq
      exact .inl ⟨rfl, (Option.some.inj hq).symm⟩
    · rw [Function.update_of_ne hqp] at hq
      exact .inr ⟨hqp, hq⟩
  apply Fresh.mk
  · exact h.valid
  · exact h.slot
  · exact fun d' hd' => List.mem_cons_of_mem _ (h.issued d' hd')
  · intro q d' hq
    rcases hother hq with ⟨rfl, rfl⟩ | ⟨-, hq⟩
    · exact ⟨List.mem_cons_self, fun hmem => hd (h.issued _ hmem)⟩
    · obtain ⟨hiss, hnew⟩ := h.pending q d' hq
      exact ⟨List.mem_cons_of_mem _ hiss, hnew⟩
  · intro q r d' hq hr
    rcases hother hq with ⟨hqp, he⟩ | ⟨-, hq'⟩ <;> rcases hother hr with ⟨hrp, he'⟩ | ⟨-, hr'⟩
    · exact hqp.trans hrp.symm
    · exact absurd (h.pending r d' hr').1 (he ▸ hd)
    · exact absurd (h.pending q d' hq').1 (he' ▸ hd)
    · exact h.distinct q r d' hq' hr'

theorem Fresh.write {v : Slots ι κ δ} (h : Fresh v) (hp : (v.intent p).token = some d)
    (hw : e.write = some (k, d)) (hv : Valid (e :: v.log)) (f : δ → Nat) : Fresh { v with
      slot := Function.update v.slot k (some d)
      intent := Function.update v.intent p .none
      log := e :: v.log
      origin := f } := by
  have htok : tokens (e :: v.log) = d :: tokens v.log := by
    rw [tokens_cons, hw]
    rfl
  have hcur (k' : κ) : current k' (e :: v.log) = if k = k' then some d else current k' v.log := by
    cases e with
    | stored k₀ d₀ => cases hw; rfl
    | rotated k₀ old new => cases hw; rfl
    | _ => cases hw
  apply Fresh.mk hv
  · intro k'
    rw [hcur]
    dsimp only
    rw [Function.update_apply]
    by_cases hk : k' = k
    · rw [if_pos hk, if_pos hk.symm]
    · rw [if_neg hk, if_neg (Ne.symm hk)]
      exact h.slot k'
  · intro d' hd'
    rw [htok] at hd'
    rcases List.mem_cons.mp hd' with rfl | hd'
    · exact (h.pending p _ hp).1
    · exact h.issued d' hd'
  · intro q d' hq
    obtain ⟨hne, htoken⟩ := update_token (by rfl) hq
    obtain ⟨hiss, hnew⟩ := h.pending q d' htoken
    apply And.intro hiss
    rw [htok]
    intro hmem
    rcases List.mem_cons.mp hmem with rfl | hmem
    · exact hne (h.distinct q p _ htoken hp)
    · exact hnew hmem
  · exact h.distinct_settle rfl

omit [DecidableEq ι] in
theorem Fresh.delete {v : Slots ι κ δ} (h : Fresh v) (k : κ) : Fresh { v with
    slot := Function.update v.slot k none
    log := .deleted k :: v.log } := by
  refine ⟨h.valid, ?_, h.issued, h.pending, h.distinct⟩
  intro k'
  simp only [current, Function.update_apply]
  by_cases hk : k' = k
  · rw [if_pos hk, if_pos hk.symm]
  · rw [if_neg hk, if_neg (Ne.symm hk)]
    exact h.slot k'

theorem Fresh.settle {v : Slots ι κ δ} (h : Fresh v) (hi : i.token = none) (p : ι) (f g : κ → Nat) :
    Fresh { v with
      intent := Function.update v.intent p i
      revoked := f
      returned := g } :=
  ⟨h.valid, h.slot, h.issued, h.pending_settle hi, h.distinct_settle hi⟩

theorem Fresh.move [DecidableEq δ] {v w : Slots ι κ δ} (h : Fresh v) (hm : Move allowed v w) : Fresh w := by
  cases hm with
  | stay => exact h
  | settle p => exact h.settle rfl p v.revoked v.returned
  | createStore p k d n hd => exact h.create hd rfl _
  | createRotate p k old d hd => exact h.create hd rfl v.origin
  | store p k d hp ha =>
    have htok : (v.intent p).token = some d := by rw [hp]; rfl
    have hvalid : Valid (.stored k d :: v.log) := ⟨(h.pending p d htok).2, h.valid⟩
    exact h.write htok rfl hvalid v.origin
  | rotate p k old new hp hold =>
    have htok : (v.intent p).token = some new := by rw [hp]; rfl
    have hvalid : Valid (.rotated k old new :: v.log) :=
      ⟨h.slot k ▸ hold, (h.pending p new htok).2, h.valid⟩
    exact h.write htok rfl hvalid _
  | delete k => exact h.delete k
  | revoke p k n => exact (h.delete k).settle rfl p _ v.returned
  | report p k n hp => exact h.settle rfl p v.revoked _

/-- No slot holds a token that is older than the last change that has emptied it. -/
structure Guarded (v : Slots ι κ δ) : Prop where
  fresh : Fresh v
  stored : ∀ k d, v.slot k = some d → v.revoked k ≤ v.origin d
  returned : ∀ k, v.returned k ≤ v.revoked k
  returning : ∀ p k n, v.intent p = .returning k n → n ≤ v.revoked k

omit [DecidableEq ι] in
theorem Fresh.slot_issued {v : Slots ι κ δ} (h : Fresh v) (hk : v.slot k = some d) :
    d ∈ tokens v.log ∧ d ∈ v.issued := by
  have hmem := current_mem (h.slot k ▸ hk)
  exact ⟨hmem, h.issued d hmem⟩

omit [DecidableEq κ] in
theorem returning_of_update {f : ι → Intent κ δ} (hi : ∀ k n, i ≠ .returning k n)
    (h : Function.update f p i q = .returning k n) : f q = .returning k n := by
  by_cases hq : q = p
  · subst hq
    rw [Function.update_self] at h
    exact absurd h (hi k n)
  · rwa [Function.update_of_ne hq] at h

theorem Guarded.move [DecidableEq δ] {v w : Slots ι κ δ} (h : Guarded v)
    (hm : Move (fun k d => v.revoked k ≤ v.origin d) v w) : Guarded w := by
  have hfresh := h.fresh.move hm
  cases hm with
  | stay => exact h
  | settle p =>
    refine ⟨hfresh, h.stored, h.returned, ?_⟩
    exact fun q k n hq => h.returning q k n (returning_of_update (by simp) hq)
  | createStore p k d n hd =>
    refine ⟨hfresh, ?_, h.returned, ?_⟩
    · intro k' d' hk'
      have hne : d' ≠ d := fun he => hd (he ▸ (h.fresh.slot_issued hk').2)
      dsimp only
      rw [Function.update_of_ne hne]
      exact h.stored k' d' hk'
    · exact fun q k' n' hq => h.returning q k' n' (returning_of_update (by simp) hq)
  | createRotate p k old d hd =>
    refine ⟨hfresh, h.stored, h.returned, ?_⟩
    exact fun q k' n hq => h.returning q k' n (returning_of_update (by simp) hq)
  | store p k d hp ha =>
    refine ⟨hfresh, ?_, h.returned, ?_⟩
    · intro k' d' hk'
      by_cases hk : k' = k
      · subst hk
        dsimp only at hk'
        rw [Function.update_self] at hk'
        cases hk'
        exact ha
      · dsimp only at hk'
        rw [Function.update_of_ne hk] at hk'
        exact h.stored k' d' hk'
    · exact fun q k' n hq => h.returning q k' n (returning_of_update (by simp) hq)
  | rotate p k old new hp hold =>
    refine ⟨hfresh, ?_, h.returned, ?_⟩
    · intro k' d' hk'
      by_cases hk : k' = k
      · subst hk
        dsimp only at hk' ⊢
        rw [Function.update_self] at hk'
        cases hk'
        rw [Function.update_self]
        exact h.stored k' old hold
      · dsimp only at hk' ⊢
        rw [Function.update_of_ne hk] at hk'
        have htok : (v.intent p).token = some new := by rw [hp]; rfl
        have hne : d' ≠ new := fun he =>
          (h.fresh.pending p new htok).2 (he ▸ (h.fresh.slot_issued hk').1)
        rw [Function.update_of_ne hne]
        exact h.stored k' d' hk'
    · exact fun q k' n hq => h.returning q k' n (returning_of_update (by simp) hq)
  | delete k =>
    refine ⟨hfresh, ?_, h.returned, h.returning⟩
    intro k' d' hk'
    dsimp only at hk'
    rw [Function.update_apply] at hk'
    split at hk'
    · cases hk'
    · exact h.stored k' d' hk'
  | revoke p k n =>
    -- the change only raises the bound of the slot that it empties
    have hle (k' : κ) : v.revoked k' ≤ Function.update v.revoked k (max (v.revoked k) n) k' := by
      rw [Function.update_apply]
      split
      · subst k'
        exact Nat.le_max_left _ _
      · exact Nat.le_refl _
    refine ⟨hfresh, ?_, fun k' => Nat.le_trans (h.returned k') (hle k'), ?_⟩
    · intro k' d' hk'
      dsimp only at hk' ⊢
      rw [Function.update_apply] at hk' ⊢
      split at hk'
      · cases hk'
      · rw [if_neg ‹_›]
        exact h.stored k' d' hk'
    · intro q k' n' hq
      by_cases hqp : q = p
      · subst hqp
        dsimp only at hq ⊢
        rw [Function.update_self] at hq
        cases hq
        rw [Function.update_self]
        exact Nat.le_max_right _ _
      · dsimp only at hq
        rw [Function.update_of_ne hqp] at hq
        exact Nat.le_trans (h.returning q k' n' hq) (hle k')
  | report p k n hp =>
    refine ⟨hfresh, h.stored, ?_, ?_⟩
    · intro k'
      dsimp only
      rw [Function.update_apply]
      split
      · subst k'
        exact Nat.max_le.mpr ⟨h.returned k, h.returning p k n hp⟩
      · exact h.returned k'
    · exact fun q k' n' hq => h.returning q k' n' (returning_of_update (by simp) hq)

theorem Guarded.accept [DecidableEq δ] {v w : Slots ι κ δ} (h : Guarded v) (hm : Move allowed v w)
    (ha : acceptances w.log = (k, d) :: acceptances v.log) : v.returned k ≤ v.origin d := by
  have hself {l : List (κ × δ)} {x} : l ≠ x :: l := fun he => by
    have := congrArg List.length he
    simp at this
  cases hm with
  | rotate p k' old new hp hold =>
    cases (List.cons.inj ha).1
    exact Nat.le_trans (h.returned k) (h.stored k d hold)
  | _ => exact absurd ha hself

end PuppyTalk.Rotation
