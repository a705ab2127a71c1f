import Mathlib.Data.List.Basic

namespace PuppyTalk

/-- Execute a list of labels; the labels resolve every choice, and `none` means that a label
was not enabled. -/
def exec (step : σ → α → Option σ) : σ → List α → Option σ
  | s, [] => some s
  | s, a :: as => (step s a).bind fun t => exec step t as

/-- Every step taken along the run satisfies `P` in the state before it. -/
def Along (step : σ → α → Option σ) (P : σ → α → Prop) : σ → List α → Prop
  | _, [] => True
  | s, a :: as => P s a ∧ ∀ t, step s a = some t → Along step P t as

variable {step : σ → α → Option σ} {P : σ → α → Prop}

theorem exec_cons (s : σ) (a : α) (as : List α) :
    exec step s (a :: as) = (step s a).bind fun t => exec step t as := rfl

theorem exec_cons_some (h : exec step s (a :: as) = some t) :
    ∃ u, step s a = some u ∧ exec step u as = some t :=
  Option.bind_eq_some_iff.mp h

theorem exec_append (s : σ) (as bs : List α) :
    exec step s (as ++ bs) = (exec step s as).bind fun t => exec step t bs := by
  induction as generalizing s with
  | nil => rfl
  | cons a as ih =>
    simp only [List.cons_append, exec_cons]
    cases step s a with
    | none => rfl
    | some u => exact ih u

theorem exec_trans (h : exec step s as = some t) (h' : exec step t bs = some u) :
    exec step s (as ++ bs) = some u := by
  rw [exec_append, h]
  exact h'

theorem exec_one (h : step s a = some t) : exec step s [a] = some t := by
  rw [exec_cons, h]
  rfl

theorem Along.cons (hP : P s a) (hs : step s a = some t) (h : Along step P t as) :
    Along step P s (a :: as) := by
  refine ⟨hP, fun u hu => ?_⟩
  cases hs.symm.trans hu
  exact h

theorem Along.mono (h : Along step P s as) (hPQ : ∀ s a, P s a → Q s a) :
    Along step Q s as := by
  induction as generalizing s with
  | nil => trivial
  | cons a as ih => exact ⟨hPQ _ _ h.1, fun t ht => ih (h.2 t ht)⟩

theorem Along.trivial (step : σ → α → Option σ) (s : σ) (as : List α) :
    Along step (fun _ _ => True) s as := by
  induction as generalizing s with
  | nil => exact True.intro
  | cons a as ih => exact ⟨True.intro, fun t _ => ih t⟩

theorem Along.of_forall {R : α → Prop} (h : ∀ a ∈ as, R a) (step : σ → α → Option σ) (s : σ) :
    Along step (fun _ a => R a) s as := by
  induction as generalizing s with
  | nil => exact True.intro
  | cons a as ih =>
    apply And.intro (h a List.mem_cons_self)
    intro t _
    exact ih (fun b hb => h b (List.mem_cons_of_mem _ hb)) t

theorem Along.and {Q : σ → α → Prop} (h : Along step P s as) (h' : Along step Q s as) :
    Along step (fun s a => P s a ∧ Q s a) s as := by
  induction as generalizing s with
  | nil => exact True.intro
  | cons a as ih => exact ⟨⟨h.1, h'.1⟩, fun t ht => ih (h.2 t ht) (h'.2 t ht)⟩

theorem Along.left (h : Along step P s (as ++ bs)) : Along step P s as := by
  induction as generalizing s with
  | nil => exact True.intro
  | cons a as ih => exact ⟨h.1, fun t ht => ih (h.2 t ht)⟩

theorem Along.next (h : Along step P s (as ++ a :: bs)) (he : exec step s as = some t) : P t a := by
  induction as generalizing s with
  | nil =>
    cases he
    exact h.1
  | cons b as ih =>
    obtain ⟨u, hu, he⟩ := exec_cons_some he
    exact ih (h.2 u hu) he

/-- What one admissible step preserves, a whole admissible run preserves. -/
theorem exec_invariant {I : σ → Prop}
    (hstep : ∀ {s a t}, I s → P s a → step s a = some t → I t)
    (h0 : I s) (hP : Along step P s as) (h : exec step s as = some t) : I t := by
  induction as generalizing s with
  | nil =>
    cases h
    exact h0
  | cons a as ih =>
    obtain ⟨u, hu, he⟩ := exec_cons_some h
    exact ih (hstep h0 hP.1 hu) (hP.2 u hu) he

theorem exec_invariant' {I : σ → Prop} (hstep : ∀ {s a t}, I s → step s a = some t → I t)
    (h0 : I s) (h : exec step s as = some t) : I t :=
  exec_invariant (P := fun _ _ => True) (fun hi _ hs => hstep hi hs) h0
    (Along.trivial step s as) h

/-- What the invariant gives of every admissible step holds of every step of the run. -/
theorem Along.of_invariant {I : σ → Prop}
    (hstep : ∀ {s a t}, I s → P s a → step s a = some t → I t)
    (hQ : ∀ {s a}, I s → P s a → Q s a) (h0 : I s) (hP : Along step P s as) :
    Along step Q s as := by
  induction as generalizing s with
  | nil => trivial
  | cons a as ih =>
    apply And.intro (hQ h0 hP.1)
    intro t ht
    exact ih (hstep h0 hP.1 ht) (hP.2 t ht)

/-- Some step taken along the run satisfies `P` in the state before it. -/
def Sometime (step : σ → α → Option σ) (P : σ → α → Prop) : σ → List α → Prop
  | _, [] => False
  | s, a :: as => P s a ∨ ∃ t, step s a = some t ∧ Sometime step P t as

theorem sometime_cons (h : step s a = some t) :
    Sometime step P s (a :: as) ↔ P s a ∨ Sometime step P t as := by
  refine or_congr_right ⟨?_, fun hs => ⟨t, h, hs⟩⟩
  rintro ⟨u, hu, hs⟩
  cases h.symm.trans hu
  exact hs

theorem sometime_or {Q : σ → α → Prop} (s : σ) (as : List α) :
    Sometime step (fun s a => P s a ∨ Q s a) s as ↔ Sometime step P s as ∨ Sometime step Q s as := by
  induction as generalizing s with
  | nil => exact (or_self_iff).symm
  | cons a as ih =>
    simp only [Sometime, ih, and_or_left, exists_or]
    exact or_or_or_comm

/-- `Q` holds in every state of the run. -/
def Always (step : σ → α → Option σ) (Q : σ → Prop) : σ → List α → Prop
  | s, [] => Q s
  | s, a :: as => Q s ∧ ∀ t, step s a = some t → Always step Q t as

/-- If a step from `Q` reaches `Q` exactly when `P` admits it, then `P` admits every step of a run
exactly when `Q` holds in every state of it. -/
theorem along_iff_always {I Q : σ → Prop}
    (hstep : ∀ {s a t}, I s → Q s → step s a = some t → I t ∧ (P s a ↔ Q t))
    (h0 : I s) (hq : Q s) (h : exec step s as = some t) :
    Along step P s as ↔ Always step Q s as := by
  induction as generalizing s with
  | nil => exact iff_of_true trivial hq
  | cons a as ih =>
    obtain ⟨u, hu, he⟩ := exec_cons_some h
    obtain ⟨hinv, hiff⟩ := hstep h0 hq hu
    apply Iff.intro
    · intro hP
      apply And.intro hq
      intro v hv
      cases hu.symm.trans hv
      exact (ih hinv (hiff.mp hP.1) he).mp (hP.2 u hu)
    · intro hA
      have hau := hA.2 u hu
      have hqu : Q u := by
        cases as with
        | nil => exact hau
        | cons => exact hau.1
      apply And.intro (hiff.mpr hqu)
      intro v hv
      cases hu.symm.trans hv
      exact (ih hinv hqu he).mpr hau

section Machines
variable {σ τ α β γ δ : Type}

def answers (f : σ → α → β × σ) : σ → List α → List β
  | _, [] => []
  | s, a :: as => (f s a).1 :: answers f (f s a).2 as

def advance (f : σ → α → β × σ) (s : σ) (a : α) : Option σ := some (f s a).2

theorem answers_simulation {f : σ → α → β × σ} {g : τ → α → γ × τ} {r : σ → τ → Prop}
    {obs : β → δ} {obs' : γ → δ} {as : List α}
    (hstep : ∀ s t, ∀ a ∈ as, r s t → obs (f s a).1 = obs' (g t a).1 ∧ r (f s a).2 (g t a).2)
    {s : σ} {t : τ} (h : r s t) : (answers f s as).map obs = (answers g t as).map obs' := by
  induction as generalizing s t with
  | nil => rfl
  | cons a as ih =>
    obtain ⟨ho, hr⟩ := hstep s t a List.mem_cons_self h
    simp only [answers, List.map_cons, ho]
    rw [ih (fun s t b hb => hstep s t b (List.mem_cons_of_mem _ hb)) hr]

end Machines

end PuppyTalk
