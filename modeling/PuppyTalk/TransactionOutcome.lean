import PuppyTalk.TransactionRules

namespace PuppyTalk.Txn

variable {D R X ε ρ ν Q : Type} [Rows D R] {S : Spec D R X ε ρ ν Q} {q : Q}

section Exceptions

variable {P P' : ε → Prop}

theorem Prog.Raises.bind {x : Prog D R X ε ρ ν α} {f : α → Prog D R X ε ρ ν β} (h : x.Raises P)
    (hf : ∀ a, (f a).Raises P) : (x >>= f).Raises P := by
  induction x with
  | pure a => exact hf a
  | raise e => exact h
  | select name ok k ih => exact fun d => ih d (h d)
  | call g k ih => exact fun x => ih x (h x)
  | exec name st k ih => exact fun snap d locked => ih snap d locked (h snap d locked)
  | commit note k ih => exact ih h

theorem Prog.Raises.mono {x : Prog D R X ε ρ ν α} (h : x.Raises P) (hP : ∀ e, P e → P' e) :
    x.Raises P' := by
  induction x with
  | pure a => trivial
  | raise e => exact hP e h
  | select name ok k ih => exact fun d => ih d (h d)
  | call g k ih => exact fun x => ih x (h x)
  | exec name st k ih => exact fun snap d locked => ih snap d locked (h snap d locked)
  | commit note k ih => exact ih h

theorem Prog.Raises.tryExcept {x : Prog D R X ε ρ ν α} {handler : ε → Option ε} (h : x.Raises P)
    (hP : ∀ e, P e → P' ((handler e).getD e)) : (x.tryExcept handler).Raises P' := by
  induction x with
  | pure a => trivial
  | raise e => exact hP e h
  | select name ok k ih => exact fun d => ih d (h d)
  | call g k ih => exact fun x => ih x (h x)
  | exec name st k ih => exact fun snap d locked => ih snap d locked (h snap d locked)
  | commit note k ih => exact ih h

theorem Prog.tryExcept_bind (handler : ε → Option ε) (x : Prog D R X ε ρ ν α)
    (f : α → Prog D R X ε ρ ν β) :
    (x >>= f).tryExcept handler = x.tryExcept handler >>= fun a => (f a).tryExcept handler := by
  induction x with
  | pure a => rfl
  | raise e => rfl
  | select name ok k ih => exact congrArg (Prog.select name ok) (funext ih)
  | call g k ih => exact congrArg (Prog.call g) (funext ih)
  | exec name st k ih =>
    exact congrArg (Prog.exec name st)
      (funext fun snap => funext fun d => funext fun locked => ih snap d locked)
  | commit note k ih => exact congrArg (Prog.commit note) ih

variable [DecidableEq R] {names : ρ → Prop} {rel : D → D → Prop}

theorem Spec.wp_free (x : Prog D R X ε ρ ν α) {K : α → Known D R X ρ ν Q → Prop}
    (hcommit : ∀ w note past d, S.Good w →
      S.inv (w.commit q note past d) ∧ S.change w (w.commit q note past d))
    (hcall : ∀ w f, S.inv w → S.inv (w.call f) ∧ S.change w (w.call f))
    (hends : ∀ name snap locked d, S.ends q name snap locked d)
    (hraise : ∀ past e log, S.raised q past e log) (hK : ∀ a c, K a c)
    (c : Known D R X ρ ν Q) (hc : S.Kept q c) : S.wp q x K c := by
  induction x generalizing c with
  | pure a => exact hK a c
  | raise e => exact fun w _ => hraise _ e w.log
  | select name ok k ih =>
    apply wp_select (fun d => hends name _ _ _) hc
    intro w c' _ _ ha
    exact ih _ c' ha.kept
  | call g k ih =>
    intro w hw
    obtain ⟨hi, hch⟩ := hcall w g hw.good.inv
    exact ⟨hi, hch, fun _ => True, ⟨trivial, .const True⟩, ih _ _ (.true rfl)⟩
  | exec name st k ih =>
    apply wp_any hc fun snap locked d => hends name _ _ _
    intro w w' locked c' _ _ _ ha
    exact ih _ _ _ c' ha.kept
  | commit note k ih =>
    apply wp_commit
    · exact fun w hw _ => hcommit w note _ _ hw.good
    · exact ih _ (.true rfl)

end Exceptions

section Reads

def dbAt (first : D) (log : List (Commit D Q ρ ν)) (n : Nat) : D :=
  ((log.take n).getLast?.map (·.db)).getD first

theorem dbAt_append (first : D) {log : List (Commit D Q ρ ν)} (l : List (Commit D Q ρ ν))
    (h : n ≤ log.length) : dbAt first (log ++ l) n = dbAt first log n := by
  rw [dbAt, List.take_append_of_le_length h, dbAt]

theorem dbAt_commit (first : D) (log : List (Commit D Q ρ ν)) (c : Commit D Q ρ ν) :
    dbAt first (log ++ [c]) (log ++ [c]).length = c.db := by
  rw [dbAt, List.take_length, List.getLast?_append, List.getLast?_singleton]
  rfl

end Reads

section Final

def Prog.Final : Prog D R X ε ρ ν α → Prop
  | .pure _ => True
  | .raise _ => True
  | .select _ _ k => ∀ d, (k d).Final
  | .call _ k => ∀ x, (k x).Final
  | .exec _ _ k => ∀ snap d locked, (k snap d locked).Final
  | .commit _ k => ∃ a, k = .pure a

theorem Prog.bind_assoc (x : Prog D R X ε ρ ν α) (f : α → Prog D R X ε ρ ν β)
    (g : β → Prog D R X ε ρ ν γ) : x >>= f >>= g = x >>= fun a => f a >>= g := by
  induction x with
  | pure a => rfl
  | raise e => rfl
  | select name ok k ih => exact congrArg (Prog.select name ok) (funext ih)
  | call h k ih => exact congrArg (Prog.call h) (funext ih)
  | exec name st k ih =>
    exact congrArg (Prog.exec name st)
      (funext fun snap => funext fun d => funext fun locked => ih snap d locked)
  | commit note k ih => exact congrArg (Prog.commit note) ih

theorem Prog.Steps.final {names : ρ → Prop} {rel : D → D → Prop} {x : Prog D R X ε ρ ν α}
    {f : α → Prog D R X ε ρ ν β} (h : x.Steps names rel) (hf : ∀ a, (f a).Final) :
    (x >>= f).Final := by
  induction x with
  | pure a => exact hf a
  | raise e => trivial
  | select name ok k ih => exact fun d => ih d (h.2 d)
  | call g k ih => exact h.elim
  | exec name st k ih => exact fun snap d locked => ih snap d locked (h.2.2 snap d locked)
  | commit note k ih => exact h.elim

variable [DecidableEq R] {program : Q → Prog D R X ε ρ ν (Option Q)}
variable {s s' : State D R X ε ρ ν Q} {tx tx' : Tx D R X ε ρ ν Q} {i : Nat} {run : List (Label R Q)}

def Unchanged (program : Q → Prog D R X ε ρ ν (Option Q)) (i : Nat) (s : State D R X ε ρ ν Q)
    (a : Label R Q) : Prop :=
  a.slot = i → ∀ s', step program s a = some s' → s'.world.db = s.world.db

def Over (i : Nat) (s : State D R X ε ρ ν Q) : Prop :=
  ∀ tx, s.txs i = some tx → tx.prog = .pure none

theorem over_step {a : Label R Q} (h : Over i s) (ha : ∀ q, a ≠ .begin i q)
    (hs : step program s a = some s') : Over i s' := by
  intro tx htx
  by_cases hi : i = a.slot
  · subst hi
    cases a with
    | begin i q => exact absurd rfl (ha q)
    | run i =>
      obtain ⟨tx₀, htx₀, hs⟩ := Option.bind_eq_some_iff.mp hs
      rw [State.run, h tx₀ htx₀] at hs
      cases hs
      rw [Label.slot, State.close_self] at htx
      cases htx
    | lock i r =>
      obtain ⟨tx₀, htx₀, hs⟩ := Option.bind_eq_some_iff.mp hs
      rw [State.lock, h tx₀ htx₀] at hs
      cases hs
    | abort i =>
      obtain ⟨tx₀, _, rfl⟩ := Option.map_eq_some_iff.mp hs
      rw [Label.slot, State.close_self] at htx
      cases htx
  · rw [step_txs_of_ne hs hi] at htx
    exact h tx htx

theorem over_exec (h : Over i s) (hrun : ∀ a ∈ run, ∀ q, a ≠ .begin i q)
    (hs : exec (step program) s run = some s') : Over i s' := by
  induction run generalizing s with
  | nil =>
    cases hs
    exact h
  | cons a run ih =>
    obtain ⟨s₁, hs₁, hs⟩ := exec_cons_some hs
    exact ih (over_step h (hrun a List.mem_cons_self) hs₁)
      (fun b hb => hrun b (List.mem_cons_of_mem _ hb)) hs

def Uncommitted (i : Nat) (q : Q) (s : State D R X ε ρ ν Q) : Prop :=
  ∃ tx, s.txs i = some tx ∧ tx.req = q ∧ tx.prog.Final ∧ tx.prog.Returns (· = none)

omit [DecidableEq R] in
theorem over_close (s : State D R X ε ρ ν Q) (i : Nat) (tx : Tx D R X ε ρ ν Q) (o : Outcome ε) :
    Over i (s.close i tx o) := by
  intro tx' htx'
  rw [State.close_self] at htx'
  cases htx'

omit [DecidableEq R] in
theorem uncommitted_run (hf : tx.prog.Final) (hr : tx.prog.Returns (· = none))
    (hs : s.run program i tx = some s') :
    Over i s' ∨ s'.world.db = s.world.db ∧ Uncommitted i tx.req s' := by
  unfold State.run at hs
  dsimp only at hs
  cases hp : tx.prog with
  | pure next =>
    rw [hp] at hs hr
    cases hr
    cases hs
    exact .inl (over_close s i tx _)
  | raise e =>
    rw [hp] at hs
    cases hs
    exact .inl (over_close s i tx _)
  | select name ok k =>
    rw [hp] at hs hf hr
    dsimp only at hs
    split at hs
    · cases hs
      exact .inr ⟨rfl, _, State.setTx_self _ _ _, rfl, hf _, hr _⟩
    · cases hs
  | call f k =>
    rw [hp] at hs hf hr
    cases hs
    exact .inr ⟨rfl, _, State.setTx_self _ _ _, rfl, hf _, hr _⟩
  | exec name st k =>
    rw [hp] at hs hf hr
    dsimp only at hs
    split at hs
    · cases hs
      exact .inr ⟨rfl, _, State.setTx_self _ _ _, rfl, hf, hr⟩
    · split at hs
      · cases hs
        exact .inr ⟨rfl, _, State.setTx_self _ _ _, rfl, hf _ _ _, hr _ _ _⟩
      · cases hs
  | commit note k =>
    rw [hp] at hs hf hr
    obtain ⟨a, rfl⟩ := hf
    cases hr
    cases hs
    left
    intro tx' htx'
    rw [State.setTx_self] at htx'
    cases htx'
    rfl

theorem uncommitted_step {a : Label R Q} (h : Uncommitted i q s) (ha : ∀ q, a ≠ .begin i q)
    (hs : step program s a = some s') :
    Over i s' ∨ Unchanged program i s a ∧ Uncommitted i q s' := by
  obtain ⟨tx, htx, rfl, hf, hr⟩ := h
  by_cases hi : i = a.slot
  · subst hi
    have hdb (hdb : s'.world.db = s.world.db) : Unchanged program a.slot s a := by
      intro _ s₁ hs₁
      cases hs.symm.trans hs₁
      exact hdb
    cases a with
    | begin i q => exact absurd rfl (ha q)
    | run i =>
      obtain ⟨tx₀, htx₀, hs⟩ := Option.bind_eq_some_iff.mp hs
      cases htx.symm.trans htx₀
      exact (uncommitted_run hf hr hs).imp_right fun h => ⟨hdb h.1, h.2⟩
    | lock i r =>
      obtain ⟨tx₀, htx₀, hs⟩ := Option.bind_eq_some_iff.mp hs
      cases htx.symm.trans htx₀
      unfold State.lock at hs
      split at hs
      · obtain ⟨_, _, rfl⟩ := Option.map_eq_some_iff.mp hs
        exact .inr ⟨hdb rfl, _, State.setTx_self _ _ _, rfl, hf, hr⟩
      · cases hs
    | abort i =>
      obtain ⟨tx₀, _, rfl⟩ := Option.map_eq_some_iff.mp hs
      exact .inl (over_close s i tx₀ _)
  · refine .inr ⟨fun he => absurd he.symm hi, tx, ?_, rfl, hf, hr⟩
    rw [step_txs_of_ne hs hi, htx]

theorem uncommitted_exec (h : Uncommitted i q s) (hrun : ∀ a ∈ run, ∀ q, a ≠ .begin i q)
    (hs : exec (step program) s run = some s') :
    Over i s' ∨ Along (step program) (Unchanged program i) s run ∧ Uncommitted i q s' := by
  induction run generalizing s with
  | nil =>
    cases hs
    exact .inr ⟨trivial, h⟩
  | cons a run ih =>
    obtain ⟨s₁, hs₁, hs⟩ := exec_cons_some hs
    have hrest : ∀ b ∈ run, ∀ q, b ≠ .begin i q := fun b hb => hrun b (List.mem_cons_of_mem _ hb)
    rcases uncommitted_step h (hrun a List.mem_cons_self) hs₁ with hover | ⟨hsame, hun⟩
    · exact .inl (over_exec hover hrest hs)
    · exact (ih hun hrest hs).imp_right fun hrest => ⟨.cons hsame hs₁ hrest.1, hrest.2⟩

theorem uncommitted_begin (hf : (program q).Final) (hr : (program q).Returns (· = none))
    (hrun : ∀ a ∈ run, ∀ q, a ≠ .begin i q) (hs : exec (step program) s (.begin i q :: run) = some s') :
    Over i s' ∨ Along (step program) (Unchanged program i) s (.begin i q :: run) ∧
      Uncommitted i q s' := by
  obtain ⟨s₁, hs₁, hs⟩ := exec_cons_some hs
  have hfree : s₁ = s.setTx i (some (Tx.start program q)) := by
    simp only [step] at hs₁
    split at hs₁
    · cases hs₁
    · cases hs₁
      rfl
  subst hfree
  have hun : Uncommitted i q (s.setTx i (some (Tx.start program q))) :=
    ⟨_, State.setTx_self _ _ _, rfl, hf, hr⟩
  refine (uncommitted_exec hun hrun hs).imp_right fun h => ⟨.cons ?_ hs₁ h.1, h.2⟩
  intro _ s₂ hs₂
  cases hs₁.symm.trans hs₂
  rfl

end Final

end PuppyTalk.Txn
