import PuppyTalk.Run
import Mathlib

namespace PuppyTalk.Process

/-- A store that processes share. A choice settles what is open about a command, such as whether it
fails or what comes from outside, and a tick is what the store does by itself. -/
structure Machine where
  Store : Type
  Cmd : Type
  Ans : Cmd → Type
  Choice : Type
  Tick : Type
  perform : (c : Cmd) → Choice → Store → Ans c × Store
  tick : Tick → Store → Store

variable {M : Machine} {ι : Type}

/-- A program that ends on every path: a result, or a command and what follows its answer. -/
inductive Prog (M : Machine) (β : Type) where
  | done (b : β)
  | call (c : M.Cmd) (k : M.Ans c → Prog M β)

namespace Prog

def bind : Prog M α → (α → Prog M β) → Prog M β
  | done a, f => f a
  | call c k, f => call c fun a => (k a).bind f

instance : Monad (Prog M) where
  pure := done
  bind := bind

def cmd (c : M.Cmd) : Prog M (M.Ans c) := .call c .done

theorem bind_assoc (p : Prog M α) (f : α → Prog M β) (g : β → Prog M γ) :
    (p >>= f) >>= g = p >>= fun a => f a >>= g := by
  induction p with
  | done a => rfl
  | call c k ih => exact congrArg (Prog.call c) (funext ih)

def All (P : M.Cmd → Prop) : Prog M β → Prop
  | .done _ => True
  | .call c k => P c ∧ ∀ a, (k a).All P

def Costs (cost : M.Cmd → Nat) : Nat → Prog M β → Prop
  | _, .done _ => True
  | n, .call c k => cost c ≤ n ∧ ∀ a, (k a).Costs cost (n - cost c)

theorem Costs.mono {cost : M.Cmd → Nat} {p : Prog M β} (h : p.Costs cost m) (hn : m ≤ n) :
    p.Costs cost n := by
  induction p generalizing m n with
  | done b => trivial
  | call c k ih => exact ⟨Nat.le_trans h.1 hn, fun a => ih a (h.2 a) (by omega)⟩

theorem Costs.cmd {cost : M.Cmd → Nat} {c : M.Cmd} {f : M.Ans c → Prog M β}
    (h : ∀ a, (f a).Costs cost n) : (Prog.cmd c >>= f).Costs cost (cost c + n) := by
  refine ⟨Nat.le_add_right _ _, fun a => ?_⟩
  rw [Nat.add_sub_cancel_left]
  exact h a

theorem Costs.all {cost : M.Cmd → Nat} {p : Prog M β} (h : p.Costs cost 0) :
    p.All fun c => cost c = 0 := by
  induction p with
  | done b => trivial
  | call c k ih =>
    have hc : cost c = 0 := Nat.le_zero.mp h.1
    exact ⟨hc, fun a => ih a (by simpa [hc] using h.2 a)⟩

end Prog

structure Event (ι : Type) (M : Machine) where
  who : ι
  cmd : M.Cmd
  ans : M.Ans cmd

structure World (ι : Type) (M : Machine) where
  store : M.Store
  log : List (Event ι M)

def World.answer (w : World ι M) (c : M.Cmd) (ch : M.Choice) : M.Ans c := (M.perform c ch w.store).1

def World.after (w : World ι M) (i : ι) (c : M.Cmd) (ch : M.Choice) : World ι M where
  store := (M.perform c ch w.store).2
  log := w.log ++ [⟨i, c, w.answer c ch⟩]

def World.tick (w : World ι M) (e : M.Tick) : World ι M := { w with store := M.tick e w.store }

structure State (ι : Type) (M : Machine) (β : Type) where
  world : World ι M
  procs : ι → Prog M β

inductive Label (ι : Type) (M : Machine) where
  | run (i : ι) (ch : M.Choice)
  | tick (e : M.Tick)

def step [DecidableEq ι] (s : State ι M β) : Label ι M → Option (State ι M β)
  | .run i ch =>
    match s.procs i with
    | .done _ => none
    | .call c k => some
      { world := s.world.after i c ch
        procs := Function.update s.procs i (k (s.world.answer c ch)) }
  | .tick e => some { s with world := s.world.tick e }

section Steps
variable [DecidableEq ι] {s t : State ι M β}

theorem step_run (h : step s (.run i ch) = some t) : ∃ c k, s.procs i = .call c k ∧
    t = { world := s.world.after i c ch
          procs := Function.update s.procs i (k (s.world.answer c ch)) } := by
  unfold step at h
  cases hp : s.procs i with
  | done b => simp [hp] at h
  | call c k =>
    simp only [hp, Option.some.injEq] at h
    exact ⟨c, k, rfl, h.symm⟩

theorem step_isSome (s : State ι M β) (i : ι) (ch : M.Choice) :
    (∃ b, s.procs i = .done b) ∨ (step s (.run i ch)).isSome := by
  cases hp : s.procs i with
  | done b => exact .inl ⟨b, rfl⟩
  | call c k =>
    right
    simp only [step, hp, Option.isSome_some]

theorem procs_step (h : step s a = some t) (i : ι) :
    t.procs i = s.procs i ∨ ∃ c k x, s.procs i = .call c k ∧ t.procs i = k x := by
  cases a with
  | tick e =>
    cases h
    exact .inl rfl
  | run j ch =>
    obtain ⟨c, k, hp, rfl⟩ := step_run h
    by_cases hij : i = j
    · subst hij
      exact .inr ⟨c, k, _, hp, Function.update_self ..⟩
    · exact .inl (Function.update_of_ne hij ..)

theorem all_step {P : ι → M.Cmd → Prop} (h : ∀ i, (s.procs i).All (P i)) (hs : step s a = some t)
    (i : ι) : (t.procs i).All (P i) := by
  rcases procs_step hs i with he | ⟨c, k, x, hp, he⟩
  · rw [he]
    exact h i
  · have hi := h i
    rw [hp] at hi
    rw [he]
    exact hi.2 x

theorem all_run {P : ι → M.Cmd → Prop} {as : List (Label ι M)} (h0 : ∀ i, (s.procs i).All (P i))
    (h : exec step s as = some t) : ∀ i, (t.procs i).All (P i) :=
  exec_invariant' (I := fun s => ∀ i, (s.procs i).All (P i)) (fun hi hs => all_step hi hs) h0 h

end Steps

section Cost

def spent [DecidableEq ι] (cost : M.Cmd → Nat) (i : ι) (log : List (Event ι M)) : Nat :=
  ((log.filter fun e => e.who = i).map fun e => cost e.cmd).sum

variable [DecidableEq ι] {s t : State ι M β} {cost : M.Cmd → Nat}

theorem spent_append (cost : M.Cmd → Nat) (i : ι) (log : List (Event ι M)) (e : Event ι M) :
    spent cost i (log ++ [e]) = spent cost i log + if e.who = i then cost e.cmd else 0 := by
  unfold spent
  by_cases he : e.who = i <;> simp [he]

def OnBudget (cost : M.Cmd → Nat) (n : Nat) (i : ι) (s : State ι M β) : Prop :=
  spent cost i s.world.log ≤ n ∧ (s.procs i).Costs cost (n - spent cost i s.world.log)

theorem OnBudget.step (h : OnBudget cost n i s) (hs : step s a = some t) : OnBudget cost n i t := by
  cases a with
  | tick e =>
    cases hs
    exact h
  | run j ch =>
    obtain ⟨c, k, hp, rfl⟩ := step_run hs
    unfold OnBudget
    simp only [World.after, spent_append]
    by_cases hij : j = i
    · subst hij
      obtain ⟨hle, hcost⟩ := h
      rw [hp] at hcost
      rw [if_pos rfl, Function.update_self]
      refine ⟨by have := hcost.1; omega, ?_⟩
      rw [← Nat.sub_sub]
      exact hcost.2 _
    · rw [if_neg hij, Function.update_of_ne (Ne.symm hij), Nat.add_zero]
      exact h

theorem spent_le {as : List (Label ι M)} (hlog : s.world.log = []) (hp : (s.procs i).Costs cost n)
    (h : exec Process.step s as = some t) : spent cost i t.world.log ≤ n := by
  refine (exec_invariant' (I := OnBudget cost n i) (fun hi hs => hi.step hs) ?_ h).1
  unfold OnBudget
  rw [hlog]
  exact ⟨Nat.zero_le n, hp⟩

end Cost

section History

structure Act (M : Machine) where
  cmd : M.Cmd
  ans : M.Ans cmd

def own [DecidableEq ι] (i : ι) (log : List (Event ι M)) : List (Act M) :=
  (log.filter fun e => e.who = i).map fun e => ⟨e.cmd, e.ans⟩

/-- What a program may do next and how it may end, by the stage that its history has come to. -/
structure Protocol (M : Machine) (β : Type) where
  Stage : Type
  start : Stage
  follow : Stage → (c : M.Cmd) → M.Ans c → Stage
  allows : Stage → M.Cmd → Prop
  ends : Stage → β → Prop

def Protocol.stage (P : Protocol M β) (l : List (Act M)) : P.Stage :=
  l.foldl (fun st a => P.follow st a.cmd a.ans) P.start

theorem Protocol.stage_append (P : Protocol M β) (l : List (Act M)) (a : Act M) :
    P.stage (l ++ [a]) = P.follow (P.stage l) a.cmd a.ans := by
  simp only [Protocol.stage, List.foldl_append, List.foldl_cons, List.foldl_nil]

def Prog.Follows (P : Protocol M β) : P.Stage → Prog M β → Prop
  | st, .done b => P.ends st b
  | st, .call c k => P.allows st c ∧ ∀ a, (k a).Follows P (P.follow st c a)

variable [DecidableEq ι] {s t : State ι M β}

theorem own_append (i : ι) (log : List (Event ι M)) (e : Event ι M) :
    own i (log ++ [e]) = own i log ++ if e.who = i then [⟨e.cmd, e.ans⟩] else [] := by
  unfold own
  by_cases he : e.who = i <;> simp [he]

theorem mem_own {e : Event ι M} {log : List (Event ι M)} (h : e ∈ log) :
    (⟨e.cmd, e.ans⟩ : Act M) ∈ own e.who log :=
  List.mem_map_of_mem (f := fun e : Event ι M => (⟨e.cmd, e.ans⟩ : Act M))
    (List.mem_filter.mpr ⟨h, decide_eq_true rfl⟩)

theorem exists_of_mem_own {a : Act M} {log : List (Event ι M)} (h : a ∈ own i log) :
    (⟨i, a.cmd, a.ans⟩ : Event ι M) ∈ log := by
  obtain ⟨e, hmem, rfl⟩ := List.mem_map.mp h
  obtain ⟨he, hi⟩ := List.mem_filter.mp hmem
  obtain rfl : e.who = i := of_decide_eq_true hi
  exact he

def Protocol.At (P : Protocol M β) (R : List (Act M) → P.Stage → Prop) (i : ι) (s : State ι M β) :
    Prop :=
  R (own i s.world.log) (P.stage (own i s.world.log)) ∧
    (s.procs i).Follows P (P.stage (own i s.world.log))

variable {P : Protocol M β} {R : List (Act M) → P.Stage → Prop}

theorem Protocol.At.step
    (hR : ∀ l st c a, R l st → P.allows st c → R (l ++ [⟨c, a⟩]) (P.follow st c a))
    (h : P.At R i s) (hs : step s a = some t) : P.At R i t := by
  cases a with
  | tick e =>
    cases hs
    exact h
  | run j ch =>
    obtain ⟨c, k, hp, rfl⟩ := step_run hs
    unfold Protocol.At
    simp only [World.after, own_append]
    by_cases hij : j = i
    · subst hij
      obtain ⟨hl, hf⟩ := h
      rw [hp] at hf
      rw [if_pos rfl, Function.update_self, P.stage_append]
      exact ⟨hR _ _ c _ hl hf.1, hf.2 _⟩
    · rw [if_neg hij, List.append_nil, Function.update_of_ne (Ne.symm hij)]
      exact h

end History

/-- An invariant of the world, and what each process relies on between two of its commands. -/
structure Logic (ι : Type) (M : Machine) where
  inv : World ι M → Prop
  rely : ι → World ι M → World ι M → Prop
  refl : ∀ i w, rely i w w
  trans : ∀ i w w' w'', rely i w w' → rely i w' w'' → rely i w w''
  tick : ∀ w e, inv w → inv (w.tick e) ∧ ∀ i, rely i w (w.tick e)

namespace Logic
variable {L : Logic ι M}

/-- A command of `i` keeps the invariant, and does to others what they rely on. -/
def Keeps (L : Logic ι M) (i : ι) (w w' : World ι M) : Prop :=
  L.inv w' ∧ ∀ j, j ≠ i → L.rely j w w'

/-- From `w` on, whatever the others do, the commands of the program are kept to the logic and its
result satisfies `post`. -/
def Safe (L : Logic ι M) (i : ι) (post : β → World ι M → Prop) : Prog M β → World ι M → Prop
  | .done b, w => ∀ w', L.rely i w w' → L.inv w' → post b w'
  | .call c k, w => ∀ w' ch, L.rely i w w' → L.inv w' →
      L.Keeps i w' (w'.after i c ch) ∧ L.Safe i post (k (w'.answer c ch)) (w'.after i c ch)

theorem Safe.of_rely {p : Prog M β} (h : L.Safe i post p w) (hr : L.rely i w w') :
    L.Safe i post p w' := by
  cases p with
  | done b => exact fun w'' hr' hi => h w'' (L.trans _ _ _ _ hr hr') hi
  | call c k => exact fun w'' ch hr' hi => h w'' ch (L.trans _ _ _ _ hr hr') hi

theorem Safe.mono {p : Prog M β} (h : L.Safe i post p w)
    (hpost : ∀ b w, L.inv w → post b w → post' b w) : L.Safe i post' p w := by
  induction p generalizing w with
  | done b => exact fun w' hr hi => hpost b w' hi (h w' hr hi)
  | call c k ih =>
    intro w' ch hr hi
    obtain ⟨hk, hs⟩ := h w' ch hr hi
    exact ⟨hk, ih _ hs⟩

theorem Safe.bind {p : Prog M α} {f : α → Prog M β}
    (h : L.Safe i (fun a w => L.Safe i post (f a) w) p w) : L.Safe i post (p >>= f) w := by
  induction p generalizing w with
  | done a =>
    change L.Safe i post (f a) w
    cases hf : f a with
    | done b =>
      intro w' hr hi
      have hs : L.Safe i post (f a) w' := h w' hr hi
      rw [hf] at hs
      exact hs w' (L.refl i w') hi
    | call c k =>
      intro w' ch hr hi
      have hs : L.Safe i post (f a) w' := h w' hr hi
      rw [hf] at hs
      exact hs w' ch (L.refl i w') hi
  | call c k ih =>
    intro w' ch hr hi
    obtain ⟨hk, hs⟩ := h w' ch hr hi
    exact ⟨hk, ih _ hs⟩

theorem Safe.of_all {P : M.Cmd → Prop} {p : Prog M β} (hp : p.All P)
    (hP : ∀ c ch w, P c → L.inv w → L.Keeps i w (w.after i c ch)) (w : World ι M) :
    L.Safe i (fun _ _ => True) p w := by
  induction p generalizing w with
  | done b => exact fun _ _ _ => trivial
  | call c k ih => exact fun w' ch _ hi => ⟨hP c ch w' hp.1 hi, ih _ (hp.2 _) _⟩

def Good (L : Logic ι M) (post : ι → β → World ι M → Prop) (s : State ι M β) : Prop :=
  L.inv s.world ∧ ∀ i, L.Safe i (post i) (s.procs i) s.world

theorem Good.step [DecidableEq ι] {s t : State ι M β} (h : L.Good post s) (hs : step s a = some t) :
    L.Good post t := by
  obtain ⟨hinv, hsafe⟩ := h
  cases a with
  | tick e =>
    cases hs
    obtain ⟨hi, hr⟩ := L.tick s.world e hinv
    exact ⟨hi, fun i => (hsafe i).of_rely (hr i)⟩
  | run i ch =>
    obtain ⟨c, k, hp, rfl⟩ := step_run hs
    have hi := hsafe i
    rw [hp] at hi
    obtain ⟨hk, hsi⟩ := hi s.world ch (L.refl i s.world) hinv
    refine ⟨hk.1, fun j => ?_⟩
    by_cases hj : j = i
    · subst hj
      simpa only [Function.update_self] using hsi
    · simpa only [Function.update_of_ne hj] using (hsafe j).of_rely (hk.2 j hj)

/-- In every run from a good state, the invariant holds and every result is as promised. -/
theorem Good.run [DecidableEq ι] {s t : State ι M β} (h : L.Good post s) {as : List (Label ι M)}
    (hs : exec Process.step s as = some t) :
    L.inv t.world ∧ ∀ i b, t.procs i = .done b → post i b t.world := by
  have ht : L.Good post t := exec_invariant' (I := L.Good post) (fun hg ha => hg.step ha) h hs
  refine ⟨ht.1, fun i b hb => ?_⟩
  have hi := ht.2 i
  rw [hb] at hi
  exact hi t.world (L.refl i t.world) ht.1

end Logic

end PuppyTalk.Process
