import PuppyTalk.KeyValue
import PuppyTalk.Process

namespace PuppyTalk.JsonCache

open Process

/-- A `TypeAdapter` for values of `V`, some of which may be Python's `None`. -/
structure Adapter (V : Type) where
  dumpJson : V → String
  validateJson : String → Option V
  isNone : V → Bool
  round_trip : ∀ v, validateJson (dumpJson v) = some v

/-- `_decode`: a missing, empty or invalid text is a miss, and so is a stored `None`. -/
def decode (A : Adapter V) (raw : Option String) : Option V :=
  raw.bind fun text => if text = "" then none else (A.validateJson text).filter fun v => !A.isNone v

/-- The two keys of the function; the token of a call is the call itself. -/
structure Store (ι : Type) where
  value : Option String
  lock : Option ι

inductive Cmd (ι : Type) where
  | get
  | setNx (token : ι)
  | sleep
  | loader
  | setEx (text : String)
  | release (token : ι)

def Cmd.Ans (V E : Type) : Cmd ι → Type
  | .get => Option (Option String)
  | .setNx _ => Option Bool
  | .sleep => Unit
  | .loader => Except E V
  | .setEx _ => Option Unit
  | .release _ => Option Unit

structure Choice (V E : Type) where
  reply : Reply
  loaded : Except E V

inductive Tick where
  | expireValue
  | expireLock

def command (r : Reply) (a : α) (f : Store ι → Store ι) (s : Store ι) : Option α × Store ι :=
  (if r.failed then none else some a, if r.took then f s else s)

section Machine
variable {ι V E : Type} [DecidableEq ι]

def perform : (c : Cmd ι) → Choice V E → Store ι → c.Ans V E × Store ι
  | .get, ch, s => command ch.reply s.value id s
  | .setNx token, ch, s =>
    command ch.reply s.lock.isNone
      (fun s => { s with lock := if s.lock.isNone then some token else s.lock }) s
  | .sleep, _, s => ((), s)
  | .loader, ch, s => (ch.loaded, s)
  | .setEx text, ch, s => command ch.reply () (fun s => { s with value := some text }) s
  | .release token, ch, s =>
    command ch.reply ()
      (fun s => { s with lock := if s.lock = some token then none else s.lock }) s

variable (ι V E) in
def machine : Machine where
  Store := Store ι
  Cmd := Cmd ι
  Ans := Cmd.Ans V E
  Choice := Choice V E
  Tick := Tick
  perform := perform
  tick
    | .expireValue, s => { s with value := none }
    | .expireLock, s => { s with lock := none }

/-- `+` of two doubles, counted in units of 2⁻⁵⁵: the sum is rounded to 53 binary digits, ties to
even. -/
def addDouble (a b : Nat) : Nat :=
  let unit := 2 ^ ((a + b).log2 - 52)
  let q := (a + b) / unit
  let r := (a + b) % unit
  if 2 * r < unit ∨ (2 * r = unit ∧ q % 2 = 0) then q * unit else (q + 1) * unit

def waitMaxSeconds : Nat := 2 * 2 ^ 55

/-- `_WAIT_INTERVAL_SECONDS`: the double next to 0.1. -/
def waitIntervalSeconds : Nat := 3602879701896397

theorem lt_addDouble {a : Nat} (h : a < waitMaxSeconds) : a < addDouble a waitIntervalSeconds := by
  have hlog : (a + waitIntervalSeconds).log2 < 57 := by
    refine (Nat.log2_lt (by simp [waitIntervalSeconds])).mpr ?_
    simp only [waitMaxSeconds, waitIntervalSeconds] at *
    omega
  have hunit : 2 ^ ((a + waitIntervalSeconds).log2 - 52) ≤ 2 ^ 4 :=
    Nat.pow_le_pow_right (by decide) (by omega)
  have hpos : 0 < 2 ^ ((a + waitIntervalSeconds).log2 - 52) := Nat.two_pow_pos _
  unfold addDouble
  generalize 2 ^ ((a + waitIntervalSeconds).log2 - 52) = unit at *
  have hdiv := Nat.div_add_mod (a + waitIntervalSeconds) unit
  have hmod := Nat.mod_lt (a + waitIntervalSeconds) hpos
  have hle : a < (a + waitIntervalSeconds) / unit * unit := by
    rw [Nat.mul_comm]
    simp only [waitIntervalSeconds] at *
    omega
  dsimp only
  split
  · exact hle
  · rw [Nat.add_mul]
    omega

section Commands

def get : Prog (machine ι V E) (Option (Option String)) := .cmd (M := machine ι V E) .get

def sleep : Prog (machine ι V E) Unit := .cmd (M := machine ι V E) .sleep

def loader : Prog (machine ι V E) (Except E V) := .cmd (M := machine ι V E) .loader

def setEx (text : String) : Prog (machine ι V E) (Option Unit) :=
  .cmd (M := machine ι V E) (.setEx text)

/-- `try_acquire_lock`; what Redis raises is passed on. -/
def tryAcquireLock (token : ι) : Prog (machine ι V E) (Option (Option ι)) := do
  match ← .cmd (M := machine ι V E) (.setNx token) with
  | none => pure none
  | some acquired => pure (some (if acquired then some token else none))

/-- `release_lock`; what Redis raises is only logged. -/
def releaseLock (token : ι) : Prog (machine ι V E) Unit := do
  let _ ← .cmd (M := machine ι V E) (.release token)
  pure ()

end Commands

def waitLoop (A : Adapter V) (waited : Nat) : Prog (machine ι V E) (Except E V) :=
  if _ : waited < waitMaxSeconds then do
    sleep
    match ← get with
    | none => loader
    | some raw =>
      match decode A raw with
      | some v => pure (.ok v)
      | none => waitLoop A (addDouble waited waitIntervalSeconds)
  else loader
termination_by waitMaxSeconds - waited
decreasing_by
  have := lt_addDouble (by assumption)
  omega

/-- The part of `get_or_compute_json` that holds the lock. -/
def compute (A : Adapter V) (lockValue : ι) : Prog (machine ι V E) (Except E V) := do
  match ← loader with
  | .ok v =>
    let _ ← setEx (A.dumpJson v)
    releaseLock lockValue
    pure (.ok v)
  | .error e =>
    releaseLock lockValue
    pure (.error e)

/-- `get_or_compute_json`; `token` is what `new_lock_token` returns. -/
def getOrComputeJson (A : Adapter V) (redis : Bool) (token : ι) :
    Prog (machine ι V E) (Except E V) := do
  if !redis then loader
  else
    match ← get with
    | none => loader
    | some raw =>
      match decode A raw with
      | some v => pure (.ok v)
      | none =>
        match ← tryAcquireLock token with
        | none => loader
        | some none => waitLoop A 0
        | some (some lockValue) => compute A lockValue

section Genuine
variable {A : Adapter V}

def Loaded (v : V) (w : World ι (machine ι V E)) : Prop :=
  ∃ j, (⟨j, .loader, .ok v⟩ : Event ι (machine ι V E)) ∈ w.log

/-- What a call may end with: a loaded value, or what its own loader raised. -/
def Genuine (i : ι) : Except E V → World ι (machine ι V E) → Prop
  | .ok v, w => Loaded v w
  | .error e, w => (⟨i, .loader, .error e⟩ : Event ι (machine ι V E)) ∈ w.log

def logic (ι E : Type) [DecidableEq ι] (A : Adapter V) : Logic ι (machine ι V E) where
  inv w := ∀ text, w.store.value = some text → ∃ v, text = A.dumpJson v ∧ Loaded v w
  rely _ w w' := w.log ⊆ w'.log
  refl _ w := List.Subset.refl w.log
  trans _ _ _ _ h h' := List.Subset.trans h h'
  tick w e hi := by
    refine ⟨?_, fun _ => List.Subset.refl w.log⟩
    cases e with
    | expireValue => exact nofun
    | expireLock => exact hi

theorem Loaded.mono {w w' : World ι (machine ι V E)} (h : Loaded v w) (hl : w.log ⊆ w'.log) :
    Loaded v w' :=
  h.imp fun _ hj => hl hj

theorem Genuine.mono {w w' : World ι (machine ι V E)} {r : Except E V} (h : Genuine i r w)
    (hl : w.log ⊆ w'.log) : Genuine i r w' := by
  cases r with
  | ok v => exact Loaded.mono h hl
  | error e => exact hl h

theorem log_after (w : World ι (machine ι V E)) (i : ι) (c : Cmd ι) (ch : Choice V E) :
    w.log ⊆ (w.after i c ch).log := List.subset_append_left _ _

theorem value_after (w : World ι (machine ι V E)) (i : ι) (c : Cmd ι) (ch : Choice V E) :
    (w.after i c ch).store.value = w.store.value ∨
      ∃ text, c = .setEx text ∧ (w.after i c ch).store.value = some text := by
  cases c with
  | setEx text =>
    cases h : ch.reply.took with
    | true => exact .inr ⟨text, rfl, by simp [World.after, machine, perform, command, h]⟩
    | false => exact .inl (by simp [World.after, machine, perform, command, h])
  | get => exact .inl (by simp [World.after, machine, perform, command])
  | sleep => exact .inl rfl
  | loader => exact .inl rfl
  | setNx token =>
    left
    cases h : ch.reply.took <;> simp [World.after, machine, perform, command, h]
  | release token =>
    left
    cases h : ch.reply.took <;> simp [World.after, machine, perform, command, h]

theorem keeps_after {w : World ι (machine ι V E)} {c : Cmd ι} (ch : Choice V E)
    (hi : (logic ι E A).inv w)
    (hc : ∀ text, c = .setEx text → ∃ v, text = A.dumpJson v ∧ Loaded v w) :
    (logic ι E A).Keeps i w (w.after i c ch) := by
  refine ⟨fun text htext => ?_, fun j _ => log_after w i c ch⟩
  rcases value_after w i c ch with he | ⟨_, hset, he⟩
  · obtain ⟨v, hv, hl⟩ := hi text (he ▸ htext)
    exact ⟨v, hv, hl.mono (log_after w i c ch)⟩
  · rw [he] at htext
    cases htext
    obtain ⟨v, hv, hl⟩ := hc text hset
    exact ⟨v, hv, hl.mono (log_after w i c ch)⟩

theorem safe_cmd {c : Cmd ι} {f : c.Ans V E → Prog (machine ι V E) (Except E V)}
    {w : World ι (machine ι V E)} {post : Except E V → World ι (machine ι V E) → Prop}
    (hc : ∀ text, c = .setEx text → ∃ v, text = A.dumpJson v ∧ Loaded v w)
    (h : ∀ w' ch, w.log ⊆ w'.log → (logic ι E A).inv w' →
      (logic ι E A).Safe i post (f (w'.answer c ch)) (w'.after i c ch)) :
    (logic ι E A).Safe i post (.cmd (M := machine ι V E) c >>= f) w := by
  intro w' ch hr hi
  refine ⟨keeps_after ch hi fun text ht => ?_, h w' ch hr hi⟩
  obtain ⟨v, hv, hl⟩ := hc text ht
  exact ⟨v, hv, hl.mono hr⟩

theorem safe_done {r : Except E V} {w : World ι (machine ι V E)} (h : Genuine i r w) :
    (logic ι E A).Safe i (Genuine i) (.done r) w :=
  fun _ hr _ => h.mono hr

theorem genuine_loader (w : World ι (machine ι V E)) (ch : Choice V E) :
    Genuine i ch.loaded (w.after i .loader ch) := by
  have hmem : (⟨i, .loader, ch.loaded⟩ : Event ι (machine ι V E)) ∈ (w.after i .loader ch).log :=
    List.mem_append_right _ (List.mem_singleton.mpr rfl)
  generalize ch.loaded = r at hmem
  cases r with
  | ok v => exact ⟨i, hmem⟩
  | error e => exact hmem

theorem safe_loader (i : ι) (w : World ι (machine ι V E)) :
    (logic ι E A).Safe i (Genuine i) loader w := by
  change (logic ι E A).Safe i (Genuine i) (.cmd (M := machine ι V E) .loader >>= .done) w
  exact safe_cmd (fun _ => nofun) fun w' ch _ _ => safe_done (genuine_loader w' ch)

theorem safe_get {f : Option (Option String) → Prog (machine ι V E) (Except E V)}
    {w : World ι (machine ι V E)} {post : Except E V → World ι (machine ι V E) → Prop}
    (h : ∀ w' r, (∀ raw v, r = some raw → decode A raw = some v → Loaded v w') →
      (logic ι E A).Safe i post (f r) w') :
    (logic ι E A).Safe i post (get >>= f) w := by
  refine safe_cmd (fun _ => nofun) fun w' ch _ hi => h _ _ fun raw v hraw hdec => ?_
  have hval : w'.store.value = raw := by
    cases hf : ch.reply.failed with
    | true => simp [World.answer, machine, perform, command, hf] at hraw
    | false => simpa [World.answer, machine, perform, command, hf] using hraw
  subst hval
  cases hv : w'.store.value with
  | none => simp [decode, hv] at hdec
  | some text =>
    obtain ⟨v', ht, hl⟩ := hi text hv
    simp only [decode, hv, Option.bind_some, ht, A.round_trip] at hdec
    split at hdec
    · cases hdec
    · cases (Option.filter_eq_some_iff.mp hdec).1
      exact hl.mono (log_after ..)

theorem safe_waitLoop (i : ι) (waited : Nat) (w : World ι (machine ι V E)) :
    (logic ι E A).Safe i (Genuine i) (waitLoop A waited) w := by
  induction waited using waitLoop.induct generalizing w with
  | case1 waited hlt ih =>
    rw [waitLoop, dif_pos hlt]
    refine safe_cmd (fun _ => nofun) fun _ _ _ _ => safe_get fun w' r hr => ?_
    cases r with
    | none => exact safe_loader i w'
    | some raw =>
      cases hd : decode A raw with
      | some v =>
        simp only [hd]
        exact safe_done (hr raw v rfl hd)
      | none =>
        simp only [hd]
        exact ih w'
  | case2 waited hge =>
    rw [waitLoop, dif_neg hge]
    exact safe_loader i w

theorem safe_tryAcquireLock {f : Option (Option ι) → Prog (machine ι V E) (Except E V)}
    {w : World ι (machine ι V E)} {post : Except E V → World ι (machine ι V E) → Prop} (token : ι)
    (h : ∀ w' r, (logic ι E A).Safe i post (f r) w') :
    (logic ι E A).Safe i post (tryAcquireLock token >>= f) w := by
  refine Logic.Safe.bind ?_
  intro w' ch hr hi
  refine ⟨keeps_after ch hi fun _ => nofun, ?_⟩
  change (logic ι E A).Safe i _ (match w'.answer (.setNx token) ch with
    | none => Prog.done none
    | some acquired => Prog.done (some (if acquired then some token else none))) _
  cases w'.answer (.setNx token) ch with
  | none => exact fun w'' _ _ => h w'' none
  | some acquired => exact fun w'' _ _ => h w'' _

theorem safe_releaseLock {f : Unit → Prog (machine ι V E) (Except E V)}
    {w : World ι (machine ι V E)} {post : Except E V → World ι (machine ι V E) → Prop} (token : ι)
    (h : ∀ w', w.log ⊆ w'.log → (logic ι E A).Safe i post (f ()) w') :
    (logic ι E A).Safe i post (releaseLock token >>= f) w :=
  safe_cmd (c := .release token) (f := fun _ => f ()) (fun _ => nofun)
    fun _ _ hr _ => h _ (List.Subset.trans hr (log_after ..))

theorem safe_compute (i token : ι) (w : World ι (machine ι V E)) :
    (logic ι E A).Safe i (Genuine i) (compute A token) w := by
  refine safe_cmd (fun _ => nofun) fun w' ch _ _ => ?_
  have hg := genuine_loader (i := i) w' ch
  change (logic ι E A).Safe i (Genuine i) (match ch.loaded with | .ok v => _ | .error e => _) _
  generalize ch.loaded = r at hg
  cases r with
  | ok v =>
    refine safe_cmd (c := .setEx (A.dumpJson v)) (fun text ht => ?_) fun w'' ch' hr _ => ?_
    · cases ht
      exact ⟨v, rfl, hg⟩
    · exact safe_releaseLock token fun w₃ hr' =>
        safe_done (hg.mono (List.Subset.trans hr (List.Subset.trans (log_after ..) hr')))
  | error e => exact safe_releaseLock token fun w₂ hr => safe_done (hg.mono hr)

theorem safe_getOrComputeJson (i token : ι) (redis : Bool) (w : World ι (machine ι V E)) :
    (logic ι E A).Safe i (Genuine i) (getOrComputeJson A redis token) w := by
  cases redis with
  | false => exact safe_loader i w
  | true =>
    refine safe_get fun w' r hr => ?_
    cases r with
    | none => exact safe_loader i w'
    | some raw =>
      cases hd : decode A raw with
      | some v =>
        simp only [hd]
        exact safe_done (hr raw v rfl hd)
      | none =>
        simp only [hd]
        refine safe_tryAcquireLock token fun w'' r => ?_
        match r with
        | none => exact safe_loader i w''
        | some none => exact safe_waitLoop i 0 w''
        | some (some lockValue) => exact safe_compute i lockValue w''

end Genuine

section Costs
variable {cost : Cmd ι → Nat} {A : Adapter V}

theorem costs_loader (n : Nat) :
    (loader : Prog (machine ι V E) (Except E V)).Costs cost (n + cost .loader) :=
  ⟨Nat.le_add_left _ _, fun _ => trivial⟩

theorem costs_waitLoop {n waited : Nat}
    (h : waitMaxSeconds ≤ (fun w => addDouble w waitIntervalSeconds)^[n] waited) :
    (waitLoop A waited : Prog (machine ι V E) (Except E V)).Costs cost
      (n * (cost .sleep + cost .get) + cost .loader) := by
  induction n generalizing waited with
  | zero =>
    rw [Function.iterate_zero, id_eq] at h
    have hge : ¬ waited < waitMaxSeconds := not_lt.mpr h
    rw [waitLoop, dif_neg hge]
    exact costs_loader _
  | succ n ih =>
    rw [Function.iterate_succ_apply] at h
    rw [waitLoop]
    split
    · have hn : (n + 1) * (cost .sleep + cost .get) + cost .loader =
          cost .sleep + (cost .get + (n * (cost .sleep + cost .get) + cost .loader)) := by
        rw [Nat.succ_mul]
        omega
      rw [hn]
      refine Prog.Costs.cmd (M := machine ι V E) (c := .sleep) fun _ => ?_
      refine Prog.Costs.cmd (M := machine ι V E) (c := .get) fun r => ?_
      cases r with
      | none => exact costs_loader _
      | some raw =>
        cases hd : decode A raw with
        | some v =>
          simp only [hd]
          trivial
        | none =>
          simp only [hd]
          exact ih h
    · refine (costs_loader 0).mono ?_
      omega

theorem costs_tryAcquireLock {f : Option (Option ι) → Prog (machine ι V E) (Except E V)} {n : Nat}
    (token : ι) (h : ∀ r, (∀ held, r = some (some held) → held = token) → (f r).Costs cost n) :
    (tryAcquireLock token >>= f).Costs cost (cost (.setNx token) + n) := by
  refine Prog.Costs.cmd (M := machine ι V E) (c := .setNx token) (f := fun r => (match r with
    | none => Prog.done none
    | some acquired => Prog.done (some (if acquired then some token else none))) >>= f) fun r => ?_
  cases r with
  | none => exact h none nofun
  | some acquired =>
    refine h _ fun held hh => ?_
    cases acquired with
    | false => cases hh
    | true => cases hh; rfl

theorem costs_releaseLock {f : Unit → Prog (machine ι V E) (Except E V)} {n : Nat} (token : ι)
    (h : (f ()).Costs cost n) :
    (releaseLock token >>= f).Costs cost (cost (.release token) + n) :=
  Prog.Costs.cmd (M := machine ι V E) (c := .release token) fun _ => h

theorem costs_compute (token : ι) {write : Nat} (hw : ∀ text, cost (.setEx text) ≤ write) :
    (compute A token : Prog (machine ι V E) (Except E V)).Costs cost
      (cost .loader + (write + cost (.release token))) := by
  refine Prog.Costs.cmd (M := machine ι V E) (c := .loader) fun r => ?_
  cases r with
  | ok v =>
    refine Prog.Costs.mono (Prog.Costs.cmd (M := machine ι V E) (c := .setEx (A.dumpJson v))
      (n := cost (.release token)) fun _ => costs_releaseLock token (n := 0) trivial)
      (Nat.add_le_add_right (hw _) _)
  | error e =>
    exact Prog.Costs.mono (costs_releaseLock token (n := 0) trivial) (Nat.le_add_left _ _)

theorem costs_getOrComputeJson (A : Adapter V) (redis : Bool) (token : ι) (cost : Cmd ι → Nat)
    (write : Nat) (hw : ∀ text, cost (.setEx text) ≤ write) :
    (getOrComputeJson A redis token : Prog (machine ι V E) (Except E V)).Costs cost
      (cost .get + (cost (.setNx token) + (20 * (cost .sleep + cost .get) +
        (cost .loader + (write + cost (.release token)))))) := by
  have hload {n : Nat} (hn : cost .loader ≤ n) :
      (loader : Prog (machine ι V E) (Except E V)).Costs cost n :=
    Prog.Costs.mono (costs_loader 0) (by omega)
  cases redis with
  | false => exact hload (by omega)
  | true =>
    refine Prog.Costs.cmd (M := machine ι V E) (c := .get) fun r => ?_
    cases r with
    | none => exact hload (by omega)
    | some raw =>
      cases hd : decode A raw with
      | some v =>
        simp only [hd]
        trivial
      | none =>
        simp only [hd]
        refine costs_tryAcquireLock token fun r hr => ?_
        match r with
        | none => exact hload (by omega)
        | some none =>
          have hwait : waitMaxSeconds ≤ (fun w => addDouble w waitIntervalSeconds)^[20] 0 := by
            decide +kernel
          exact Prog.Costs.mono (costs_waitLoop hwait) (by omega)
        | some (some lockValue) =>
          rw [hr lockValue rfl]
          exact Prog.Costs.mono (costs_compute token hw) (by omega)

end Costs

def polls : Cmd ι → Nat
  | .sleep => 1
  | _ => 0

def loads : Cmd ι → Nat
  | .loader => 1
  | _ => 0

def foreign (i : ι) : Cmd ι → Nat
  | .setNx token => if token = i then 0 else 1
  | .release token => if token = i then 0 else 1
  | _ => 0

theorem lock_after {w : World ι (machine ι V E)} {c : Cmd ι} (ch : Choice V E)
    (hc : foreign i c = 0) (hl : w.store.lock = some j) (hj : j ≠ i) :
    (w.after i c ch).store.lock = some j := by
  cases c with
  | get => simpa [World.after, machine, perform, command] using hl
  | sleep => exact hl
  | loader => exact hl
  | setEx text => cases h : ch.reply.took <;> simpa [World.after, machine, perform, command, h] using hl
  | setNx token => cases h : ch.reply.took <;> simp [World.after, machine, perform, command, h, hl]
  | release token =>
    have ht : token = i := by simpa [foreign] using hc
    subst ht
    cases h : ch.reply.took <;> simp [World.after, machine, perform, command, h, hl, hj]

def start (A : Adapter V) (redis : ι → Bool) : State ι (machine ι V E) (Except E V) where
  world := ⟨⟨none, none⟩, []⟩
  procs i := getOrComputeJson A (redis i) i

/-- In every interleaving, with every pattern of failures and expiries: a call polls at most 21
times, comes to an end, loads at most once, ends with a loaded value or with what its own loader
raised, and does not touch the lock of another call. -/
theorem getOrComputeJson_genuine (A : Adapter V) (redis : ι → Bool)
    {as : List (Label ι (machine ι V E))} {s : State ι (machine ι V E) (Except E V)}
    (h : exec step (start A redis) as = some s) (i : ι) :
    spent (M := machine ι V E) polls i s.world.log ≤ 21 ∧
      spent (M := machine ι V E) (fun _ => 1) i s.world.log ≤ 45 ∧
      (∀ ch, (∃ r, s.procs i = .done r) ∨ (step s (.run i ch)).isSome) ∧
      spent (M := machine ι V E) loads i s.world.log ≤ 1 ∧
      (∀ r, s.procs i = .done r → Genuine i r s.world) ∧
      ∀ ch t j, step s (.run i ch) = some t → s.world.store.lock = some j → j ≠ i →
        t.world.store.lock = some j := by
  have hcost (cost : Cmd ι → Nat) (write : Nat) (hw : ∀ text, cost (.setEx text) ≤ write) :=
    spent_le (M := machine ι V E) rfl (costs_getOrComputeJson A (redis i) i cost write hw) h
  refine ⟨le_trans (hcost polls 0 fun _ => le_rfl) (by simp [polls]), hcost (fun _ => 1) 1 fun _ => le_rfl,
    step_isSome s i, hcost loads 0 fun _ => le_rfl, ?_, ?_⟩
  · have hgood : (logic ι E A).Good Genuine (start A redis) :=
      ⟨fun _ => nofun, fun j => safe_getOrComputeJson j j (redis j) _⟩
    exact (hgood.run h).2 i
  · intro ch t j hs hl hj
    have hown (k : ι) : ((start A redis : State ι (machine ι V E) _).procs k).All
        fun c => foreign k c = 0 := by
      have hc := costs_getOrComputeJson (E := E) A (redis k) k (foreign k) 0 fun _ => le_rfl
      simp only [foreign, if_true] at hc
      exact hc.all
    obtain ⟨c, k, hp, rfl⟩ := step_run hs
    have hall := all_run hown h i
    rw [hp] at hall
    exact lock_after ch hall.1 hl hj

end Machine

/-- `TypeAdapter(bool)`. -/
def boolAdapter : Adapter Bool where
  dumpJson b := if b then "true" else "false"
  validateJson text := if text = "true" then some true else if text = "false" then some false else none
  isNone _ := false
  round_trip v := by cases v <;> decide

/-- The first call computes and stores, its `SETEX` raising after it took effect; the second finds
the value. -/
def twoCalls : List (Label Bool (machine Bool Bool Unit)) :=
  [.run false ⟨.ok, .ok true⟩, .run false ⟨.ok, .ok true⟩, .run false ⟨.ok, .ok true⟩,
    .run false ⟨.raisedAfter, .ok true⟩, .run true ⟨.ok, .ok false⟩, .run false ⟨.ok, .ok true⟩]

theorem getOrComputeJson_genuine_twoCalls :
    ∃ s, exec step (start boolAdapter fun _ => true) twoCalls = some s ∧
      s.procs true = .done (.ok true) ∧ Genuine true (.ok true) s.world := by
  obtain ⟨s, hs, hdone⟩ : ∃ s, exec step (start boolAdapter fun _ => true) twoCalls = some s ∧
      s.procs true = .done (.ok true) := ⟨_, rfl, rfl⟩
  exact ⟨s, hs, hdone,
    (getOrComputeJson_genuine boolAdapter (fun _ => true) hs true).2.2.2.2.1 (.ok true) hdone⟩

end PuppyTalk.JsonCache
