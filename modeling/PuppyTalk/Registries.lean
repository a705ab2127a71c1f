import PuppyTalk.Run
import Mathlib.Data.Finset.Card
import Mathlib.Logic.Function.Basic

namespace PuppyTalk.Registries

/-- `_by_user` of both managers: the connections of each user. -/
abbrev Registry (U C : Type) := U → Option (Finset C)

section Registry
variable {U C : Type} [DecidableEq U] [DecidableEq C] {r : Registry U C} {limit : Int}

/-- `ConnectionManager.connect` and `SseFanoutManager.register`. -/
def register (limit : Int) (r : Registry U C) (u : U) (c : C) : Bool × Registry U C :=
  -- `setdefault` leaves an empty entry behind, which the refusal has to take away again
  let bucket := (r u).getD ∅
  let r := Function.update r u (some bucket)
  if limit ≤ bucket.card then (false, if bucket = ∅ then Function.update r u none else r)
  else (true, Function.update r u (some (insert c bucket)))

/-- `ConnectionManager.disconnect` and `SseFanoutManager.unregister`. -/
def unregister (r : Registry U C) (u : U) (c : C) : Registry U C :=
  match r u with
  | none => r
  | some bucket =>
    if bucket = ∅ then r
    else if bucket.erase c = ∅ then Function.update r u none
    else Function.update r u (some (bucket.erase c))

def hasCapacity (limit : Int) (r : Registry U C) (u : U) : Bool :=
  decide ((((r u).getD ∅).card : Int) < limit)

def Has (r : Registry U C) (u : U) (c : C) : Prop := c ∈ (r u).getD ∅

structure Fits (limit : Int) (r : Registry U C) : Prop where
  nonempty : ∀ u bucket, r u = some bucket → bucket ≠ ∅
  bounded : ∀ u bucket, r u = some bucket → (bucket.card : Int) ≤ limit

theorem register_full (c : C) (h : limit ≤ ((r u).getD ∅).card) :
    register limit r u c =
      (false, Function.update r u (if (r u).getD ∅ = ∅ then none else some ((r u).getD ∅))) := by
  simp only [register, if_pos h]
  split
  · rw [Function.update_idem]
  · rfl

theorem register_room (c : C) (h : ¬ limit ≤ ((r u).getD ∅).card) :
    register limit r u c = (true, Function.update r u (some (insert c ((r u).getD ∅)))) := by
  simp only [register, if_neg h, Function.update_idem]

theorem unregister_absent (c : C) (h : (r u).getD ∅ = ∅) : unregister r u c = r := by
  unfold unregister
  cases hu : r u with
  | none => rfl
  | some bucket =>
    rw [hu] at h
    exact if_pos h

theorem unregister_present (c : C) (h : (r u).getD ∅ ≠ ∅) :
    unregister r u c = Function.update r u
      (if ((r u).getD ∅).erase c = ∅ then none else some (((r u).getD ∅).erase c)) := by
  unfold unregister
  cases hu : r u with
  | none =>
    rw [hu] at h
    exact absurd rfl h
  | some bucket =>
    rw [hu] at h
    simp only [if_neg (show ¬ bucket = ∅ from h), Option.getD_some]
    split
    · rfl
    · rfl

theorem getD_unless_empty (bucket : Finset C) :
    (if bucket = ∅ then none else some bucket).getD ∅ = bucket := by
  split
  · rename_i h
    exact h.symm
  · rfl

omit [DecidableEq C] in
theorem has_update (r : Registry U C) (u u' : U) (bucket : Option (Finset C)) (c : C) :
    Has (Function.update r u bucket) u' c ↔ if u' = u then c ∈ bucket.getD ∅ else Has r u' c := by
  unfold Has
  rw [Function.update_apply]
  split
  · exact Iff.rfl
  · exact Iff.rfl

theorem has_register (limit : Int) (r : Registry U C) (u : U) (c : C) (u' : U) (c' : C) :
    Has (register limit r u c).2 u' c' ↔
      Has r u' c' ∨ ((register limit r u c).1 = true ∧ u' = u ∧ c' = c) := by
  by_cases hl : limit ≤ ((r u).getD ∅).card
  · rw [register_full c hl, has_update, getD_unless_empty]
    split
    · rename_i hu
      simp [Has, hu]
    · simp
  · rw [register_room c hl, has_update]
    split
    · rename_i hu
      simp [Has, hu, or_comm]
    · rename_i hu
      simp [hu]

theorem has_unregister (r : Registry U C) (u : U) (c : C) (u' : U) (c' : C) :
    Has (unregister r u c) u' c' ↔ Has r u' c' ∧ ¬ (u' = u ∧ c' = c) := by
  by_cases he : (r u).getD ∅ = ∅
  · rw [unregister_absent c he]
    refine ⟨fun h => ⟨h, ?_⟩, And.left⟩
    rintro ⟨rfl, rfl⟩
    unfold Has at h
    rw [he] at h
    exact absurd h (Finset.notMem_empty _)
  · rw [unregister_present c he, has_update, getD_unless_empty]
    split
    · rename_i hu
      simp [Has, hu, and_comm]
    · rename_i hu
      simp [hu]

theorem Fits.update (h : Fits limit r) (u : U) {bucket : Finset C}
    (hb : bucket ≠ ∅ → (bucket.card : Int) ≤ limit) :
    Fits limit (Function.update r u (if bucket = ∅ then none else some bucket)) := by
  have hnew {b : Finset C} (hb' : (if bucket = ∅ then none else some bucket) = some b) :
      b = bucket ∧ bucket ≠ ∅ := by
    split at hb'
    · cases hb'
    · rename_i hne
      exact ⟨(Option.some.inj hb').symm, hne⟩
  constructor
  · intro u' b hb'
    rw [Function.update_apply] at hb'
    split at hb'
    · obtain ⟨rfl, hne⟩ := hnew hb'
      exact hne
    · exact h.nonempty u' b hb'
  · intro u' b hb'
    rw [Function.update_apply] at hb'
    split at hb'
    · obtain ⟨rfl, hne⟩ := hnew hb'
      exact hb hne
    · exact h.bounded u' b hb'

omit [DecidableEq U] [DecidableEq C] in
theorem Fits.card_le (h : Fits limit r) (hne : (r u).getD ∅ ≠ ∅) :
    (((r u).getD ∅).card : Int) ≤ limit := by
  cases hu : r u with
  | none =>
    rw [hu] at hne
    exact absurd rfl hne
  | some bucket => exact h.bounded u bucket hu

theorem Fits.register (h : Fits limit r) (u : U) (c : C) :
    Fits limit (register limit r u c).2 := by
  by_cases hl : limit ≤ ((r u).getD ∅).card
  · rw [register_full c hl]
    exact h.update u h.card_le
  · rw [register_room c hl]
    have hcard := Finset.card_insert_le c ((r u).getD ∅)
    have hfits : ((insert c ((r u).getD ∅)).card : Int) ≤ limit := by omega
    have hupd := h.update u fun _ => hfits
    rwa [if_neg (Finset.insert_ne_empty c _)] at hupd

theorem Fits.unregister (h : Fits limit r) (u : U) (c : C) : Fits limit (unregister r u c) := by
  by_cases he : (r u).getD ∅ = ∅
  · rwa [unregister_absent c he]
  · rw [unregister_present c he]
    refine h.update u fun _ => le_trans ?_ (h.card_le he)
    exact_mod_cast Finset.card_erase_le

omit [DecidableEq U] [DecidableEq C] in
theorem Fits.eq_none (h : Fits limit r) (hno : ∀ u c, ¬ Has r u c) : r = fun _ => none := by
  funext u
  cases hu : r u with
  | none => rfl
  | some bucket =>
    refine absurd (Finset.eq_empty_of_forall_notMem fun c hc => hno u c ?_) (h.nonempty u bucket hu)
    unfold Has
    rwa [hu]

theorem unregister_twice (r : Registry U C) (u : U) (c : C) :
    unregister (unregister r u c) u c = unregister r u c := by
  by_cases he : (r u).getD ∅ = ∅
  · rw [unregister_absent c he, unregister_absent c he]
  · rw [unregister_present c he]
    by_cases hlast : ((r u).getD ∅).erase c = ∅
    · refine unregister_absent c ?_
      rw [Function.update_self, getD_unless_empty, hlast]
    · rw [unregister_present c (by rwa [Function.update_self, getD_unless_empty]), Function.update_self,
        getD_unless_empty, Finset.erase_idem, Function.update_idem]

end Registry

inductive Phase (U : Type) where
  | unstarted
  | admitted (u : U)
  | running (u : U)
  | ended
  deriving DecidableEq

/-- Both registries, their owners, the sends under way (each to a snapshot of sockets) and the events
in the queues. -/
structure State (U W Q : Type) where
  sockets : Registry U W
  queues : Registry U Q
  handlers : W → Phase U
  streams : Q → Phase U
  sending : List (U × Finset W)
  inbox : Q → List String

def State.init : State U W Q where
  sockets _ := none
  queues _ := none
  handlers _ := .unstarted
  streams _ := .unstarted
  sending := []
  inbox _ := []

inductive Label (U W Q : Type) where
  | connect (ws : W) (u : U)
  | leave (ws : W)
  | send (u : U)
  | sent (n : Nat) (ws : W) (failed : Bool)
  | request (q : Q) (u : U)
  | start (q : Q)
  | deliver (u : U) (payload : String)
  | event (q : Q)
  | close (q : Q)

def queueMaxSize : Nat := 100

section Steps
variable {U W Q : Type} [DecidableEq U] [DecidableEq W] [DecidableEq Q]

/-- The handler after `accept`: it registers, or closes the socket and returns. -/
def connect (limit : Int) (s : State U W Q) (ws : W) (u : U) : Option (State U W Q) :=
  match s.handlers ws with
  | .unstarted =>
    let (registered, sockets) := register limit s.sockets u ws
    some { s with
      sockets := sockets
      handlers := Function.update s.handlers ws (if registered then .running u else .ended) }
  | _ => none

/-- The receive loop ends, in whatever way: `finally` takes the socket out. -/
def leave (s : State U W Q) (ws : W) : Option (State U W Q) :=
  match s.handlers ws with
  | .running u => some { s with
      sockets := unregister s.sockets u ws, handlers := Function.update s.handlers ws .ended }
  | _ => none

/-- `send_personal_message` looks up the sockets. -/
def send (s : State U W Q) (u : U) : State U W Q :=
  { s with sending := s.sending ++ [(u, (s.sockets u).getD ∅)] }

/-- One `_send_one` of a message returns, with `_drop` if it failed. -/
def sent (s : State U W Q) (n : Nat) (ws : W) (failed : Bool) : Option (State U W Q) :=
  match s.sending[n]? with
  | none => none
  | some (u, left) =>
    if ws ∈ left then some { s with
      sending := s.sending.set n (u, left.erase ws)
      sockets := if failed then unregister s.sockets u ws else s.sockets }
    else none

/-- `ensure_sse_capacity`: 429, or a generator that has not started yet. -/
def request (limit : Int) (s : State U W Q) (q : Q) (u : U) : Option (State U W Q) :=
  match s.streams q with
  | .unstarted => some { s with
      streams := Function.update s.streams q (if hasCapacity limit s.queues u then .admitted u else .ended) }
  | _ => none

/-- `sse_subscribe` up to its loop: it registers its queue, or returns. -/
def start (limit : Int) (s : State U W Q) (q : Q) : Option (State U W Q) :=
  match s.streams q with
  | .admitted u =>
    let (registered, queues) := register limit s.queues u q
    some { s with
      queues := queues
      streams := Function.update s.streams q (if registered then .running u else .ended) }
  | _ => none

/-- `deliver`: a full queue drops the event. -/
def deliver (s : State U W Q) (u : U) (payload : String) : State U W Q :=
  { s with inbox := fun q =>
      if q ∈ (s.queues u).getD ∅ ∧ (s.inbox q).length < queueMaxSize then s.inbox q ++ [payload]
      else s.inbox q }

def event (s : State U W Q) (q : Q) : Option (State U W Q) :=
  match s.streams q, s.inbox q with
  | .running _, _ :: rest => some { s with inbox := Function.update s.inbox q rest }
  | _, _ => none

/-- The generator is closed, in whatever way: `finally` takes its queue out. -/
def close (s : State U W Q) (q : Q) : Option (State U W Q) :=
  match s.streams q with
  | .running u => some { s with
      queues := unregister s.queues u q, streams := Function.update s.streams q .ended }
  | _ => none

def step (limit : Int) (s : State U W Q) : Label U W Q → Option (State U W Q)
  | .connect ws u => connect limit s ws u
  | .leave ws => leave s ws
  | .send u => some (send s u)
  | .sent n ws failed => sent s n ws failed
  | .request q u => request limit s q u
  | .start q => start limit s q
  | .deliver u payload => some (deliver s u payload)
  | .event q => event s q
  | .close q => close s q

end Steps

section Invariant
set_option linter.unusedSectionVars false
variable {U W Q C : Type} [DecidableEq U] [DecidableEq W] [DecidableEq Q] [DecidableEq C]
  {r : Registry U C} {phase : C → Phase U} {limit : Int} {s t : State U W Q}

def Owned (r : Registry U C) (phase : C → Phase U) : Prop := ∀ u c, Has r u c → phase c = .running u

theorem Owned.register (h : Owned r phase) (u : U) (hc : ∀ u, phase c ≠ .running u) :
    Owned (register limit r u c).2
      (Function.update phase c (if (register limit r u c).1 then .running u else .ended)) := by
  intro u' c' hhas
  rcases (has_register limit r u c u' c').mp hhas with hold | ⟨hnew, rfl, rfl⟩
  · have hrun := h u' c' hold
    have hne : c' ≠ c := by
      intro he
      exact hc u' (he ▸ hrun)
    rwa [Function.update_of_ne hne]
  · rw [Function.update_self, if_pos hnew]

theorem Owned.drop (h : Owned r phase) (u : U) (c : C) : Owned (unregister r u c) phase :=
  fun u' c' hhas => h u' c' ((has_unregister r u c u' c').mp hhas).1

theorem Owned.release (h : Owned r phase) (hc : phase c = .running u) :
    Owned (unregister r u c) (Function.update phase c .ended) := by
  intro u' c' hhas
  obtain ⟨hold, hother⟩ := (has_unregister r u c u' c').mp hhas
  have hrun := h u' c' hold
  have hne : c' ≠ c := by
    rintro rfl
    cases hc.symm.trans hrun
    exact hother ⟨rfl, rfl⟩
  rwa [Function.update_of_ne hne]

theorem Owned.idle (h : Owned r phase) (hc : ∀ u, phase c ≠ .running u) (p : Phase U) :
    Owned r (Function.update phase c p) := by
  intro u' c' hhas
  have hrun := h u' c' hhas
  have hne : c' ≠ c := by
    rintro rfl
    exact hc u' hrun
  rwa [Function.update_of_ne hne]

structure Inv (limit : Int) (s : State U W Q) : Prop where
  sockets : Fits limit s.sockets
  queues : Fits limit s.queues
  handlers : Owned s.sockets s.handlers
  streams : Owned s.queues s.streams

theorem inv_init (limit : Int) : Inv limit (State.init : State U W Q) where
  sockets := ⟨fun _ _ => nofun, fun _ _ => nofun⟩
  queues := ⟨fun _ _ => nofun, fun _ _ => nofun⟩
  handlers _ _ h := absurd h (Finset.notMem_empty _)
  streams _ _ h := absurd h (Finset.notMem_empty _)

theorem Inv.connect (h : Inv limit s) (hs : connect limit s ws u = some t) : Inv limit t := by
  unfold Registries.connect at hs
  split at hs
  · rename_i hphase
    cases hs
    exact { h with
      sockets := h.sockets.register u ws
      handlers := h.handlers.register u (by simp [hphase]) }
  · cases hs

theorem Inv.leave (h : Inv limit s) (hs : leave s ws = some t) : Inv limit t := by
  unfold Registries.leave at hs
  split at hs
  · rename_i u hphase
    cases hs
    exact { h with sockets := h.sockets.unregister u ws, handlers := h.handlers.release hphase }
  · cases hs

theorem Inv.sent (h : Inv limit s) (hs : sent s n ws failed = some t) : Inv limit t := by
  unfold Registries.sent at hs
  split at hs
  · cases hs
  · rename_i u left _
    split at hs
    · cases hs
      cases failed with
      | false => exact { h with }
      | true => exact { h with sockets := h.sockets.unregister u ws, handlers := h.handlers.drop u ws }
    · cases hs

theorem Inv.request (h : Inv limit s) (hs : request limit s q u = some t) : Inv limit t := by
  unfold Registries.request at hs
  split at hs
  · rename_i hphase
    cases hs
    exact { h with streams := h.streams.idle (by simp [hphase]) _ }
  · cases hs

theorem Inv.start (h : Inv limit s) (hs : start limit s q = some t) : Inv limit t := by
  unfold Registries.start at hs
  split at hs
  · rename_i u hphase
    cases hs
    exact { h with
      queues := h.queues.register u q
      streams := h.streams.register u (by simp [hphase]) }
  · cases hs

theorem Inv.event (h : Inv limit s) (hs : event s q = some t) : Inv limit t := by
  unfold Registries.event at hs
  split at hs
  · cases hs
    exact { h with }
  · cases hs

theorem Inv.close (h : Inv limit s) (hs : close s q = some t) : Inv limit t := by
  unfold Registries.close at hs
  split at hs
  · rename_i u hphase
    cases hs
    exact { h with queues := h.queues.unregister u q, streams := h.streams.release hphase }
  · cases hs

theorem Inv.step (h : Inv limit s) {a : Label U W Q} (hs : step limit s a = some t) : Inv limit t := by
  cases a with
  | connect ws u => exact h.connect hs
  | leave ws => exact h.leave hs
  | send u =>
    cases hs
    exact { h with }
  | sent n ws failed => exact h.sent hs
  | request q u => exact h.request hs
  | start q => exact h.start hs
  | deliver u payload =>
    cases hs
    exact { h with }
  | event q => exact h.event hs
  | close q => exact h.close hs

/-- Over every run: no user is over the limit or has an empty entry, a removal takes out its own
connection only and does nothing the second time, and once no handler and no generator is running
both registries are empty. -/
theorem registries_bounded_and_leak_free {as : List (Label U W Q)}
    (h : exec (step limit) State.init as = some s) :
    Fits limit s.sockets ∧ Fits limit s.queues ∧
      (∀ u ws, unregister (unregister s.sockets u ws) u ws = unregister s.sockets u ws ∧
        ∀ u' ws', Has (unregister s.sockets u ws) u' ws' ↔ Has s.sockets u' ws' ∧ ¬ (u' = u ∧ ws' = ws)) ∧
      (∀ u q, unregister (unregister s.queues u q) u q = unregister s.queues u q ∧
        ∀ u' q', Has (unregister s.queues u q) u' q' ↔ Has s.queues u' q' ∧ ¬ (u' = u ∧ q' = q)) ∧
      ((∀ ws u, s.handlers ws ≠ .running u) → (∀ q u, s.streams q ≠ .running u) →
        s.sockets = (fun _ => none) ∧ s.queues = fun _ => none) := by
  have hinv : Inv limit s := exec_invariant' (I := Inv limit) (fun hi hs => hi.step hs) (inv_init limit) h
  refine ⟨hinv.sockets, hinv.queues, fun u ws => ⟨unregister_twice _ u ws, has_unregister _ u ws⟩,
    fun u q => ⟨unregister_twice _ u q, has_unregister _ u q⟩, fun hhandlers hstreams => ⟨?_, ?_⟩⟩
  · exact hinv.sockets.eq_none fun u ws hhas => hhandlers ws u (hinv.handlers u ws hhas)
  · exact hinv.queues.eq_none fun u q hhas => hstreams q u (hinv.streams u q hhas)

end Invariant

/-- A socket that a failed send drops before its own handler leaves, beside an SSE stream. -/
def droppedRun : List (Label Nat Nat Nat) :=
  [.connect 7 1, .request 9 1, .start 9, .send 1, .sent 0 7 true, .deliver 1 "hi", .leave 7, .close 9]

theorem registries_bounded_and_leak_free_droppedRun :
    ∃ s, exec (step 5) State.init droppedRun = some s ∧
      s.sockets = (fun _ => none) ∧ s.queues = fun _ => none := by
  obtain ⟨s, hs, hhandlers, hstreams⟩ : ∃ s, exec (step 5) State.init droppedRun = some s ∧
      s.handlers = Function.update (Function.update (fun _ => .unstarted) 7 (.running 1)) 7 .ended ∧
      s.streams = Function.update (Function.update (Function.update (fun _ => .unstarted) 9
        (.admitted 1)) 9 (.running 1)) 9 .ended := ⟨_, rfl, rfl, rfl⟩
  refine ⟨s, hs, (registries_bounded_and_leak_free hs).2.2.2.2 (fun ws u => ?_) fun q u => ?_⟩
  · rw [hhandlers, Function.update_idem, Function.update_apply]
    split <;> exact nofun
  · rw [hstreams, Function.update_idem, Function.update_idem, Function.update_apply]
    split <;> exact nofun

end PuppyTalk.Registries
