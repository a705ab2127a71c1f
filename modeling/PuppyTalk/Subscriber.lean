import Mathlib.Algebra.Order.Field.Basic
import Mathlib.Data.List.Chain
import Mathlib.Tactic.Linarith
import Mathlib.Tactic.NormNum

namespace PuppyTalk.Subscriber

/-- What leaves an awaited call instead of its result; a cancellation ends the listener. -/
inductive Failure where
  | error
  | cancelled
  deriving DecidableEq, Repr

/-- A round of the poll loop: `get_message` raises, or it returns when the clock reads `now` and the
dispatch or the ping that follows may be cut short. -/
inductive Poll (R M : Type) where
  | raises (failure : Failure)
  | returns (msg : Option M) (now : R) (interrupted : Option Failure)
  deriving DecidableEq, Repr

/-- What a connection meets: the clock after `subscribe`, unless connecting fails, and its polls,
after which the stop event is set. -/
structure Connection (R M : Type) where
  connectedAt : Except Failure R
  polls : List (Poll R M)
  deriving DecidableEq

structure Watch (R : Type) where
  connectedAt : R
  healthySignaled : Bool
  lastRx : R
  pingedAt : Option R

/-- A poll that returned, and what the loop did about it: call `on_healthy`, dispatch the message or
send a ping. -/
structure Round (R M : Type) where
  now : R
  received : Option M
  healthy : Bool
  pinged : Bool
  deriving DecidableEq, Repr

/-- How `_listen_once` ends. -/
inductive Exit where
  | stopped
  | failed (failure : Failure)
  | watchdog
  deriving DecidableEq, Repr

section Model

variable {R M : Type} [Field R] [LinearOrder R]

def healthyUptimeSec : R := 5
def watchdogIdleSec : R := 10
def watchdogPongSec : R := 5
def reconnectBackoffInitialSec : R := 1 / 2
def reconnectBackoffMaxSec : R := 30

/-- `on_healthy` is called once, by the first poll that returns late enough. -/
def Watch.healthy (w : Watch R) (now : R) : Bool :=
  !w.healthySignaled && decide (healthyUptimeSec ≤ now - w.connectedAt)

def awaited (interrupted : Option Failure) (w : Watch R) : Except Exit (Watch R) :=
  match interrupted with
  | some failure => .error (.failed failure)
  | none => .ok w

/-- The body of the poll loop once `get_message` has returned. -/
def Watch.round (w : Watch R) (msg : Option M) (now : R) (interrupted : Option Failure) :
    Round R M × Except Exit (Watch R) :=
  let healthy := w.healthy now
  let w' := { w with healthySignaled := w.healthySignaled || healthy }
  match msg with
  | some m =>
    (⟨now, some m, healthy, false⟩,
      awaited interrupted { w' with lastRx := now, pingedAt := none })
  | none =>
    match w.pingedAt with
    | none =>
      if watchdogIdleSec < now - w.lastRx then
        (⟨now, none, healthy, true⟩, awaited interrupted { w' with pingedAt := some now })
      else (⟨now, none, healthy, false⟩, .ok w')
    | some pingedAt =>
      if watchdogPongSec < now - pingedAt then
        (⟨now, none, healthy, false⟩, .error .watchdog)
      else (⟨now, none, healthy, false⟩, .ok w')

def Watch.listen (w : Watch R) : List (Poll R M) → List (Round R M) × Exit
  | [] => ([], .stopped)
  | .raises failure :: _ => ([], .failed failure)
  | .returns msg now interrupted :: polls =>
    match w.round msg now interrupted with
    | (r, .error exit) => ([r], exit)
    | (r, .ok w') => ((r :: (w'.listen polls).1), (w'.listen polls).2)

def Watch.init (now : R) : Watch R := ⟨now, false, now, none⟩

def listenOnce (c : Connection R M) : List (Round R M) × Exit :=
  match c.connectedAt with
  | .error failure => ([], .failed failure)
  | .ok now => (Watch.init now).listen c.polls

inductive Wait where
  | timeout
  | stopped
  | cancelled

/-- A connection that was made, its rounds, and the waiting time before the next one. -/
structure Attempt (R M : Type) where
  connection : Connection R M
  rounds : List (Round R M)
  wait : Option R
  deriving DecidableEq

/-- The loop of `run_user_fanout_listener`; `on_healthy` resets the backoff while the connection
is up. -/
def listenFrom (backoff : R) : List (Connection R M × Wait) → List (Attempt R M)
  | [] => []
  | (c, wait) :: rest =>
    let (rounds, exit) := listenOnce c
    let backoff := if rounds.any (·.healthy) then reconnectBackoffInitialSec else backoff
    match exit, wait with
    -- A stop event that is set ends the wait at once.
    | .stopped, _ => [⟨c, rounds, none⟩]
    | .failed .cancelled, _ => [⟨c, rounds, none⟩]
    | _, .timeout =>
      ⟨c, rounds, some backoff⟩ :: listenFrom (min (backoff * 2) reconnectBackoffMaxSec) rest
    | _, _ => [⟨c, rounds, none⟩]

def runUserFanoutListener (redisUrl : String) (channels : List String)
    (connections : List (Connection R M × Wait)) : List (Attempt R M) :=
  if redisUrl.isEmpty || channels.isEmpty then []
  else listenFrom reconnectBackoffInitialSec connections

def lastReceived (start : R) (rounds : List (Round R M)) : R :=
  rounds.foldl (fun last r => if r.received.isSome then r.now else last) start

def outstanding (start : Option R) (rounds : List (Round R M)) : Option R :=
  rounds.foldl (fun p r => if r.received.isSome then none else if r.pinged then some r.now else p) start

def Attempt.healthy (a : Attempt R M) : Bool :=
  match a.connection.connectedAt with
  | .error _ => false
  | .ok connectedAt => a.rounds.any fun r => decide (5 ≤ r.now - connectedAt)

/-- The number of connections made after the latest healthy one, or after the first one if there
was none. -/
def sinceHealthy (attempts : List (Attempt R M)) : Nat :=
  if attempts.any (·.healthy) then (attempts.reverse.takeWhile fun a => !a.healthy).length
  else attempts.length - 1

end Model

section Watchdog

variable {R M : Type} [Field R] [LinearOrder R] {w : Watch R} {r : Round R M}
  {res : Except Exit (Watch R)}

inductive Answers (w : Watch R) (r : Round R M) (res : Except Exit (Watch R)) : Prop where
  | message (hr : r.received.isSome) (hp : r.pinged = false)
      (hw : ∀ w', res = .ok w' → w'.lastRx = r.now ∧ w'.pingedAt = none)
  | ping (hr : r.received = none) (hp : r.pinged = true)
      (hnone : w.pingedAt = none) (hidle : 10 < r.now - w.lastRx)
      (hw : ∀ w', res = .ok w' → w'.lastRx = w.lastRx ∧ w'.pingedAt = some r.now)
  | wait (hr : r.received = none) (hp : r.pinged = false)
      (hnone : w.pingedAt = none → r.now - w.lastRx ≤ 10)
      (hsome : ∀ p, w.pingedAt = some p → r.now - p ≤ 5)
      (hw : ∀ w', res = .ok w' → w'.lastRx = w.lastRx ∧ w'.pingedAt = w.pingedAt)
  | silence (p : R) (hr : r.received = none) (hp : r.pinged = false)
      (hsome : w.pingedAt = some p) (hlong : 5 < r.now - p) (hw : res = .error .watchdog)

omit [Field R] [LinearOrder R] in
theorem awaited_ok {interrupted : Option Failure} (h : awaited interrupted w = .ok w') : w' = w := by
  cases interrupted with
  | some failure => cases h
  | none =>
    cases h
    rfl

theorem answers_round (w : Watch R) (msg : Option M) (now : R) (interrupted : Option Failure) :
    Answers w (w.round msg now interrupted).1 (w.round msg now interrupted).2 := by
  cases msg with
  | some m =>
    refine .message rfl rfl fun w' hw => ?_
    rw [awaited_ok hw]
    exact ⟨rfl, rfl⟩
  | none =>
    cases hp : w.pingedAt with
    | none =>
      by_cases hidle : watchdogIdleSec < now - w.lastRx
      · simp only [Watch.round, hp, if_pos hidle]
        refine .ping rfl rfl hp hidle fun w' hw => ?_
        rw [awaited_ok hw]
        exact ⟨rfl, rfl⟩
      · simp only [Watch.round, hp, if_neg hidle]
        refine .wait rfl rfl (fun _ => not_lt.mp hidle) (by simp [hp]) fun w' hw => ?_
        cases hw
        exact ⟨rfl, hp.symm⟩
    | some p =>
      by_cases hlong : watchdogPongSec < now - p
      · simp only [Watch.round, hp, if_pos hlong]
        exact .silence p rfl rfl hp hlong rfl
      · simp only [Watch.round, hp, if_neg hlong]
        refine .wait rfl rfl (by simp [hp]) (fun q hq => ?_) fun w' hw => ?_
        · rw [hp] at hq
          cases hq
          exact not_lt.mp hlong
        · cases hw
          exact ⟨rfl, hp.symm⟩

structure Records (w : Watch R) (msg : Option M) (now : R) (r : Round R M)
    (res : Except Exit (Watch R)) : Prop where
  reading : r.now = now
  received : r.received = msg
  healthy : r.healthy = w.healthy r.now
  kept : ∀ w', res = .ok w' → w'.connectedAt = w.connectedAt ∧
    w'.healthySignaled = (w.healthySignaled || r.healthy)

theorem records_round (w : Watch R) (msg : Option M) (now : R) (interrupted : Option Failure) :
    Records w msg now (w.round msg now interrupted).1 (w.round msg now interrupted).2 := by
  cases msg with
  | some m =>
    refine ⟨rfl, rfl, rfl, fun w' hw => ?_⟩
    rw [awaited_ok hw]
    exact ⟨rfl, rfl⟩
  | none =>
    simp only [Watch.round]
    split <;> split
    · refine ⟨rfl, rfl, rfl, fun w' hw => ?_⟩
      rw [awaited_ok hw]
      exact ⟨rfl, rfl⟩
    · refine ⟨rfl, rfl, rfl, fun w' hw => ?_⟩
      cases hw
      exact ⟨rfl, rfl⟩
    · refine ⟨rfl, rfl, rfl, ?_⟩
      rintro _ ⟨⟩
    · refine ⟨rfl, rfl, rfl, fun w' hw => ?_⟩
      cases hw
      exact ⟨rfl, rfl⟩

def following (res : Except Exit (Watch R)) (polls : List (Poll R M)) : List (Round R M) × Exit :=
  match res with
  | .error exit => ([], exit)
  | .ok w' => w'.listen polls

theorem listen_returns (w : Watch R) (msg : Option M) (now : R) (interrupted : Option Failure)
    (polls : List (Poll R M)) : w.listen (.returns msg now interrupted :: polls) =
      ((w.round msg now interrupted).1 :: (following (w.round msg now interrupted).2 polls).1,
        (following (w.round msg now interrupted).2 polls).2) := by
  rw [Watch.listen]
  split
  · rename_i r exit h
    rw [h]
    rfl
  · rename_i r w' h
    rw [h]
    rfl

theorem Answers.lastRx (h : Answers w r (.ok w')) :
    w'.lastRx = if r.received.isSome then r.now else w.lastRx := by
  cases h with
  | message hr _ hw => rw [if_pos hr, (hw w' rfl).1]
  | ping hr _ _ _ hw =>
    rw [hr, (hw w' rfl).1]
    rfl
  | wait hr _ _ _ hw =>
    rw [hr, (hw w' rfl).1]
    rfl
  | silence _ _ _ _ _ hw => cases hw

theorem Answers.pingedAt (h : Answers w r (.ok w')) : w'.pingedAt =
    if r.received.isSome then none else if r.pinged then some r.now else w.pingedAt := by
  cases h with
  | message hr _ hw => rw [if_pos hr, (hw w' rfl).2]
  | ping hr hp _ _ hw =>
    rw [hr, hp, (hw w' rfl).2]
    rfl
  | wait hr hp _ _ hw =>
    rw [hr, hp, (hw w' rfl).2]
    rfl
  | silence _ _ _ _ _ hw => cases hw

def Watch.Sound (w : Watch R) : Prop := ∀ p, w.pingedAt = some p → 10 < p - w.lastRx

theorem Answers.sound (h : Answers w r (.ok w')) (hs : w.Sound) : w'.Sound := by
  intro p hp
  cases h with
  | message _ _ hw =>
    rw [(hw w' rfl).2] at hp
    cases hp
  | ping _ _ _ hidle hw =>
    rw [(hw w' rfl).2] at hp
    cases hp
    rwa [(hw w' rfl).1]
  | wait _ _ _ _ hw =>
    rw [(hw w' rfl).2] at hp
    rw [(hw w' rfl).1]
    exact hs p hp
  | silence _ _ _ _ _ hw => cases hw

omit [Field R] [LinearOrder R] in
theorem lastReceived_cons (start : R) (r : Round R M) (rounds : List (Round R M)) :
    lastReceived start (r :: rounds) =
      lastReceived (if r.received.isSome then r.now else start) rounds := rfl

theorem listen_split {polls : List (Poll R M)} {pre post : List (Round R M)}
    (h : (w.listen (.returns msg now interrupted :: polls)).1 = pre ++ r :: post) :
    Answers w r (w.round msg now interrupted).2 ∧
      (following (w.round msg now interrupted).2 polls).1 = post ∨
    ∃ r₀ w' pre', Answers w r₀ (.ok w') ∧ pre = r₀ :: pre' ∧ (w'.listen polls).1 = pre' ++ r :: post := by
  have ha := answers_round w msg now interrupted
  rw [listen_returns] at h
  cases pre with
  | nil =>
    obtain ⟨hr, hpost⟩ := List.cons.inj h
    rw [hr] at ha
    exact .inl ⟨ha, hpost⟩
  | cons r₀ pre =>
    obtain ⟨hr, hrest⟩ := List.cons.inj h
    cases hres : (w.round msg now interrupted).2 with
    | error exit =>
      rw [hres] at hrest
      exact absurd hrest (by simp [following])
    | ok w' =>
      rw [hr, hres] at ha
      rw [hres] at hrest
      exact .inr ⟨r₀, w', pre, ha, rfl, hrest⟩

theorem listen_pinged {polls : List (Poll R M)} {b c : List (Round R M)}
    (hp : w.pingedAt = some p) (h : (w.listen polls).1 = b ++ r :: c) (hr : r.pinged = true) :
    ∃ m ∈ b, m.received.isSome := by
  induction polls generalizing w b with
  | nil => exact absurd h (by simp [Watch.listen])
  | cons poll polls ih =>
    cases poll with
    | raises failure => exact absurd h (by simp [Watch.listen])
    | returns msg now interrupted =>
      rcases listen_split h with ⟨ha, -⟩ | ⟨r₀, w', b, ha, rfl, hrest⟩
      · cases ha with
        | message _ hx => simp [hr] at hx
        | wait _ hx => simp [hr] at hx
        | silence _ _ hx => simp [hr] at hx
        | ping _ _ hnone => simp [hp] at hnone
      · cases ha with
        | message hm => exact ⟨r₀, List.mem_cons_self, hm⟩
        | ping _ _ hnone => simp [hp] at hnone
        | silence _ _ _ _ _ hw => cases hw
        | wait _ _ _ _ hw =>
          obtain ⟨m, hm, hrec⟩ := ih ((hw w' rfl).2.trans hp) hrest
          exact ⟨m, List.mem_cons_of_mem _ hm, hrec⟩

theorem listen_pings {polls : List (Poll R M)} {a b c : List (Round R M)} {p q : Round R M}
    (h : (w.listen polls).1 = a ++ p :: (b ++ q :: c)) (hp : p.pinged = true)
    (hq : q.pinged = true) : ∃ m ∈ b, m.received.isSome := by
  induction polls generalizing w a with
  | nil => exact absurd h (by simp [Watch.listen])
  | cons poll polls ih =>
    cases poll with
    | raises failure => exact absurd h (by simp [Watch.listen])
    | returns msg now interrupted =>
      rcases listen_split h with ⟨ha, hrest⟩ | ⟨r₀, w', a, ha, rfl, hrest⟩
      · cases hres : (w.round msg now interrupted).2 with
        | error exit => simp [hres, following] at hrest
        | ok w' =>
          rw [hres] at ha hrest
          cases ha with
          | message _ hx => simp [hp] at hx
          | wait _ hx => simp [hp] at hx
          | silence _ _ hx => simp [hp] at hx
          | ping _ _ _ _ hw => exact listen_pinged (hw w' rfl).2 hrest hq
      · exact ih hrest

theorem round_error (h : (w.round (M := M) msg now interrupted).2 = .error exit) :
    (exit = .watchdog ∧ ∃ p, w.pingedAt = some p ∧ 5 < now - p) ∨
      ∃ failure, interrupted = some failure ∧ exit = .failed failure := by
  have hawaited {w₁ : Watch R} (h : awaited interrupted w₁ = .error exit) :
      ∃ failure, interrupted = some failure ∧ exit = .failed failure := by
    cases interrupted with
    | none => cases h
    | some failure =>
      cases h
      exact ⟨failure, rfl, rfl⟩
  cases msg with
  | some m => exact .inr (hawaited h)
  | none =>
    simp only [Watch.round] at h
    split at h <;> split at h
    · exact .inr (hawaited h)
    · cases h
    · rename_i p hp hlong
      cases h
      exact .inl ⟨rfl, p, hp, hlong⟩
    · cases h

theorem listen_append {polls : List (Poll R M)} (h : (w.listen polls).2 = .stopped) :
    ∃ w' : Watch R, w'.lastRx = lastReceived w.lastRx (w.listen polls).1 ∧
      w'.pingedAt = outstanding w.pingedAt (w.listen polls).1 ∧
      ∀ rest, w.listen (polls ++ rest) =
        ((w.listen polls).1 ++ (w'.listen rest).1, (w'.listen rest).2) := by
  induction polls generalizing w with
  | nil => exact ⟨w, rfl, rfl, fun _ => rfl⟩
  | cons poll polls ih =>
    cases poll with
    | raises failure => cases h
    | returns msg now interrupted =>
      have ha := answers_round w msg now interrupted
      cases hres : (w.round msg now interrupted).2 with
      | error exit =>
        rw [listen_returns, hres] at h
        rcases round_error hres with ⟨rfl, -⟩ | ⟨failure, -, rfl⟩
        · cases h
        · cases h
      | ok w₁ =>
        rw [hres] at ha
        simp only [listen_returns, hres, following, List.cons_append] at h ⊢
        obtain ⟨w', hlast, hping, happ⟩ := ih h
        refine ⟨w', ?_, ?_, fun rest => ?_⟩
        · rw [lastReceived_cons, ← ha.lastRx, hlast]
        · rw [outstanding, List.foldl_cons, ← ha.pingedAt, hping, outstanding]
        · rw [happ]

def silent (readings : List R) : List (Poll R M) := readings.map fun now => .returns none now none

variable [IsStrictOrderedRing R]

theorem listen_watchdog {polls : List (Poll R M)} (hs : w.Sound)
    (h : (w.listen polls).2 = .watchdog) : ∃ pre r, (w.listen polls).1 = pre ++ [r] ∧
      15 < r.now - lastReceived w.lastRx pre := by
  induction polls generalizing w with
  | nil => cases h
  | cons poll polls ih =>
    cases poll with
    | raises failure => cases h
    | returns msg now interrupted =>
      have ha := answers_round w msg now interrupted
      cases hres : (w.round msg now interrupted).2 with
      | error exit =>
        rw [listen_returns, hres] at h ⊢
        refine ⟨[], _, rfl, ?_⟩
        rcases round_error hres with ⟨rfl, p, hp, hlong⟩ | ⟨failure, -, rfl⟩
        · have hidle := hs p hp
          rw [(records_round w msg now interrupted).reading]
          show 15 < now - w.lastRx
          linarith
        · cases h
      | ok w₁ =>
        rw [hres] at ha
        simp only [listen_returns, hres, following] at h ⊢
        obtain ⟨pre, r, hrounds, hlong⟩ := ih (ha.sound hs) h
        rw [ha.lastRx] at hlong
        exact ⟨_ :: pre, r, congrArg _ hrounds, hlong⟩

/-- How far the silence can have gone while the loop still runs, when polls are at most `e` seconds
apart. -/
structure Watch.Within (w : Watch R) (prev e : R) : Prop where
  idle : w.pingedAt = none → prev ≤ w.lastRx + 10
  pinged : ∀ p, w.pingedAt = some p → p ≤ w.lastRx + 10 + e ∧ prev ≤ p + 5

theorem Watch.Within.le {prev : R} (h : w.Within prev e) (hgap : now - prev ≤ e) :
    w.pingedAt = none ∧ now ≤ w.lastRx + 10 + e ∨
      ∃ p, w.pingedAt = some p ∧ p ≤ w.lastRx + 10 + e ∧ now ≤ p + 5 + e := by
  cases hp : w.pingedAt with
  | none =>
    have := h.idle hp
    exact .inl ⟨rfl, by linarith⟩
  | some p =>
    obtain ⟨h₁, h₂⟩ := h.pinged p hp
    exact .inr ⟨p, rfl, h₁, by linarith⟩

theorem Watch.Within.step {prev : R} (h : w.Within prev e) (ha : Answers w r (.ok w'))
    (hr : r.received = none) (hgap : r.now - prev ≤ e) :
    w'.lastRx = w.lastRx ∧ w'.Within r.now e ∧ r.now ≤ w.lastRx + 15 + e := by
  have hle := h.le hgap
  cases ha with
  | message hx => simp [hr] at hx
  | silence _ _ _ _ _ hw => cases hw
  | ping _ _ hnone _ hw =>
    obtain ⟨hlast, hping⟩ := hw w' rfl
    simp only [hnone, true_and, reduceCtorEq, false_and, exists_false, or_false] at hle
    refine ⟨hlast, ⟨fun hn => ?_, fun p hp => ?_⟩, by linarith⟩
    · rw [hping] at hn
      cases hn
    · rw [hping] at hp
      cases hp
      rw [hlast]
      exact ⟨hle, by linarith⟩
  | wait _ _ hidle hpong hw =>
    obtain ⟨hlast, hping⟩ := hw w' rfl
    rcases hle with ⟨hnone, hnow⟩ | ⟨p, hp, hple, -⟩
    · have := hidle hnone
      refine ⟨hlast, ⟨fun _ => ?_, fun p hp => ?_⟩, by linarith⟩
      · rw [hlast]
        linarith
      · rw [hping, hnone] at hp
        cases hp
    · have := hpong p hp
      refine ⟨hlast, ⟨fun hn => ?_, fun q hq => ?_⟩, by linarith⟩
      · rw [hping, hp] at hn
        cases hn
      · rw [hping, hp] at hq
        cases hq
        rw [hlast]
        exact ⟨hple, by linarith⟩

theorem listen_silent {readings : List R} {prev e : R} (hw : w.Within prev e)
    (hchain : List.IsChain (fun a b => b - a ≤ e) (prev :: readings))
    (hlong : ∃ now ∈ readings, w.lastRx + 15 + e < now) :
    ∃ pre r, w.listen (silent (M := M) readings) = (pre ++ [r], .watchdog) ∧
      r.now ≤ w.lastRx + 15 + 2 * e := by
  induction readings generalizing w prev with
  | nil =>
    obtain ⟨now, hmem, -⟩ := hlong
    cases hmem
  | cons now readings ih =>
    obtain ⟨hgap, hchain⟩ := List.isChain_cons_cons.mp hchain
    have ha := answers_round (M := M) w none now none
    have hrec := records_round (M := M) w none now none
    have hlisten : w.listen (silent (M := M) (now :: readings)) = _ :=
      listen_returns w none now none (silent readings)
    cases hres : (w.round (M := M) none now none).2 with
    | error exit =>
      rw [hres] at hlisten
      rcases round_error hres with ⟨rfl, p, hp, -⟩ | ⟨failure, hf, -⟩
      · refine ⟨[], _, hlisten, ?_⟩
        rw [hrec.reading]
        rcases hw.le hgap with ⟨hnone, -⟩ | ⟨q, -, hle, hnow⟩
        · rw [hnone] at hp
          cases hp
        · linarith
      · cases hf
    | ok w' =>
      rw [hres] at ha hlisten
      obtain ⟨hlast, hwithin, hnow⟩ := hw.step ha hrec.received (by rwa [hrec.reading])
      rw [hrec.reading] at hwithin hnow
      have hrest : ∃ t ∈ readings, w'.lastRx + 15 + e < t := by
        obtain ⟨t, hmem, ht⟩ := hlong
        rw [hlast]
        rcases List.mem_cons.mp hmem with rfl | hmem
        · exact absurd hnow (not_le.mpr ht)
        · exact ⟨t, hmem, ht⟩
      obtain ⟨pre, r, hrounds, hle⟩ := ih hwithin hchain hrest
      rw [hlast] at hle
      refine ⟨(w.round none now none).1 :: pre, r, ?_, hle⟩
      rw [hlisten, following, hrounds, List.cons_append]

structure Watched (c : Connection R M) : Prop where
  late : (listenOnce c).2 = .watchdog → ∃ connectedAt pre r, c.connectedAt = .ok connectedAt ∧
    (listenOnce c).1 = pre ++ [r] ∧ 15 < r.now - lastReceived connectedAt pre
  once : ∀ as p bs q cs, (listenOnce c).1 = as ++ p :: (bs ++ q :: cs) → p.pinged = true →
    q.pinged = true → ∃ m ∈ bs, m.received.isSome
  /-- When, from the start or a message on, nothing arrives and the polls are at most `e` seconds
  apart, it raises in time: the polls would have to stop for it not to. -/
  soon : ∀ connectedAt polls readings e last, c.connectedAt = .ok connectedAt →
    c.polls = polls ++ silent readings → (listenOnce ⟨c.connectedAt, polls⟩).2 = .stopped →
    ((listenOnce ⟨c.connectedAt, polls⟩).1 = [] ∨
      ∃ pre r, (listenOnce ⟨c.connectedAt, polls⟩).1 = pre ++ [r] ∧ r.received.isSome) →
    last = lastReceived connectedAt (listenOnce ⟨c.connectedAt, polls⟩).1 →
    List.IsChain (fun a b => b - a ≤ e) (last :: readings) →
    (∃ now ∈ readings, last + 15 + e < now) →
    (listenOnce c).2 = .watchdog ∧ ∃ pre r, (listenOnce c).1 = pre ++ [r] ∧ r.now ≤ last + 15 + 2 * e

theorem watched (c : Connection R M) : Watched c := by
  have hsound (now : R) : (Watch.init now).Sound := nofun
  apply Watched.mk
  · intro h
    cases hc : c.connectedAt with
    | error failure =>
      rw [listenOnce, hc] at h
      cases h
    | ok connectedAt =>
      rw [listenOnce, hc] at h
      obtain ⟨pre, r, hrounds, hlong⟩ := listen_watchdog (hsound connectedAt) h
      refine ⟨connectedAt, pre, r, rfl, ?_, hlong⟩
      rw [listenOnce, hc]
      exact hrounds
  · intro as p bs q cs h hp hq
    cases hc : c.connectedAt with
    | error failure =>
      rw [listenOnce, hc] at h
      exact absurd h (by simp)
    | ok connectedAt =>
      rw [listenOnce, hc] at h
      exact listen_pings h hp hq
  · intro connectedAt polls readings e last hc hpolls hstop hmsg hlast hchain hlong
    rw [listenOnce, hc] at hstop hmsg hlast
    rw [listenOnce, hc, hpolls]
    obtain ⟨w, hrx, hping, happ⟩ := listen_append hstop
    have hnone : w.pingedAt = none := by
      rw [hping]
      rcases hmsg with hnil | ⟨pre, r, hrounds, hr⟩
      · rw [hnil]
        rfl
      · rw [hrounds, outstanding, List.foldl_append]
        simp [hr]
    replace hrx : w.lastRx = last := hrx.trans hlast.symm
    have hwithin : w.Within last e := by
      refine ⟨fun _ => ?_, fun p hp => ?_⟩
      · rw [hrx]
        linarith
      · rw [hnone] at hp
        cases hp
    obtain ⟨pre, r, hrounds, hle⟩ := listen_silent (M := M) hwithin hchain (hrx ▸ hlong)
    simp only [happ, hrounds]
    refine ⟨trivial, _ ++ pre, r, (List.append_assoc _ _ _).symm, ?_⟩
    rwa [hrx] at hle

end Watchdog

section Backoff

variable {R M : Type} [Field R] [LinearOrder R] {w : Watch R}

theorem listen_healthy (w : Watch R) (polls : List (Poll R M)) :
    (w.healthySignaled || (w.listen polls).1.any (·.healthy)) =
      (w.healthySignaled || (w.listen polls).1.any fun r => decide (5 ≤ r.now - w.connectedAt)) := by
  induction polls generalizing w with
  | nil => rfl
  | cons poll polls ih =>
    cases poll with
    | raises failure => rfl
    | returns msg now interrupted =>
      have hrec := records_round w msg now interrupted
      rw [listen_returns, List.any_cons, List.any_cons, hrec.healthy, Watch.healthy, healthyUptimeSec]
      cases hres : (w.round msg now interrupted).2 with
      | error exit =>
        simp only [following, List.any_nil, Bool.or_false]
        cases w.healthySignaled <;> rfl
      | ok w' =>
        obtain ⟨hconn, hsig⟩ := hrec.kept w' hres
        have hrest := ih w'
        rw [hconn, hsig, hrec.healthy, Watch.healthy, healthyUptimeSec] at hrest
        cases hs : w.healthySignaled with
        | true => rfl
        | false => simpa only [following, hs, Bool.not_false, Bool.true_and, Bool.false_or] using hrest

theorem healthy_iff (c : Connection R M) (wait : Option R) :
    (listenOnce c).1.any (·.healthy) = Attempt.healthy ⟨c, (listenOnce c).1, wait⟩ := by
  cases hc : c.connectedAt with
  | error failure => simp only [Attempt.healthy, listenOnce, hc, List.any_nil]
  | ok connectedAt =>
    simp only [Attempt.healthy, listenOnce, hc]
    exact listen_healthy (Watch.init connectedAt) c.polls

def resetBackoff (backoff : R) (c : Connection R M) : R :=
  if (listenOnce c).1.any (·.healthy) then reconnectBackoffInitialSec else backoff

theorem listenFrom_cons (backoff : R) (c : Connection R M) (wait : Wait)
    (rest : List (Connection R M × Wait)) :
    listenFrom backoff ((c, wait) :: rest) = [⟨c, (listenOnce c).1, none⟩] ∨
    listenFrom backoff ((c, wait) :: rest) =
      ⟨c, (listenOnce c).1, some (resetBackoff backoff c)⟩ ::
        listenFrom (min (resetBackoff backoff c * 2) reconnectBackoffMaxSec) rest := by
  rw [listenFrom]
  dsimp only
  split
  · exact .inl rfl
  · exact .inl rfl
  · exact .inr rfl
  · exact .inl rfl

def doublings (attempts : List (Attempt R M)) : Nat :=
  if attempts.isEmpty then 0 else sinceHealthy attempts + 1

theorem sinceHealthy_append (attempts : List (Attempt R M)) (a : Attempt R M) :
    sinceHealthy (attempts ++ [a]) = if a.healthy then 0 else doublings attempts := by
  cases ha : a.healthy with
  | true => simp [sinceHealthy, ha]
  | false =>
    cases hany : attempts.any (·.healthy) with
    | true =>
      have hne : attempts ≠ [] := by
        rintro rfl
        cases hany
      simp [sinceHealthy, doublings, ha, hany, hne]
    | false =>
      cases attempts with
      | nil => simp [sinceHealthy, doublings, ha]
      | cons a₀ attempts =>
        rw [sinceHealthy, doublings, sinceHealthy]
        simp only [List.any_append, hany, List.any_cons, List.any_nil, ha]
        simp

theorem doublings_append (attempts : List (Attempt R M)) (a : Attempt R M) :
    doublings (attempts ++ [a]) = sinceHealthy (attempts ++ [a]) + 1 := by
  simp [doublings]

variable [IsStrictOrderedRing R]

theorem backoff_double (k : Nat) :
    min (min (1 / 2 * 2 ^ k) 30 * 2) reconnectBackoffMaxSec = min (1 / 2 * 2 ^ (k + 1) : R) 30 := by
  rw [min_mul_of_nonneg _ _ zero_le_two, reconnectBackoffMaxSec, min_assoc, pow_succ, mul_assoc]
  congr 1
  norm_num

theorem initial_eq : (reconnectBackoffInitialSec : R) = min (1 / 2 * 2 ^ 0) 30 := by
  rw [reconnectBackoffInitialSec]
  norm_num

/-- Every wait is the doubled backoff for the connections since the latest healthy one. -/
theorem listenFrom_wait {attempts pre post : List (Attempt R M)} {backoff b : R}
    {connections : List (Connection R M × Wait)}
    (hb : backoff = min (1 / 2 * 2 ^ doublings attempts) 30)
    (h : listenFrom backoff connections = pre ++ a :: post) (ha : a.wait = some b) :
    b = min (1 / 2 * 2 ^ sinceHealthy (attempts ++ pre ++ [a])) 30 := by
  induction connections generalizing attempts pre backoff with
  | nil => exact absurd h (by simp [listenFrom])
  | cons next rest ih =>
    obtain ⟨c, wait⟩ := next
    rcases listenFrom_cons backoff c wait rest with hend | hnext
    · rw [hend] at h
      obtain ⟨rfl, rfl⟩ : pre = [] ∧ a = ⟨c, (listenOnce c).1, none⟩ := by
        cases pre with
        | nil => exact ⟨rfl, (List.cons.inj h).1.symm⟩
        | cons => simp at h
      cases ha
    · have hreset (w : Option R) : resetBackoff backoff c =
          min (1 / 2 * 2 ^ sinceHealthy (attempts ++ [⟨c, (listenOnce c).1, w⟩])) 30 := by
        rw [sinceHealthy_append, resetBackoff, ← healthy_iff]
        split
        · exact initial_eq
        · exact hb
      rw [hnext] at h
      cases pre with
      | nil =>
        obtain ⟨rfl, -⟩ := List.cons.inj h
        cases ha
        rw [List.append_nil]
        exact hreset _
      | cons a₀ pre =>
        obtain ⟨rfl, hrest⟩ := List.cons.inj h
        rw [List.append_cons attempts]
        refine ih ?_ hrest
        rw [doublings_append, ← backoff_double, ← hreset]

end Backoff

/-- The watchdog of every connection, and the wait before every reconnect. -/
theorem listener_timing (R M : Type) [Field R] [LinearOrder R] [IsStrictOrderedRing R] :
    (∀ c : Connection R M, Watched c) ∧
    ∀ redisUrl channels (connections : List (Connection R M × Wait)) pre a post b,
      runUserFanoutListener redisUrl channels connections = pre ++ a :: post → a.wait = some b →
      b = min (1 / 2 * 2 ^ sinceHealthy (pre ++ [a])) 30 := by
  refine ⟨watched, ?_⟩
  intro redisUrl channels connections pre a post b h ha
  rw [runUserFanoutListener] at h
  split at h
  · exact absurd h (by simp)
  · show b = min (1 / 2 * 2 ^ sinceHealthy ([] ++ pre ++ [a])) 30
    exact listenFrom_wait initial_eq h ha

def fourConnections : List (Connection ℚ Unit × Wait) :=
  [(⟨.error .error, []⟩, .timeout), (⟨.error .error, []⟩, .timeout),
    (⟨.ok 100, [.returns none 106 none, .raises .error]⟩, .timeout), (⟨.error .error, []⟩, .timeout)]

def fourAttempts : List (Attempt ℚ Unit) :=
  runUserFanoutListener "redis://cache" ["chat"] fourConnections

theorem listener_timing_fourConnections :
    fourAttempts.map (·.wait) = [some (1 / 2), some 1, some (1 / 2), some 1] ∧
    Watched (⟨.ok 100, [.returns none 106 none, .raises .error]⟩ : Connection ℚ Unit) ∧
    (1 : ℚ) = min (1 / 2 * 2 ^ sinceHealthy
      (fourAttempts.take 3 ++ [⟨⟨.error .error, []⟩, [], some 1⟩])) 30 := by
  refine ⟨by decide +kernel, (listener_timing ℚ Unit).1 _, ?_⟩
  refine (listener_timing ℚ Unit).2 "redis://cache" ["chat"] fourConnections _ _ [] 1 ?_ rfl
  decide +kernel

end PuppyTalk.Subscriber
