import PuppyTalk.Run
import Mathlib.Algebra.Order.Field.Basic
import Mathlib.Algebra.Order.Floor.Ring
import Mathlib.Data.Rat.Floor
import Mathlib.Tactic.Linarith
import Mathlib.Tactic.NormNum

namespace PuppyTalk.RateLimit

structure LocalRejectionGate (R : Type) where
  closeThreshold : Int
  blockedUntil : R
  consecutiveRejections : Int

/-- A received frame: the clock, and what `check_fixed_window` answers if it is asked. -/
structure Frame (R : Type) where
  now : R
  limiter : Bool × Int

/-- What the gate says of a frame, with the answer of the limiter if it was consulted. -/
structure Verdict (R : Type) where
  now : R
  consulted : Option (Bool × Int)
  allowed : Bool
  retryAfter : Int
  shouldClose : Bool

namespace LocalRejectionGate

variable {R : Type} [Field R] [LinearOrder R] [IsStrictOrderedRing R] [FloorRing R]
  {g : LocalRejectionGate R}

def init (closeThreshold : Int) : LocalRejectionGate R := ⟨closeThreshold, 0, 0⟩

def check (g : LocalRejectionGate R) (f : Frame R) : Verdict R × LocalRejectionGate R :=
  let rejections := g.consecutiveRejections + 1
  if f.now < g.blockedUntil then
    (⟨f.now, none, false, ⌊g.blockedUntil - f.now⌋ + 1, decide (g.closeThreshold ≤ rejections)⟩,
      { g with consecutiveRejections := rejections })
  else if f.limiter.1 then
    (⟨f.now, some f.limiter, true, 0, false⟩, { g with consecutiveRejections := 0 })
  else
    (⟨f.now, some f.limiter, false, f.limiter.2, decide (g.closeThreshold ≤ rejections)⟩,
      { g with
        blockedUntil := max g.blockedUntil (f.now + (max f.limiter.2 1 : Int))
        consecutiveRejections := rejections })

structure Step (g : LocalRejectionGate R) (v : Verdict R) (g' : LocalRejectionGate R) : Prop where
  consults : v.consulted.isSome → g.blockedUntil ≤ v.now
  allows : v.allowed → ∃ r, v.consulted = some (true, r)
  blocked : g.blockedUntil ≤ g'.blockedUntil
  blocks : v.consulted = some (false, r) → v.now + (max r 1 : Int) ≤ g'.blockedUntil
  counts : g'.consecutiveRejections = if v.allowed then 0 else g.consecutiveRejections + 1
  closes : v.shouldClose ↔ v.allowed = false ∧ g.closeThreshold ≤ g'.consecutiveRejections
  threshold : g'.closeThreshold = g.closeThreshold

omit [IsStrictOrderedRing R] in
theorem check_step (g : LocalRejectionGate R) (f : Frame R) : Step g (g.check f).1 (g.check f).2 := by
  unfold check
  split
  · exact ⟨nofun, nofun, le_rfl, nofun, rfl, by simp, rfl⟩
  · rename_i hnow
    have hle : g.blockedUntil ≤ f.now := not_lt.mp hnow
    split
    · rename_i hans
      refine ⟨fun _ => hle, fun _ => ⟨f.limiter.2, ?_⟩, le_rfl, ?_, rfl, by simp, rfl⟩
      · rw [← hans]
      · intro r hr
        rw [Option.some.inj hr] at hans
        cases hans
    · refine ⟨fun _ => hle, nofun, le_max_left _ _, ?_, rfl, by simp, rfl⟩
      intro r hr
      rw [Option.some.inj hr]
      exact le_max_right _ _

omit [IsStrictOrderedRing R] in
theorem blockedUntil_le (g : LocalRejectionGate R) (frames : List (Frame R)) :
    ∀ v ∈ answers check g frames, v.consulted.isSome → g.blockedUntil ≤ v.now := by
  induction frames generalizing g with
  | nil => nofun
  | cons f frames ih =>
    intro v hv hc
    have hstep := check_step g f
    rcases List.mem_cons.mp hv with rfl | hv
    · exact hstep.consults hc
    · exact le_trans hstep.blocked (ih _ v hv hc)

omit [IsStrictOrderedRing R] in
theorem allowed_consulted (g : LocalRejectionGate R) (frames : List (Frame R)) :
    ∀ v ∈ answers check g frames, v.allowed → ∃ r, v.consulted = some (true, r) := by
  induction frames generalizing g with
  | nil => nofun
  | cons f frames ih =>
    intro v hv
    rcases List.mem_cons.mp hv with rfl | hv
    · exact (check_step g f).allows
    · exact ih _ v hv

def Spaced (v v' : Verdict R) : Prop :=
  ∀ r, v.consulted = some (false, r) → v'.consulted.isSome → v.now + (max r 1 : Int) ≤ v'.now

omit [IsStrictOrderedRing R] in
theorem answers_spaced (g : LocalRejectionGate R) (frames : List (Frame R)) :
    (answers check g frames).Pairwise Spaced := by
  induction frames generalizing g with
  | nil => exact .nil
  | cons f frames ih =>
    refine List.pairwise_cons.mpr ⟨fun v hv r hr hc => ?_, ih _⟩
    exact le_trans ((check_step g f).blocks hr) (blockedUntil_le _ frames v hv hc)

omit [FloorRing R] in
theorem length_le_of_spaced {l : List R} (h : l.Pairwise fun a b => a + 1 ≤ b)
    (hl : ∀ a ∈ l, t ≤ a ∧ a ≤ u) (htu : t ≤ u + 1) : (l.length : R) ≤ u - t + 1 := by
  induction l generalizing t with
  | nil =>
    simp only [List.length_nil, Nat.cast_zero]
    linarith
  | cons a l ih =>
    obtain ⟨ha, hsp⟩ := List.pairwise_cons.mp h
    obtain ⟨hta, hau⟩ := hl a List.mem_cons_self
    have hrest := ih hsp (t := a + 1) (fun b hb => ⟨ha b hb, (hl b (List.mem_cons_of_mem _ hb)).2⟩)
      (by linarith)
    rw [List.length_cons, Nat.cast_succ]
    linarith

def isRejectedConsultation (v : Verdict R) : Bool := v.consulted.any fun a => !a.1

def rejectedIn (t u : R) (v : Verdict R) : Bool :=
  isRejectedConsultation v && decide (t ≤ v.now ∧ v.now ≤ u)

omit [Field R] [LinearOrder R] [IsStrictOrderedRing R] [FloorRing R] in
theorem rejected_consulted {v : Verdict R} (h : isRejectedConsultation v = true) :
    ∃ r, v.consulted = some (false, r) := by
  unfold isRejectedConsultation at h
  cases hc : v.consulted with
  | none =>
    rw [hc] at h
    cases h
  | some a =>
    obtain ⟨b, r⟩ := a
    rw [hc] at h
    cases b with
    | false => exact ⟨r, rfl⟩
    | true => cases h

omit [FloorRing R] in
theorem Spaced.one_le {v v' : Verdict R} (h : Spaced v v') (hv : isRejectedConsultation v)
    (hv' : isRejectedConsultation v') : v.now + 1 ≤ v'.now := by
  obtain ⟨r, hr⟩ := rejected_consulted hv
  obtain ⟨r', hr'⟩ := rejected_consulted hv'
  have hle := h r hr (by rw [hr']; rfl)
  have hmax : (1 : R) ≤ (max r 1 : Int) := by exact_mod_cast le_max_right r 1
  linarith

theorem countP_rejectedIn (g : LocalRejectionGate R) (frames : List (Frame R)) {t T : R}
    (hT : 0 ≤ T) : ((answers check g frames).countP (rejectedIn t (t + T)) : R) ≤ T + 1 := by
  have hmem {v} (hv : v ∈ (answers check g frames).filter (rejectedIn t (t + T))) :
      isRejectedConsultation v = true ∧ t ≤ v.now ∧ v.now ≤ t + T := by
    have hp := (List.mem_filter.mp hv).2
    rwa [rejectedIn, Bool.and_eq_true, decide_eq_true_eq] at hp
  have hspaced : (((answers check g frames).filter (rejectedIn t (t + T))).map Verdict.now).Pairwise
      fun a b => a + 1 ≤ b := by
    refine List.pairwise_map.mpr (((answers_spaced g frames).filter _).imp_of_mem ?_)
    intro v v' hv hv' h
    exact h.one_le (hmem hv).1 (hmem hv').1
  have hlen := length_le_of_spaced (t := t) (u := t + T) hspaced ?_ (by linarith)
  · rw [List.length_map, ← List.countP_eq_length_filter] at hlen
    linarith
  · intro a ha
    obtain ⟨v, hv, rfl⟩ := List.mem_map.mp ha
    exact (hmem hv).2

def rejectionsSinceAllowed (l : List (Verdict R)) : Int :=
  (l.reverse.takeWhile fun v => !v.allowed).length

omit [Field R] [LinearOrder R] [IsStrictOrderedRing R] [FloorRing R] in
theorem rejectionsSinceAllowed_append (l : List (Verdict R)) (v : Verdict R) :
    rejectionsSinceAllowed (l ++ [v]) = if v.allowed then 0 else rejectionsSinceAllowed l + 1 := by
  cases hv : v.allowed <;> simp [rejectionsSinceAllowed, hv]

omit [IsStrictOrderedRing R] in
theorem closes_iff (seen : List (Verdict R)) (frames : List (Frame R))
    (hg : g.consecutiveRejections = rejectionsSinceAllowed seen)
    (h : answers check g frames = before ++ v :: after) :
    v.shouldClose ↔
      v.allowed = false ∧ g.closeThreshold ≤ rejectionsSinceAllowed (seen ++ before ++ [v]) := by
  induction frames generalizing g seen before with
  | nil => simp [answers] at h
  | cons f frames ih =>
    have hstep := check_step g f
    have hcount : (g.check f).2.consecutiveRejections =
        rejectionsSinceAllowed (seen ++ [(g.check f).1]) := by
      rw [hstep.counts, rejectionsSinceAllowed_append, hg]
    cases before with
    | nil =>
      obtain ⟨rfl, -⟩ := List.cons.inj h
      rw [List.append_nil, ← hcount]
      exact hstep.closes
    | cons w before =>
      obtain ⟨rfl, hrest⟩ := List.cons.inj h
      have hclose := ih _ hcount hrest
      rwa [hstep.threshold, List.append_assoc seen, List.singleton_append] at hclose

def twoFrames : List (Frame ℚ) := [⟨1, false, 5⟩, ⟨2, true, 0⟩]

def secondVerdict : Verdict ℚ := ⟨2, none, false, 5, true⟩

end LocalRejectionGate

end PuppyTalk.RateLimit
