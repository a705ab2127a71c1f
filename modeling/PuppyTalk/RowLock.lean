import Mathlib.Data.List.Basic

namespace PuppyTalk

/-- The row locks of PostgreSQL, from the weakest to the strongest. -/
inductive LockMode where
  | keyShare
  | share
  | noKeyUpdate
  | update
  deriving DecidableEq, Repr

namespace LockMode

def strength : LockMode → Nat
  | keyShare => 0
  | share => 1
  | noKeyUpdate => 2
  | update => 3

def conflicts : LockMode → LockMode → Bool
  | keyShare, update => true
  | share, noKeyUpdate => true
  | share, update => true
  | noKeyUpdate, share => true
  | noKeyUpdate, noKeyUpdate => true
  | noKeyUpdate, update => true
  | update, _ => true
  | _, _ => false

theorem conflicts_comm (m k : LockMode) : m.conflicts k = k.conflicts m := by
  cases m <;> cases k <;> rfl

theorem conflicts_mono {m m' k k' : LockMode} (hm : m.strength ≤ m'.strength)
    (hk : k.strength ≤ k'.strength) (h : m.conflicts k = true) : m'.conflicts k' = true := by
  cases m <;> cases k <;> cases m' <;> cases k' <;> simp_all [strength, conflicts]

theorem conflicts_update (m : LockMode) : m.conflicts update = true := by
  cases m <;> rfl

theorem eq_keyShare {m : LockMode} (h : m.conflicts noKeyUpdate = false) : m = keyShare := by
  cases m <;> first | rfl | cases h

end LockMode

structure Lock (τ ρ : Type) where
  holder : τ
  row : ρ
  mode : LockMode
  deriving DecidableEq, Repr

abbrev LockTable (τ ρ : Type) := List (Lock τ ρ)

structure Scan (ρ : Type) where
  locked : List ρ
  waiting : List ρ
  deriving DecidableEq, Repr

namespace LockTable

variable {τ ρ : Type} {t : LockTable τ ρ} {tx other : τ} {r : ρ} {m k : LockMode}

def acquire (t : LockTable τ ρ) (tx : τ) (mode : ρ → LockMode) (rows : List ρ) : LockTable τ ρ :=
  rows.map (fun r => ⟨tx, r, mode r⟩) ++ t

section Operations
variable [DecidableEq τ] [DecidableEq ρ]

def available (t : LockTable τ ρ) (tx : τ) (m : LockMode) (r : ρ) : Bool :=
  t.all fun l => l.row ≠ r || l.holder = tx || !l.mode.conflicts m

def release (t : LockTable τ ρ) (tx : τ) : LockTable τ ρ := t.filter fun l => l.holder ≠ tx

/-- A statement begins: it locks the rows of its snapshot that are free and waits for the others. -/
def start (t : LockTable τ ρ) (tx : τ) (mode : ρ → LockMode) (rows : List ρ) :
    Scan ρ × LockTable τ ρ :=
  let free := rows.filter fun r => t.available tx (mode r) r
  ({ locked := free, waiting := rows.filter fun r => !t.available tx (mode r) r },
    t.acquire tx mode free)

/-- A row that was waited for is free: the statement rechecks its condition and locks the row or
passes over it. -/
def resume (t : LockTable τ ρ) (tx : τ) (mode : ρ → LockMode) (recheck : ρ → Bool) (sc : Scan ρ)
    (r : ρ) : Option (Scan ρ × LockTable τ ρ) :=
  if r ∈ sc.waiting ∧ t.available tx (mode r) r then
    let waiting := sc.waiting.filter fun w => w ≠ r
    if recheck r then some ({ locked := r :: sc.locked, waiting := waiting }, t.acquire tx mode [r])
    else some ({ locked := sc.locked, waiting := waiting }, t)
  else none

end Operations

def AtLeast (t : LockTable τ ρ) (tx : τ) (r : ρ) (m : LockMode) : Prop :=
  ∃ l ∈ t, l.holder = tx ∧ l.row = r ∧ m.strength ≤ l.mode.strength

def Compatible (t : LockTable τ ρ) : Prop :=
  ∀ l ∈ t, ∀ l' ∈ t, l.row = l'.row → l.mode.conflicts l'.mode = true → l.holder = l'.holder

def SameExcept (t t' : LockTable τ ρ) (tx : τ) : Prop := ∀ l, l.holder ≠ tx → (l ∈ t' ↔ l ∈ t)

theorem compatible_nil : Compatible ([] : LockTable τ ρ) := by
  intro l hl
  cases hl

theorem Compatible.holder_eq (h : Compatible t) (ha : AtLeast t tx r m) (hb : AtLeast t other r k)
    (hc : m.conflicts k = true) : tx = other := by
  obtain ⟨l, hl, rfl, rfl, hm⟩ := ha
  obtain ⟨l', hl', rfl, hr, hk⟩ := hb
  exact h l hl l' hl' hr.symm (LockMode.conflicts_mono hm hk hc)

theorem AtLeast.mono (h : AtLeast t tx r m) (hk : k.strength ≤ m.strength) : AtLeast t tx r k := by
  obtain ⟨l, hl, hh, hr, hm⟩ := h
  exact ⟨l, hl, hh, hr, Nat.le_trans hk hm⟩

theorem AtLeast.subset (h : AtLeast t tx r m) (hs : ∀ l ∈ t, l.holder = tx → l ∈ t') :
    AtLeast t' tx r m := by
  obtain ⟨l, hl, hh, hr, hm⟩ := h
  exact ⟨l, hs l hl hh, hh, hr, hm⟩

theorem SameExcept.atLeast {t' : LockTable τ ρ} (h : SameExcept t t' tx) (hne : other ≠ tx) :
    AtLeast t' other r m ↔ AtLeast t other r m := by
  apply Iff.intro
  · intro ha
    exact ha.subset fun l hl hh => (h l (hh ▸ hne)).mp hl
  · intro ha
    exact ha.subset fun l hl hh => (h l (hh ▸ hne)).mpr hl

theorem SameExcept.refl (t : LockTable τ ρ) (tx : τ) : SameExcept t t tx := fun _ _ => Iff.rfl

variable {mode : ρ → LockMode} {rows : List ρ}

theorem mem_acquire {l : Lock τ ρ} :
    l ∈ t.acquire tx mode rows ↔ (∃ r ∈ rows, ⟨tx, r, mode r⟩ = l) ∨ l ∈ t := by
  simp [acquire]

theorem atLeast_acquire (hr : r ∈ rows) : AtLeast (t.acquire tx mode rows) tx r (mode r) :=
  ⟨⟨tx, r, mode r⟩, mem_acquire.mpr (.inl ⟨r, hr, rfl⟩), rfl, rfl, Nat.le_refl _⟩

theorem sameExcept_acquire : SameExcept t (t.acquire tx mode rows) tx := by
  intro l hne
  rw [mem_acquire, or_iff_right]
  rintro ⟨r, _, rfl⟩
  exact hne rfl

section Release
variable [DecidableEq τ]

theorem mem_release {l : Lock τ ρ} : l ∈ t.release tx ↔ l ∈ t ∧ l.holder ≠ tx := by
  simp [release]

theorem Compatible.release (h : Compatible t) (tx : τ) : Compatible (t.release tx) := by
  intro l hl l' hl'
  exact h l (mem_release.mp hl).1 l' (mem_release.mp hl').1

theorem sameExcept_release : SameExcept t (t.release tx) tx := by
  intro l hne
  exact mem_release.trans (and_iff_left hne)

end Release

section Operations
variable [DecidableEq τ] [DecidableEq ρ]

theorem available_iff : t.available tx m r = true ↔
    ∀ l ∈ t, l.row = r → l.mode.conflicts m = true → l.holder = tx := by
  simp only [available, List.all_eq_true, Bool.or_eq_true, decide_eq_true_eq, Bool.not_eq_true']
  apply forall₂_congr
  intro l _
  cases l.mode.conflicts m <;> simp [imp_iff_not_or]

theorem Compatible.acquire (h : Compatible t)
    (hfree : ∀ r ∈ rows, t.available tx (mode r) r = true) : Compatible (t.acquire tx mode rows) := by
  intro l hl l' hl' hrow hc
  rcases mem_acquire.mp hl with ⟨r, hr, rfl⟩ | hl <;> rcases mem_acquire.mp hl' with ⟨r', hr', rfl⟩ | hl'
  · rfl
  · exact (available_iff.mp (hfree r hr) l' hl' hrow.symm (LockMode.conflicts_comm _ _ ▸ hc)).symm
  · exact available_iff.mp (hfree r' hr') l hl hrow hc
  · exact h l hl l' hl' hrow hc

theorem Compatible.start (h : Compatible t) (tx : τ) (mode : ρ → LockMode) (rows : List ρ) :
    Compatible (t.start tx mode rows).2 := by
  apply h.acquire
  intro r hr
  exact (List.mem_filter.mp hr).2

theorem mem_start (hr : r ∈ rows) : r ∈ (t.start tx mode rows).1.locked ∨
    r ∈ (t.start tx mode rows).1.waiting := by
  cases ha : t.available tx (mode r) r with
  | true => exact .inl (List.mem_filter.mpr ⟨hr, ha⟩)
  | false => exact .inr (List.mem_filter.mpr ⟨hr, by rw [ha]; rfl⟩)

theorem start_locked (hr : r ∈ (t.start tx mode rows).1.locked) :
    r ∈ rows ∧ AtLeast (t.start tx mode rows).2 tx r (mode r) :=
  ⟨(List.mem_filter.mp hr).1, atLeast_acquire hr⟩

inductive Resumed (t : LockTable τ ρ) (tx : τ) (mode : ρ → LockMode) (recheck : ρ → Bool)
    (sc : Scan ρ) (r : ρ) : Scan ρ → LockTable τ ρ → Prop where
  | locks (hfree : t.available tx (mode r) r = true) (hc : recheck r = true) :
      Resumed t tx mode recheck sc r
        ⟨r :: sc.locked, sc.waiting.filter fun w => w ≠ r⟩ (t.acquire tx mode [r])
  | skips (hc : recheck r = false) :
      Resumed t tx mode recheck sc r ⟨sc.locked, sc.waiting.filter fun w => w ≠ r⟩ t

theorem resume_some {recheck : ρ → Bool} {sc sc' : Scan ρ}
    (h : t.resume tx mode recheck sc r = some (sc', t')) :
    Resumed t tx mode recheck sc r sc' t' := by
  unfold resume at h
  split at h
  · rename_i hw
    dsimp only at h
    split at h
    · rename_i hc
      cases h
      exact .locks hw.2 hc
    · rename_i hc
      cases h
      exact .skips (Bool.eq_false_iff.mpr hc)
  · cases h

theorem Resumed.compatible {recheck : ρ → Bool} {sc sc' : Scan ρ}
    (hr : Resumed t tx mode recheck sc r sc' t') (h : Compatible t) : Compatible t' := by
  cases hr with
  | locks hfree _ =>
    apply h.acquire
    intro r' hr'
    rw [List.mem_singleton.mp hr']
    exact hfree
  | skips => exact h

theorem Resumed.sameExcept {recheck : ρ → Bool} {sc sc' : Scan ρ}
    (hr : Resumed t tx mode recheck sc r sc' t') : SameExcept t t' tx := by
  cases hr with
  | locks => exact sameExcept_acquire
  | skips => exact .refl t tx

theorem resume_mem {recheck : ρ → Bool} {sc : Scan ρ} {p : Scan ρ × LockTable τ ρ}
    (h : t.resume tx mode recheck sc r = some p) : r ∈ sc.waiting := by
  unfold resume at h
  split at h
  · rename_i hw
    exact hw.1
  · cases h

theorem Resumed.subset {recheck : ρ → Bool} {sc sc' : Scan ρ}
    (hr : Resumed t tx mode recheck sc r sc' t') : ∀ l ∈ t, l ∈ t' := by
  intro l hl
  cases hr with
  | locks => exact mem_acquire.mpr (.inr hl)
  | skips => exact hl

theorem Resumed.locked {recheck : ρ → Bool} {sc sc' : Scan ρ}
    (hr : Resumed t tx mode recheck sc r sc' t') (h : x ∈ sc'.locked) :
    x ∈ sc.locked ∨ recheck x = true ∧ AtLeast t' tx x (mode x) := by
  cases hr with
  | locks _ hc =>
    rcases List.mem_cons.mp h with rfl | h
    · exact .inr ⟨hc, atLeast_acquire (List.mem_singleton.mpr rfl)⟩
    · exact .inl h
  | skips => exact .inl h

end Operations

end LockTable

end PuppyTalk
