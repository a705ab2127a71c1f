import Mathlib

namespace PuppyTalk

/-- What became of a command: a call may raise with or without its effect. -/
inductive Reply where
  | ok
  | raised
  | raisedAfter
  deriving DecidableEq, Repr

def Reply.took (r : Reply) : Bool := r ≠ .raised

def Reply.failed (r : Reply) : Bool := r ≠ .ok

@[simp] theorem Reply.took_ok : Reply.ok.took = true := rfl

@[simp] theorem Reply.failed_ok : Reply.ok.failed = false := rfl

/-- A command that answers `a` and has the effect `f`. -/
def Reply.command (r : Reply) (a : α) (f : σ → σ) (s : σ) : Option α × σ :=
  (if r.failed then none else some a, if r.took then f s else s)

abbrev KeyValue (V : Type) := String → Option V

namespace KeyValue

variable {V : Type}

def get (kv : KeyValue V) (k : String) : Option V := kv k

def set (kv : KeyValue V) (k : String) (v : V) : KeyValue V := Function.update kv k (some v)

def del (kv : KeyValue V) (k : String) : KeyValue V := Function.update kv k none

/-- `SET ... NX`, with the reply whether the key was written. -/
def setNx (kv : KeyValue V) (k : String) (v : V) : Bool × KeyValue V :=
  if (kv.get k).isSome then (false, kv) else (true, kv.set k v)

def delIfEq [DecidableEq V] (kv : KeyValue V) (k : String) (v : V) : KeyValue V :=
  if kv.get k = some v then kv.del k else kv

@[simp] theorem get_set_self (kv : KeyValue V) (k : String) (v : V) :
    (kv.set k v).get k = some v := by
  simp [get, set]

theorem get_set_of_ne (kv : KeyValue V) (v : V) (h : k' ≠ k) :
    (kv.set k v).get k' = kv.get k' := by
  simp [get, set, h]

@[simp] theorem get_del_self (kv : KeyValue V) (k : String) : (kv.del k).get k = none := by
  simp [get, del]

theorem get_del_of_ne (kv : KeyValue V) (h : k' ≠ k) : (kv.del k).get k' = kv.get k' := by
  simp [get, del, h]

theorem setNx_free {kv : KeyValue V} (v : V) (h : kv.get k = none) :
    kv.setNx k v = (true, kv.set k v) := by
  simp [setNx, h]

theorem setNx_held {kv : KeyValue V} (v : V) (h : kv.get k = some w) :
    kv.setNx k v = (false, kv) := by
  simp [setNx, h]

theorem delIfEq_eq [DecidableEq V] {kv : KeyValue V} (h : kv.get k = some v) :
    kv.delIfEq k v = kv.del k := by
  simp [delIfEq, h]

theorem delIfEq_ne [DecidableEq V] {kv : KeyValue V} (h : kv.get k ≠ some v) :
    kv.delIfEq k v = kv := by
  simp [delIfEq, h]

theorem append_ne_append {p q : String} (n : Nat) (hp : n ≤ p.toList.length)
    (hq : n ≤ q.toList.length) (h : p.toList.take n ≠ q.toList.take n) (x y : String) :
    p ++ x ≠ q ++ y := by
  intro he
  have hl := congrArg (fun s => s.toList.take n) he
  simp only [String.toList_append, List.take_append_of_le_length hp,
    List.take_append_of_le_length hq] at hl
  exact h hl

end KeyValue

abbrev TimedKeyValue (R V : Type) := String → Option (V × R)

namespace TimedKeyValue

variable {R V : Type} [LinearOrder R]

/-- `GET` at a time. -/
def get (kv : TimedKeyValue R V) (k : String) (t : R) : Option V :=
  match kv k with
  | none => none
  | some (v, expiry) => if t < expiry then some v else none

/-- `GET` on a server that still answers in the last instant of a lifetime. -/
def read (kv : TimedKeyValue R V) (k : String) (t : R) : Option V :=
  match kv k with
  | none => none
  | some (v, expiry) => if t ≤ expiry then some v else none

/-- `SET ... EX n` at a time. -/
def setEx [Add R] (kv : TimedKeyValue R V) (k : String) (v : V) (t n : R) : TimedKeyValue R V :=
  Function.update kv k (some (v, t + n))

def del (kv : TimedKeyValue R V) (k : String) : TimedKeyValue R V := Function.update kv k none

theorem get_setEx_self [Add R] (kv : TimedKeyValue R V) (k : String) (v : V) (t n t' : R) :
    (kv.setEx k v t n).get k t' = if t' < t + n then some v else none := by
  simp [get, setEx]

theorem get_del_of_ne (kv : TimedKeyValue R V) (t : R) (h : k' ≠ k) :
    (kv.del k).get k' t = kv.get k' t := by
  simp [get, del, h]

omit [LinearOrder R] in
theorem del_eq_some {kv : TimedKeyValue R V} (h : kv.del k k' = some x) : kv k' = some x := by
  by_cases hk : k' = k
  · subst hk
    simp only [TimedKeyValue.del, Function.update_self] at h
    cases h
  · rwa [TimedKeyValue.del, Function.update_of_ne hk] at h

omit [LinearOrder R] in
theorem setEx_eq_some [Add R] {kv : TimedKeyValue R V} (h : kv.setEx k v t n k' = some x) :
    (k' = k ∧ x = (v, t + n)) ∨ kv k' = some x := by
  by_cases hk : k' = k
  · subst hk
    rw [TimedKeyValue.setEx, Function.update_self] at h
    cases h
    exact .inl ⟨rfl, rfl⟩
  · rw [TimedKeyValue.setEx, Function.update_of_ne hk] at h
    exact .inr h

theorem read_eq_some {kv : TimedKeyValue R V} (h : kv.read k t = some v) :
    ∃ expiry, kv k = some (v, expiry) ∧ t ≤ expiry := by
  unfold read at h
  split at h
  · cases h
  · rename_i w expiry hk
    split at h
    · cases h
      exact ⟨expiry, hk, by assumption⟩
    · cases h

theorem get_none_of_le {kv : TimedKeyValue R V} (h : kv.get k t = none) (ht : t ≤ t') :
    kv.get k t' = none := by
  simp only [get] at h ⊢
  split at h
  · rfl
  · split at h
    · cases h
    · rename_i hexp
      exact if_neg (not_lt.mpr (le_trans (not_lt.mp hexp) ht))

end TimedKeyValue

end PuppyTalk
