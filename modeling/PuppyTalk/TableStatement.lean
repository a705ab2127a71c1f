import PuppyTalk.Table
import PuppyTalk.TransactionRules

namespace PuppyTalk.Txn

/-- What a lock protects of the row under a key: a key share keeps it in the table, a stronger lock
keeps it as it is. -/
def SameRow [DecidableEq κ] (key : α → κ) (m : LockMode) (i : κ) (t t' : List α) : Prop :=
  if m = .keyShare then (Table.row key t i).isSome = (Table.row key t' i).isSome
  else Table.row key t i = Table.row key t' i

theorem SameRow.of_eq [DecidableEq κ] {key : α → κ} (h : Table.row key t i = Table.row key t' i) :
    SameRow key m i t t' := by
  unfold SameRow
  split
  · rw [h]
  · exact h

theorem SameRow.eq [DecidableEq κ] {key : α → κ} (h : SameRow key m i t t') (hm : m ≠ .keyShare) :
    Table.row key t i = Table.row key t' i := by
  unfold SameRow at h
  rwa [if_neg hm] at h

theorem SameRow.isSome [DecidableEq κ] {key : α → κ} (h : SameRow key m i t t') :
    (Table.row key t i).isSome = (Table.row key t' i).isSome := by
  unfold SameRow at h
  split at h
  · exact h
  · rw [h]

theorem SameRow.trans [DecidableEq κ] {key : α → κ} (h : SameRow key m i t t')
    (h' : SameRow key m i t' t'') : SameRow key m i t t'' := by
  unfold SameRow at h h' ⊢
  split at h
  · rename_i hm
    rw [if_pos hm] at h' ⊢
    exact h.trans h'
  · rename_i hm
    rw [if_neg hm] at h' ⊢
    exact h.trans h'

structure TableOf (D R : Type) [Rows D R] (α κ : Type) [DecidableEq κ] where
  rows : D → List α
  put : List α → D → D
  key : α → κ
  row : κ → R
  row_inj : ∀ {i j}, row i = row j → i = j
  rows_put : ∀ {l d}, rows (put l d) = l
  put_rows : ∀ {d}, put (rows d) d = d
  keyed : ∀ {d}, Rows.Valid d → Table.Keyed key (rows d)
  valid_put : ∀ {l d}, Rows.Valid d → Table.Keyed key l → Rows.Valid (put l d)
  agree_row : ∀ {m i d l}, SameRow key m i (rows d) l → Rows.Agree m (row i) d (put l d)
  agree_other : ∀ {m r l d}, (∀ i, r ≠ row i) → Rows.Agree m r d (put l d)
  same_row : ∀ {m i d d'}, Rows.Agree m (row i) d d' → SameRow key m i (rows d) (rows d')

namespace TableOf

variable {D R : Type} [Rows D R] {α κ : Type} [DecidableEq κ]

theorem agree {T : TableOf D R α κ} {d : D} (h : ∀ i, r = T.row i → SameRow T.key m i (T.rows d) l) :
    Rows.Agree m r d (T.put l d) := by
  by_cases hr : ∃ i, r = T.row i
  · obtain ⟨i, rfl⟩ := hr
    exact T.agree_row (h i rfl)
  · exact T.agree_other fun i hi => hr ⟨i, hi⟩

variable (T : TableOf D R α κ)

def rowOf (a : α) : R := T.row (T.key a)

def get (d : D) (k : κ) : Option α := Table.row T.key (T.rows d) k

theorem get_eq_some {d : D} (hd : Rows.Valid d) : T.get d k = some a ↔ a ∈ T.rows d ∧ T.key a = k := by
  apply Iff.intro
  · exact fun h => ⟨Table.row_mem h, Table.row_key h⟩
  · rintro ⟨ha, rfl⟩
    exact (T.keyed hd).row_eq ha

theorem get_eq_none {d : D} : T.get d k = none ↔ ∀ a ∈ T.rows d, T.key a ≠ k := by
  unfold get Table.row
  simp

theorem get_key {d : D} (h : T.get d k = some a) : T.key a = k := Table.row_key h

def modify (k : κ) (f : α → α) (d : D) : D :=
  T.put (Table.update (fun a => decide (T.key a = k)) f (T.rows d)) d

def remove (p : α → Bool) (d : D) : D := T.put (Table.delete p (T.rows d)) d

def add (a : α) (d : D) : D :=
  if (T.get d (T.key a)).isSome then d else T.put (T.rows d ++ [a]) d

variable {T}

theorem add_of_none {d : D} (h : T.get d (T.key a) = none) :
    T.add a d = T.put (T.rows d ++ [a]) d := by
  unfold add
  rw [h]
  rfl

theorem get_modify {f : α → α} (hf : ∀ a, T.key (f a) = T.key a) (k : κ) (d : D) (j : κ) :
    T.get (T.modify k f d) j = (T.get d j).map fun a => if j = k then f a else a := by
  unfold modify get
  rw [T.rows_put, Table.row_update hf]
  cases h : Table.row T.key (T.rows d) j with
  | none => rfl
  | some a => simp [Table.row_key h]

theorem get_add (a : α) (d : D) (j : κ) :
    T.get (T.add a d) j = if j = T.key a then (T.get d j).or (some a) else T.get d j := by
  cases hget : T.get d (T.key a) with
  | some b =>
    have hsame : T.add a d = d := by
      unfold add
      rw [hget]
      rfl
    rw [hsame]
    split
    · rename_i hj
      rw [hj, hget]
      rfl
    · rfl
  | none =>
    have hput : T.get (T.add a d) j = (T.get d j).or (if T.key a = j then some a else none) := by
      unfold get Table.row
      rw [add_of_none hget, T.rows_put, List.find?_append]
      simp [List.find?_singleton]
    rw [hput]
    split
    · rename_i hj
      rw [if_pos hj.symm]
    · rename_i hj
      rw [if_neg (Ne.symm hj), Option.or_none]

variable (T)

variable [DecidableEq R]

/-- `UPDATE ... WHERE`. The snapshot selects the rows and the new values may use it; a row that has
changed since is checked again. A change of a key column takes the strongest lock. -/
def update (select : D → α → Bool) (cond : α → Bool) (values : D → α → α) (ofKey : Bool)
    (hkey : ∀ d a, T.key (values d a) = T.key a) : Stmt D R where
  rows d := ((T.rows d).filter (select d)).map T.rowOf
  keeps d r := (T.rows d).any fun a => decide (T.rowOf a = r) && cond a
  mode _ := if ofKey then .update else .noKeyUpdate
  write snap locked d :=
    T.put (Table.update (fun a => decide (T.rowOf a ∈ locked)) (values snap) (T.rows d)) d
  valid snap locked d hd := T.valid_put hd ((T.keyed hd).update (hkey snap))
  frame snap locked d m r hfree := by
    apply agree
    rintro i rfl
    have hrow := Table.row_update (k := T.key) (p := fun a => decide (T.rowOf a ∈ locked))
      (hkey snap) (T.rows d) i
    by_cases hl : T.row i ∈ locked
    · have hm := hfree _ hl rfl
      cases ofKey with
      | true => exact absurd m.conflicts_update (by rw [show m.conflicts .update = false from hm]; decide)
      | false =>
        rw [LockMode.eq_keyShare hm, SameRow, if_pos rfl, hrow, Option.isSome_map]
    · apply SameRow.of_eq
      rw [hrow]
      cases hr : Table.row T.key (T.rows d) i with
      | none => rfl
      | some a =>
        have hk : T.rowOf a = T.row i := congrArg T.row (Table.row_key hr)
        simp [hk, hl]

/-- `DELETE ... WHERE`. -/
def delete (cond : α → Bool) : Stmt D R where
  rows d := ((T.rows d).filter cond).map T.rowOf
  keeps d r := (T.rows d).any fun a => decide (T.rowOf a = r) && cond a
  mode _ := .update
  write _ locked d := T.put (Table.delete (fun a => decide (T.rowOf a ∈ locked)) (T.rows d)) d
  valid snap locked d hd := by
    apply T.valid_put hd
    exact List.Nodup.sublist (List.filter_sublist.map _) (T.keyed hd)
  frame snap locked d m r hfree := by
    apply agree
    rintro i rfl
    have hl : T.row i ∉ locked := fun hl => absurd m.conflicts_update (by rw [hfree _ hl rfl]; decide)
    apply SameRow.of_eq
    rw [Table.row_delete_of_false]
    intro a _ hk
    have hk : T.rowOf a = T.row i := congrArg T.row hk
    simp [hk, hl]

/-- `INSERT`: the index entry is locked if no row has the key. The entries of further unique indexes
are taken with it. -/
def insert (a : α) (index : List R) (taken : D → R → Bool) : Stmt D R where
  rows _ := T.rowOf a :: index
  keeps d r := if r = T.rowOf a then !(T.rows d).any fun b => decide (T.key b = T.key a) else !taken d r
  mode _ := .update
  write _ locked d :=
    if (T.rowOf a :: index).all (fun r => decide (r ∈ locked)) &&
        !(T.rows d).any fun b => decide (T.key b = T.key a) then
      T.put (T.rows d ++ [a]) d
    else d
  valid snap locked d hd := by
    split
    · rename_i h
      simp only [Bool.and_eq_true, Bool.not_eq_true', List.any_eq_false, decide_eq_true_eq] at h
      exact T.valid_put hd ((T.keyed hd).append h.2)
    · exact hd
  frame snap locked d m r hfree := by
    split
    · rename_i h
      simp only [Bool.and_eq_true, List.all_cons, decide_eq_true_eq] at h
      apply agree
      rintro i rfl
      apply SameRow.of_eq
      rw [Table.row_append_of_ne]
      intro hk
      exact absurd m.conflicts_update (by rw [hfree _ h.1.1 (congrArg T.row hk)]; decide)
    · exact Rows.refl m r d

/-- `SELECT ... FOR SHARE` or `FOR KEY SHARE`; a foreign key is checked in this way. -/
def lockRows (cond : α → Bool) (mode : LockMode) : Stmt D R where
  rows d := ((T.rows d).filter cond).map T.rowOf
  keeps d r := (T.rows d).any fun a => decide (T.rowOf a = r) && cond a
  mode _ := mode
  write _ _ d := d
  valid _ _ _ hd := hd
  frame _ _ d m r _ := Rows.refl m r d

end TableOf

end PuppyTalk.Txn
