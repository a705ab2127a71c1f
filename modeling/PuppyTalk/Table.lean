import Mathlib.Data.List.Dedup
import Mathlib.Data.List.Nodup

namespace PuppyTalk.Table

variable {α β κ : Type} {t : List α}

/-- `UPDATE ... WHERE`. -/
def update (p : α → Bool) (f : α → α) (t : List α) : List α :=
  t.map fun r => if p r then f r else r

/-- `UPDATE ... WHERE ... RETURNING` for a condition that at most one row meets; the returned
value is computed from the row as it is after the update. -/
def updateReturning (p : α → Bool) (f : α → α) (ret : α → β) (t : List α) : Option β × List α :=
  ((t.find? p).map fun r => ret (f r), update p f t)

/-- `DELETE ... WHERE`. -/
def delete (p : α → Bool) (t : List α) : List α := t.filter fun r => !p r

def outerJoin (on : α → Bool) (t : List α) : List (Option α) :=
  match t.filter on with
  | [] => [none]
  | rows => rows.map some

/-- `SELECT k, count(*) ... GROUP BY k`. -/
def groupCount [DecidableEq κ] (k : α → κ) (t : List α) : List (κ × Nat) :=
  (t.map k).dedup.map fun i => (i, t.countP fun r => k r = i)

def row [DecidableEq κ] (k : α → κ) (t : List α) (i : κ) : Option α := t.find? fun r => k r = i

def Keyed (k : α → κ) (t : List α) : Prop := (t.map k).Nodup

instance [DecidableEq κ] (k : α → κ) (t : List α) : Decidable (Keyed k t) :=
  inferInstanceAs (Decidable (t.map k).Nodup)

theorem mem_update {p : α → Bool} {f : α → α} :
    r' ∈ update p f t ↔ ∃ r ∈ t, (if p r then f r else r) = r' := List.mem_map

theorem mem_delete {p : α → Bool} : r ∈ delete p t ↔ r ∈ t ∧ p r = false := by
  simp [delete]

theorem keyed_nil (k : α → κ) : Keyed k [] := List.nodup_nil

theorem Keyed.eq {k : α → κ} (h : Keyed k t) (hr : r ∈ t) (hs : s ∈ t) (he : k r = k s) : r = s :=
  List.inj_on_of_nodup_map h hr hs he

theorem key_update {k : α → κ} {p : α → Bool} {f : α → α} (hf : ∀ r, k (f r) = k r) (r : α) :
    k (if p r then f r else r) = k r := by
  split
  · exact hf r
  · rfl

theorem Keyed.update {k : α → κ} {p : α → Bool} {f : α → α} (h : Keyed k t)
    (hf : ∀ r, k (f r) = k r) : Keyed k (update p f t) := by
  have he : (Table.update p f t).map k = t.map k := by
    simp only [Table.update, List.map_map]
    exact List.map_congr_left fun r _ => key_update hf r
  unfold Keyed
  rw [he]
  exact h

theorem Keyed.append {k : α → κ} (h : Keyed k t) (hn : ∀ r ∈ t, k r ≠ k n) : Keyed k (t ++ [n]) := by
  unfold Keyed
  rw [List.map_append, List.map_singleton, List.nodup_append]
  refine ⟨h, List.nodup_singleton _, ?_⟩
  intro a ha b hb
  obtain ⟨r, hr, rfl⟩ := List.mem_map.mp ha
  rw [List.mem_singleton.mp hb]
  exact hn r hr

section Row
variable [DecidableEq κ] {k : α → κ}

theorem row_mem (h : row k t i = some r) : r ∈ t := List.mem_of_find?_eq_some h

theorem row_key (h : row k t i = some r) : k r = i := by
  simpa using List.find?_some h

theorem Keyed.row_eq (h : Keyed k t) (hr : r ∈ t) : row k t (k r) = some r := by
  cases hs : row k t (k r) with
  | none =>
    have hn := List.find?_eq_none.mp hs r hr
    simp at hn
  | some s => rw [h.eq (row_mem hs) hr (row_key hs)]

theorem row_update {p : α → Bool} {f : α → α} (hf : ∀ r, k (f r) = k r) (t : List α) (i : κ) :
    row k (update p f t) i = (row k t i).map fun r => if p r then f r else r := by
  unfold row update
  rw [List.find?_map]
  congr 2
  funext r
  simp only [Function.comp_apply, key_update hf r]

theorem row_append_of_mem (hr : r ∈ t) (hk : k r = i) (n : α) : row k (t ++ [n]) i = row k t i := by
  unfold row
  rw [List.find?_append]
  cases hs : t.find? fun r => decide (k r = i) with
  | none =>
    have hn := List.find?_eq_none.mp hs r hr
    simp [hk] at hn
  | some s => rfl

theorem row_append_of_ne (hk : k n ≠ i) : row k (t ++ [n]) i = row k t i := by
  unfold row
  rw [List.find?_append, List.find?_singleton, if_neg (by simpa using hk)]
  exact Option.or_none

theorem row_delete_of_false {p : α → Bool} (h : ∀ r ∈ t, k r = i → p r = false) :
    row k (delete p t) i = row k t i := by
  unfold row delete
  induction t with
  | nil => rfl
  | cons r t ih =>
    have iht := ih fun s hs => h s (List.mem_cons_of_mem _ hs)
    by_cases hk : k r = i
    · simp [h r List.mem_cons_self hk, hk]
    · cases hp : p r <;> simp [hp, hk, iht]

theorem Keyed.countP_key (h : Keyed k t) (hr : r ∈ t) : t.countP (fun s => k s = k r) = 1 := by
  have hc : (t.map k).count (k r) = 1 := List.count_eq_one_of_mem h (List.mem_map_of_mem hr)
  rw [List.count_eq_countP, List.countP_map] at hc
  rw [← hc]
  exact List.countP_congr fun s _ => by simp

end Row

theorem Keyed.find_eq_some (h : Keyed k t) {p : α → Bool} (hp : ∀ s, p s = true → k s = i)
    (hr : r ∈ t) (hpr : p r = true) : t.find? p = some r := by
  cases hs : t.find? p with
  | none => exact absurd hpr (List.find?_eq_none.mp hs r hr)
  | some s =>
    have hps : p s = true := List.find?_some hs
    rw [h.eq (List.mem_of_find?_eq_some hs) hr ((hp s hps).trans (hp r hpr).symm)]

theorem filter_eq_toList {p : α → Bool} (hn : t.Nodup)
    (hp : ∀ r ∈ t, ∀ s ∈ t, p r = true → p s = true → r = s) : t.filter p = (t.find? p).toList := by
  induction t with
  | nil => rfl
  | cons r t ih =>
    obtain ⟨hr, hn⟩ := List.nodup_cons.mp hn
    cases hpr : p r with
    | false =>
      rw [List.filter_cons_of_neg (by simp [hpr]), List.find?_cons_of_neg (by simp [hpr])]
      exact ih hn fun a ha b hb =>
        hp a (List.mem_cons_of_mem _ ha) b (List.mem_cons_of_mem _ hb)
    | true =>
      have hnone : t.filter p = [] := by
        refine List.filter_eq_nil_iff.mpr fun s hs hps => hr ?_
        rwa [hp r List.mem_cons_self s (List.mem_cons_of_mem _ hs) hpr hps]
      rw [List.filter_cons_of_pos hpr, List.find?_cons_of_pos hpr, hnone]
      rfl

theorem Keyed.nodup {k : α → κ} (h : Keyed k t) : t.Nodup := List.Nodup.of_map k h

theorem Keyed.filter_eq [DecidableEq κ] {k : α → κ} (h : Keyed k t) (i : κ) :
    t.filter (fun r => k r = i) = (row k t i).toList := by
  refine filter_eq_toList h.nodup fun r hr s hs hpr hps => h.eq hr hs ?_
  rw [of_decide_eq_true hpr, of_decide_eq_true hps]

theorem outerJoin_eq {p : α → Bool} (hn : t.Nodup)
    (hp : ∀ r ∈ t, ∀ s ∈ t, p r = true → p s = true → r = s) : outerJoin p t = [t.find? p] := by
  rw [outerJoin, filter_eq_toList hn hp]
  cases t.find? p <;> rfl

theorem outerJoin_groupCount [DecidableEq κ] (k : α → κ) (t : List α) (i : κ) :
    ∃ count, outerJoin (fun c => c.1 = i) (groupCount k t) = [count] ∧
      (count.map Prod.snd).getD 0 = t.countP fun r => k r = i := by
  have hkeys : Keyed Prod.fst (groupCount k t) := by
    unfold Keyed groupCount
    rw [List.map_map]
    exact (List.nodup_dedup _).map fun _ _ h => h
  refine ⟨_, outerJoin_eq hkeys.nodup fun a ha b hb hm hm' => hkeys.eq ha hb ?_, ?_⟩
  · rw [of_decide_eq_true hm, of_decide_eq_true hm']
  · by_cases hi : i ∈ t.map k
    · have hmem : (i, t.countP fun r => k r = i) ∈ groupCount k t :=
        List.mem_map_of_mem (f := fun j => (j, t.countP fun r => k r = j)) (List.mem_dedup.mpr hi)
      rw [hkeys.find_eq_some (fun s hs => of_decide_eq_true hs) hmem (decide_eq_true rfl)]
      rfl
    · have hnone : (groupCount k t).find? (fun c => c.1 = i) = none := by
        refine List.find?_eq_none.mpr fun c hc he => hi ?_
        obtain ⟨j, hj, rfl⟩ := List.mem_map.mp hc
        exact of_decide_eq_true he ▸ List.mem_dedup.mp hj
      rw [hnone, eq_comm]
      refine List.countP_eq_zero.mpr fun r hr he => hi ?_
      exact of_decide_eq_true he ▸ List.mem_map_of_mem hr

theorem update_eq_self {p : α → Bool} (f : α → α) (h : t.find? p = none) : update p f t = t := by
  unfold update
  refine (List.map_congr_left fun r hr => ?_).trans (List.map_id t)
  rw [if_neg (List.find?_eq_none.mp h r hr)]
  rfl

theorem filter_update {p q : α → Bool} {f : α → α} (h : ∀ r, q r = true → p (f r) = false) :
    (update q f t).filter p = t.filter fun r => !q r && p r := by
  induction t with
  | nil => rfl
  | cons r t ih =>
    have hcons : update q f (r :: t) = (if q r then f r else r) :: update q f t := rfl
    rw [hcons, List.filter_cons, List.filter_cons, ih]
    cases hq : q r with
    | true => simp [h r hq]
    | false => simp

theorem update_eq_self_iff {p : α → Bool} {f : α → α} (hf : ∀ r, p r = true → f r ≠ r) :
    update p f t = t ↔ t.any p = false := by
  constructor
  · intro h
    have hid : t.map (fun r => if p r then f r else r) = t.map id := h.trans (List.map_id t).symm
    refine List.any_eq_false.mpr fun r hr hp => hf r hp ?_
    simpa only [hp, if_true, id_eq] using List.map_eq_map_iff.mp hid r hr
  · intro h
    exact update_eq_self f (List.find?_eq_none.mpr (List.any_eq_false.mp h))

theorem countP_eq_add {p p' q w : α → Bool} {f : α → α}
    (h : ∀ r ∈ t, (p r).toNat = (p' (f r)).toNat + (q r).toNat + (w r).toNat) :
    t.countP p = (t.map f).countP p' + t.countP q + t.countP w := by
  induction t with
  | nil => rfl
  | cons r t ih =>
    have hr := h r List.mem_cons_self
    have iht := ih fun s hs => h s (List.mem_cons_of_mem _ hs)
    have hb (b : Bool) : (if b = true then 1 else 0) = b.toNat := by cases b <;> rfl
    simp only [List.map_cons, List.countP_cons, iht, hb]
    omega

theorem countP_add_congr {p q p' q' : α → Bool}
    (h : ∀ r ∈ t, (p r).toNat + (q r).toNat = (p' r).toNat + (q' r).toNat) :
    t.countP p + t.countP q = t.countP p' + t.countP q' := by
  induction t with
  | nil => rfl
  | cons r t ih =>
    have hr := h r List.mem_cons_self
    have iht := ih fun s hs => h s (List.mem_cons_of_mem _ hs)
    have hb (b : Bool) : (if b = true then 1 else 0) = b.toNat := by cases b <;> rfl
    simp only [List.countP_cons, hb]
    omega

theorem Keyed.countP_update [DecidableEq κ] {k : α → κ} (h : Keyed k t) (hr : row k t i = some r)
    (p : α → Bool) (f : α → α) :
    (Table.update (fun s => decide (k s = i)) f t).countP p + (p r).toNat =
      t.countP p + (p (f r)).toNat := by
  have hcount : t.countP p + t.countP (fun s => decide (k s = i) && p (f s)) =
      t.countP (fun s => p (if decide (k s = i) then f s else s)) +
        t.countP (fun s => decide (k s = i) && p s) := by
    apply countP_add_congr
    intro s _
    by_cases hs : k s = i <;> simp [hs, Nat.add_comm]
  have hone (q : α → Bool) : t.countP (fun s => decide (k s = i) && q s) = (q r).toNat := by
    have hfilter : t.countP (fun s => decide (k s = i) && q s) =
        (t.filter fun s => decide (k s = i)).countP q := by
      rw [List.countP_filter]
      exact List.countP_congr fun s _ => by simp [and_comm]
    rw [hfilter, h.filter_eq i, hr]
    cases hq : q r <;> simp [hq]
  rw [hone p, hone fun s => p (f s)] at hcount
  rw [Table.update, List.countP_map]
  exact hcount.symm

theorem countP_map_eq {p p' : α → Bool} {f : α → α} (h : ∀ r ∈ t, p' (f r) = p r) :
    (t.map f).countP p' = t.countP p := by
  rw [List.countP_map]
  exact List.countP_congr fun r hr => by simp [h r hr]

end PuppyTalk.Table
