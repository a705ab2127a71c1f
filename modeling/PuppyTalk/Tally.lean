import Mathlib.Data.List.Nodup

namespace PuppyTalk

/-- Targets with a counter, and links from owners to targets. A counter need not be exact for every
target. -/
structure Tally (κ υ : Type) where
  count : κ → Option Int
  exact : κ → Bool
  links : List (κ × υ)

namespace Tally

variable {κ υ : Type} [DecidableEq κ] {x y : Tally κ υ} {sel : υ → Bool}

def linksOf (x : Tally κ υ) (i : κ) (sel : υ → Bool) : Nat :=
  x.links.countP fun l => decide (l.1 = i) && sel l.2

def total (x : Tally κ υ) (i : κ) : Nat := x.links.countP fun l => decide (l.1 = i)

structure Ok (x : Tally κ υ) : Prop where
  nodup : x.links.Nodup
  target : ∀ l ∈ x.links, (x.count l.1).isSome = true
  le : ∀ i n, x.count i = some n → x.total i ≤ n
  eq : ∀ i n, x.count i = some n → x.exact i = true → x.total i = n

/-- A step in which no selected owner takes part: their links to a target stay, as long as its
counter is exact, and the counter does not come closer to the number of the other links. -/
structure Keeps (sel : υ → Bool) (x y : Tally κ υ) : Prop where
  count : ∀ i, (y.count i).isSome = (x.count i).isSome
  exact : ∀ i, y.exact i = true → x.exact i = true
  links : ∀ i, y.exact i = true → y.linksOf i sel = x.linksOf i sel
  slack : ∀ i n m, x.count i = some n → y.count i = some m →
    n - x.linksOf i (fun u => !sel u) ≤ m - y.linksOf i fun u => !sel u
  sub : ∀ l ∈ y.links, sel l.2 = true → l ∈ x.links

/-- The numbers `n` of links of the selected owners were counted, and no selected owner has taken
part in a step since. -/
structure Counted (n : κ → Nat) (sel : υ → Bool) (x : Tally κ υ) : Prop where
  le : ∀ i c, x.count i = some c → n i + x.linksOf i (fun u => !sel u) ≤ c
  eq : ∀ i, x.exact i = true → x.linksOf i sel = n i

theorem countP_and_add (p q : α → Bool) (l : List α) :
    l.countP p = l.countP (fun a => p a && q a) + l.countP fun a => p a && !q a := by
  induction l with
  | nil => rfl
  | cons a l ih =>
    simp only [List.countP_cons, ih]
    cases p a <;> cases q a <;> simp <;> omega

theorem total_eq (x : Tally κ υ) (i : κ) (sel : υ → Bool) :
    x.total i = x.linksOf i sel + x.linksOf i fun u => !sel u :=
  countP_and_add (fun l : κ × υ => decide (l.1 = i)) (fun l => sel l.2) x.links

theorem Ok.counted (h : x.Ok) (sel : υ → Bool) : x.Counted (fun i => x.linksOf i sel) sel := by
  apply Counted.mk
  · intro i c hc
    have hle := h.le i c hc
    rw [x.total_eq i sel] at hle
    exact_mod_cast hle
  · exact fun _ _ => rfl

theorem Counted.keeps (h : x.Counted n sel) (hk : Keeps sel x y) : y.Counted n sel := by
  apply Counted.mk
  · intro i m hm
    cases hn : x.count i with
    | none =>
      have hc := hk.count i
      rw [hm, hn] at hc
      cases hc
    | some c =>
      have hle := h.le i c hn
      have hs := hk.slack i c m hn hm
      omega
  · intro i hi
    rw [hk.links i hi]
    exact h.eq i (hk.exact i hi)

structure Adds (i : κ) (u : υ) (x y : Tally κ υ) : Prop where
  fresh : (i, u) ∉ x.links
  target : (x.count i).isSome = true
  count : ∀ j, y.count j = (x.count j).map fun n => if j = i then n + 1 else n
  exact : ∀ j, y.exact j = x.exact j
  links : y.links = x.links ++ [(i, u)]

theorem Adds.total (h : Adds i u x y) (j : κ) : y.total j = x.total j + if j = i then 1 else 0 := by
  unfold Tally.total
  rw [h.links, List.countP_append, List.countP_singleton]
  by_cases hj : j = i
  · simp [hj]
  · simp [hj, Ne.symm hj]

theorem Adds.linksOf (h : Adds i u x y) (j : κ) (sel : υ → Bool) :
    y.linksOf j sel = x.linksOf j sel + if j = i ∧ sel u = true then 1 else 0 := by
  unfold Tally.linksOf
  rw [h.links, List.countP_append, List.countP_singleton]
  by_cases hj : j = i
  · simp [hj]
  · simp [hj, Ne.symm hj]

theorem Adds.ok (h : Adds i u x y) (hx : x.Ok) : y.Ok := by
  apply Ok.mk
  · rw [h.links]
    apply hx.nodup.append (List.nodup_singleton _)
    intro l hl hl'
    rw [List.mem_singleton.mp hl'] at hl
    exact h.fresh hl
  · intro l hl
    rw [h.count, Option.isSome_map]
    rw [h.links] at hl
    rcases List.mem_append.mp hl with hl | hl
    · exact hx.target l hl
    · rw [List.mem_singleton.mp hl]
      exact h.target
  · intro j m hm
    rw [h.count] at hm
    obtain ⟨n, hn, rfl⟩ := Option.map_eq_some_iff.mp hm
    have hle := hx.le j n hn
    rw [h.total]
    split <;> push_cast <;> omega
  · intro j m hm hj
    rw [h.count] at hm
    obtain ⟨n, hn, rfl⟩ := Option.map_eq_some_iff.mp hm
    have heq := hx.eq j n hn (h.exact j ▸ hj)
    rw [h.total]
    split <;> push_cast <;> omega

theorem Adds.keeps (h : Adds i u x y) (hu : sel u = false) : Keeps sel x y := by
  apply Keeps.mk
  · intro j
    rw [h.count, Option.isSome_map]
  · exact fun j hj => h.exact j ▸ hj
  · intro j _
    rw [h.linksOf, hu]
    simp
  · intro j n m hn hm
    rw [h.count, hn] at hm
    cases hm
    rw [h.linksOf, hu]
    simp only [Bool.not_false, and_true]
    split <;> omega
  · intro l hl hs
    rw [h.links] at hl
    rcases List.mem_append.mp hl with hl | hl
    · exact hl
    · rw [List.mem_singleton.mp hl, hu] at hs
      cases hs

structure Removes (i : κ) (u : υ) (x y : Tally κ υ) : Prop where
  count : ∀ j, y.count j = (x.count j).map fun n => if j = i then max (n - 1) 0 else n
  exact : ∀ j, y.exact j = x.exact j
  links : x.links.Perm ((i, u) :: y.links)

theorem Removes.total (h : Removes i u x y) (j : κ) :
    x.total j = y.total j + if j = i then 1 else 0 := by
  unfold Tally.total
  rw [h.links.countP_eq, List.countP_cons]
  by_cases hj : j = i
  · simp [hj]
  · simp [hj, Ne.symm hj]

theorem Removes.linksOf (h : Removes i u x y) (j : κ) (sel : υ → Bool) :
    x.linksOf j sel = y.linksOf j sel + if j = i ∧ sel u = true then 1 else 0 := by
  unfold Tally.linksOf
  rw [h.links.countP_eq, List.countP_cons]
  by_cases hj : j = i
  · simp [hj]
  · simp [hj, Ne.symm hj]

theorem Ok.one_le (h : x.Ok) (hl : (i, u) ∈ x.links) (hc : x.count i = some n) : 1 ≤ n := by
  have hle := h.le i n hc
  have hpos : 0 < x.total i := List.countP_pos_iff.mpr ⟨_, hl, decide_eq_true rfl⟩
  omega

theorem Removes.mem (h : Removes i u x y) : (i, u) ∈ x.links := h.links.mem_iff.mpr List.mem_cons_self

theorem Removes.ok (h : Removes i u x y) (hx : x.Ok) : y.Ok := by
  apply Ok.mk
  · exact (List.nodup_cons.mp (h.links.nodup_iff.mp hx.nodup)).2
  · intro l hl
    rw [h.count, Option.isSome_map]
    exact hx.target l (h.links.mem_iff.mpr (List.mem_cons_of_mem _ hl))
  · intro j m hm
    rw [h.count] at hm
    obtain ⟨n, hn, rfl⟩ := Option.map_eq_some_iff.mp hm
    have hle := hx.le j n hn
    rw [h.total] at hle
    by_cases hj : j = i
    · simp [hj] at hle ⊢
      omega
    · simpa [hj] using hle
  · intro j m hm hj
    rw [h.count] at hm
    obtain ⟨n, hn, rfl⟩ := Option.map_eq_some_iff.mp hm
    have heq := hx.eq j n hn (h.exact j ▸ hj)
    rw [h.total] at heq
    by_cases hji : j = i
    · simp [hji] at heq ⊢
      omega
    · simpa [hji] using heq

theorem Removes.keeps (h : Removes i u x y) (hx : x.Ok) (hu : sel u = false) : Keeps sel x y := by
  apply Keeps.mk
  · intro j
    rw [h.count, Option.isSome_map]
  · exact fun j hj => h.exact j ▸ hj
  · intro j _
    rw [h.linksOf j sel, hu]
    simp
  · intro j n m hn hm
    rw [h.count, hn] at hm
    cases hm
    rw [h.linksOf j, hu]
    by_cases hj : j = i
    · subst hj
      have hpos := hx.one_le h.mem hn
      simp
      omega
    · simp [hj]
  · exact fun l hl _ => h.links.mem_iff.mpr (List.mem_cons_of_mem _ hl)

structure Drops (p : κ × υ → Bool) (x y : Tally κ υ) : Prop where
  count : ∀ i, y.count i = x.count i
  exact : ∀ i, y.exact i = true → x.exact i = true
  links : y.links = x.links.filter p
  kept : ∀ l ∈ x.links, y.exact l.1 = true → p l = true

theorem Drops.countP_eq (h : Drops p x y) (hi : y.exact i = true) (sel : κ × υ → Bool) :
    (y.links.countP fun l => decide (l.1 = i) && sel l) =
      x.links.countP fun l => decide (l.1 = i) && sel l := by
  rw [h.links, List.countP_filter]
  apply List.countP_congr
  intro l hl
  by_cases hli : l.1 = i
  · rw [h.kept l hl (hli ▸ hi), Bool.and_true]
  · simp [hli]

omit [DecidableEq κ] in
theorem Drops.countP_le (h : Drops p x y) (q : κ × υ → Bool) : y.links.countP q ≤ x.links.countP q := by
  rw [h.links]
  exact List.filter_sublist.countP_le

theorem Drops.ok (h : Drops p x y) (hx : x.Ok) : y.Ok := by
  apply Ok.mk
  · rw [h.links]
    exact hx.nodup.filter _
  · intro l hl
    rw [h.links] at hl
    rw [h.count]
    exact hx.target l (List.mem_of_mem_filter hl)
  · intro i n hn
    have hle := hx.le i n (h.count i ▸ hn)
    have hsub : y.total i ≤ x.total i := h.countP_le _
    omega
  · intro i n hn hi
    rw [← hx.eq i n (h.count i ▸ hn) (h.exact i hi)]
    have he := h.countP_eq hi fun _ => true
    simp only [Bool.and_true] at he
    exact_mod_cast he

theorem Drops.keeps (h : Drops p x y) : Keeps sel x y := by
  apply Keeps.mk
  · exact fun i => by rw [h.count]
  · exact h.exact
  · exact fun i hi => h.countP_eq hi fun l => sel l.2
  · intro i n m hn hm
    rw [h.count, hn] at hm
    cases hm
    have hsub := h.countP_le fun l => decide (l.1 = i) && !sel l.2
    simp only [Tally.linksOf]
    omega
  · intro l hl _
    rw [h.links] at hl
    exact List.mem_of_mem_filter hl

structure Purges (n : κ → Nat) (sel : υ → Bool) (x y : Tally κ υ) : Prop where
  count : ∀ i, y.count i = (x.count i).map fun c : Int => max (c - n i) 0
  exact : ∀ i, y.exact i = x.exact i
  links : y.links = x.links.filter fun l => !sel l.2

theorem Purges.total (h : Purges n sel x y) (i : κ) :
    y.total i = x.linksOf i fun u => !sel u := by
  unfold Tally.total Tally.linksOf
  rw [h.links, List.countP_filter]

theorem Purges.ok (h : Purges n sel x y) (hx : x.Ok) (hc : x.Counted n sel) : y.Ok := by
  apply Ok.mk
  · rw [h.links]
    exact hx.nodup.filter _
  · intro l hl
    rw [h.links] at hl
    rw [h.count, Option.isSome_map]
    exact hx.target l (List.mem_of_mem_filter hl)
  · intro i m hm
    rw [h.count] at hm
    obtain ⟨c, hci, rfl⟩ := Option.map_eq_some_iff.mp hm
    have hle := hc.le i c hci
    rw [h.total]
    omega
  · intro i m hm hi
    rw [h.count] at hm
    obtain ⟨c, hci, rfl⟩ := Option.map_eq_some_iff.mp hm
    have hi := h.exact i ▸ hi
    have heq := hx.eq i c hci hi
    rw [x.total_eq i sel, hc.eq i hi] at heq
    rw [h.total]
    push_cast at heq
    omega

end Tally

end PuppyTalk
