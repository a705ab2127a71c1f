import Mathlib

namespace PuppyTalk.Paging

section Order

variable {α κ : Type} (lt : κ → κ → Prop) [DecidableRel lt] (key : α → κ)

/-- `ORDER BY` a key. -/
def orderBy (rows : List α) : List α := rows.insertionSort fun a b => ¬ lt (key b) (key a)

def beyond (cursor : Option κ) (rows : List α) : List α :=
  rows.filter fun a => cursor.all fun k => decide (lt k (key a))

variable {lt key}

theorem orderBy_perm (rows : List α) : (orderBy lt key rows).Perm rows :=
  List.perm_insertionSort _ rows

@[simp] theorem mem_orderBy : a ∈ orderBy lt key rows ↔ a ∈ rows := List.mem_insertionSort _

@[simp] theorem length_orderBy (rows : List α) : (orderBy lt key rows).length = rows.length :=
  List.length_insertionSort _ rows

theorem mem_beyond {cursor : Option κ} :
    a ∈ beyond lt key cursor rows ↔ a ∈ rows ∧ ∀ k ∈ cursor, lt k (key a) := by
  cases cursor <;> simp [beyond]

@[simp] theorem beyond_none (rows : List α) : beyond lt key none rows = rows := by
  simp [beyond]

theorem orderBy_map (f : β → α) (rows : List β) :
    orderBy lt key (rows.map f) = (orderBy lt (fun b => key (f b)) rows).map f :=
  (List.map_insertionSort _ _ f rows fun _ _ _ _ => Iff.rfl).symm

theorem beyond_map (f : β → α) (cursor : Option κ) (rows : List β) :
    beyond lt key cursor (rows.map f) = (beyond lt (fun b => key (f b)) cursor rows).map f :=
  List.filter_map

theorem orderBy_congr {lt' : κ → κ → Prop} [DecidableRel lt'] (h : ∀ a b, lt a b ↔ lt' a b)
    (rows : List α) : orderBy lt key rows = orderBy lt' key rows := by
  obtain rfl : lt = lt' := funext fun a => funext fun b => propext (h a b)
  congr

theorem beyond_congr {lt' : κ → κ → Prop} [DecidableRel lt'] (h : ∀ a b, lt a b ↔ lt' a b)
    (cursor : Option κ) (rows : List α) : beyond lt key cursor rows = beyond lt' key cursor rows := by
  obtain rfl : lt = lt' := funext fun a => funext fun b => propext (h a b)
  congr

variable [IsStrictTotalOrder κ lt]

theorem orderBy_sorted (rows : List α) :
    (orderBy lt key rows).Pairwise fun a b => ¬ lt (key b) (key a) := by
  have : Std.Total fun a b : α => ¬ lt (key b) (key a) := by
    refine ⟨fun a b => ?_⟩
    by_cases hab : lt (key b) (key a)
    · exact .inr (asymm_of lt hab)
    · exact .inl hab
  have : IsTrans α fun a b => ¬ lt (key b) (key a) := by
    refine ⟨fun a b c hab hbc hca => ?_⟩
    rcases trichotomous_of lt (key a) (key b) with h | h | h
    · exact hbc (trans_of lt hca h)
    · exact hbc (h ▸ hca)
    · exact hab h
  exact List.pairwise_insertionSort (fun a b => ¬ lt (key b) (key a)) rows

theorem orderBy_pairwise (h : (rows.map key).Nodup) :
    (orderBy lt key rows).Pairwise fun a b => lt (key a) (key b) := by
  have hne : (orderBy lt key rows).Pairwise fun a b => key a ≠ key b :=
    List.pairwise_map.mp (((orderBy_perm rows).map key).nodup_iff.mpr h)
  apply (List.Pairwise.and (orderBy_sorted rows) hne).imp
  rintro a b ⟨hab, hne⟩
  rcases trichotomous_of lt (key a) (key b) with h | h | h
  · exact h
  · exact absurd h hne
  · exact absurd h hab

theorem orderBy_eq (hl : l.Pairwise fun a b => lt (key a) (key b)) (hp : l.Perm rows) :
    orderBy lt key rows = l := by
  have hkeys : (rows.map key).Nodup := by
    apply ((hp.map key).nodup_iff).mp
    refine List.pairwise_map.mpr (hl.imp ?_)
    intro a b h he
    rw [he] at h
    exact irrefl_of lt _ h
  refine List.Perm.eq_of_pairwise ?_ (orderBy_pairwise hkeys) hl ((orderBy_perm rows).trans hp.symm)
  intro a b _ _ hab hba
  exact absurd hba (asymm_of lt hab)

variable (lt) in
theorem orderBy_filter (h : (rows.map key).Nodup) (p : α → Bool) :
    orderBy lt key (rows.filter p) = (orderBy lt key rows).filter p :=
  orderBy_eq ((orderBy_pairwise h).filter p) ((orderBy_perm rows).filter p)

end Order

section Window

variable {α π κ : Type} (lt : κ → κ → Prop) [DecidableRel lt] (key : α → κ) [DecidableEq π]
variable (part : α → π)

/-- The rows with `row_number()` over a partition and the number of rows in it. -/
def ranked (rows : List α) : List (α × Nat × Nat) :=
  (rows.map part).dedup.flatMap fun p =>
    let mine := rows.filter fun a => part a = p
    (orderBy lt key mine).zipIdx.map fun (a, i) => (a, i + 1, mine.length)

variable {lt key part}

theorem mem_ranked : (a, rn, n) ∈ ranked lt key part rows ↔
    (∃ i, (orderBy lt key (rows.filter fun b => part b = part a))[i]? = some a ∧ rn = i + 1) ∧
      n = (rows.filter fun b => part b = part a).length := by
  constructor
  · intro h
    obtain ⟨p, -, h⟩ := List.mem_flatMap.mp h
    obtain ⟨⟨b, i⟩, hb, he⟩ := List.mem_map.mp h
    obtain ⟨rfl, rfl, rfl⟩ : b = a ∧ i + 1 = rn ∧ _ = n := by simpa using he
    have hi := List.mem_zipIdx_iff_getElem?.mp hb
    have hp : part b = p := by
      simpa using (List.mem_filter.mp (mem_orderBy.mp (List.mem_of_getElem? hi))).2
    subst hp
    exact ⟨⟨i, hi, rfl⟩, rfl⟩
  · rintro ⟨⟨i, hi, rfl⟩, rfl⟩
    have ha := (List.mem_filter.mp (mem_orderBy.mp (List.mem_of_getElem? hi))).1
    refine List.mem_flatMap.mpr ⟨part a, List.mem_dedup.mpr (List.mem_map_of_mem ha), ?_⟩
    exact List.mem_map.mpr ⟨(a, i), List.mem_zipIdx_iff_getElem?.mpr hi, rfl⟩

theorem mem_of_mem_ranked (h : r ∈ ranked lt key part rows) : r.1 ∈ rows := by
  obtain ⟨⟨i, hi, -⟩, -⟩ := mem_ranked.mp h
  exact (List.mem_filter.mp (mem_orderBy.mp (List.mem_of_getElem? hi))).1

theorem mem_ranked_le : (∃ rn ≤ limit, (a, rn, n) ∈ ranked lt key part rows) ↔
    a ∈ (orderBy lt key (rows.filter fun b => part b = part a)).take limit ∧
      n = (rows.filter fun b => part b = part a).length := by
  simp only [mem_ranked, List.mem_iff_getElem? (l := List.take _ _), List.getElem?_take]
  constructor
  · rintro ⟨_, hle, ⟨i, hi, rfl⟩, hn⟩
    exact ⟨⟨i, (if_pos (Nat.lt_of_succ_le hle)).trans hi⟩, hn⟩
  · rintro ⟨⟨i, hi⟩, hn⟩
    split at hi
    · rename_i hle
      exact ⟨i + 1, hle, ⟨i, hi, rfl⟩, hn⟩
    · cases hi

theorem nodup_ranked (h : rows.Nodup) : ((ranked lt key part rows).map Prod.fst).Nodup := by
  have hfst : (ranked lt key part rows).map Prod.fst =
      (rows.map part).dedup.flatMap fun p => orderBy lt key (rows.filter fun a => part a = p) := by
    rw [ranked, List.map_flatMap]
    congr 1
    funext p
    simp [Function.comp_def, List.zipIdx_map_fst]
  rw [hfst, List.nodup_flatMap]
  constructor
  · intro p _
    exact (orderBy_perm _).nodup_iff.mpr (h.filter _)
  · apply (List.nodup_dedup _).imp
    intro p q hpq a ha hb
    have hp := (List.mem_filter.mp (mem_orderBy.mp ha)).2
    have hq := (List.mem_filter.mp (mem_orderBy.mp hb)).2
    exact hpq ((of_decide_eq_true hp).symm.trans (of_decide_eq_true hq))

end Window

section Walk

structure Visit (S γ α : Type) where
  state : S
  cursor : γ
  items : List α
  hasMore : Bool

variable {S α κ γ : Type}

/-- Requests that meet these states one after another: each takes its cursor from the last item
before, until one says that there is no more. A request may also fail. -/
def walk (cursorOf : α → γ) (page : S → γ → Option (List α × Bool)) :
    γ → List S → List (Visit S γ α)
  | _, [] => []
  | cursor, s :: ss =>
    match page s cursor with
    | none => []
    | some (items, hasMore) =>
      { state := s, cursor := cursor, items := items, hasMore := hasMore } ::
        if hasMore then items.getLast?.elim [] fun a => walk cursorOf page (cursorOf a) ss else []

def returned (visits : List (Visit S γ α)) : List α := visits.flatMap (·.items)

def Ended (visits : List (Visit S γ α)) : Prop :=
  ∃ v, visits.getLast? = some v ∧ v.hasMore = false

variable {cursorOf : α → γ} {page : S → γ → Option (List α × Bool)}

theorem walk_none (hp : page s cursor = none) (ss : List S) :
    walk cursorOf page cursor (s :: ss) = [] := by
  simp [walk, hp]

theorem walk_last (hp : page s cursor = some (items, false)) (ss : List S) :
    walk cursorOf page cursor (s :: ss) = [⟨s, cursor, items, false⟩] := by
  simp [walk, hp]

theorem walk_more (hp : page s cursor = some (items, true)) (hl : items.getLast? = some a)
    (ss : List S) :
    walk cursorOf page cursor (s :: ss) =
      ⟨s, cursor, items, true⟩ :: walk cursorOf page (cursorOf a) ss := by
  simp [walk, hp, hl]

theorem returned_cons (v : Visit S γ α) (vs : List (Visit S γ α)) :
    returned (v :: vs) = v.items ++ returned vs := List.flatMap_cons

theorem not_ended_nil : ¬ Ended ([] : List (Visit S γ α)) := by
  rintro ⟨v, hv, _⟩
  cases hv

theorem ended_cons {v : Visit S γ α} (hv : v.hasMore = true) : Ended (v :: vs) ↔ Ended vs := by
  cases vs with
  | nil => simp [Ended, hv]
  | cons v' vs => simp [Ended]

theorem page_of_mem_walk {v : Visit S γ α} (hv : v ∈ walk cursorOf page cursor ss) :
    v.state ∈ ss ∧ page v.state v.cursor = some (v.items, v.hasMore) := by
  induction ss generalizing cursor with
  | nil => cases hv
  | cons s ss ih =>
    cases hp : page s cursor with
    | none =>
      rw [walk_none hp] at hv
      cases hv
    | some r =>
      simp only [walk, hp, List.mem_cons] at hv
      rcases hv with rfl | hv
      · exact ⟨List.mem_cons_self, hp⟩
      · split at hv
        · cases hl : r.1.getLast? with
          | none =>
            rw [hl] at hv
            cases hv
          | some a =>
            rw [hl] at hv
            exact ⟨List.mem_cons_of_mem _ (ih hv).1, (ih hv).2⟩
        · cases hv

variable (lt : κ → κ → Prop) [DecidableRel lt] (key : α → κ) (size : Nat) (rows : S → List α)
variable (bound : γ → Option κ)

/-- An answered request reads the first rows after its cursor and looks for one more; the cursor
taken from a row stands for the row's key. -/
structure Reads (cursorOf : α → γ) (page : S → γ → Option (List α × Bool)) : Prop where
  items : ∀ s c items hasMore, page s c = some (items, hasMore) →
    items = (orderBy lt key (beyond lt key (bound c) (rows s))).take size
  hasMore : ∀ s c items hasMore, page s c = some (items, hasMore) →
    hasMore = decide (size < (beyond lt key (bound c) (rows s)).length)
  bound : ∀ s, ∀ a ∈ rows s, bound (cursorOf a) = some (key a)

variable {lt key size rows bound}

section Page

variable {s : S} {cursor : γ} {items : List α} {hasMore : Bool}
variable (hr : Reads lt key size rows bound cursorOf page)
variable (hp : page s cursor = some (items, hasMore))

include hr hp

theorem Reads.items_append :
    orderBy lt key (beyond lt key (bound cursor) (rows s)) =
      items ++ (orderBy lt key (beyond lt key (bound cursor) (rows s))).drop size := by
  rw [hr.items _ _ _ _ hp, List.take_append_drop]

theorem Reads.mem_items (ha : a ∈ items) : a ∈ rows s ∧ ∀ k ∈ bound cursor, lt k (key a) := by
  rw [hr.items _ _ _ _ hp] at ha
  exact mem_beyond.mp (mem_orderBy.mp (List.mem_of_mem_take ha))

theorem Reads.size_lt (hmore : hasMore = true) :
    size < (beyond lt key (bound cursor) (rows s)).length := by
  have hflag := hr.hasMore _ _ _ _ hp
  rw [hmore] at hflag
  exact of_decide_eq_true hflag.symm

theorem Reads.getLast (hsize : 1 ≤ size) (hmore : hasMore = true) :
    ∃ a ∈ items, items.getLast? = some a := by
  have hlen : 1 ≤ items.length := by
    have hlt := hr.size_lt hp hmore
    rw [hr.items _ _ _ _ hp, List.length_take, length_orderBy]
    omega
  have hne : items ≠ [] := by
    rintro rfl
    cases hlen
  exact ⟨_, List.getLast_mem hne, List.getLast?_eq_some_getLast hne⟩

variable [IsStrictTotalOrder κ lt] (hkeys : ((rows s).map key).Nodup)

include hkeys

theorem Reads.pairwise :
    (items ++ (orderBy lt key (beyond lt key (bound cursor) (rows s))).drop size).Pairwise
      fun a b => lt (key a) (key b) := by
  rw [← hr.items_append hp]
  apply orderBy_pairwise
  exact hkeys.sublist (List.filter_sublist.map key)

theorem Reads.lt_of_not_mem (ha : a ∈ rows s) (hc : ∀ k ∈ bound cursor, lt k (key a))
    (hn : a ∉ items) : (∀ b ∈ items, lt (key b) (key a)) ∧ hasMore = true := by
  have hmem : a ∈ (orderBy lt key (beyond lt key (bound cursor) (rows s))).drop size := by
    have hall : a ∈ orderBy lt key (beyond lt key (bound cursor) (rows s)) :=
      mem_orderBy.mpr (mem_beyond.mpr ⟨ha, hc⟩)
    rw [hr.items_append hp] at hall
    exact (List.mem_append.mp hall).resolve_left hn
  refine ⟨fun b hb => (List.pairwise_append.mp (hr.pairwise hp hkeys)).2.2 b hb a hmem, ?_⟩
  rw [hr.hasMore _ _ _ _ hp, decide_eq_true_iff]
  have hlen := List.length_pos_of_mem hmem
  rw [List.length_drop, length_orderBy] at hlen
  omega

theorem Reads.hasMore_iff :
    hasMore = true ↔
      ∃ a ∈ rows s, (∀ k ∈ bound cursor, lt k (key a)) ∧ ∀ b ∈ items, lt (key b) (key a) := by
  constructor
  · intro hmore
    have hlt := hr.size_lt hp hmore
    have hpos : 0 < ((orderBy lt key (beyond lt key (bound cursor) (rows s))).drop size).length := by
      rw [List.length_drop, length_orderBy]
      omega
    obtain ⟨a, ha⟩ := List.exists_mem_of_length_pos hpos
    obtain ⟨hrow, hc⟩ := mem_beyond.mp (mem_orderBy.mp (List.mem_of_mem_drop ha))
    exact ⟨a, hrow, hc, fun b hb => (List.pairwise_append.mp (hr.pairwise hp hkeys)).2.2 b hb a ha⟩
  · rintro ⟨a, ha, hc, hlt⟩
    exact (hr.lt_of_not_mem hp hkeys ha hc fun hmem => irrefl_of lt _ (hlt a hmem)).2

theorem Reads.le_last (hl : items.getLast? = some b) (ha : a ∈ items) :
    a = b ∨ lt (key a) (key b) := by
  obtain ⟨init, rfl⟩ := List.getLast?_eq_some_iff.mp hl
  have hpair := (List.pairwise_append.mp (hr.pairwise hp hkeys)).1
  rcases List.mem_append.mp ha with h | h
  · exact .inr ((List.pairwise_append.mp hpair).2.2 a h b (List.mem_singleton_self b))
  · exact .inl (List.mem_singleton.mp h)

theorem Reads.beyond_last (hl : items.getLast? = some b) :
    orderBy lt key (beyond lt key (some (key b)) (rows s)) =
      (orderBy lt key (beyond lt key (bound cursor) (rows s))).drop size := by
  have hpair := List.pairwise_append.mp (hr.pairwise hp hkeys)
  have hb := List.mem_of_getLast? hl
  apply orderBy_eq hpair.2.1
  rw [List.perm_ext_iff_of_nodup]
  · intro a
    rw [mem_beyond]
    constructor
    · intro ha
      refine ⟨(mem_beyond.mp (mem_orderBy.mp (List.mem_of_mem_drop ha))).1, ?_⟩
      rintro k ⟨⟩
      exact hpair.2.2 b hb a ha
    · rintro ⟨ha, hlt⟩
      have hba := hlt _ rfl
      have hall : a ∈ orderBy lt key (beyond lt key (bound cursor) (rows s)) := by
        refine mem_orderBy.mpr (mem_beyond.mpr ⟨ha, fun k hk => ?_⟩)
        exact trans_of lt ((hr.mem_items hp hb).2 k hk) hba
      rw [hr.items_append hp] at hall
      refine (List.mem_append.mp hall).resolve_left fun hmem => ?_
      rcases hr.le_last hp hkeys hl hmem with rfl | hab
      · exact irrefl_of lt _ hba
      · exact asymm_of lt hab hba
  · exact (List.Nodup.of_map key (hkeys.sublist (List.filter_sublist.map key))).perm
      (orderBy_perm _).symm |>.sublist (List.drop_sublist _ _)
  · exact List.Nodup.of_map key (hkeys.sublist (List.filter_sublist.map key))

end Page

section Traversal

variable [IsStrictTotalOrder κ lt] (hr : Reads lt key size rows bound cursorOf page)

include hr

/-- The keys that a walk returns go up from its cursor, over all its pages. -/
theorem walk_pairwise (hsize : 1 ≤ size) (hkeys : ∀ s ∈ ss, ((rows s).map key).Nodup) :
    (returned (walk cursorOf page cursor ss)).Pairwise (fun a b => lt (key a) (key b)) ∧
      ∀ a ∈ returned (walk cursorOf page cursor ss), ∀ k ∈ bound cursor, lt k (key a) := by
  induction ss generalizing cursor with
  | nil => exact ⟨.nil, fun _ h => by cases h⟩
  | cons s ss ih =>
    have hs := hkeys s List.mem_cons_self
    cases hp : page s cursor with
    | none =>
      rw [walk_none hp]
      exact ⟨.nil, fun _ h => by cases h⟩
    | some r =>
      obtain ⟨items, _ | _⟩ := r
      · rw [walk_last hp, returned_cons, returned, List.flatMap_nil, List.append_nil]
        exact ⟨(List.pairwise_append.mp (hr.pairwise hp hs)).1, fun a ha => (hr.mem_items hp ha).2⟩
      · obtain ⟨b, hb, hlast⟩ := hr.getLast hp hsize rfl
        obtain ⟨hrest, hlow⟩ := @ih (cursorOf b) fun s' hs' => hkeys s' (List.mem_cons_of_mem _ hs')
        rw [hr.bound s b (hr.mem_items hp hb).1] at hlow
        rw [walk_more hp hlast, returned_cons]
        constructor
        · refine List.pairwise_append.mpr
            ⟨(List.pairwise_append.mp (hr.pairwise hp hs)).1, hrest, fun a ha c hc => ?_⟩
          have hbc := hlow c hc _ rfl
          rcases hr.le_last hp hs hlast ha with rfl | hab
          · exact hbc
          · exact trans_of lt hab hbc
        · intro a ha k hk
          rcases List.mem_append.mp ha with ha | ha
          · exact (hr.mem_items hp ha).2 k hk
          · exact trans_of lt ((hr.mem_items hp hb).2 k hk) (hlow a ha _ rfl)

/-- A key that every request could see after the first cursor is returned. -/
theorem walk_complete (hsize : 1 ≤ size) (hkeys : ∀ s ∈ ss, ((rows s).map key).Nodup)
    (hend : Ended (walk cursorOf page cursor ss)) (hc : ∀ c ∈ bound cursor, lt c k)
    (hk : ∀ v ∈ walk cursorOf page cursor ss, k ∈ (rows v.state).map key) :
    k ∈ (returned (walk cursorOf page cursor ss)).map key := by
  induction ss generalizing cursor with
  | nil => exact absurd hend not_ended_nil
  | cons s ss ih =>
    have hs := hkeys s List.mem_cons_self
    cases hp : page s cursor with
    | none =>
      rw [walk_none hp] at hend
      exact absurd hend not_ended_nil
    | some r =>
      obtain ⟨items, _ | _⟩ := r
      · rw [walk_last hp] at hk ⊢
        obtain ⟨a, ha, rfl⟩ := List.mem_map.mp (hk _ List.mem_cons_self)
        rw [returned_cons, returned, List.flatMap_nil, List.append_nil]
        by_contra hn
        have hmore := (hr.lt_of_not_mem hp hs ha hc fun h => hn (List.mem_map_of_mem h)).2
        cases hmore
      · obtain ⟨b, hb, hlast⟩ := hr.getLast hp hsize rfl
        rw [walk_more hp hlast] at hend hk ⊢
        obtain ⟨a, ha, rfl⟩ := List.mem_map.mp (hk _ List.mem_cons_self)
        rw [returned_cons, List.map_append, List.mem_append]
        by_cases hmem : a ∈ items
        · exact .inl (List.mem_map_of_mem hmem)
        · have hlt := (hr.lt_of_not_mem hp hs ha hc hmem).1
          refine .inr (ih (fun s' hs' => hkeys s' (List.mem_cons_of_mem _ hs'))
            ((ended_cons rfl).mp hend) ?_ fun v hv => hk v (List.mem_cons_of_mem _ hv))
          rw [hr.bound s b (hr.mem_items hp hb).1]
          rintro c ⟨⟩
          exact hlt b hb

/-- Over rows that do not change a walk returns them all, and ends soon. -/
theorem walk_replicate (hsize : 1 ≤ size) (hkeys : ((rows s).map key).Nodup)
    (hp : (page s cursor).isSome = true)
    (hnext : ∀ a ∈ rows s, (page s (cursorOf a)).isSome = true)
    (hm : (beyond lt key (bound cursor) (rows s)).length / size < m) :
    returned (walk cursorOf page cursor (List.replicate m s)) =
        orderBy lt key (beyond lt key (bound cursor) (rows s)) ∧
      Ended (walk cursorOf page cursor (List.replicate m s)) ∧
      (walk cursorOf page cursor (List.replicate m s)).length ≤
        (beyond lt key (bound cursor) (rows s)).length / size + 1 := by
  induction m generalizing cursor with
  | zero => cases hm
  | succ m ih =>
    obtain ⟨⟨items, more⟩, hp⟩ := Option.isSome_iff_exists.mp hp
    rw [List.replicate_succ]
    cases more with
    | false =>
      have hall := hr.items_append hp
      have hlen := of_decide_eq_false (hr.hasMore _ _ _ _ hp).symm
      rw [List.drop_eq_nil_of_le (by rw [length_orderBy]; omega), List.append_nil] at hall
      rw [walk_last hp, returned_cons, returned, List.flatMap_nil, List.append_nil, hall]
      exact ⟨rfl, ⟨_, rfl, rfl⟩, Nat.le_add_left _ _⟩
    | true =>
      obtain ⟨b, hb, hlast⟩ := hr.getLast hp hsize rfl
      have hbound := hr.bound s b (hr.mem_items hp hb).1
      have hrest := hr.beyond_last hp hkeys hlast
      have hlt := hr.size_lt hp rfl
      have hlen : (beyond lt key (bound (cursorOf b)) (rows s)).length =
          (beyond lt key (bound cursor) (rows s)).length - size := by
        have h := congrArg List.length hrest
        rwa [length_orderBy, List.length_drop, length_orderBy, ← hbound] at h
      have hdiv : (beyond lt key (bound (cursorOf b)) (rows s)).length / size + 1 =
          (beyond lt key (bound cursor) (rows s)).length / size := by
        rw [hlen]
        exact (Nat.div_eq_sub_div hsize hlt.le).symm
      obtain ⟨hret, hend, hcount⟩ := ih (hnext b (hr.mem_items hp hb).1) (by omega)
      rw [walk_more hp hlast, returned_cons, hret, hbound, hrest]
      refine ⟨(hr.items_append hp).symm, (ended_cons rfl).mpr hend, ?_⟩
      rw [List.length_cons]
      omega

end Traversal

end Walk

section Slices

variable {α : Type}

/-- `OFFSET ... LIMIT`. -/
def slice (offset size : Nat) (l : List α) : List α := (l.drop offset).take size

theorem slice_eq_nil_iff (hsize : 1 ≤ size) (l : List α) :
    slice offset size l = [] ↔ l.length ≤ offset := by
  rw [slice, List.take_eq_nil_iff, List.drop_eq_nil_iff]
  omega

theorem slices (n size : Nat) (l : List α) :
    (List.range n).flatMap (fun p => slice (p * size) size l) = l.take (n * size) := by
  induction n with
  | zero => simp
  | succ n ih =>
    rw [List.range_succ, List.flatMap_append, ih, List.flatMap_singleton, slice, Nat.succ_mul,
      List.take_add]

theorem slices_eq (hsize : 1 ≤ size) (l : List α) (h : slice (n * size) size l = []) :
    (List.range n).flatMap (fun p => slice (p * size) size l) = l := by
  rw [slices, List.take_of_length_le ((slice_eq_nil_iff hsize l).mp h)]

end Slices

end PuppyTalk.Paging
