import PuppyTalk.TableStatement

namespace PuppyTalk.Txn

variable {D R X ε ρ ν Q : Type} [Rows D R] {S : Spec D R X ε ρ ν Q} {q : Q}
variable {α κ : Type} [DecidableEq κ] {T : TableOf D R α κ}

theorem Spec.Stable.get (hmem : (T.row k, m) ∈ held) (hm : m ≠ .keyShare) (v : Option α) :
    S.Stable q past held fun w => T.get w.db k = v := by
  refine .of_row hmem fun w w' ha hv => ?_
  exact ((T.same_row ha).eq hm).symm.trans hv

theorem Spec.Stable.has (hmem : (T.row k, m) ∈ held) (b : Bool) :
    S.Stable q past held fun w => (T.get w.db k).isSome = b := by
  refine .of_row hmem fun w w' ha hv => ?_
  exact (T.same_row ha).isSome.symm.trans hv

namespace TableOf

theorem mem_rows_of_key {d : D} (hd : Rows.Valid d) {cond : α → Bool}
    (hc : ((T.get d k).map cond).getD false = true) :
    T.row k ∈ ((T.rows d).filter cond).map T.rowOf := by
  cases h : T.get d k with
  | none =>
    rw [h] at hc
    cases hc
  | some a =>
    rw [h] at hc
    obtain ⟨ha, hk⟩ := (T.get_eq_some hd).mp h
    exact List.mem_map.mpr ⟨a, List.mem_filter.mpr ⟨ha, hc⟩, congrArg T.row hk⟩

theorem rows_of_key {d : D} {cond : α → Bool} (hcond : ∀ a, cond a = true → T.key a = k)
    (hr : r ∈ ((T.rows d).filter cond).map T.rowOf) : r = T.row k := by
  obtain ⟨a, ha, rfl⟩ := List.mem_map.mp hr
  exact congrArg T.row (hcond a (List.mem_filter.mp ha).2)

theorem any_key_eq {d : D} : ((T.rows d).any fun b => decide (T.key b = k)) = (T.get d k).isSome := by
  unfold get Table.row
  rw [List.isSome_find?]

variable [DecidableEq R]

theorem get_update {s : D → α → Bool} {p : α → Bool} {values : D → α → α} {b : Bool}
    (hkey : ∀ d a, T.key (values d a) = T.key a) (snap : D) (locked : List R) (d : D) (k : κ) :
    T.get ((T.update s p values b hkey).write snap locked d) k =
      (T.get d k).map fun a => if T.row k ∈ locked then values snap a else a := by
  show Table.row T.key (T.rows (T.put _ d)) k = _
  rw [T.rows_put, Table.row_update (hkey snap)]
  cases h : Table.row T.key (T.rows d) k with
  | none => simp [get, h]
  | some a =>
    have hk : T.rowOf a = T.row k := congrArg T.row (Table.row_key h)
    simp [get, h, hk]

structure Acts (T : TableOf D R α κ) (st : Stmt D R) (k : κ) (cond : Option α → Bool) : Prop where
  rows : ∀ d r, r ∈ st.rows d → r = T.row k
  selects : ∀ d, Rows.Valid d → cond (T.get d k) = true → T.row k ∈ st.rows d
  keeps : ∀ d, Rows.Valid d → st.keeps d (T.row k) = cond (T.get d k)

theorem any_key {d : D} (hd : Rows.Valid d) (k : κ) (cond : α → Bool) :
    ((T.rows d).any fun a => decide (T.rowOf a = T.row k) && cond a) =
      ((T.get d k).map cond).getD false := by
  cases h : T.get d k with
  | none =>
    apply List.any_eq_false.mpr
    intro a ha
    have hne : T.rowOf a ≠ T.row k := fun he => T.get_eq_none.mp h a ha (T.row_inj he)
    simp [hne]
  | some a =>
    obtain ⟨ha, hk⟩ := (T.get_eq_some hd).mp h
    cases hc : cond a with
    | true =>
      simp only [Option.map_some, Option.getD_some, hc]
      exact List.any_eq_true.mpr ⟨a, ha, by simp [rowOf, hk, hc]⟩
    | false =>
      simp only [Option.map_some, Option.getD_some, hc]
      apply List.any_eq_false.mpr
      intro b hb hbk
      simp only [Bool.and_eq_true, decide_eq_true_eq] at hbk
      have he : b = a := (T.keyed hd).eq hb ha ((T.row_inj hbk.1).trans hk.symm)
      rw [he, hc] at hbk
      exact absurd hbk.2 (by decide)

theorem acts_update {cond : α → Bool} {values : D → α → α} {ofKey : Bool}
    (hkey : ∀ d a, T.key (values d a) = T.key a) (hcond : ∀ a, cond a = true → T.key a = k) :
    T.Acts (T.update (fun _ => cond) cond values ofKey hkey) k fun o => (o.map cond).getD false :=
  ⟨fun _ _ => rows_of_key hcond, fun _ hd hc => mem_rows_of_key hd hc, fun _ hd => any_key hd k cond⟩

theorem acts_delete {cond : α → Bool} (hcond : ∀ a, cond a = true → T.key a = k) :
    T.Acts (T.delete cond) k fun o => (o.map cond).getD false :=
  ⟨fun _ _ => rows_of_key hcond, fun _ hd hc => mem_rows_of_key hd hc, fun _ hd => any_key hd k cond⟩

theorem acts_lockRows {cond : α → Bool} {mode : LockMode} (hcond : ∀ a, cond a = true → T.key a = k) :
    T.Acts (T.lockRows cond mode) k fun o => (o.map cond).getD false :=
  ⟨fun _ _ => rows_of_key hcond, fun _ hd hc => mem_rows_of_key hd hc, fun _ hd => any_key hd k cond⟩

theorem acts_insert {a : α} {taken : D → R → Bool} (hk : T.key a = k) :
    T.Acts (T.insert a [] taken) k fun o => !o.isSome := by
  apply Acts.mk
  · intro d r hr
    exact (List.mem_singleton.mp hr).trans (congrArg T.row hk)
  · intro d _ _
    exact List.mem_singleton.mpr (congrArg T.row hk).symm
  · intro d _
    subst hk
    have he : T.row (T.key a) = T.rowOf a := rfl
    simp only [insert, if_pos he, any_key_eq]

theorem mem_locked {locked : List R} (hl : ∀ r, r ∈ locked ↔ r = T.row i) (a : α) :
    decide (T.rowOf a ∈ locked) = decide (T.key a = i) := by
  apply decide_eq_decide.mpr
  rw [hl]
  exact ⟨fun h => T.row_inj h, fun h => congrArg T.row h⟩

theorem write_update {select : D → α → Bool} {cond : α → Bool} {values : α → α} {ofKey : Bool}
    (hkey : ∀ a, T.key (values a) = T.key a) {locked : List R}
    (hl : ∀ r, r ∈ locked ↔ r = T.row i) (snap : D) :
    (T.update select cond (fun _ => values) ofKey fun _ => hkey).write snap locked =
      T.modify i values := by
  funext d
  show T.put (Table.update _ _ _) d = _
  simp only [mem_locked hl]
  rfl

theorem write_update_nil {select : D → α → Bool} {cond : α → Bool} {values : D → α → α}
    {ofKey : Bool} (hkey : ∀ d a, T.key (values d a) = T.key a) (snap : D) :
    (T.update select cond values ofKey hkey).write snap [] = id := by
  funext d
  show T.put (Table.update _ _ _) d = _
  simp [Table.update, T.put_rows]

theorem write_delete {cond : α → Bool} {locked : List R} (hl : ∀ r, r ∈ locked ↔ r = T.row i)
    (snap : D) : (T.delete cond).write snap locked = T.remove fun a => decide (T.key a = i) := by
  funext d
  show T.put (Table.delete _ _) d = _
  simp only [mem_locked hl]
  rfl

theorem write_delete_nil (cond : α → Bool) (snap : D) : (T.delete cond).write snap [] = id := by
  funext d
  show T.put (Table.delete _ _) d = _
  simp [Table.delete, T.put_rows]

theorem write_insert {a : α} {taken : D → R → Bool} {locked : List R}
    (hl : ∀ r, r ∈ locked ↔ r = T.rowOf a) (snap : D) :
    (T.insert a [] taken).write snap locked = T.add a := by
  funext d
  have hmem : T.rowOf a ∈ locked := (hl _).mpr rfl
  show (if _ then _ else _) = _
  rw [any_key_eq]
  unfold add
  cases (T.get d (T.key a)).isSome <;> simp [hmem]

theorem keeps_insert (a : α) (index : List R) (taken : D → R → Bool) (d : D) :
    (T.insert a index taken).keeps d (T.rowOf a) = !(T.get d (T.key a)).isSome := by
  simp only [insert, if_true, any_key_eq]

theorem write_insert_all {a : α} {index : List R} {taken : D → R → Bool} {locked : List R}
    (hl : ∀ r ∈ T.rowOf a :: index, r ∈ locked) {d : D} (hd : T.get d (T.key a) = none) (snap : D) :
    (T.insert a index taken).write snap locked d = T.put (T.rows d ++ [a]) d := by
  have hall : ((T.rowOf a :: index).all fun r => decide (r ∈ locked)) = true :=
    List.all_eq_true.mpr fun r hr => decide_eq_true (hl r hr)
  show (if _ then _ else _) = _
  rw [any_key_eq, hall, hd]
  rfl

theorem write_insert_nil (a : α) (index : List R) (taken : D → R → Bool) (snap : D) :
    (T.insert a index taken).write snap [] = id := by
  funext d
  simp [insert]

theorem insert_rel {rel : D → D → Prop} (hrefl : ∀ d, rel d d) (h : ∀ l d, rel d (T.put l d))
    (a : α) (index : List R) (taken : D → R → Bool) (snap : D) (locked : List R) (d : D) :
    rel d ((T.insert a index taken).write snap locked d) := by
  show rel d (if _ then _ else _)
  split
  · exact h _ d
  · exact hrefl d

end TableOf

section Rules

variable [DecidableEq R] {st : Stmt D R} {k : D → D → List R → Prog D R X ε ρ ν α'}
variable {K : α' → Known D R X ρ ν Q → Prop} {c : Known D R X ρ ν Q} {cond : Option α → Bool}

/-- A statement on one row: it has locked the row as it is now, or there was a time at which the row
did not meet the condition, of which `N` remains. -/
theorem Spec.wp_row (ha : T.Acts st i cond) (hm : st.mode (T.row i) ≠ .keyShare)
    (hget : ∀ d, T.get (c.redo d) i = T.get d i)
    (hst : ∀ n, S.Stable q ((name, n) :: c.past) c.held c.fact)
    (N : World D X Q ρ ν → Prop) (hNst : ∀ n, S.Stable q ((name, n) :: c.past) c.held N)
    (hN : ∀ w, S.Here c w → cond (T.get w.db i) = false → N w)
    (hends : ∀ w w' locked, S.Here c w → S.Here c w' → (∀ r ∈ locked, r = T.row i) →
      (T.row i ∈ locked → cond (T.get w'.db i) = true) →
      S.ends q name (c.redo w.db) locked (c.redo w'.db))
    (hlock : ∀ w w' locked v, S.Here c w → S.Here c w' → T.row i ∈ locked →
      (∀ r ∈ locked, r = T.row i) → cond v = true → T.get w'.db i = v →
      S.wp q (k (c.redo w.db) (st.write (c.redo w.db) locked (c.redo w'.db)) locked) K
        (Known.after c name st w.log.length (c.redo w.db) locked
          fun w => c.fact w ∧ T.get w.db i = v))
    (hskip : ∀ w w', S.Here c w → S.Here c w' → N w' →
      S.wp q (k (c.redo w.db) (st.write (c.redo w.db) [] (c.redo w'.db)) []) K
        (Known.after c name st w.log.length (c.redo w.db) [] fun w => c.fact w ∧ N w)) :
    S.wp q (.exec name st k) K c := by
  apply wp_exec
  intro w hw _
  -- a row that the snapshot does not select is passed over from the start
  refine ⟨fun w' => c.fact w' ∧ (cond (T.get w.db i) = false → N w'),
    fun r w' => r = T.row i → cond (T.get w'.db i) = true, fun _ => N, ?_, ?_⟩
  · apply Argument.mk
    · exact ⟨⟨hw.fact, hN w hw⟩, (hst _).and (.imp fun _ => hNst _)⟩
    · intro r w₁ w₂ _ _ _ _ hag hF hr
      subst hr
      have hsame : T.get w₁.db i = T.get w₂.db i := (T.same_row (hag _ List.mem_cons_self)).eq hm
      rw [← hsame]
      exact hF rfl
    · exact fun _ => hNst _
    · rintro _ _ w' hw' hk rfl
      rw [ha.keeps _ hw'.view, hget] at hk
      exact hk
    · intro r hr w' hw' hk
      rw [ha.rows _ r hr, ha.keeps _ hw'.view, hget] at hk
      exact hN w' ⟨hw'.good, hw'.fact.1, hw'.view⟩ hk
  · intro locked w' hw' hF hsel
    have hw'' : S.Here c w' := ⟨hw'.good, hw'.fact.1, hw'.view⟩
    have honly : ∀ r ∈ locked, r = T.row i := fun r hr => ha.rows _ r (hF r hr).1
    refine ⟨hends w w' locked hw hw'' honly fun hl => (hF _ hl).2 rfl, ?_⟩
    by_cases hl : T.row i ∈ locked
    · refine ⟨_, ⟨⟨hw''.fact, rfl⟩, ?_⟩,
        hlock w w' locked _ hw hw'' hl honly ((hF _ hl).2 rfl) rfl⟩
      apply ((hst _).mono fun p hp => List.mem_append_right _ hp).and
      exact .get (List.mem_append_left _ (List.mem_map.mpr ⟨_, hl, rfl⟩)) hm _
    · have hnil : locked = [] := by
        apply List.eq_nil_iff_forall_not_mem.mpr
        intro r hr
        exact hl (honly r hr ▸ hr)
      subst hnil
      have hNw : N w' := by
        cases hc : cond (T.get w.db i) with
        | false => exact hw'.fact.2 hc
        | true =>
          rw [← hget] at hc
          exact (hsel _ (ha.selects _ hw.view hc)).resolve_left hl
      exact ⟨_, ⟨⟨hw''.fact, hNw⟩, (hst _).and (hNst _)⟩, hskip w w' hw hw'' hNw⟩

theorem Spec.wp_parent {p : α → Bool} (hp : ∀ a, p a = true ↔ T.key a = i)
    (hget : ∀ d, (T.get (c.redo d) i).isSome = (T.get d i).isSome)
    (hst : ∀ n, S.Stable q ((name, n) :: c.past) c.held c.fact)
    (hends : ∀ snap locked d, S.ends q name snap locked d)
    (hlock : ∀ w w' locked, S.Here c w → S.Here c w' → T.row i ∈ locked →
      (T.get w'.db i).isSome = true →
      S.wp q (k (c.redo w.db) (c.redo w'.db) locked) K
        (Known.after c name (T.lockRows p .keyShare) w.log.length (c.redo w.db) locked
          fun w => c.fact w ∧ (T.get w.db i).isSome = true))
    (hskip : ∀ w w', S.Here c w → S.Here c w' →
      S.wp q (k (c.redo w.db) (c.redo w'.db) []) K
        (Known.after c name (T.lockRows p .keyShare) w.log.length (c.redo w.db) [] c.fact)) :
    S.wp q (.exec name (T.lockRows p .keyShare) k) K c := by
  have ha : T.Acts (T.lockRows p .keyShare) i _ := TableOf.acts_lockRows fun a h => (hp a).mp h
  have hcond : ∀ d, ((T.get d i).map p).getD false = (T.get d i).isSome := by
    intro d
    cases h : T.get d i with
    | none => rfl
    | some a => exact (hp a).mpr (T.get_key h)
  apply wp_exec
  intro w hw _
  refine ⟨c.fact, fun r w' => r = T.row i → (T.get w'.db i).isSome = true, fun _ _ => True, ?_, ?_⟩
  · apply Argument.mk
    · exact ⟨hw.fact, hst _⟩
    · intro r w₁ w₂ _ _ _ _ hag hF hr
      subst hr
      have hsame : (T.get w₁.db i).isSome = (T.get w₂.db i).isSome :=
        (T.same_row (hag _ List.mem_cons_self)).isSome
      rw [← hsame]
      exact hF rfl
    · exact fun _ => .const True
    · rintro _ _ w' hw' hk rfl
      rw [ha.keeps _ hw'.view, hcond, hget] at hk
      exact hk
    · exact fun _ _ _ _ _ => trivial
  · intro locked w' hw' hF _
    have honly : ∀ r ∈ locked, r = T.row i := fun r hr => ha.rows _ r (hF r hr).1
    refine ⟨hends _ _ _, ?_⟩
    by_cases hl : T.row i ∈ locked
    · refine ⟨_, ⟨⟨hw'.fact, (hF _ hl).2 rfl⟩, ?_⟩, hlock w w' locked hw hw' hl ((hF _ hl).2 rfl)⟩
      apply ((hst _).mono fun p hp => List.mem_append_right _ hp).and
      exact .has (List.mem_append_left _ (List.mem_map.mpr ⟨_, hl, rfl⟩)) _
    · have hnil : locked = [] := by
        apply List.eq_nil_iff_forall_not_mem.mpr
        intro r hr
        exact hl (honly r hr ▸ hr)
      subst hnil
      exact ⟨_, ⟨hw'.fact, hst _⟩, hskip w w' hw hw'⟩

/-- What a statement on one row may rely on and has to show: `N` remains of a row passed over. -/
structure Spec.OneRow (S : Spec D R X ε ρ ν Q) (q : Q) (name : ρ) (c : Known D R X ρ ν Q)
    (T : TableOf D R α κ) (i : κ) (cond : Option α → Bool) (N : World D X Q ρ ν → Prop) : Prop where
  kept : S.Kept q c
  get : ∀ d, T.get (c.redo d) i = T.get d i
  skipped : S.Kept q { c with fact := N }
  skips : ∀ w, S.Here c w → cond (T.get w.db i) = false → N w
  ends : ∀ w w' locked, S.Here c w → S.Here c w' → (∀ r ∈ locked, r = T.row i) →
    (T.row i ∈ locked → cond (T.get w'.db i) = true) →
    S.ends q name (c.redo w.db) locked (c.redo w'.db)

theorem Spec.wp_one {f : D → D} (ha : T.Acts st i cond) (hm : ∀ r, st.mode r = m)
    (hks : m ≠ .keyShare) (hf : ∀ snap locked, (∀ r, r ∈ locked ↔ r = T.row i) → st.write snap locked = f)
    (hnil : ∀ snap, st.write snap [] = id) (h : S.OneRow q name c T i cond N)
    (hlock : ∀ w w' locked v c', S.Here c w → S.Here c w' → (∀ r, r ∈ locked ↔ r = T.row i) →
      cond v = true → T.get w'.db i = v → (T.row i, m) ∈ c'.held →
      S.After q c name w.log.length (f ∘ c.redo) (fun w => T.get w.db i = v) c' →
      S.wp q (k (c.redo w.db) (f (c.redo w'.db)) locked) K c')
    (hskip : ∀ w w' c', S.Here c w → S.Here c w' → N w' →
      S.After q c name w.log.length c.redo N c' →
      S.wp q (k (c.redo w.db) (c.redo w'.db) []) K c') :
    S.wp q (.exec name st k) K c := by
  have hm' : st.mode (T.row i) ≠ .keyShare := hm _ ▸ hks
  apply wp_row ha hm' h.get (fun n => h.kept.stable (name, n)) N
    (fun n => h.skipped.stable (name, n)) h.skips h.ends
  · intro w w' locked v hw hw' hl honly hv hg
    have hiff : ∀ r, r ∈ locked ↔ r = T.row i := fun r => ⟨honly r, fun he => he ▸ hl⟩
    have hmem : (T.row i, m) ∈ st.locks locked ++ c.held :=
      List.mem_append_left _ (List.mem_map.mpr ⟨_, hl, by rw [hm]⟩)
    rw [hf _ locked hiff]
    unfold Known.after
    rw [hf _ locked hiff]
    apply hlock w w' locked v _ hw hw' hiff hv hg hmem
    apply After.of_kept h.kept fun p hp => List.mem_append_right _ hp
    exact fun past held _ hh => .get (hh _ hmem) hks v
  · intro w w' hw hw' hNw
    rw [hnil]
    unfold Known.after
    rw [hnil]
    apply hskip w w' _ hw hw' hNw
    apply After.of_kept h.kept fun p hp => hp
    intro past held hp hh
    exact h.skipped past held (fun p h => hp p (List.mem_cons_of_mem _ h)) hh

/-- A statement on one row of which nothing is used but that it has locked the row, or that `N`
remains of a time at which the row did not meet the condition. The statement may meet the request's
own writes. -/
theorem Spec.wp_unless (ha : T.Acts st i cond) (hc : S.Kept q c)
    (N : World D X Q ρ ν → Prop) (hNk : S.Kept q { c with fact := N })
    (hN : ∀ w, S.Here c w → cond (T.get (c.redo w.db) i) = false → N w)
    (hends : ∀ snap locked d, S.ends q name snap locked d)
    (hk : ∀ w w' locked c', S.Here c w → S.Here c w' → (∀ r ∈ locked, r = T.row i) →
      S.After q c name w.log.length (st.write (c.redo w.db) locked ∘ c.redo)
        (fun w => T.row i ∈ locked ∨ N w) c' →
      S.wp q (k (c.redo w.db) (st.write (c.redo w.db) locked (c.redo w'.db)) locked) K c') :
    S.wp q (.exec name st k) K c := by
  have hNst : ∀ n, S.Stable q ((name, n) :: c.past) c.held N := fun n => hNk.stable (name, n)
  apply wp_exec
  intro w hw _
  refine ⟨fun w' => c.fact w' ∧ (cond (T.get (c.redo w.db) i) = false → N w'), fun _ _ => True,
    fun _ => N, ?_, fun locked w' hw' hl hsel => ?_⟩
  · apply Argument.mk
    · exact ⟨⟨hw.fact, hN w hw⟩, (hc.stable _).and (.imp fun _ => hNst _)⟩
    · exact fun _ => .const True
    · exact fun _ => hNst _
    · exact fun _ _ _ _ _ => trivial
    · intro r hr w' hw' hkeep
      rw [ha.rows _ r hr, ha.keeps _ hw'.view] at hkeep
      exact hN w' ⟨hw'.good, hw'.fact.1, hw'.view⟩ hkeep
  · have hor : T.row i ∈ locked ∨ N w' := by
      cases hcond : cond (T.get (c.redo w.db) i) with
      | false => exact .inr (hw'.fact.2 hcond)
      | true => exact hsel _ (ha.selects _ hw.view hcond)
    have hA : S.After q c name w.log.length (st.write (c.redo w.db) locked ∘ c.redo)
        (fun w => T.row i ∈ locked ∨ N w) _ :=
      .of_kept hc (fun p h => List.mem_append_right (st.locks locked) h) (by
        intro past held hp hh
        by_cases hmem : T.row i ∈ locked
        · exact .of_forall fun _ => .inl hmem
        · have hst := hNk past held (fun p h => hp p (List.mem_cons_of_mem _ h))
            fun p h => hh p (List.mem_append_right _ h)
          intro w₁ w₂ hg hg' hch hmay hag hor
          exact .inr (hst w₁ w₂ hg hg' hch hmay hag (hor.resolve_left hmem)))
    exact ⟨hends _ _ _, _, ⟨⟨hw'.fact.1, hor⟩, hA.kept.now⟩,
      hk w w' locked _ hw ⟨hw'.good, hw'.fact.1, hw'.view⟩ (fun r hr => ha.rows _ r (hl r hr).1) hA⟩

theorem Spec.wp_reference {p : α → Bool} (hp : ∀ a, p a = true ↔ T.key a = i) (hc : S.Kept q c)
    (hget : ∀ d, (T.get (c.redo d) i).isSome = (T.get d i).isSome)
    (hends : ∀ snap locked d, S.ends q name snap locked d)
    (hlock : ∀ w w' locked c', S.Here c w → S.Here c w' → locked ≠ [] →
      S.After q c name w.log.length c.redo (fun w => (T.get w.db i).isSome = true) c' →
      S.wp q (k (c.redo w.db) (c.redo w'.db) locked) K c')
    (hskip : ∀ w w' c', S.Here c w → S.Here c w' →
      S.After q c name w.log.length c.redo (fun _ => True) c' →
      S.wp q (k (c.redo w.db) (c.redo w'.db) []) K c') :
    S.wp q (.exec name (T.lockRows p .keyShare) k) K c := by
  apply wp_parent hp hget (fun n => hc.stable (name, n)) hends
  · intro w w' locked hw hw' hl hs
    have hmem : (T.row i, LockMode.keyShare) ∈ (T.lockRows p .keyShare).locks locked ++ c.held :=
      List.mem_append_left _ (List.mem_map.mpr ⟨_, hl, rfl⟩)
    apply hlock w w' locked _ hw hw' (List.ne_nil_of_mem hl)
    apply After.of_kept hc fun p hp => List.mem_append_right _ hp
    exact fun past held _ hh => .has (hh _ hmem) true
  · intro w w' hw hw'
    apply hskip w w' _ hw hw'
    exact ⟨rfl, fun _ h => h, rfl, fun _ h => ⟨h, trivial⟩,
      hc.mono (fun _ h => List.mem_cons_of_mem _ h) (fun _ h => h) rfl⟩

/-- An insert with entries in further indexes: a key whose row it has locked is free and stays so. -/
theorem Spec.wp_insert {a : α} {index : List R} {taken : D → R → Bool} (hc : S.Kept q c)
    (hget : ∀ d, T.get (c.redo d) (T.key a) = T.get d (T.key a))
    (hends : ∀ snap locked d, S.ends q name snap locked d)
    (hk : ∀ w w' locked c', S.Here c w → S.Here c w' →
      S.After q c name w.log.length ((T.insert a index taken).write (c.redo w.db) locked ∘ c.redo)
        (fun w => T.rowOf a ∈ locked → T.get w.db (T.key a) = none) c' →
      S.wp q (k (c.redo w.db) ((T.insert a index taken).write (c.redo w.db) locked (c.redo w'.db))
        locked) K c') :
    S.wp q (.exec name (T.insert a index taken) k) K c := by
  have hks : LockMode.update ≠ .keyShare := by decide
  apply wp_exec
  intro w hw _
  refine ⟨c.fact, fun r w' => r = T.rowOf a → T.get w'.db (T.key a) = none, fun _ _ => True, ?_, ?_⟩
  · refine ⟨⟨hw.fact, hc.stable _⟩, fun r w₁ w₂ _ _ _ _ hag hF hr => ?_, fun _ => .const True,
      fun r _ w' _ hkeep hr => ?_, fun _ _ _ _ _ => trivial⟩
    · subst hr
      have hsame : T.get w₁.db (T.key a) = T.get w₂.db (T.key a) :=
        (T.same_row (hag _ List.mem_cons_self)).eq hks
      rw [← hsame]
      exact hF rfl
    · subst hr
      rw [TableOf.keeps_insert, hget] at hkeep
      cases hg : T.get w'.db (T.key a) with
      | none => rfl
      | some b =>
        rw [hg] at hkeep
        cases hkeep
  · intro locked w' hw' hl _
    have hA : S.After q c name w.log.length
        ((T.insert a index taken).write (c.redo w.db) locked ∘ c.redo)
        (fun w => T.rowOf a ∈ locked → T.get w.db (T.key a) = none) _ :=
      .of_kept hc (fun p h => List.mem_append_right ((T.insert a index taken).locks locked) h)
        fun past held _ hh => .imp fun hmem => .get
          (hh _ (List.mem_append_left _ (List.mem_map.mpr ⟨_, hmem, rfl⟩))) hks none
    exact ⟨hends _ _ _, _, ⟨⟨hw'.fact, fun hmem => (hl _ hmem).2 rfl⟩, hA.kept.now⟩,
      hk w w' locked _ hw hw' hA⟩

def TableOf.Locked (T : TableOf D R α κ) (p : α → Bool) (locked : List R) (d : D) : Prop :=
  ∀ i, T.row i ∈ locked → ∃ a, T.get d i = some a ∧ p a = true

omit [DecidableEq R] in
theorem Spec.Stable.of_locked {p : α → Bool} {held : List (R × LockMode)}
    (hm : ∀ r, st.mode r ≠ .keyShare) (hl : ∀ l ∈ st.locks locked, l ∈ held) :
    S.Stable q past held fun w => T.Locked p locked w.db := by
  intro w w' _ _ _ _ ha h i hi
  have hsame : T.get w.db i = T.get w'.db i :=
    (T.same_row (ha _ (hl _ (List.mem_map.mpr ⟨_, hi, rfl⟩)))).eq (hm _)
  rw [← hsame]
  exact h i hi

/-- A statement on any number of rows: `F` is known of each row it has locked, `N` remains of the
others that its snapshot selected, and `B` is known from its begin on. The statement may meet the
request's own writes. -/
theorem Spec.wp_many {sel : D → α → Bool} {p : α → Bool}
    (hrows : ∀ d, st.rows d = ((T.rows d).filter (sel d)).map T.rowOf)
    (hkeeps : ∀ d r, st.keeps d r = (T.rows d).any fun a => decide (T.rowOf a = r) && p a)
    (hc : S.Kept q c) (B : World D X Q ρ ν → World D X Q ρ ν → Prop) (hB : ∀ w, S.Here c w → B w w)
    (hBk : ∀ w n, S.Kept q { c with past := (name, n) :: c.past, fact := B w })
    (F : κ → World D X Q ρ ν → Prop)
    (hFs : ∀ i n, S.Stable q ((name, n) :: c.past) ((T.row i, st.mode (T.row i)) :: c.held) (F i))
    (hF : ∀ i w, S.Here c w → (∃ a, T.get (c.redo w.db) i = some a ∧ p a = true) → F i w)
    (N : κ → World D X Q ρ ν → Prop)
    (hNk : ∀ i n, S.Kept q { c with past := (name, n) :: c.past, fact := N i })
    (hN : ∀ i w, S.Here c w → (∀ a, T.get (c.redo w.db) i = some a → p a = false) → N i w)
    (hk : ∀ w w' locked, S.Here c w → S.Here c w' → B w w' →
      (∀ r ∈ locked, ∃ a ∈ T.rows (c.redo w.db), sel (c.redo w.db) a = true ∧ r = T.rowOf a) →
      (∀ i, T.row i ∈ locked → F i w') →
      (∀ a ∈ T.rows (c.redo w.db), sel (c.redo w.db) a = true →
        T.rowOf a ∈ locked ∨ N (T.key a) w') →
      S.ends q name (c.redo w.db) locked (c.redo w'.db) ∧
      ∃ fact, fact w' ∧
        S.Kept q (Known.after c name st w.log.length (c.redo w.db) locked fact) ∧
        ∀ c', S.After q c name w.log.length (st.write (c.redo w.db) locked ∘ c.redo) fact c' →
          S.wp q (k (c.redo w.db) (st.write (c.redo w.db) locked (c.redo w'.db)) locked) K c') :
    S.wp q (.exec name st k) K c := by
  apply wp_exec
  intro w hw _
  refine ⟨fun w' => c.fact w' ∧ B w w', fun r w' => ∀ i, r = T.row i → F i w',
    fun r w' => ∀ i, r = T.row i → N i w', ?_, ?_⟩
  · apply Argument.mk
    · exact ⟨⟨hw.fact, hB w hw⟩, (hc.stable _).and (hBk w _).now⟩
    · rintro r w₁ w₂ hg hg' hch hmay hag h i rfl
      exact hFs i _ w₁ w₂ hg hg' hch hmay hag (h i rfl)
    · exact fun r => .all fun i => .imp fun _ => (hNk i _).now
    · rintro _ _ w' hw' hk i rfl
      apply hF i w' ⟨hw'.good, hw'.fact.1, hw'.view⟩
      rw [hkeeps, TableOf.any_key hw'.view] at hk
      cases hg : T.get (c.redo w'.db) i with
      | none =>
        rw [hg] at hk
        cases hk
      | some a =>
        rw [hg] at hk
        exact ⟨a, rfl, hk⟩
    · rintro _ _ w' hw' hk i rfl
      rw [hkeeps, TableOf.any_key hw'.view] at hk
      apply hN i w' ⟨hw'.good, hw'.fact.1, hw'.view⟩
      intro a hg
      rw [hg] at hk
      exact hk
  · intro locked w' hw' hl hsel
    obtain ⟨hends, fact, hf, hkept, hwp⟩ := hk w w' locked hw ⟨hw'.good, hw'.fact.1, hw'.view⟩ hw'.fact.2
      (by
        intro r hr
        have hmem := (hl r hr).1
        rw [hrows] at hmem
        obtain ⟨a, ha, rfl⟩ := List.mem_map.mp hmem
        exact ⟨a, List.mem_of_mem_filter ha, (List.mem_filter.mp ha).2, rfl⟩)
      (fun i hi => (hl _ hi).2 i rfl)
      (by
        intro a ha hs
        have hmem : T.rowOf a ∈ st.rows (c.redo w.db) := by
          rw [hrows]
          exact List.mem_map.mpr ⟨a, List.mem_filter.mpr ⟨ha, hs⟩, rfl⟩
        exact (hsel _ hmem).imp_right fun h => h _ rfl)
    have ha := After.of_kept hc (fun p h => List.mem_append_right (st.locks locked) h) hkept
    exact ⟨hends, _, ⟨⟨hw'.fact.1, hf⟩, ha.kept.now⟩, hwp _ ha⟩

/-- A statement on rows that the request has not written before: those it has locked are as they are
now. -/
theorem Spec.wp_rows {sel : D → α → Bool} {p : α → Bool}
    (hrows : ∀ d, st.rows d = ((T.rows d).filter (sel d)).map T.rowOf)
    (hkeeps : ∀ d r, st.keeps d r = (T.rows d).any fun a => decide (T.rowOf a = r) && p a)
    (hm : ∀ r, st.mode r ≠ .keyShare) (hredo : ∀ d, T.rows (c.redo d) = T.rows d)
    (hc : S.Kept q c) (B : World D X Q ρ ν → World D X Q ρ ν → Prop) (hB : ∀ w, S.Here c w → B w w)
    (hBk : ∀ w n, S.Kept q { c with past := (name, n) :: c.past, fact := B w })
    (N : κ → World D X Q ρ ν → Prop)
    (hNk : ∀ i n, S.Kept q { c with past := (name, n) :: c.past, fact := N i })
    (hN : ∀ i w, S.Here c w → (∀ a, T.get w.db i = some a → p a = false) → N i w)
    (hk : ∀ w w' locked, S.Here c w → S.Here c w' → B w w' →
      (∀ r ∈ locked, ∃ a ∈ T.rows w.db, sel (c.redo w.db) a = true ∧ r = T.rowOf a) →
      T.Locked p locked w'.db →
      (∀ a ∈ T.rows w.db, sel (c.redo w.db) a = true → T.rowOf a ∈ locked ∨ N (T.key a) w') →
      S.ends q name (c.redo w.db) locked (c.redo w'.db) ∧
      ∃ fact, fact w' ∧
        S.Kept q (Known.after c name st w.log.length (c.redo w.db) locked fact) ∧
        ∀ c', S.After q c name w.log.length (st.write (c.redo w.db) locked ∘ c.redo) fact c' →
          S.wp q (k (c.redo w.db) (st.write (c.redo w.db) locked (c.redo w'.db)) locked) K c') :
    S.wp q (.exec name st k) K c := by
  have hget : ∀ d i, T.get (c.redo d) i = T.get d i := by
    intro d i
    unfold TableOf.get
    rw [hredo]
  refine wp_many hrows hkeeps hc B hB hBk
    (fun i w' => ∃ a, T.get w'.db i = some a ∧ p a = true) ?_ ?_ N hNk ?_ ?_
  · intro i n w₁ w₂ _ _ _ _ hag h
    have hsame : T.get w₁.db i = T.get w₂.db i :=
      (T.same_row (hag _ List.mem_cons_self)).eq (hm _)
    rw [← hsame]
    exact h
  · intro i w' _ h
    rw [hget] at h
    exact h
  · intro i w' hw' h
    rw [hget] at h
    exact hN i w' hw' h
  · intro w w' locked hw hw' hBw hsel hl hcov
    rw [hredo] at hsel hcov
    exact hk w w' locked hw hw' hBw hsel hl hcov

def TableOf.Shrinks (T : TableOf D R α κ) (p : α → Bool) (d d' : D) : Prop :=
  ∀ a ∈ T.rows d', p a = true → ∃ a' ∈ T.rows d, T.key a' = T.key a ∧ p a' = true

omit [DecidableEq R] in
theorem TableOf.Shrinks.of_subset {p : α → Bool} {d d' : D}
    (h : ∀ a ∈ T.rows d', p a = true → a ∈ T.rows d) : T.Shrinks p d d' :=
  fun a ha hp => ⟨a, h a ha hp, rfl, hp⟩

omit [DecidableEq R] in
theorem TableOf.Shrinks.of_eq {d d' : D} (h : T.rows d' = T.rows d) (p : α → Bool) :
    T.Shrinks p d d' :=
  .of_subset fun _ ha _ => h ▸ ha

omit [DecidableEq R] in
theorem TableOf.Shrinks.trans {p : α → Bool} {d d' d'' : D} (h : T.Shrinks p d d')
    (h' : T.Shrinks p d' d'') : T.Shrinks p d d'' := by
  intro a ha hp
  obtain ⟨b, hb, hkey, hpb⟩ := h' a ha hp
  obtain ⟨e, he, hkey', hpe⟩ := h b hb hpb
  exact ⟨e, he, hkey'.trans hkey, hpe⟩

/-- A statement on all rows that meet a condition, while no other request brings in such a row: it
locks every one that is there in the end. -/
theorem Spec.wp_sweep {p : α → Bool}
    (hrows : ∀ d, st.rows d = ((T.rows d).filter p).map T.rowOf)
    (hkeeps : ∀ d r, st.keeps d r = (T.rows d).any fun a => decide (T.rowOf a = r) && p a)
    (hm : ∀ r, st.mode r ≠ .keyShare) (hredo : ∀ d, T.rows (c.redo d) = T.rows d)
    (hc : S.Kept q c) (hends : ∀ snap locked d, S.ends q name snap locked d)
    (hshrinks : ∀ past w w', S.Good w → S.Good w' → S.change w w' → S.may q past w w' →
      (∀ h ∈ c.held, Rows.Agree h.2 h.1 w.db w'.db) → T.Shrinks p w.db w'.db)
    (hk : ∀ w w' locked c', S.Here c w → S.Here c w' →
      S.After q c name w.log.length (st.write (c.redo w.db) locked ∘ c.redo)
        (fun w => ∀ a ∈ T.rows w.db, p a = true → T.rowOf a ∈ locked) c' →
      S.wp q (k (c.redo w.db) (st.write (c.redo w.db) locked (c.redo w'.db)) locked) K c') :
    S.wp q (.exec name st k) K c := by
  apply wp_rows hrows hkeeps hm hredo hc (fun w w' => T.Shrinks p w.db w'.db)
    (fun w _ => .of_eq rfl p) _ (fun i w => ∀ a, T.get w.db i = some a → p a = false) _
    (fun _ _ _ h => h)
  · intro w w' locked hw hw' hB hl _ hcov
    have hcovered : ∀ a ∈ T.rows w'.db, p a = true → T.rowOf a ∈ locked := by
      intro a ha hp
      obtain ⟨b, hb, hkey, hpb⟩ := hB a ha hp
      have hrow : T.rowOf b = T.rowOf a := congrArg T.row hkey
      rw [← hrow]
      apply (hcov b hb hpb).resolve_right
      intro hN
      have hget : T.get w'.db (T.key b) = some a :=
        (T.get_eq_some hw'.good.valid).mpr ⟨ha, hkey.symm⟩
      rw [hN a hget] at hp
      cases hp
    refine ⟨hends _ _ _, _, hcovered, ?_, fun c' ha => hk w w' locked c' hw hw' ha⟩
    intro past held _ hh w₁ w₂ hg hg' hch hmay hag hall a ha hp
    obtain ⟨b, hb, hkey, hpb⟩ := hshrinks past w₁ w₂ hg hg' hch hmay
      (fun h hmem => hag h (hh h (List.mem_append_right _ hmem))) a ha hp
    have hrow : T.rowOf b = T.rowOf a := congrArg T.row hkey
    rw [← hrow]
    exact hall b hb hpb
  · intro w n past held _ hh w₁ w₂ hg hg' hch hmay hag hB
    exact hB.trans (hshrinks past w₁ w₂ hg hg' hch hmay fun h hmem => hag h (hh h hmem))
  · intro i n past held _ hh w₁ w₂ hg hg' hch hmay hag hN a ha
    apply Bool.eq_false_iff.mpr
    intro hp
    obtain ⟨hmem, hkey⟩ := (T.get_eq_some hg'.valid).mp ha
    obtain ⟨b, hb, hkey', hpb⟩ := hshrinks past w₁ w₂ hg hg' hch hmay
      (fun h hmem => hag h (hh h hmem)) a hmem hp
    rw [hN b ((T.get_eq_some hg.valid).mpr ⟨hb, hkey'.trans hkey⟩)] at hpb
    cases hpb

end Rules

end PuppyTalk.Txn
