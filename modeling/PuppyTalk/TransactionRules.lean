import PuppyTalk.TransactionLogic

namespace PuppyTalk.Txn

variable {D R X ε ρ ν Q : Type} [Rows D R] {S : Spec D R X ε ρ ν Q} {q : Q}

/-- The commits from a first database on, each described by what it makes of the database before. -/
inductive History (G : Commit D Q ρ ν → D → Prop) (first : D) : List (Commit D Q ρ ν) → D → Prop where
  | nil : History G first [] first
  | snoc : History G first log d → G c d → History G first (log ++ [c]) c.db

theorem History.mono {G G' : Commit D Q ρ ν → D → Prop} {first : D}
    (h : History G first log d) (hG : ∀ c d, G c d → G' c d) : History G' first log d := by
  induction h with
  | nil => exact .nil
  | snoc _ hc ih => exact .snoc ih (hG _ _ hc)

def World.Committed (G : Commit D Q ρ ν → D → Prop) (w w' : World D X Q ρ ν) : Prop :=
  ∃ c : Commit D Q ρ ν, w' = { w with db := c.db, log := w.log ++ [c] } ∧ G c w.db

namespace Spec

theorem Stable.of_forall {fact : World D X Q ρ ν → Prop} (h : ∀ w, fact w) :
    S.Stable q past held fact := fun _ w' _ _ _ _ _ _ => h w'

theorem Stable.const (p : Prop) : S.Stable q past held fun _ => p :=
  fun _ _ _ _ _ _ _ hp => hp

theorem Stable.and {f g : World D X Q ρ ν → Prop} (hf : S.Stable q past held f)
    (hg : S.Stable q past held g) : S.Stable q past held fun w => f w ∧ g w := by
  intro w w' hi hi' hc hm ha h
  exact ⟨hf w w' hi hi' hc hm ha h.1, hg w w' hi hi' hc hm ha h.2⟩

theorem Stable.imp {p : Prop} {f : World D X Q ρ ν → Prop} (hf : p → S.Stable q past held f) :
    S.Stable q past held fun w => p → f w :=
  fun w w' hi hi' hc hm ha h hp => hf hp w w' hi hi' hc hm ha (h hp)

theorem Stable.all {f : ι → World D X Q ρ ν → Prop} (hf : ∀ x, S.Stable q past held (f x)) :
    S.Stable q past held fun w => ∀ x, f x w :=
  fun w w' hi hi' hc hm ha h x => hf x w w' hi hi' hc hm ha (h x)

theorem Stable.mono {fact : World D X Q ρ ν → Prop} (h : S.Stable q past held fact)
    (hsub : ∀ p ∈ held, p ∈ held') : S.Stable q past held' fact :=
  fun w w' hi hi' hc hm ha => h w w' hi hi' hc hm fun p hp => ha p (hsub p hp)

theorem Stable.of_row {fact : World D X Q ρ ν → Prop} (hmem : (r, m) ∈ held)
    (h : ∀ w w', Rows.Agree m r w.db w'.db → fact w → fact w') : S.Stable q past held fact :=
  fun w w' _ _ _ _ ha => h w w' (ha (r, m) hmem)

/-- No other request makes what is known false, now or later. -/
def Kept (S : Spec D R X ε ρ ν Q) (q : Q) (c : Known D R X ρ ν Q) : Prop :=
  ∀ past held, (∀ p ∈ c.past, p ∈ past) → (∀ p ∈ c.held, p ∈ held) → S.Stable q past held c.fact

theorem Kept.now {c : Known D R X ρ ν Q} (h : S.Kept q c) : S.Stable q c.past c.held c.fact :=
  h _ _ (fun _ hp => hp) fun _ hp => hp

theorem Kept.stable {c : Known D R X ρ ν Q} (h : S.Kept q c) (x : ρ × Nat) :
    S.Stable q (x :: c.past) c.held c.fact :=
  h _ _ (fun _ hp => List.mem_cons_of_mem _ hp) fun _ hp => hp

theorem Kept.mono {c c' : Known D R X ρ ν Q} (h : S.Kept q c) (hp : ∀ p ∈ c.past, p ∈ c'.past)
    (hh : ∀ p ∈ c.held, p ∈ c'.held) (hf : c'.fact = c.fact) : S.Kept q c' := by
  intro past held hp' hh'
  rw [hf]
  exact h past held (fun p h => hp' p (hp p h)) fun p h => hh' p (hh p h)

theorem Kept.true {c : Known D R X ρ ν Q} (h : c.fact = fun _ => True) : S.Kept q c := by
  intro past held _ _
  rw [h]
  exact .const True

theorem Kept.false {c : Known D R X ρ ν Q} (h : c.fact = fun _ => False) : S.Kept q c := by
  intro past held _ _
  rw [h]
  exact .const False

/-- What is known after one more statement: the writes so far and one more fact. -/
structure After (S : Spec D R X ε ρ ν Q) (q : Q) (c : Known D R X ρ ν Q) (name : ρ) (n : Nat)
    (redo : D → D) (fact : World D X Q ρ ν → Prop) (c' : Known D R X ρ ν Q) : Prop where
  past : c'.past = (name, n) :: c.past
  held : ∀ p ∈ c.held, p ∈ c'.held
  redo : c'.redo = redo
  fact : ∀ w, c'.fact w → c.fact w ∧ fact w
  kept : S.Kept q c'

theorem After.of_kept {c : Known D R X ρ ν Q} {held : List (R × LockMode)} {redo : D → D}
    {fact : World D X Q ρ ν → Prop} (h : S.Kept q c)
    (hh : ∀ p ∈ c.held, p ∈ held)
    (hf : S.Kept q { past := (name, n) :: c.past, held := held, redo := redo, fact := fact }) :
    S.After q c name n redo fact
      { past := (name, n) :: c.past, held := held, redo := redo, fact := fun w => c.fact w ∧ fact w } := by
  refine ⟨rfl, hh, rfl, fun _ hw => hw, fun past held' hp hh' => .and ?_ (hf past held' hp hh')⟩
  exact h past held' (fun p h => hp p (List.mem_cons_of_mem _ h)) fun p h => hh' p (hh p h)

/-- What is known after statements that all keep to a relation. -/
structure Framed (S : Spec D R X ε ρ ν Q) (q : Q) (c : Known D R X ρ ν Q) (names : ρ → Prop)
    (rel : D → D → Prop) (c' : Known D R X ρ ν Q) : Prop where
  past : ∀ p ∈ c.past, p ∈ c'.past
  only : ∀ p ∈ c'.past, p ∈ c.past ∨ names p.1
  held : ∀ p ∈ c.held, p ∈ c'.held
  moves : ∀ d, rel (c.redo d) (c'.redo d)
  fact : ∀ w, c'.fact w → c.fact w
  kept : S.Kept q c'

theorem Framed.refl {names : ρ → Prop} {rel : D → D → Prop} {c : Known D R X ρ ν Q}
    (hrefl : ∀ d, rel d d) (h : S.Kept q c) : S.Framed q c names rel c :=
  ⟨fun _ h => h, fun _ h => .inl h, fun _ h => h, fun _ => hrefl _, fun _ h => h, h⟩

theorem After.framed {names : ρ → Prop} {rel : D → D → Prop} {c c' : Known D R X ρ ν Q} {redo : D → D}
    {fact : World D X Q ρ ν → Prop} (h : S.After q c name n redo fact c') (hn : names name)
    (hr : ∀ d, rel (c.redo d) (redo d)) : S.Framed q c names rel c' := by
  refine ⟨fun p hp => ?_, fun p hp => ?_, h.held, fun d => h.redo ▸ hr d,
    fun w hw => (h.fact w hw).1, h.kept⟩
  · rw [h.past]
    exact List.mem_cons_of_mem _ hp
  · rw [h.past] at hp
    rcases List.mem_cons.mp hp with rfl | hp
    · exact .inr hn
    · exact .inl hp

theorem Framed.trans {names : ρ → Prop} {rel : D → D → Prop} {c c' c'' : Known D R X ρ ν Q}
    (htrans : ∀ d₁ d₂ d₃, rel d₁ d₂ → rel d₂ d₃ → rel d₁ d₃) (h : S.Framed q c names rel c')
    (h' : S.Framed q c' names rel c'') : S.Framed q c names rel c'' where
  past p hp := h'.past p (h.past p hp)
  only p hp := (h'.only p hp).elim (h.only p) .inr
  held p hp := h'.held p (h.held p hp)
  moves d := htrans _ _ _ (h.moves d) (h'.moves d)
  fact w hw := h.fact w (h'.fact w hw)
  kept := h'.kept

variable [DecidableEq R]

theorem wp_pure (a : α) (K : α → Known D R X ρ ν Q → Prop) (c : Known D R X ρ ν Q) :
    S.wp q (Pure.pure a : Prog D R X ε ρ ν α) K c = K a c := rfl

theorem wp_bind (x : Prog D R X ε ρ ν α) (f : α → Prog D R X ε ρ ν β)
    (K : β → Known D R X ρ ν Q → Prop) (c : Known D R X ρ ν Q) :
    S.wp q (x >>= f) K c = S.wp q x (fun a c => S.wp q (f a) K c) c := by
  induction x generalizing c with
  | pure a => rfl
  | raise e => rfl
  | select name ok k ih =>
    simp only [Prog.select_bind, wp, ih]
  | call g k ih =>
    simp only [Prog.call_bind, wp, ih]
  | exec name st k ih =>
    simp only [Prog.exec_bind, wp, ih]
  | commit note k ih =>
    simp only [Prog.commit_bind, wp, ih]

theorem wp_mono {x : Prog D R X ε ρ ν α} {K K' : α → Known D R X ρ ν Q → Prop}
    (h : S.wp q x K c) (hK : ∀ a c, K a c → K' a c) : S.wp q x K' c := by
  induction x generalizing c with
  | pure a => exact hK a c h
  | raise e => exact h
  | select name ok k ih =>
    intro w hw hr hok
    obtain ⟨he, fact, hh, hwp⟩ := h w hw hr hok
    exact ⟨he, fact, hh, ih _ hwp⟩
  | call g k ih =>
    intro w hw
    obtain ⟨hi', hc, fact, hh, hwp⟩ := h w hw
    exact ⟨hi', hc, fact, hh, ih _ hwp⟩
  | exec name st k ih =>
    intro w hw hr
    obtain ⟨A, hA, hscan⟩ := h w hw hr
    refine ⟨A, hA, hscan.stable, hscan.takes, hscan.skips, ?_⟩
    intro locked w' hg hv hA'
    obtain ⟨he, fact, hh, hwp⟩ := hscan.finish locked w' hg hv hA'
    exact ⟨he, fact, hh, ih _ _ _ hwp⟩
  | commit note k ih =>
    intro w hw ha
    obtain ⟨hi', hc, fact, hh, hwp⟩ := h w hw ha
    exact ⟨hi', hc, fact, hh, ih hwp⟩

theorem wp_tryExcept {x : Prog D R X ε ρ ν α} {K : α → Known D R X ρ ν Q → Prop}
    {handler : ε → Option ε} (hraise : ∀ past e log, S.raised q past e log) (h : S.wp q x K c) :
    S.wp q (x.tryExcept handler) K c := by
  induction x generalizing c with
  | pure a => exact h
  | raise e => exact fun w _ => hraise _ _ w.log
  | select name ok k ih =>
    intro w hw hr hok
    obtain ⟨he, fact, hh, hwp⟩ := h w hw hr hok
    exact ⟨he, fact, hh, ih _ hwp⟩
  | call g k ih =>
    intro w hw
    obtain ⟨hi', hc, fact, hh, hwp⟩ := h w hw
    exact ⟨hi', hc, fact, hh, ih _ hwp⟩
  | exec name st k ih =>
    intro w hw hr
    obtain ⟨A, hA, hscan⟩ := h w hw hr
    refine ⟨A, hA, hscan.stable, hscan.takes, hscan.skips, ?_⟩
    intro locked w' hg hv hA'
    obtain ⟨he, fact, hh, hwp⟩ := hscan.finish locked w' hg hv hA'
    exact ⟨he, fact, hh, ih _ _ _ hwp⟩
  | commit note k ih =>
    intro w hw ha
    obtain ⟨hi', hc, fact, hh, hwp⟩ := h w hw ha
    exact ⟨hi', hc, fact, hh, ih hwp⟩

theorem wp_commit {k : Prog D R X ε ρ ν α} {K : α → Known D R X ρ ν Q → Prop}
    (h : ∀ w, S.Here c w → S.adm q w (w.commit q note c.past (c.redo w.db)) →
      S.inv (w.commit q note c.past (c.redo w.db)) ∧
      S.change w (w.commit q note c.past (c.redo w.db)))
    (hk : S.wp q k K { past := c.past, held := [], redo := id, fact := fun _ => True }) :
    S.wp q (.commit note k) K c := by
  intro w hw hadm
  obtain ⟨hinv, hch⟩ := h w hw hadm
  exact ⟨hinv, hch, fun _ => True, ⟨trivial, .const True⟩, hk⟩

theorem wp_select {k : D → Prog D R X ε ρ ν α} {K : α → Known D R X ρ ν Q → Prop}
    (hends : ∀ d, S.ends q name d [] d) (hc : S.Kept q c)
    (hk : ∀ w c', S.Here c w → ok (c.redo w.db) = true →
      S.After q c name w.log.length c.redo (fun _ => True) c' → S.wp q (k (c.redo w.db)) K c') :
    S.wp q (.select name ok k) K c := by
  intro w hw _ hok
  have ha : S.After q c name w.log.length c.redo (fun _ => True) _ :=
    .of_kept hc (fun _ h => h) (.true rfl)
  exact ⟨hends _, _, ⟨⟨hw.fact, trivial⟩, ha.kept.now⟩, hk w _ hw hok ha⟩

theorem wp_select_reads {k : D → Prog D R X ε ρ ν α} {K : α → Known D R X ρ ν Q → Prop}
    (hends : ∀ d, S.ends q name d [] d) (hc : S.Kept q c)
    (B : World D X Q ρ ν → World D X Q ρ ν → Prop) (hB : ∀ w, S.Here c w → S.reads q name w → B w w)
    (hBk : ∀ w n held redo,
      S.Kept q { past := (name, n) :: c.past, held := held, redo := redo, fact := B w })
    (hk : ∀ w c', S.Here c w → S.reads q name w → ok (c.redo w.db) = true →
      S.After q c name w.log.length c.redo (B w) c' → S.wp q (k (c.redo w.db)) K c') :
    S.wp q (.select name ok k) K c := by
  intro w hw hr hok
  have ha : S.After q c name w.log.length c.redo (B w) _ :=
    .of_kept hc (fun _ h => h) (hBk w _ _ _)
  exact ⟨hends _, _, ⟨⟨hw.fact, hB w hw hr⟩, ha.kept.now⟩, hk w _ hw hr hok ha⟩

theorem wp_select_fact {k : D → Prog D R X ε ρ ν α} {K : α → Known D R X ρ ν Q → Prop}
    (hends : ∀ d, S.ends q name d [] d) (hc : S.Kept q c)
    (B : World D X Q ρ ν → World D X Q ρ ν → Prop) (hB : ∀ w, S.Here c w → S.reads q name w → B w w)
    (hBk : ∀ w n held redo,
      S.Kept q { past := (name, n) :: c.past, held := held, redo := redo, fact := B w })
    (hk : ∀ w c', S.Here c w → ok (c.redo w.db) = true →
      S.After q c name w.log.length c.redo (B w) c' → S.wp q (k (c.redo w.db)) K c') :
    S.wp q (.select name ok k) K c :=
  wp_select_reads hends hc B hB hBk fun w c' hw _ => hk w c' hw

/-- How a statement is argued about: a fact `B` from its begin on, `F` of each row it locks and `N`
of each row it passes over. -/
structure Argument (S : Spec D R X ε ρ ν Q) (q : Q) (name : ρ) (st : Stmt D R)
    (c : Known D R X ρ ν Q) (w : World D X Q ρ ν) (B : World D X Q ρ ν → Prop)
    (F N : R → World D X Q ρ ν → Prop) : Prop where
  base : S.Holds q ((name, w.log.length) :: c.past) c.held B w
  locked_stable : ∀ r, S.Stable q ((name, w.log.length) :: c.past) ((r, st.mode r) :: c.held) (F r)
  skipped_stable : ∀ r, S.Stable q ((name, w.log.length) :: c.past) c.held (N r)
  locks : ∀ r ∈ st.rows (c.redo w.db), ∀ w', S.Here { c with fact := B } w' →
    st.keeps (c.redo w'.db) r = true → F r w'
  skips : ∀ r ∈ st.rows (c.redo w.db), ∀ w', S.Here { c with fact := B } w' →
    st.keeps (c.redo w'.db) r = false → N r w'

def Known.after (c : Known D R X ρ ν Q) (name : ρ) (st : Stmt D R) (n : Nat) (snap : D)
    (locked : List R) (fact : World D X Q ρ ν → Prop) : Known D R X ρ ν Q where
  past := (name, n) :: c.past
  held := st.locks locked ++ c.held
  redo := st.write snap locked ∘ c.redo
  fact := fact

theorem wp_exec {st : Stmt D R} {k : D → D → List R → Prog D R X ε ρ ν α}
    {K : α → Known D R X ρ ν Q → Prop}
    (h : ∀ w, S.Here c w → S.reads q name w → ∃ B F N, S.Argument q name st c w B F N ∧
      ∀ locked w', S.Here { c with fact := B } w' →
        (∀ r ∈ locked, r ∈ st.rows (c.redo w.db) ∧ F r w') →
        (∀ r ∈ st.rows (c.redo w.db), r ∈ locked ∨ N r w') →
        S.ends q name (c.redo w.db) locked (c.redo w'.db) ∧
        ∃ fact, S.Holds q ((name, w.log.length) :: c.past) (st.locks locked ++ c.held) fact w' ∧
          S.wp q (k (c.redo w.db) (st.write (c.redo w.db) locked (c.redo w'.db)) locked) K
            (Known.after c name st w.log.length (c.redo w.db) locked fact)) :
    S.wp q (.exec name st k) K c := by
  intro w hw hr
  obtain ⟨B, F, N, arg, hk⟩ := h w hw hr
  refine ⟨fun sc w' => B w' ∧ (∀ r ∈ sc.locked, r ∈ st.rows (c.redo w.db) ∧ F r w') ∧
    (∀ r ∈ sc.waiting, r ∈ st.rows (c.redo w.db)) ∧
    ∀ r ∈ st.rows (c.redo w.db), r ∈ sc.waiting ∨ r ∈ sc.locked ∨ N r w', ?_, ?_⟩
  · exact ⟨arg.base.now, List.forall_mem_nil _, fun r hr => hr, fun r hr => .inl hr⟩
  · apply Scanning.mk
    · rintro sc w₁ w₂ hi₁ hi₂ hc hm ha ⟨hB, hF, hwait, hN⟩
      have hheld : ∀ p ∈ c.held, Rows.Agree p.2 p.1 w₁.db w₂.db :=
        fun p hp => ha p (List.mem_append_right _ hp)
      refine ⟨arg.base.stable w₁ w₂ hi₁ hi₂ hc hm hheld hB, fun r hr => ⟨(hF r hr).1, ?_⟩, hwait,
        fun r hr => (hN r hr).imp_right (Or.imp_right ?_)⟩
      · apply arg.locked_stable r w₁ w₂ hi₁ hi₂ hc hm _ (hF r hr).2
        rintro p hp
        rcases List.mem_cons.mp hp with rfl | hp
        · exact ha _ (List.mem_append_left _ (List.mem_map.mpr ⟨r, hr, rfl⟩))
        · exact hheld p hp
      · exact arg.skipped_stable r w₁ w₂ hi₁ hi₂ hc hm hheld
    · rintro sc r w' hg hv ⟨hB, hF, hwait, hN⟩ hr hk
      refine ⟨hB, ?_, fun x hx => hwait x (List.mem_of_mem_filter hx), fun x hx => ?_⟩
      · intro x hx
        rcases List.mem_cons.mp hx with rfl | hx
        · exact ⟨hwait x hr, arg.locks x (hwait x hr) w' ⟨hg, hB, hv⟩ hk⟩
        · exact hF x hx
      · by_cases hxr : x = r
        · exact .inr (.inl (hxr ▸ List.mem_cons_self))
        · rcases hN x hx with hx | hx | hx
          · exact .inl (List.mem_filter.mpr ⟨hx, decide_eq_true hxr⟩)
          · exact .inr (.inl (List.mem_cons_of_mem _ hx))
          · exact .inr (.inr hx)
    · rintro sc r w' hg hv ⟨hB, hF, hwait, hN⟩ hr hk
      refine ⟨hB, hF, fun x hx => hwait x (List.mem_of_mem_filter hx), fun x hx => ?_⟩
      by_cases hxr : x = r
      · exact .inr (.inr (hxr ▸ arg.skips r (hwait r hr) w' ⟨hg, hB, hv⟩ hk))
      · exact (hN x hx).imp_left fun hx => List.mem_filter.mpr ⟨hx, decide_eq_true hxr⟩
    · rintro locked w' hg hv ⟨hB, hF, _, hN⟩
      exact hk locked w' ⟨hg, hB, hv⟩ hF fun r hr => (hN r hr).resolve_left (nomatch ·)

theorem wp_any {st : Stmt D R} {k : D → D → List R → Prog D R X ε ρ ν α}
    {K : α → Known D R X ρ ν Q → Prop} (hc : S.Kept q c)
    (hends : ∀ snap locked d, S.ends q name snap locked d)
    (hk : ∀ w w' locked c', S.Here c w → S.Here c w' →
      (∀ r ∈ locked, r ∈ st.rows (c.redo w.db)) →
      S.After q c name w.log.length (st.write (c.redo w.db) locked ∘ c.redo) (fun _ => True) c' →
      S.wp q (k (c.redo w.db) (st.write (c.redo w.db) locked (c.redo w'.db)) locked) K c') :
    S.wp q (.exec name st k) K c := by
  apply wp_exec
  intro w hw _
  refine ⟨c.fact, fun _ _ => True, fun _ _ => True, ?_, fun locked w' hw' hl _ => ?_⟩
  · exact ⟨⟨hw.fact, hc.stable _⟩, fun _ => .const True, fun _ => .const True,
      fun _ _ _ _ _ => trivial, fun _ _ _ _ _ => trivial⟩
  · have ha : S.After q c name w.log.length (st.write (c.redo w.db) locked ∘ c.redo) (fun _ => True) _ :=
      .of_kept hc (fun p h => List.mem_append_right (st.locks locked) h) (.true rfl)
    exact ⟨hends _ _ _, _, ⟨⟨hw'.fact, trivial⟩, ha.kept.now⟩,
      hk w w' locked _ hw hw' (fun r hr => (hl r hr).1) ha⟩

end Spec

def Prog.Returns (P : α → Prop) : Prog D R X ε ρ ν α → Prop
  | .pure a => P a
  | .raise _ => True
  | .select _ _ k => ∀ d, (k d).Returns P
  | .call _ k => ∀ x, (k x).Returns P
  | .exec _ _ k => ∀ snap d locked, (k snap d locked).Returns P
  | .commit _ k => k.Returns P

theorem Prog.Returns.bind {P : β → Prop} {x : Prog D R X ε ρ ν α} {f : α → Prog D R X ε ρ ν β}
    {Q : α → Prop} (h : x.Returns Q) (hf : ∀ a, Q a → (f a).Returns P) : (x >>= f).Returns P := by
  induction x with
  | pure a => exact hf a h
  | raise e => trivial
  | select name ok k ih => exact fun d => ih d (h d)
  | call g k ih => exact fun x => ih x (h x)
  | exec name st k ih => exact fun snap d locked => ih snap d locked (h snap d locked)
  | commit note k ih => exact ih h

theorem Prog.returns_true (x : Prog D R X ε ρ ν α) : x.Returns fun _ => True := by
  induction x with
  | pure a => trivial
  | raise e => trivial
  | select name ok k ih => exact fun d => ih d
  | call g k ih => exact fun x => ih x
  | exec name st k ih => exact fun snap d locked => ih snap d locked
  | commit note k ih => exact ih

section Alone

variable [DecidableEq R] {program : Q → Prog D R X ε ρ ν (Option Q)} {P : Q → Prop}

def Follows (P : Q → Prop) (tx : Tx D R X ε ρ ν Q) : Prop :=
  P tx.req ∧ tx.prog.Returns fun next => ∀ q, next = some q → P q

omit [DecidableEq R] in
theorem Follows.start (hP : ∀ q, P q → (program q).Returns fun next => ∀ q', next = some q' → P q')
    (h : P q) : Follows P (Tx.start program q) := ⟨h, hP q h⟩

omit [DecidableEq R] in
theorem Follows.run {s s' : State D R X ε ρ ν Q} {tx : Tx D R X ε ρ ν Q}
    (hP : ∀ q, P q → (program q).Returns fun next => ∀ q', next = some q' → P q')
    (h : Follows P tx) (hs : s.run program i tx = some s') :
    ∀ tx', s'.txs i = some tx' → Follows P tx' := by
  obtain ⟨hreq, hret⟩ := h
  intro tx' htx'
  unfold State.run at hs
  dsimp only at hs
  cases hp : tx.prog with
  | pure next =>
    rw [hp] at hs hret
    cases next with
    | none =>
      cases hs
      rw [State.close_self] at htx'
      cases htx'
    | some q =>
      cases hs
      rw [State.setTx_self] at htx'
      cases htx'
      exact ⟨hret q rfl, hP q (hret q rfl)⟩
  | raise e =>
    rw [hp] at hs
    cases hs
    rw [State.close_self] at htx'
    cases htx'
  | select name ok k =>
    rw [hp] at hs hret
    dsimp only at hs
    split at hs
    · cases hs
      rw [State.setTx_self] at htx'
      cases htx'
      exact ⟨hreq, hret _⟩
    · cases hs
  | call f k =>
    rw [hp] at hs hret
    cases hs
    rw [State.setTx_self] at htx'
    cases htx'
    exact ⟨hreq, hret _⟩
  | exec name st k =>
    rw [hp] at hs hret
    dsimp only at hs
    split at hs
    · cases hs
      rw [State.setTx_self] at htx'
      cases htx'
      exact ⟨hreq, hret⟩
    · split at hs
      · cases hs
        rw [State.setTx_self] at htx'
        cases htx'
        exact ⟨hreq, hret _ _ _⟩
      · cases hs
  | commit note k =>
    rw [hp] at hs hret
    cases hs
    rw [State.setTx_self] at htx'
    cases htx'
    exact ⟨hreq, hret⟩

theorem Follows.step {s s' : State D R X ε ρ ν Q} {a : Label R Q}
    (hP : ∀ q, P q → (program q).Returns fun next => ∀ q', next = some q' → P q')
    (hbegin : ∀ j q, a = .begin j q → P q) (h : ∀ tx, s.txs a.slot = some tx → Follows P tx)
    (hs : Txn.step program s a = some s') : ∀ tx, s'.txs a.slot = some tx → Follows P tx := by
  intro tx' htx'
  cases a with
  | begin i q =>
    simp only [Txn.step] at hs
    split at hs
    · cases hs
    · cases hs
      rw [Label.slot, State.setTx_self] at htx'
      cases htx'
      exact .start hP (hbegin i q rfl)
  | run i =>
    obtain ⟨tx, htx, hs⟩ := Option.bind_eq_some_iff.mp hs
    exact (h tx htx).run hP hs tx' htx'
  | lock i r =>
    obtain ⟨tx, htx, hs⟩ := Option.bind_eq_some_iff.mp hs
    unfold State.lock at hs
    split at hs
    · obtain ⟨_, _, rfl⟩ := Option.map_eq_some_iff.mp hs
      rw [Label.slot, State.setTx_self] at htx'
      cases htx'
      exact h tx htx
    · cases hs
  | abort i =>
    obtain ⟨tx, htx, rfl⟩ := Option.map_eq_some_iff.mp hs
    rw [Label.slot, State.close_self] at htx'
    cases htx'

theorem along_alone {run : List (Label R Q)} (db : D) (ext : X)
    (hP : ∀ q, P q → (program q).Returns fun next => ∀ q', next = some q' → P q')
    (h : ∀ a ∈ run, a.slot = i ∧ ∀ j q, a = .begin j q → P q) :
    Along (Txn.step program) (fun s a => (∀ j q, a = .begin j q → P q) ∧
      (∀ j, j ≠ a.slot → s.txs j = none) ∧ ∀ tx, s.txs a.slot = some tx → P tx.req)
      (State.init db ext) run := by
  apply Along.of_invariant (P := fun _ a => a.slot = i ∧ ∀ j q, a = .begin j q → P q)
    (I := fun s => (∀ j, j ≠ i → s.txs j = none) ∧ ∀ tx, s.txs i = some tx → Follows P tx)
  · rintro s a s' ⟨hnone, hfol⟩ ⟨rfl, hbegin⟩ hs
    refine ⟨fun j hne => ?_, Follows.step hP hbegin hfol hs⟩
    rw [step_txs_of_ne hs hne]
    exact hnone j hne
  · rintro s a ⟨hnone, hfol⟩ ⟨rfl, hbegin⟩
    exact ⟨hbegin, hnone, fun tx htx => (hfol tx htx).1⟩
  · exact ⟨fun _ _ => rfl, fun _ h => nomatch h⟩
  · exact Along.of_forall h _ _

end Alone

def Prog.Pays : Prog D R X ε ρ ν α → Prop
  | .pure _ => False
  | .raise _ => True
  | .select _ _ k => ∀ d, (k d).Pays
  | .call _ k => ∀ x, (k x).Pays
  | .exec _ _ k => ∀ snap d locked, (k snap d locked).Pays
  | .commit _ _ => True

theorem Prog.Pays.bind {x : Prog D R X ε ρ ν α} {f : α → Prog D R X ε ρ ν β} (h : x.Pays) :
    (x >>= f).Pays := by
  induction x with
  | pure a => exact h.elim
  | raise e => trivial
  | select name ok k ih => exact fun d => ih d (h d)
  | call g k ih => exact fun x => ih x (h x)
  | exec name st k ih => exact fun snap d locked => ih snap d locked (h snap d locked)
  | commit note k ih => trivial

theorem Prog.pays_bind (x : Prog D R X ε ρ ν α) {f : α → Prog D R X ε ρ ν β}
    (h : ∀ a, (f a).Pays) : (x >>= f).Pays := by
  induction x with
  | pure a => exact h a
  | raise e => trivial
  | select name ok k ih => exact fun d => ih d
  | call g k ih => exact fun x => ih x
  | exec name st k ih => exact fun snap d locked => ih snap d locked
  | commit note k ih => trivial

def Outcome.isReturned : Outcome ε → Bool
  | .returned => true
  | _ => false

section Paid

variable [DecidableEq R] {program : Q → Prog D R X ε ρ ν (Option Q)}
variable {s s' : State D R X ε ρ ν Q} {tx : Tx D R X ε ρ ν Q}

def Paid (s : State D R X ε ρ ν Q) : Prop :=
  ∃ slots : List Nat,
    s.ended.countP (fun e => e.outcome.isReturned) + slots.length ≤ s.world.log.length ∧
      ∀ i tx, s.txs i = some tx → i ∈ slots ∨ tx.prog.Pays

omit [DecidableEq R] in
theorem Paid.setTx (h : Paid s) (hi : ∀ slots : List Nat, (i ∈ slots ∨ tx.prog.Pays) →
    i ∈ slots ∨ tx'.prog.Pays) (htx : s.txs i = some tx) : Paid (s.setTx i (some tx')) := by
  obtain ⟨slots, hle, hs⟩ := h
  refine ⟨slots, hle, fun j txj hj => ?_⟩
  by_cases hne : j = i
  · subst hne
    rw [State.setTx_self] at hj
    cases hj
    exact hi slots (hs j tx htx)
  · rw [State.setTx_of_ne _ _ hne] at hj
    exact hs j txj hj

omit [DecidableEq R] in
theorem Paid.start (h : Paid s) (hp : (program q).Pays) (i : Nat) :
    Paid (s.setTx i (some (Tx.start program q))) := by
  obtain ⟨slots, hle, hs⟩ := h
  refine ⟨slots, hle, fun j txj hj => ?_⟩
  by_cases hne : j = i
  · subst hne
    rw [State.setTx_self] at hj
    cases hj
    exact .inr hp
  · rw [State.setTx_of_ne _ _ hne] at hj
    exact hs j txj hj

omit [DecidableEq R] in
theorem Paid.close (h : Paid s) (htx : s.txs i = some tx)
    (ho : o.isReturned = true → ¬ tx.prog.Pays) : Paid (s.close i tx o) := by
  obtain ⟨slots, hle, hs⟩ := h
  refine ⟨if o.isReturned then slots.erase i else slots, ?_, fun j txj hj => ?_⟩
  · show List.countP _ (_ :: s.ended) + _ ≤ s.world.log.length
    cases hr : o.isReturned with
    | false => simpa [hr] using hle
    | true =>
      have hmem : i ∈ slots := (hs i tx htx).resolve_right (ho hr)
      have hpos := List.length_pos_of_mem hmem
      simp only [List.countP_cons, hr, if_true, List.length_erase_of_mem hmem]
      omega
  · by_cases hne : j = i
    · subst hne
      rw [State.close_self] at hj
      cases hj
    · rw [State.close_of_ne _ _ _ hne] at hj
      apply (hs j txj hj).imp_left
      intro hj
      split
      · exact (List.mem_erase_of_ne hne).mpr hj
      · exact hj

omit [DecidableEq R] in
theorem Paid.run (h : Paid s) (hp : ∀ q, tx.prog = .pure (some q) → (program q).Pays)
    (htx : s.txs i = some tx) (hs : s.run program i tx = some s') : Paid s' := by
  unfold State.run at hs
  dsimp only at hs
  cases hprog : tx.prog with
  | pure next =>
    rw [hprog] at hs
    have hclose : Paid (s.close i tx .returned) := h.close htx fun _ => by rw [hprog]; exact id
    cases next with
    | none =>
      cases hs
      exact hclose
    | some q =>
      cases hs
      exact hclose.start (hp q hprog) i
  | raise e =>
    rw [hprog] at hs
    cases hs
    exact h.close htx nofun
  | select name ok k =>
    rw [hprog] at hs
    dsimp only at hs
    split at hs
    · cases hs
      refine h.setTx (fun slots hi => hi.imp_right fun hpays => ?_) htx
      rw [hprog] at hpays
      exact hpays _
    · cases hs
  | call f k =>
    rw [hprog] at hs
    cases hs
    have hcall : Paid { s with world := s.world.call f } := h
    refine hcall.setTx (fun slots hi => hi.imp_right fun hpays => ?_) htx
    rw [hprog] at hpays
    exact hpays _
  | exec name st k =>
    rw [hprog] at hs
    dsimp only at hs
    split at hs
    · cases hs
      refine h.setTx (fun slots hi => hi.imp_right fun hpays => ?_) htx
      rw [hprog] at hpays
      exact hpays
    · split at hs
      · cases hs
        refine h.setTx (fun slots hi => hi.imp_right fun hpays => ?_) htx
        rw [hprog] at hpays
        exact hpays _ _ _
      · cases hs
  | commit note k =>
    rw [hprog] at hs
    cases hs
    obtain ⟨slots, hle, hslots⟩ := h
    refine ⟨i :: slots, ?_, fun j txj hj => ?_⟩
    · show _ + _ ≤ (s.world.log ++ [_]).length
      rw [List.length_cons, List.length_append, List.length_singleton]
      exact Nat.add_le_add_right hle 1
    · by_cases hne : j = i
      · exact .inl (hne ▸ List.mem_cons_self)
      · rw [State.setTx_of_ne _ _ hne] at hj
        exact (hslots j txj hj).imp_left (List.mem_cons_of_mem _)

variable {P : Q → Prop} (hP : ∀ q, P q → (program q).Returns fun next => ∀ q', next = some q' → P q')
variable (hpays : ∀ q, P q → (program q).Pays)

include hpays in
theorem Paid.step {a : Label R Q} (h : Paid s) (hfol : ∀ i tx, s.txs i = some tx → Follows P tx)
    (hbegin : ∀ j q, a = .begin j q → P q) (hs : Txn.step program s a = some s') : Paid s' := by
  cases a with
  | begin i q =>
    simp only [Txn.step] at hs
    split at hs
    · cases hs
    · cases hs
      exact h.start (hpays q (hbegin i q rfl)) i
  | run i =>
    obtain ⟨tx, htx, hs⟩ := Option.bind_eq_some_iff.mp hs
    refine h.run (fun q hq => hpays q ?_) htx hs
    have hret := (hfol i tx htx).2
    rw [hq] at hret
    exact hret q rfl
  | lock i r =>
    obtain ⟨tx, htx, hs⟩ := Option.bind_eq_some_iff.mp hs
    unfold State.lock at hs
    split at hs
    · obtain ⟨⟨_, locks⟩, _, rfl⟩ := Option.map_eq_some_iff.mp hs
      have hlocks : Paid { s with locks := locks } := h
      refine hlocks.setTx (fun slots hi => ?_) htx
      exact hi
    · cases hs
  | abort i =>
    obtain ⟨tx, htx, rfl⟩ := Option.map_eq_some_iff.mp hs
    refine h.close htx ?_
    rintro ⟨⟩

include hP hpays in
theorem returned_le_commits {run : List (Label R Q)} {db : D} {ext : X}
    (hrun : ∀ a ∈ run, ∀ j q, a = .begin j q → P q)
    (hs : exec (Txn.step program) (State.init db ext) run = some s) :
    s.ended.countP (fun e => e.outcome.isReturned) ≤ s.world.log.length := by
  have hinv : Paid s ∧ ∀ i tx, s.txs i = some tx → Follows P tx := by
    apply exec_invariant (P := fun _ a => ∀ j q, a = .begin j q → P q) _ _ (.of_forall hrun _ _) hs
    · rintro s a s' ⟨hpaid, hfol⟩ hbegin hs
      refine ⟨hpaid.step hpays hfol hbegin hs, fun i tx htx => ?_⟩
      by_cases hi : i = a.slot
      · subst hi
        exact Follows.step hP hbegin (hfol _) hs tx htx
      · rw [step_txs_of_ne hs hi] at htx
        exact hfol i tx htx
    · exact ⟨⟨[], Nat.le_refl _, nofun⟩, nofun⟩
  obtain ⟨⟨slots, hle, _⟩, _⟩ := hinv
  exact Nat.le_trans (Nat.le_add_right _ _) hle

end Paid

def Prog.Raises (P : ε → Prop) : Prog D R X ε ρ ν α → Prop
  | .pure _ => True
  | .raise e => P e
  | .select _ _ k => ∀ d, (k d).Raises P
  | .call _ k => ∀ x, (k x).Raises P
  | .exec _ _ k => ∀ snap d locked, (k snap d locked).Raises P
  | .commit _ k => k.Raises P

theorem Prog.raises_true (x : Prog D R X ε ρ ν α) : x.Raises fun _ => True := by
  induction x with
  | pure a => trivial
  | raise e => trivial
  | select name ok k ih => exact fun d => ih d
  | call g k ih => exact fun x => ih x
  | exec name st k ih => exact fun snap d locked => ih snap d locked
  | commit note k ih => exact ih

/-- A part of a transaction whose writes keep to a relation, with the names of its statements. -/
def Prog.Steps (names : ρ → Prop) (rel : D → D → Prop) : Prog D R X ε ρ ν α → Prop
  | .pure _ => True
  | .raise _ => True
  | .select name _ k => names name ∧ ∀ d, (k d).Steps names rel
  | .call _ _ => False
  | .exec name st k => names name ∧ (∀ snap locked d, rel d (st.write snap locked d)) ∧
    ∀ snap d locked, (k snap d locked).Steps names rel
  | .commit _ _ => False

section Steps

variable {names : ρ → Prop} {rel : D → D → Prop}

theorem Prog.Steps.bind {x : Prog D R X ε ρ ν α} {f : α → Prog D R X ε ρ ν β}
    (h : x.Steps names rel) (hf : ∀ a, (f a).Steps names rel) : (x >>= f).Steps names rel := by
  induction x with
  | pure a => exact hf a
  | raise e => trivial
  | select name ok k ih => exact ⟨h.1, fun d => ih d (h.2 d)⟩
  | call g k ih => exact h.elim
  | exec name st k ih =>
    exact ⟨h.1, h.2.1, fun snap d locked => ih snap d locked (h.2.2 snap d locked)⟩
  | commit note k ih => exact h.elim

theorem Prog.Steps.map {x : Prog D R X ε ρ ν α} (h : x.Steps names rel) (f : α → β) :
    (x >>= fun a => Pure.pure (f a)).Steps names rel :=
  h.bind fun _ => trivial

theorem Prog.Steps.tryExcept {x : Prog D R X ε ρ ν α} (h : x.Steps names rel)
    (handler : ε → Option ε) : (x.tryExcept handler).Steps names rel := by
  induction x with
  | pure a => trivial
  | raise e => trivial
  | select name ok k ih => exact ⟨h.1, fun d => ih d (h.2 d)⟩
  | call g k ih => exact h.elim
  | exec name st k ih =>
    exact ⟨h.1, h.2.1, fun snap d locked => ih snap d locked (h.2.2 snap d locked)⟩
  | commit note k ih => exact h.elim

theorem Spec.wp_steps_raising [DecidableEq R] {P : ε → Prop} {x : Prog D R X ε ρ ν α} {K : α → Known D R X ρ ν Q → Prop}
    {c : Known D R X ρ ν Q} (hx : x.Steps names rel) (hr : x.Raises P)
    (hrefl : ∀ d, rel d d) (htrans : ∀ d₁ d₂ d₃, rel d₁ d₂ → rel d₂ d₃ → rel d₁ d₃)
    (hends : ∀ name, names name → ∀ snap locked d, S.ends q name snap locked d)
    (hraise : ∀ e c' w, P e → S.Framed q c names rel c' → S.Here c' w → S.raised q c'.past e w.log)
    (hc : S.Kept q c) (hK : ∀ a c', S.Framed q c names rel c' → K a c') : S.wp q x K c := by
  induction x generalizing c with
  | pure a => exact hK a c (.refl hrefl hc)
  | raise e => exact fun w hw => hraise e c w hr (.refl hrefl hc) hw
  | select name ok k ih =>
    apply wp_select (fun d => hends name hx.1 _ _ _) hc
    intro w c' _ _ ha
    apply ih _ (hx.2 _) (hr _) _ ha.kept
    · exact fun a c'' hf => hK a c'' (.trans htrans (ha.framed hx.1 fun _ => hrefl _) hf)
    · exact fun e c'' w he hf => hraise e c'' w he (.trans htrans (ha.framed hx.1 fun _ => hrefl _) hf)
  | call g k ih => exact hx.elim
  | exec name st k ih =>
    apply wp_any hc (hends name hx.1)
    intro w w' locked c' _ _ _ ha
    apply ih _ _ _ (hx.2.2 _ _ _) (hr _ _ _) _ ha.kept
    · exact fun a c'' hf => hK a c'' (.trans htrans (ha.framed hx.1 fun d => hx.2.1 _ _ _) hf)
    · exact fun e c'' w he hf => hraise e c'' w he (.trans htrans (ha.framed hx.1 fun d => hx.2.1 _ _ _) hf)
  | commit note k ih => exact hx.elim

/-- What was known stays known over statements that have nothing to do with it. -/
theorem Spec.wp_steps [DecidableEq R] {x : Prog D R X ε ρ ν α}
    {K : α → Known D R X ρ ν Q → Prop} {c : Known D R X ρ ν Q} (hx : x.Steps names rel)
    (hrefl : ∀ d, rel d d) (htrans : ∀ d₁ d₂ d₃, rel d₁ d₂ → rel d₂ d₃ → rel d₁ d₃)
    (hends : ∀ name, names name → ∀ snap locked d, S.ends q name snap locked d)
    (hraise : ∀ past e log, S.raised q past e log) (hc : S.Kept q c)
    (hK : ∀ a c', S.Framed q c names rel c' → K a c') : S.wp q x K c :=
  wp_steps_raising hx (Prog.raises_true x) hrefl htrans hends (fun e _ w _ _ _ => hraise _ e w.log) hc hK

end Steps

abbrev SamePart (part : D → V) (d d' : D) : Prop := part d' = part d

abbrev Prog.Within (names : ρ → Prop) (part : D → V) (x : Prog D R X ε ρ ν α) : Prop :=
  x.Steps names (SamePart part)

theorem Spec.Framed.redo {names : ρ → Prop} {part : D → V} {c c' : Known D R X ρ ν Q}
    (h : S.Framed q c names (SamePart part) c') (d : D) : part (c'.redo d) = part (c.redo d) :=
  h.moves d

theorem Spec.wp_frame [DecidableEq R] {names : ρ → Prop} {part : D → V} {x : Prog D R X ε ρ ν α}
    {K : α → Known D R X ρ ν Q → Prop} {c : Known D R X ρ ν Q} (hx : x.Within names part)
    (hends : ∀ name, names name → ∀ snap locked d, S.ends q name snap locked d)
    (hraise : ∀ past e log, S.raised q past e log) (hc : S.Kept q c)
    (hK : ∀ a c', S.Framed q c names (SamePart part) c' → K a c') : S.wp q x K c :=
  wp_steps hx (fun _ => rfl) (fun _ _ _ h h' => h'.trans h) hends hraise hc hK

end PuppyTalk.Txn
