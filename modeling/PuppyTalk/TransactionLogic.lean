import PuppyTalk.Transaction

namespace PuppyTalk.Txn

/-- What is proved of every run, and the assumptions under which it is proved. -/
structure Spec (D R X ε ρ ν Q : Type) where
  /-- The requests that may begin. -/
  starts : Q → Prop
  inv : World D X Q ρ ν → Prop
  /-- What a commit or a command guarantees to the other requests. -/
  change : World D X Q ρ ν → World D X Q ρ ν → Prop
  /-- Assumed when a statement begins. -/
  reads : Q → ρ → World D X Q ρ ν → Prop
  /-- Assumed of a request's own commit. -/
  adm : Q → World D X Q ρ ν → World D X Q ρ ν → Prop
  /-- Assumed of what others do while a request stands behind the statements of its past. -/
  may : Q → List (ρ × Nat) → World D X Q ρ ν → World D X Q ρ ν → Prop
  /-- Proved of a query or a statement when it is done: what it began with, the rows it has locked
  and what it finds at its end. -/
  ends : Q → ρ → D → List R → D → Prop
  /-- Proved of an exception, with the commits up to then. -/
  raised : Q → List (ρ × Nat) → ε → List (Commit D Q ρ ν) → Prop
  /-- Proved of a request that returns. -/
  returned : Q → List (ρ × Nat) → List (Commit D Q ρ ν) → Prop

/-- What a proof knows at a point of a program: the statements begun, the locks held, the writes not
yet committed, and a fact about the world. -/
structure Known (D R X ρ ν Q : Type) where
  past : List (ρ × Nat)
  held : List (R × LockMode)
  redo : D → D
  fact : World D X Q ρ ν → Prop

def Stmt.locks [Rows D R] (st : Stmt D R) (locked : List R) : List (R × LockMode) :=
  locked.map fun r => (r, st.mode r)

namespace Spec

variable {D R X ε ρ ν Q : Type} [Rows D R] (S : Spec D R X ε ρ ν Q)

structure Good (w : World D X Q ρ ν) : Prop where
  inv : S.inv w
  valid : Rows.Valid w.db

structure Here (c : Known D R X ρ ν Q) (w : World D X Q ρ ν) : Prop where
  good : S.Good w
  fact : c.fact w
  /-- What the request sees meets the unique constraints too. -/
  view : Rows.Valid (c.redo w.db)

/-- No other request makes the fact false while the locks are held. -/
def Stable (q : Q) (past : List (ρ × Nat)) (held : List (R × LockMode))
    (fact : World D X Q ρ ν → Prop) : Prop :=
  ∀ w w', S.Good w → S.Good w' → S.change w w' → S.may q past w w' →
    (∀ h ∈ held, Rows.Agree h.2 h.1 w.db w'.db) → fact w → fact w'

structure Holds (q : Q) (past : List (ρ × Nat)) (held : List (R × LockMode))
    (fact : World D X Q ρ ν → Prop) (w : World D X Q ρ ν) : Prop where
  now : fact w
  stable : S.Stable q past held fact

section Programs
variable [DecidableEq R]

/-- The argument for a running statement: what is known after each row, and at its end. -/
structure Scanning (q : Q) (st : Stmt D R) (past : List (ρ × Nat)) (held : List (R × LockMode))
    (redo : D → D) (A : Scan R → World D X Q ρ ν → Prop) (Fin : List R → World D X Q ρ ν → Prop) :
    Prop where
  stable : ∀ sc, S.Stable q past (st.locks sc.locked ++ held) (A sc)
  takes : ∀ sc r w, S.Good w → Rows.Valid (redo w.db) → A sc w → r ∈ sc.waiting →
    st.keeps (redo w.db) r = true →
    A { locked := r :: sc.locked, waiting := sc.waiting.filter fun x => x ≠ r } w
  skips : ∀ sc r w, S.Good w → Rows.Valid (redo w.db) → A sc w → r ∈ sc.waiting →
    st.keeps (redo w.db) r = false →
    A { locked := sc.locked, waiting := sc.waiting.filter fun x => x ≠ r } w
  finish : ∀ locked w, S.Good w → Rows.Valid (redo w.db) → A { locked := locked, waiting := [] } w →
    Fin locked w

/-- The weakest precondition of a program of request `q`, over every interleaving. -/
def wp (q : Q) : Prog D R X ε ρ ν α → (α → Known D R X ρ ν Q → Prop) → Known D R X ρ ν Q → Prop
  | .pure a, K, c => K a c
  | .raise e, _, c => ∀ w, S.Here c w → S.raised q c.past e w.log
  | .select name ok k, K, c => ∀ w, S.Here c w → S.reads q name w → ok (c.redo w.db) = true →
    S.ends q name (c.redo w.db) [] (c.redo w.db) ∧
    ∃ fact, S.Holds q ((name, w.log.length) :: c.past) c.held fact w ∧
      wp q (k (c.redo w.db)) K
        { c with past := (name, w.log.length) :: c.past, fact := fact }
  | .call f k, K, c => ∀ w, S.Here c w → S.inv (w.call f) ∧ S.change w (w.call f) ∧
    ∃ fact, S.Holds q c.past c.held fact (w.call f) ∧ wp q (k w.ext) K { c with fact := fact }
  | .exec name st k, K, c => ∀ w, S.Here c w → S.reads q name w →
    ∃ A, A { locked := [], waiting := st.rows (c.redo w.db) } w ∧
      S.Scanning q st ((name, w.log.length) :: c.past) c.held c.redo A fun locked w' =>
        S.ends q name (c.redo w.db) locked (c.redo w'.db) ∧
        ∃ fact, S.Holds q ((name, w.log.length) :: c.past) (st.locks locked ++ c.held) fact w' ∧
          wp q (k (c.redo w.db) (st.write (c.redo w.db) locked (c.redo w'.db)) locked) K
            { past := (name, w.log.length) :: c.past
              held := st.locks locked ++ c.held
              redo := st.write (c.redo w.db) locked ∘ c.redo
              fact := fact }
  | .commit note k, K, c => ∀ w, S.Here c w →
    S.adm q w (w.commit q note c.past (c.redo w.db)) →
    S.inv (w.commit q note c.past (c.redo w.db)) ∧
    S.change w (w.commit q note c.past (c.redo w.db)) ∧
    ∃ fact, S.Holds q c.past [] fact (w.commit q note c.past (c.redo w.db)) ∧
      wp q k K { past := c.past, held := [], redo := id, fact := fact }

def Finished (q : Q) (next : Option Q) (c : Known D R X ρ ν Q) : Prop :=
  (∀ q', next = some q' → S.starts q') ∧
    ∀ w, S.Here c w → S.returned q c.past w.log

def Meets (program : Q → Prog D R X ε ρ ν (Option Q)) : Prop :=
  ∀ q, S.starts q → S.wp q (program q) (S.Finished q)
    { past := [], held := [], redo := id, fact := fun _ => True }

/-- What the specification assumes of a step. -/
def Admits (s : State D R X ε ρ ν Q) : Label R Q → Prop
  | .begin _ q => S.starts q
  | .run i => ∀ tx, s.txs i = some tx →
    (∀ name, tx.prog.next = some name → tx.scan = none → S.reads tx.req name s.world) ∧
    (∀ note k, tx.prog = .commit note k →
      S.adm tx.req s.world (s.world.commit tx.req note tx.past (tx.redo s.world.db)) ∧
      ∀ j tx', j ≠ i → s.txs j = some tx' → S.may tx'.req tx'.past s.world
        (s.world.commit tx.req note tx.past (tx.redo s.world.db))) ∧
    ∀ f k, tx.prog = .call f k →
      ∀ j tx', j ≠ i → s.txs j = some tx' → S.may tx'.req tx'.past s.world (s.world.call f)
  | _ => True

def Runs (w : World D X Q ρ ν) (locks : LockTable Nat R) (i : Nat) (tx : Tx D R X ε ρ ν Q)
    (held : List (R × LockMode)) : Prop :=
  match tx.scan with
  | none => ∃ fact, S.Holds tx.req tx.past held fact w ∧
    S.wp tx.req tx.prog (S.Finished tx.req)
      { past := tx.past, held := held, redo := tx.redo, fact := fact }
  | some (snap, sc) => ∃ name st k A, tx.prog = .exec name st k ∧
    (∀ r ∈ sc.locked, locks.AtLeast i r (st.mode r)) ∧ A sc w ∧
    S.Scanning tx.req st tx.past held tx.redo A fun locked w' =>
      S.ends tx.req name snap locked (tx.redo w'.db) ∧
      ∃ fact, S.Holds tx.req tx.past (st.locks locked ++ held) fact w' ∧
        S.wp tx.req (k snap (st.write snap locked (tx.redo w'.db)) locked) (S.Finished tx.req)
          { past := tx.past
            held := st.locks locked ++ held
            redo := st.write snap locked ∘ tx.redo
            fact := fact }

structure Written (locks : LockTable Nat R) (i : Nat) (redo : D → D) : Prop where
  frame : ∀ m r d, (∀ l ∈ locks, l.holder = i → l.row = r → m.conflicts l.mode = false) →
    Rows.Agree m r d (redo d)
  valid : ∀ d, Rows.Valid d → Rows.Valid (redo d)

structure TxOk (w : World D X Q ρ ν) (locks : LockTable Nat R) (i : Nat) (tx : Tx D R X ε ρ ν Q) :
    Prop where
  written : Written locks i tx.redo
  runs : ∃ held, (∀ h ∈ held, locks.AtLeast i h.1 h.2) ∧ S.Runs w locks i tx held

def EndedOk (log : List (Commit D Q ρ ν)) (e : Ended ε ρ Q) : Prop :=
  e.len ≤ log.length ∧
    match e.outcome with
    | .returned => S.returned e.req e.past (log.take e.len)
    | .raised x => S.raised e.req e.past x (log.take e.len)
    | .aborted => True

structure Sound (s : State D R X ε ρ ν Q) : Prop where
  good : S.Good s.world
  compatible : s.locks.Compatible
  txs : ∀ i tx, s.txs i = some tx → S.TxOk s.world s.locks i tx
  ended : ∀ e ∈ s.ended, S.EndedOk s.world.log e

end Programs

end Spec

section Soundness

variable {D R X ε ρ ν Q : Type} [Rows D R] {S : Spec D R X ε ρ ν Q}
variable {w w' : World D X Q ρ ν} {locks locks' : LockTable Nat R} {tx tx' : Tx D R X ε ρ ν Q}
variable {s s' : State D R X ε ρ ν Q} {redo : D → D}

theorem Spec.Written.id (locks : LockTable Nat R) (i : Nat) : Spec.Written locks i (id : D → D) :=
  ⟨fun m r d _ => Rows.refl m r d, fun _ h => h⟩

theorem Spec.Written.agree (h : Spec.Written locks i redo) (hc : locks.Compatible)
    (hl : locks.AtLeast j r m) (hne : j ≠ i) (d : D) : Rows.Agree m r d (redo d) := by
  apply h.frame
  rintro l hl' rfl rfl
  apply Bool.eq_false_iff.mpr
  intro hm
  exact hne (hc.holder_eq hl ⟨l, hl', rfl, rfl, Nat.le_refl _⟩ hm)

theorem Spec.Written.mono (h : Spec.Written locks i redo)
    (hl : ∀ l ∈ locks, l.holder = i → l ∈ locks') : Spec.Written locks' i redo := by
  refine ⟨fun m r d hfree => ?_, h.valid⟩
  apply h.frame
  intro l hm hi
  exact hfree l (hl l hm hi) hi

theorem Spec.Written.write {st : Stmt D R} (h : Spec.Written locks i redo)
    (hl : ∀ r ∈ locked, locks.AtLeast i r (st.mode r)) (snap : D) :
    Spec.Written locks i (st.write snap locked ∘ redo) := by
  refine ⟨fun m r d hfree => ?_, fun d hd => st.valid snap locked _ (h.valid d hd)⟩
  apply Rows.trans (h.frame m r d hfree)
  apply st.frame
  rintro r' hr rfl
  obtain ⟨l, hmem, hi, hrow, hs⟩ := hl r' hr
  apply Bool.eq_false_iff.mpr
  intro hm
  have hf := hfree l hmem hi hrow
  rw [LockMode.conflicts_mono (Nat.le_refl _) hs hm] at hf
  cases hf

structure Spec.Beside (S : Spec D R X ε ρ ν Q) (w w' : World D X Q ρ ν) (locks : LockTable Nat R)
    (i : Nat) (tx : Tx D R X ε ρ ν Q) : Prop where
  good : S.Good w
  good' : S.Good w'
  change : S.change w w'
  may : S.may tx.req tx.past w w'
  agree : ∀ r m, locks.AtLeast i r m → Rows.Agree m r w.db w'.db

theorem Spec.Beside.stable (h : S.Beside w w' locks i tx) (hst : S.Stable tx.req tx.past held fact)
    (hh : ∀ p ∈ held, locks.AtLeast i p.1 p.2) (hf : fact w) : fact w' :=
  hst w w' h.good h.good' h.change h.may (fun p hp => h.agree p.1 p.2 (hh p hp)) hf

theorem Stmt.locks_held {st : Stmt D R} (hl : ∀ r ∈ locked, locks.AtLeast i r (st.mode r))
    (hh : ∀ p ∈ held, locks.AtLeast i p.1 p.2) :
    ∀ p ∈ st.locks locked ++ held, locks.AtLeast i p.1 p.2 := by
  intro p hp
  rcases List.mem_append.mp hp with hp | hp
  · obtain ⟨r, hr, rfl⟩ := List.mem_map.mp hp
    exact hl r hr
  · exact hh p hp

variable [DecidableEq R]

theorem Spec.TxOk.stays (h : S.TxOk w locks i tx) (hne : i ≠ j)
    (hl : locks.SameExcept locks' j) (hw : w' = w ∨ S.Beside w w' locks i tx) :
    S.TxOk w' locks' i tx := by
  have hkeep : ∀ r m, locks.AtLeast i r m → locks'.AtLeast i r m :=
    fun r m ha => (hl.atLeast hne).mpr ha
  apply Spec.TxOk.mk
  · exact h.written.mono fun l hm hi => (hl l (hi ▸ hne)).mpr hm
  · obtain ⟨held, hheld, hr⟩ := h.runs
    refine ⟨held, fun p hp => hkeep _ _ (hheld p hp), ?_⟩
    unfold Spec.Runs at hr ⊢
    cases hs : tx.scan with
    | none =>
      rw [hs] at hr
      obtain ⟨fact, hf, hwp⟩ := hr
      refine ⟨fact, ⟨?_, hf.stable⟩, hwp⟩
      rcases hw with rfl | hw
      · exact hf.now
      · exact hw.stable hf.stable hheld hf.now
    | some p =>
      obtain ⟨snap, sc⟩ := p
      rw [hs] at hr
      obtain ⟨name, st, k, A, hp, hlocked, hA, hscan⟩ := hr
      refine ⟨name, st, k, A, hp, fun r hr => hkeep _ _ (hlocked r hr), ?_, hscan⟩
      rcases hw with rfl | hw
      · exact hA
      · exact hw.stable (hscan.stable sc) (Stmt.locks_held hlocked hheld) hA

omit [Rows D R] [DecidableEq R] in
theorem Spec.EndedOk.append {e : Ended ε ρ Q} (h : S.EndedOk log e) (l : List (Commit D Q ρ ν)) :
    S.EndedOk (log ++ l) e := by
  obtain ⟨hle, ho⟩ := h
  apply And.intro (Nat.le_trans hle (by simp))
  rw [List.take_append_of_le_length hle]
  exact ho

theorem Spec.Sound.next (h : S.Sound s) (i : Nat) (hgood : S.Good s'.world)
    (hc : s'.locks.Compatible) (hl : s.locks.SameExcept s'.locks i)
    (htxs : ∀ j, j ≠ i → s'.txs j = s.txs j)
    (hw : s'.world = s.world ∨
      ∀ j tx, j ≠ i → s.txs j = some tx → S.Beside s.world s'.world s.locks j tx)
    (hi : ∀ tx, s'.txs i = some tx → S.TxOk s'.world s'.locks i tx)
    (he : ∀ e ∈ s'.ended, S.EndedOk s'.world.log e) : S.Sound s' := by
  apply Spec.Sound.mk hgood hc _ he
  intro j tx htx
  by_cases hne : j = i
  · subst hne
    exact hi tx htx
  · rw [htxs j hne] at htx
    apply (h.txs j tx htx).stays hne hl
    exact hw.imp_right fun hb => hb j tx hne htx

section Steps

variable {program : Q → Prog D R X ε ρ ν (Option Q)}

theorem Spec.TxOk.start (hm : S.Meets program) (hq : S.starts q) (w : World D X Q ρ ν)
    (locks : LockTable Nat R) (i : Nat) : S.TxOk w locks i (Tx.start program q) := by
  apply Spec.TxOk.mk
  · exact .id locks i
  · refine ⟨[], fun _ hp => (nomatch hp), fun _ => True, ⟨trivial, ?_⟩, hm q hq⟩
    intro _ _ _ _ _ _ _ _
    trivial

theorem Spec.Sound.setTx (h : S.Sound s) (i : Nat) (hok : S.TxOk s.world s.locks i tx) :
    S.Sound (s.setTx i (some tx)) := by
  apply h.next i
  · exact h.good
  · exact h.compatible
  · exact .refl _ _
  · exact fun j hne => s.setTx_of_ne _ hne
  · exact .inl rfl
  · intro tx' htx
    rw [State.setTx_self] at htx
    cases htx
    exact hok
  · exact h.ended

theorem Spec.Sound.close (h : S.Sound s) (i : Nat)
    (ho : S.EndedOk s.world.log ⟨tx.req, tx.past, o, s.world.log.length⟩) :
    S.Sound (s.close i tx o) := by
  apply h.next i
  · exact h.good
  · exact h.compatible.release i
  · exact LockTable.sameExcept_release
  · exact fun j hne => s.close_of_ne _ _ hne
  · exact .inl rfl
  · intro tx' htx
    rw [State.close_self] at htx
    cases htx
  · intro e he
    rcases List.mem_cons.mp he with rfl | he
    · exact ho
    · exact h.ended e he

omit [Rows D R] [DecidableEq R] in
theorem Spec.EndedOk.of_log {e : Ended ε ρ Q} (hle : e.len = log.length)
    (ho : match e.outcome with
      | .returned => S.returned e.req e.past log
      | .raised x => S.raised e.req e.past x log
      | .aborted => True) : S.EndedOk log e := by
  apply And.intro (Nat.le_of_eq hle)
  rw [hle, List.take_length]
  exact ho

theorem Spec.Sound.here (h : S.Sound s) (hok : S.TxOk s.world s.locks i tx)
    {c : Known D R X ρ ν Q} (hf : c.fact s.world) (hc : c.redo = tx.redo) : S.Here c s.world :=
  ⟨h.good, hf, hc ▸ hok.written.valid _ h.good.valid⟩

theorem Spec.TxOk.here (h : S.TxOk w locks i tx) (hs : tx.scan = none) :
    ∃ held fact, (∀ p ∈ held, locks.AtLeast i p.1 p.2) ∧ S.Holds tx.req tx.past held fact w ∧
      S.wp tx.req tx.prog (S.Finished tx.req)
        { past := tx.past, held := held, redo := tx.redo, fact := fact } := by
  obtain ⟨held, hheld, hr⟩ := h.runs
  unfold Spec.Runs at hr
  rw [hs] at hr
  obtain ⟨fact, hf, hwp⟩ := hr
  exact ⟨held, fact, hheld, hf, hwp⟩

theorem Spec.TxOk.at_rest (hf : Spec.Written locks i tx.redo) (hs : tx.scan = none)
    (hheld : ∀ p ∈ held, locks.AtLeast i p.1 p.2) (hh : S.Holds tx.req tx.past held fact w)
    (hwp : S.wp tx.req tx.prog (S.Finished tx.req)
      { past := tx.past, held := held, redo := tx.redo, fact := fact }) : S.TxOk w locks i tx := by
  apply Spec.TxOk.mk hf
  refine ⟨held, hheld, ?_⟩
  unfold Spec.Runs
  rw [hs]
  exact ⟨fact, hh, hwp⟩

theorem Spec.TxOk.scan_none (h : S.TxOk w locks i tx) (hp : ∀ name st k, tx.prog ≠ .exec name st k) :
    tx.scan = none := by
  obtain ⟨held, _, hr⟩ := h.runs
  unfold Spec.Runs at hr
  cases hs : tx.scan with
  | none => rfl
  | some p =>
    rw [hs] at hr
    obtain ⟨name, st, k, _, he, _⟩ := hr
    exact absurd he (hp name st k)

theorem Spec.Sound.pure (h : S.Sound s) (hm : S.Meets program) (htx : s.txs i = some tx)
    (hp : tx.prog = .pure again) (hs : s.run program i tx = some s') : S.Sound s' := by
  have hok := h.txs i tx htx
  obtain ⟨held, fact, _, hf, hwp⟩ := hok.here (hok.scan_none (by rw [hp]; nofun))
  rw [hp] at hwp
  have hc : S.Sound (s.close i tx .returned) :=
    h.close i (.of_log rfl (hwp.2 s.world (h.here hok hf.now rfl)))
  unfold State.run at hs
  rw [hp] at hs
  cases again with
  | none =>
    cases hs
    exact hc
  | some q =>
    cases hs
    exact hc.setTx i (.start hm (hwp.1 q rfl) _ _ i)

theorem Spec.Sound.raise (h : S.Sound s) (htx : s.txs i = some tx)
    (hp : tx.prog = .raise e) (hs : s.run program i tx = some s') : S.Sound s' := by
  have hok := h.txs i tx htx
  obtain ⟨held, fact, _, hf, hwp⟩ := hok.here (hok.scan_none (by rw [hp]; nofun))
  rw [hp] at hwp
  unfold State.run at hs
  rw [hp] at hs
  cases hs
  exact h.close i (.of_log rfl (hwp s.world (h.here hok hf.now rfl)))

theorem Spec.Sound.select (h : S.Sound s) (htx : s.txs i = some tx)
    (hp : tx.prog = .select name ok k) (hread : S.reads tx.req name s.world)
    (hs : s.run program i tx = some s') : S.Sound s' := by
  have hok := h.txs i tx htx
  have hscan : tx.scan = none := hok.scan_none (by rw [hp]; nofun)
  obtain ⟨held, fact, hheld, hf, hwp⟩ := hok.here hscan
  rw [hp] at hwp
  unfold State.run at hs
  rw [hp] at hs
  dsimp only at hs
  split at hs
  · rename_i hok'
    cases hs
    obtain ⟨_, fact', hf', hwp'⟩ := hwp s.world (h.here hok hf.now rfl) hread hok'
    exact h.setTx i (.at_rest hok.written hscan hheld hf' hwp')
  · cases hs

theorem Spec.Sound.begin (h : S.Sound s) (htx : s.txs i = some tx)
    (hp : tx.prog = .exec name st k) (hscan : tx.scan = none) (hread : S.reads tx.req name s.world)
    (hs : s.run program i tx = some s') : S.Sound s' := by
  have hok := h.txs i tx htx
  obtain ⟨held, fact, hheld, hf, hwp⟩ := hok.here hscan
  rw [hp] at hwp
  unfold State.run at hs
  rw [hp] at hs
  dsimp only at hs
  rw [hscan] at hs
  cases hs
  obtain ⟨A, hA, hA'⟩ := hwp s.world (h.here hok hf.now rfl) hread
  apply h.setTx i
  exact ⟨hok.written, held, hheld, name, st, k, A, rfl, fun _ hr => (nomatch hr), hA, hA'⟩

theorem Spec.Sound.finish (h : S.Sound s) (htx : s.txs i = some tx)
    (hp : tx.prog = .exec name st k) (hscan : tx.scan = some (snap, sc))
    (hs : s.run program i tx = some s') : S.Sound s' := by
  have hok := h.txs i tx htx
  obtain ⟨held, hheld, hr⟩ := hok.runs
  unfold Spec.Runs at hr
  rw [hscan] at hr
  obtain ⟨_, _, _, A, he, hlocked, hA, hscan'⟩ := hr
  cases hp.symm.trans he
  unfold State.run at hs
  rw [hp] at hs
  dsimp only at hs
  rw [hscan] at hs
  dsimp only at hs
  split at hs
  · rename_i hw
    cases hs
    obtain ⟨locked, waiting⟩ := sc
    cases hw
    obtain ⟨_, fact, hf, hwp⟩ := hscan'.finish locked s.world h.good (hok.written.valid _ h.good.valid) hA
    exact h.setTx i (.at_rest (hok.written.write hlocked snap) rfl
      (Stmt.locks_held hlocked hheld) hf hwp)
  · cases hs

theorem Spec.Sound.call (h : S.Sound s) (htx : s.txs i = some tx) (hp : tx.prog = .call f k)
    (hmay : ∀ j tx', j ≠ i → s.txs j = some tx' →
      S.may tx'.req tx'.past s.world (s.world.call f))
    (hs : s.run program i tx = some s') : S.Sound s' := by
  have hok := h.txs i tx htx
  have hscan : tx.scan = none := hok.scan_none (by rw [hp]; nofun)
  obtain ⟨held, fact, hheld, hf, hwp⟩ := hok.here hscan
  rw [hp] at hwp
  obtain ⟨hinv, hch, fact', hf', hwp'⟩ := hwp s.world (h.here hok hf.now rfl)
  unfold State.run at hs
  rw [hp] at hs
  cases hs
  apply h.next i
  · exact ⟨hinv, h.good.valid⟩
  · exact h.compatible
  · exact .refl _ _
  · exact fun j hne => State.setTx_of_ne _ _ hne
  · refine .inr fun j tx' hne htx' => ?_
    exact ⟨h.good, ⟨hinv, h.good.valid⟩, hch, hmay j tx' hne htx', fun r m _ => Rows.refl m r _⟩
  · intro tx' htx'
    rw [State.setTx_self] at htx'
    cases htx'
    exact .at_rest hok.written hscan hheld hf' hwp'
  · exact h.ended

theorem Spec.Sound.commit (h : S.Sound s) (htx : s.txs i = some tx) (hp : tx.prog = .commit note k)
    (hadm : S.adm tx.req s.world (s.world.commit tx.req note tx.past (tx.redo s.world.db)))
    (hmay : ∀ j tx', j ≠ i → s.txs j = some tx' → S.may tx'.req tx'.past s.world
      (s.world.commit tx.req note tx.past (tx.redo s.world.db)))
    (hs : s.run program i tx = some s') : S.Sound s' := by
  have hok := h.txs i tx htx
  have hscan : tx.scan = none := hok.scan_none (by rw [hp]; nofun)
  obtain ⟨held, fact, hheld, hf, hwp⟩ := hok.here hscan
  rw [hp] at hwp
  obtain ⟨hinv, hch, fact', hf', hwp'⟩ := hwp s.world (h.here hok hf.now rfl) hadm
  have hgood : S.Good (s.world.commit tx.req note tx.past (tx.redo s.world.db)) :=
    ⟨hinv, hok.written.valid _ h.good.valid⟩
  unfold State.run at hs
  rw [hp] at hs
  cases hs
  apply h.next i
  · exact hgood
  · exact h.compatible.release i
  · exact LockTable.sameExcept_release
  · exact fun j hne => State.setTx_of_ne _ _ hne
  · refine .inr fun j tx' hne htx' => ?_
    refine ⟨h.good, hgood, hch, hmay j tx' hne htx', fun r m hl => ?_⟩
    exact hok.written.agree h.compatible hl hne _
  · intro tx' htx'
    rw [State.setTx_self] at htx'
    cases htx'
    exact .at_rest (.id _ i) hscan (List.forall_mem_nil _) hf' hwp'
  · intro e he
    exact (h.ended e he).append _

theorem Spec.Sound.run (h : S.Sound s) (hm : S.Meets program) (ha : S.Admits s (.run i))
    (htx : s.txs i = some tx) (hs : s.run program i tx = some s') : S.Sound s' := by
  obtain ⟨hread, hcommit, hcall⟩ := ha tx htx
  cases hp : tx.prog with
  | pure a => exact h.pure hm htx hp hs
  | raise e => exact h.raise htx hp hs
  | select name ok k =>
    have hscan : tx.scan = none := (h.txs i tx htx).scan_none (by rw [hp]; nofun)
    exact h.select htx hp (hread name (by rw [hp]; rfl) hscan) hs
  | call f k => exact h.call htx hp (hcall f k hp) hs
  | exec name st k =>
    cases hscan : tx.scan with
    | none => exact h.begin htx hp hscan (hread name (by rw [hp]; rfl) hscan) hs
    | some p => exact h.finish htx hp hscan hs
  | commit note k => exact h.commit htx hp (hcommit note k hp).1 (hcommit note k hp).2 hs

theorem Spec.Sound.lock (h : S.Sound s) (htx : s.txs i = some tx)
    (hs : s.lock i tx r = some s') : S.Sound s' := by
  have hok := h.txs i tx htx
  unfold State.lock at hs
  split at hs
  · rename_i name st k snap sc hp hscan
    obtain ⟨⟨sc', locks'⟩, hres, rfl⟩ := Option.map_eq_some_iff.mp hs
    obtain ⟨held, hheld, hr⟩ := hok.runs
    unfold Spec.Runs at hr
    rw [hscan] at hr
    obtain ⟨_, _, _, A, he, hlocked, hA, hscan'⟩ := hr
    cases hp.symm.trans he
    have hmem : r ∈ sc.waiting := LockTable.resume_mem hres
    have hres := LockTable.resume_some hres
    have hsub : ∀ l ∈ s.locks, l ∈ locks' := hres.subset
    apply h.next i
    · exact h.good
    · exact hres.compatible h.compatible
    · exact hres.sameExcept
    · exact fun j hne => State.setTx_of_ne _ _ hne
    · exact .inl rfl
    · intro tx' htx'
      rw [State.setTx_self] at htx'
      cases htx'
      refine ⟨hok.written.mono fun l hl _ => hsub l hl, held,
        fun p hp => (hheld p hp).subset fun l hl _ => hsub l hl, ?_⟩
      refine ⟨_, st, _, A, hp, ?_, ?_, hscan'⟩
      · intro r' hr'
        rcases hres.locked hr' with hr' | ⟨_, hr'⟩
        · exact (hlocked r' hr').subset fun l hl _ => hsub l hl
        · exact hr'
      · cases hres with
        | locks _ hc => exact hscan'.takes sc r s.world h.good (hok.written.valid _ h.good.valid) hA hmem hc
        | skips hc => exact hscan'.skips sc r s.world h.good (hok.written.valid _ h.good.valid) hA hmem hc
    · exact h.ended
  · cases hs

theorem Spec.Sound.step (h : S.Sound s) (hm : S.Meets program) (ha : S.Admits s a)
    (hs : Txn.step program s a = some s') : S.Sound s' := by
  cases a with
  | begin i q =>
    simp only [Txn.step] at hs
    split at hs
    · cases hs
    · cases hs
      exact h.setTx i (.start hm ha _ _ i)
  | run i =>
    obtain ⟨tx, htx, hs⟩ := Option.bind_eq_some_iff.mp hs
    exact h.run hm ha htx hs
  | lock i r =>
    obtain ⟨tx, htx, hs⟩ := Option.bind_eq_some_iff.mp hs
    exact h.lock htx hs
  | abort i =>
    obtain ⟨tx, htx, rfl⟩ := Option.map_eq_some_iff.mp hs
    exact h.close i (.of_log rfl trivial)

def Spec.Ends (S : Spec D R X ε ρ ν Q) (s : State D R X ε ρ ν Q) : Label R Q → Prop
  | .run i => ∀ tx, s.txs i = some tx →
    (∀ name ok k, tx.prog = .select name ok k → ok (tx.redo s.world.db) = true →
      S.ends tx.req name (tx.redo s.world.db) [] (tx.redo s.world.db)) ∧
    ∀ name st k snap locked, tx.prog = .exec name st k →
      tx.scan = some (snap, { locked := locked, waiting := [] }) →
      S.ends tx.req name snap locked (tx.redo s.world.db)
  | _ => True

theorem Spec.Sound.ends (h : S.Sound s) (ha : S.Admits s a) : S.Ends s a := by
  cases a with
  | run i =>
    intro tx htx
    have hok := h.txs i tx htx
    apply And.intro
    · intro name ok k hp hok'
      have hscan : tx.scan = none := hok.scan_none (by rw [hp]; nofun)
      obtain ⟨held, fact, _, hf, hwp⟩ := hok.here hscan
      rw [hp] at hwp
      have hread := (ha tx htx).1 name (by rw [hp]; rfl) hscan
      exact (hwp s.world (h.here hok hf.now rfl) hread hok').1
    · intro name st k snap locked hp hscan
      obtain ⟨held, _, hr⟩ := hok.runs
      unfold Spec.Runs at hr
      rw [hscan] at hr
      obtain ⟨_, _, _, A, he, _, hA, hscan'⟩ := hr
      cases hp.symm.trans he
      exact (hscan'.finish locked s.world h.good (hok.written.valid _ h.good.valid) hA).1
  | begin => trivial
  | lock => trivial
  | abort => trivial

theorem Spec.sound_init (hinv : S.Good { db := db, ext := ext, log := [] }) :
    S.Sound (State.init db ext) :=
  ⟨hinv, LockTable.compatible_nil, fun _ _ h => (nomatch h), fun _ h => (nomatch h)⟩

/-- Programs that meet a specification keep its invariant in every admissible run. -/
theorem Spec.sound (hm : S.Meets program) (hinv : S.Good { db := db, ext := ext, log := [] })
    (ha : Along (Txn.step program) S.Admits (State.init db ext) run)
    (hs : exec (Txn.step program) (State.init db ext) run = some s) : S.Sound s :=
  exec_invariant (fun h ha hs => h.step hm ha hs) (Spec.sound_init hinv) ha hs

/-- Every query and statement of an admissible run ends as proved. -/
theorem Spec.ends_along (hm : S.Meets program) (hinv : S.Good { db := db, ext := ext, log := [] })
    (ha : Along (Txn.step program) S.Admits (State.init db ext) run) :
    Along (Txn.step program) S.Ends (State.init db ext) run :=
  ha.of_invariant (fun h ha hs => h.step hm ha hs) (fun h ha => h.ends ha) (Spec.sound_init hinv)

end Steps

end Soundness

end PuppyTalk.Txn
