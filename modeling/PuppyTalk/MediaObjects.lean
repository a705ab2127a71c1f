import Mathlib
import PuppyTalk.MediaEffects

namespace PuppyTalk.MediaTx

open ImageLifecycle (CleanupKind Settings StorageReply Upload)
open LockTable (Compatible SameExcept)
open Table (Keyed)

def Phase.upload : Phase → Option Upload
  | lockReserved u | promote u | block u | confirm u | confirmed u => some u
  | _ => none

def Locked (s : State) (i : Nat) (u : Upload) : Prop :=
  s.Owns i u.imageId ∧ (u.imageId, u.destKey) ∈ imageKeys s.db

def Emptied (s : State) (i : Nat) (x : Uuid) : Prop :=
  s.Owns i x ∧ ∀ k, (x, k) ∈ imageKeys s.db → k ∉ s.objects

def PhaseOk (s : State) (i : Nat) (scan : Option (Scan RowId)) : Phase → Prop
  | .lockReserved u => u.destKey ∉ s.objects ∧
      ∀ sc, scan = some sc → .image u.imageId ∈ sc.locked → Locked s i u
  | .promote u | .block u | .confirm u | .confirmed u => Locked s i u
  | .sweep rest swept =>
      (∀ img ∈ rest, s.Owns i img.id ∧ (img.id, img.fileKey) ∈ imageKeys s.db) ∧
      ∀ x ∈ swept, Emptied s i x
  | _ => True

structure TxOk (s : State) (i : Nat) (tx : Tx) : Prop where
  phase : PhaseOk s i tx.scan tx.phase
  issued : ∀ u, tx.phase.upload = some u →
    (u.imageId, u.destKey) ∈ s.issued ∧ u.imageId ∉ s.confirmed
  confirms : ∀ w ∈ tx.writes, ∀ x, w.confirms = some x → ∃ u, tx.phase = .confirmed u ∧ u.imageId = x
  deletes : ∀ w ∈ tx.writes, ∀ x ∈ w.deletes, tx.phase = .ready ∧ Emptied s i x

structure Shut (s : State) (x : Uuid) : Prop where
  unconfirmed : x ∉ s.confirmed
  uploads : ∀ i u, (s.txs i).phase.upload = some u → u.imageId = x →
    (s.txs i).phase = .lockReserved u ∧
    (∀ sc, (s.txs i).scan = some sc → .image x ∉ sc.locked) ∧ ∀ k, (x, k) ∉ imageKeys s.db

structure Stored (s : State) : Prop where
  compatible : Compatible s.locks
  issuedIds : Keyed Prod.fst s.issued
  issuedKeys : Keyed Prod.snd s.issued
  rows : ∀ p ∈ imageKeys s.db, p ∈ s.issued
  objects : ∀ k ∈ s.objects, ∃ x, (x, k) ∈ imageKeys s.db
  txs : ∀ i, TxOk s i (s.txs i)
  distinct : ∀ i j u v, i ≠ j → (s.txs i).phase.upload = some u → (s.txs j).phase.upload = some v →
    u.imageId ≠ v.imageId ∧ u.destKey ≠ v.destKey
  confirmed : ∀ x ∈ s.confirmed, ∃ k, (x, k) ∈ s.issued
  selected : ∀ b x, (b, x) ∈ s.selectedReserved → (∃ k, (x, k) ∈ s.issued) ∧
    ((s.txs b).phase = .done ∨ (s.Owns b x ∧ x ∉ s.confirmed))
  removed : ∀ b x, (b, x) ∈ s.removed → (s.txs b).phase ≠ .idle
  shut : ∀ b x, (b, x) ∈ s.selectedReserved → (b, x) ∈ s.removed → Shut s x

def Fresh (s : State) (p : Uuid × String) : Prop := ∀ q ∈ s.issued, q.1 ≠ p.1 ∧ q.2 ≠ p.2

structure Frame (s s' : State) (i : Nat) : Prop where
  txs : ∀ j, j ≠ i → s'.txs j = s.txs j
  locks : SameExcept s.locks s'.locks i
  issued : ∀ p ∈ s.issued, p ∈ s'.issued
  rows : ∀ p ∈ imageKeys s'.db, p ∈ imageKeys s.db ∨ (Fresh s p ∧ p ∈ s'.issued)
  kept : ∀ p ∈ imageKeys s.db, p ∈ imageKeys s'.db ∨ (s.Owns i p.1 ∧ p.2 ∉ s'.objects)
  objects : ∀ k ∈ s'.objects, k ∈ s.objects ∨ ∃ u, (s.txs i).phase = .promote u ∧ u.destKey = k
  confirmed : ∀ x ∈ s'.confirmed,
    x ∈ s.confirmed ∨ ∃ u, (s.txs i).phase = .confirmed u ∧ u.imageId = x
  uploads : ∀ u, (s'.txs i).phase.upload = some u →
    (s.txs i).phase.upload = some u ∨ Fresh s (u.imageId, u.destKey)

section Frame
variable {s s' : State} {i j : Nat} {x : Uuid} {u : Upload}

theorem Stored.owner_eq (h : Stored s) (hi : s.Owns i x) (hj : s.Owns j x) : i = j :=
  h.compatible.holder_eq hi hj rfl

theorem Stored.locked_promote (h : Stored s) (hp : (s.txs i).phase = .promote u) : Locked s i u := by
  have hok := (h.txs i).phase
  rw [hp] at hok
  exact hok

theorem Stored.upload_issued (h : Stored s) (hu : (s.txs i).phase.upload = some u) :
    (u.imageId, u.destKey) ∈ s.issued :=
  ((h.txs i).issued u hu).1

theorem Stored.fresh_absent (h : Stored s) (hf : Fresh s p) : p.2 ∉ s.objects := by
  intro hk
  obtain ⟨x, hx⟩ := h.objects p.2 hk
  exact (hf _ (h.rows _ hx)).2 rfl

theorem Frame.owns (f : Frame s s' i) (hne : j ≠ i) : s'.Owns j x ↔ s.Owns j x :=
  f.locks.atLeast hne

theorem Stored.frame_locked (h : Stored s) (f : Frame s s' i) (hne : j ≠ i) (hl : Locked s j u) :
    Locked s' j u := by
  obtain ⟨ho, hrow⟩ := hl
  apply And.intro ((f.owns hne).mpr ho)
  rcases f.kept _ hrow with hrow | ⟨hi, _⟩
  · exact hrow
  · exact absurd (h.owner_eq ho hi) hne

theorem Stored.frame_emptied (h : Stored s) (f : Frame s s' i) (hne : j ≠ i) (he : Emptied s j x) :
    Emptied s' j x := by
  obtain ⟨ho, hk⟩ := he
  apply And.intro ((f.owns hne).mpr ho)
  intro k hrow hobj
  rcases f.rows _ hrow with hrow | ⟨hfresh, _⟩
  · rcases f.objects k hobj with hobj | ⟨u, hp, rfl⟩
    · exact hk k hrow hobj
    · -- the key has one row, so the uploader would hold the same row
      obtain ⟨hi, hrow'⟩ := h.locked_promote hp
      have heq := h.issuedKeys.eq (h.rows _ hrow) (h.rows _ hrow') rfl
      have hx : x = u.imageId := congrArg Prod.fst heq
      exact hne (h.owner_eq ho (hx ▸ hi))
  · rcases f.objects k hobj with hobj | ⟨u, hp, rfl⟩
    · exact h.fresh_absent hfresh hobj
    · exact (hfresh _ (h.upload_issued (i := i) (u := u) (by rw [hp]; rfl))).2 rfl

theorem Stored.frame_phase (h : Stored s) (f : Frame s s' i) (hne : j ≠ i) {scan : Option (Scan RowId)}
    {ph : Phase} (hph : (s.txs j).phase = ph) (hok : PhaseOk s j scan ph) : PhaseOk s' j scan ph := by
  cases ph with
  | lockReserved u =>
    obtain ⟨hobj, hscan⟩ := hok
    refine ⟨fun hk => ?_, fun sc hsc hm => h.frame_locked f hne (hscan sc hsc hm)⟩
    rcases f.objects _ hk with hk | ⟨v, hp, he⟩
    · exact hobj hk
    · exact (h.distinct i j v u hne.symm (by rw [hp]; rfl) (by rw [hph]; rfl)).2 he
  | promote u | block u | confirm u | confirmed u => exact h.frame_locked f hne hok
  | sweep rest swept =>
    apply And.intro _ fun x hx => h.frame_emptied f hne (hok.2 x hx)
    intro img himg
    obtain ⟨ho, hrow⟩ := hok.1 img himg
    apply And.intro ((f.owns hne).mpr ho)
    rcases f.kept _ hrow with hrow | ⟨hi, _⟩
    · exact hrow
    · exact absurd (h.owner_eq ho hi) hne
  | _ => trivial

theorem Stored.frame_tx (h : Stored s) (f : Frame s s' i) (hne : j ≠ i) : TxOk s' j (s'.txs j) := by
  rw [f.txs j hne]
  have hj := h.txs j
  refine ⟨h.frame_phase f hne rfl hj.phase, fun u hu => ?_, hj.confirms, fun w hw x hx =>
    (hj.deletes w hw x hx).imp_right (h.frame_emptied f hne)⟩
  obtain ⟨hiss, hconf⟩ := hj.issued u hu
  apply And.intro (f.issued _ hiss)
  intro hc
  rcases f.confirmed _ hc with hc | ⟨v, hp, he⟩
  · exact hconf hc
  · exact (h.distinct i j v u hne.symm (by rw [hp]; rfl) hu).1 he

theorem Stored.frame_objects (h : Stored s) (f : Frame s s' i) :
    ∀ k ∈ s'.objects, ∃ x, (x, k) ∈ imageKeys s'.db := by
  intro k hk
  have hrow : ∃ x, (x, k) ∈ imageKeys s.db := by
    rcases f.objects k hk with hk | ⟨u, hp, rfl⟩
    · exact h.objects k hk
    · exact ⟨u.imageId, (h.locked_promote hp).2⟩
  obtain ⟨x, hx⟩ := hrow
  rcases f.kept _ hx with hx | ⟨_, hn⟩
  · exact ⟨x, hx⟩
  · exact absurd hk hn

theorem Stored.frame_rows (h : Stored s) (f : Frame s s' i) : ∀ p ∈ imageKeys s'.db, p ∈ s'.issued := by
  intro p hp
  rcases f.rows p hp with hp | ⟨_, hp⟩
  · exact f.issued p (h.rows p hp)
  · exact hp

theorem Stored.frame_distinct (h : Stored s) (f : Frame s s' i) (a b : Nat) (u v : Upload)
    (hne : a ≠ b) (ha : (s'.txs a).phase.upload = some u) (hb : (s'.txs b).phase.upload = some v) :
    u.imageId ≠ v.imageId ∧ u.destKey ≠ v.destKey := by
  by_cases hai : a = i
  · subst hai
    rw [f.txs b hne.symm] at hb
    rcases f.uploads u ha with ha | hfresh
    · exact h.distinct a b u v hne ha hb
    · obtain ⟨h₁, h₂⟩ := hfresh _ (h.upload_issued hb)
      exact ⟨h₁.symm, h₂.symm⟩
  · rw [f.txs a hai] at ha
    by_cases hbi : b = i
    · subst hbi
      rcases f.uploads v hb with hb | hfresh
      · exact h.distinct a b u v hne ha hb
      · exact hfresh _ (h.upload_issued ha)
    · rw [f.txs b hbi] at hb
      exact h.distinct a b u v hne ha hb

structure History (s s' : State) (i : Nat) : Prop where
  selected : ∀ b x, (b, x) ∈ s'.selectedReserved → (b, x) ∈ s.selectedReserved ∨
    (b = i ∧ (s.txs i).phase = .idle ∧ s'.removed = s.removed ∧ (∃ k, (x, k) ∈ s'.issued) ∧
      s'.Owns i x ∧ x ∉ s'.confirmed)
  removed : ∀ b x, (b, x) ∈ s'.removed → (b, x) ∈ s.removed ∨
    (b = i ∧ (s.txs i).phase ≠ .idle ∧ ((i, x) ∈ s.selectedReserved → Shut s' x))
  begun : (s.txs i).phase ≠ .idle → (s'.txs i).phase ≠ .idle
  alive : (s'.txs i).phase = .done ∨
    ((s.txs i).phase ≠ .done ∧ (∀ l ∈ s.locks, l ∈ s'.locks) ∧ s'.confirmed = s.confirmed)
  shut : ∀ u, (s.txs i).phase = .lockReserved u → (∀ k, (u.imageId, k) ∉ imageKeys s.db) →
    (∀ sc, (s.txs i).scan = some sc → .image u.imageId ∉ sc.locked) →
    (s'.txs i).phase.upload = none ∨ ((s'.txs i).phase = .lockReserved u ∧
      ∀ sc, (s'.txs i).scan = some sc → .image u.imageId ∉ sc.locked)

theorem Shut.next (f : Frame s s' i) (e : History s s' i) (hx : Shut s x)
    (hiss : ∃ k, (x, k) ∈ s.issued) : Shut s' x := by
  obtain ⟨k₀, hk₀⟩ := hiss
  have hrows (hno : ∀ k, (x, k) ∉ imageKeys s.db) (k : String) : (x, k) ∉ imageKeys s'.db := by
    intro hk
    rcases f.rows _ hk with hk | ⟨hfresh, _⟩
    · exact hno k hk
    · exact (hfresh _ hk₀).1 rfl
  apply Shut.mk
  · intro hc
    rcases f.confirmed x hc with hc | ⟨u, hp, he⟩
    · exact hx.unconfirmed hc
    · have hlock := (hx.uploads i u (by rw [hp]; rfl) he).1
      rw [hp] at hlock
      cases hlock
  · intro j u hu he
    by_cases hji : j = i
    · subst hji
      rcases f.uploads u hu with hold | hfresh
      · obtain ⟨hp, hscan, hno⟩ := hx.uploads j u hold he
        subst he
        rcases e.shut u hp hno hscan with hnone | ⟨hp', hscan'⟩
        · rw [hnone] at hu
          cases hu
        · exact ⟨hp', hscan', hrows hno⟩
      · exact absurd he.symm (hfresh _ hk₀).1
    · rw [f.txs j hji] at hu ⊢
      obtain ⟨hp, hscan, hno⟩ := hx.uploads j u hu he
      exact ⟨hp, hscan, hrows hno⟩

theorem Stored.frame_selected (h : Stored s) (f : Frame s s' i) (e : History s s' i)
    (hm : (b, x) ∈ s'.selectedReserved) : (∃ k, (x, k) ∈ s'.issued) ∧
      ((s'.txs b).phase = .done ∨ (s'.Owns b x ∧ x ∉ s'.confirmed)) := by
  rcases e.selected b x hm with hm | ⟨rfl, _, _, hiss, hown, hc⟩
  · obtain ⟨⟨k, hk⟩, hst⟩ := h.selected b x hm
    apply And.intro ⟨k, f.issued _ hk⟩
    by_cases hbi : b = i
    · subst hbi
      rcases e.alive with hdone | ⟨hnd, hlocks, hconf⟩
      · exact .inl hdone
      · obtain ⟨hown, hc⟩ := hst.resolve_left hnd
        exact .inr ⟨hown.subset fun l hl _ => hlocks l hl, hconf ▸ hc⟩
    · rw [f.txs b hbi]
      apply hst.imp_right
      rintro ⟨hown, hc⟩
      apply And.intro ((f.owns hbi).mpr hown)
      intro hc'
      rcases f.confirmed x hc' with hc' | ⟨u, hp, rfl⟩
      · exact hc hc'
      · have hlock := (h.txs i).phase
        rw [hp] at hlock
        exact hbi (h.owner_eq hown hlock.1)
  · exact ⟨hiss, .inr ⟨hown, hc⟩⟩

theorem Stored.next (h : Stored s) (f : Frame s s' i) (e : History s s' i)
    (hcomp : Compatible s'.locks) (hids : Keyed Prod.fst s'.issued)
    (hkeys : Keyed Prod.snd s'.issued) (hown : TxOk s' i (s'.txs i)) : Stored s' where
  compatible := hcomp
  issuedIds := hids
  issuedKeys := hkeys
  rows := h.frame_rows f
  objects := h.frame_objects f
  txs j := by
    by_cases hji : j = i
    · rw [hji]
      exact hown
    · exact h.frame_tx f hji
  distinct := h.frame_distinct f
  confirmed x hx := by
    rcases f.confirmed x hx with hx | ⟨u, hp, rfl⟩
    · obtain ⟨k, hk⟩ := h.confirmed x hx
      exact ⟨k, f.issued _ hk⟩
    · exact ⟨u.destKey, f.issued _ (h.upload_issued (i := i) (by rw [hp]; rfl))⟩
  selected b x := h.frame_selected f e
  removed b x hm := by
    have hb : (s.txs b).phase ≠ .idle := by
      rcases e.removed b x hm with hm | ⟨rfl, hidle, _⟩
      · exact h.removed b x hm
      · exact hidle
    by_cases hbi : b = i
    · subst hbi
      exact e.begun hb
    · rw [f.txs b hbi]
      exact hb
  shut b x hs hr := by
    have hiss : (b, x) ∈ s.selectedReserved → ∃ k, (x, k) ∈ s.issued := fun hs => (h.selected b x hs).1
    rcases e.selected b x hs with hs | ⟨rfl, hidle, hrem, _⟩
    · rcases e.removed b x hr with hr | ⟨rfl, _, hshut⟩
      · exact (h.shut b x hs hr).next f e (hiss hs)
      · exact hshut hs
    · rw [hrem] at hr
      exact absurd hidle (h.removed b x hr)

end Frame

structure Same (s s' : State) : Prop where
  db : s'.db = s.db
  objects : s'.objects = s.objects
  issued : s'.issued = s.issued
  confirmed : s'.confirmed = s.confirmed
  selected : s'.selectedReserved = s.selectedReserved
  removed : s'.removed = s.removed

section Quiet
variable {s s' : State} {i : Nat} {u : Upload} {scan : Option (Scan RowId)}

theorem Same.locked (hs : Same s s') (hl : ∀ l ∈ s.locks, l ∈ s'.locks) (h : Locked s i u) :
    Locked s' i u :=
  ⟨h.1.subset fun l hm _ => hl l hm, hs.db ▸ h.2⟩

theorem Same.emptied (hs : Same s s') (hl : ∀ l ∈ s.locks, l ∈ s'.locks) (h : Emptied s i x) :
    Emptied s' i x := by
  apply And.intro (h.1.subset fun l hm _ => hl l hm)
  rw [hs.db, hs.objects]
  exact h.2

theorem TxOk.same (h : TxOk s i tx) (hs : Same s s') (hl : ∀ l ∈ s.locks, l ∈ s'.locks)
    (hscan : ∀ u, tx.phase = .lockReserved u → ∀ sc, scan = some sc →
      .image u.imageId ∈ sc.locked → Locked s' i u) : TxOk s' i { tx with scan := scan } := by
  apply TxOk.mk
  · have hp := h.phase
    cases hph : tx.phase with
    | lockReserved u =>
      rw [hph] at hp
      exact ⟨hs.objects ▸ hp.1, hscan u hph⟩
    | promote | block | confirm | confirmed =>
      rw [hph] at hp
      exact hs.locked hl hp
    | sweep rest swept =>
      rw [hph] at hp
      apply And.intro _ fun x hx => hs.emptied hl (hp.2 x hx)
      intro img himg
      obtain ⟨ho, hrow⟩ := hp.1 img himg
      exact ⟨ho.subset fun l hm _ => hl l hm, hs.db ▸ hrow⟩
    | _ => trivial
  · rw [hs.issued, hs.confirmed]
    exact h.issued
  · exact h.confirms
  · intro w hw x hx
    exact (h.deletes w hw x hx).imp_right (hs.emptied hl)

theorem tx_ended (s : State) (i : Nat) : TxOk s i .ended :=
  ⟨trivial, fun _ hu => (nomatch hu), fun _ hw => (nomatch hw), fun _ hw => (nomatch hw)⟩

theorem Stored.quiet (h : Stored s) (hs : Same s s') (htxs : ∀ j, j ≠ i → s'.txs j = s.txs j)
    (hlocks : SameExcept s.locks s'.locks i) (hcomp : Compatible s'.locks)
    (hown : TxOk s' i (s'.txs i))
    (hup : ∀ u, (s'.txs i).phase.upload = some u → (s.txs i).phase.upload = some u)
    (hbegun : (s.txs i).phase ≠ .idle → (s'.txs i).phase ≠ .idle)
    (halive : (s'.txs i).phase = .done ∨
      ((s.txs i).phase ≠ .done ∧ ∀ l ∈ s.locks, l ∈ s'.locks))
    (hshut : ∀ u, (s.txs i).phase = .lockReserved u → (∀ k, (u.imageId, k) ∉ imageKeys s.db) →
      (∀ sc, (s.txs i).scan = some sc → .image u.imageId ∉ sc.locked) →
      (s'.txs i).phase.upload = none ∨ ((s'.txs i).phase = .lockReserved u ∧
        ∀ sc, (s'.txs i).scan = some sc → .image u.imageId ∉ sc.locked)) : Stored s' := by
  have f : Frame s s' i := {
    txs := htxs
    locks := hlocks
    issued := fun p hp => hs.issued ▸ hp
    rows := fun p hp => .inl (hs.db ▸ hp)
    kept := fun p hp => .inl (hs.db ▸ hp)
    objects := fun k hk => .inl (hs.objects ▸ hk)
    confirmed := fun x hx => .inl (hs.confirmed ▸ hx)
    uploads := fun u hu => .inl (hup u hu) }
  have e : History s s' i := {
    selected := fun b x hm => .inl (hs.selected ▸ hm)
    removed := fun b x hm => .inl (hs.removed ▸ hm)
    begun := hbegun
    alive := halive.imp_right fun ⟨hnd, hl⟩ => ⟨hnd, hl, hs.confirmed⟩
    shut := hshut }
  exact h.next f e hcomp (hs.issued ▸ h.issuedIds) (hs.issued ▸ h.issuedKeys) hown

theorem Same.update (s : State) (i : Nat) (locks : LockTable Nat RowId) (tokens : KeyValue Uuid)
    (tx : Tx) : Same s (s.update i locks tokens tx) :=
  ⟨rfl, rfl, rfl, rfl, rfl, rfl⟩

theorem Stored.update (h : Stored s) (hlocks : SameExcept s.locks locks i)
    (hcomp : Compatible locks) (hl : ∀ l ∈ s.locks, l ∈ locks)
    (hown : TxOk (s.update i locks tokens tx) i tx)
    (hup : ∀ u, tx.phase.upload = some u → (s.txs i).phase.upload = some u)
    (hbegun : (s.txs i).phase ≠ .idle → tx.phase ≠ .idle)
    (hdone : (s.txs i).phase = .done → tx.phase = .done)
    (hshut : ∀ u, (s.txs i).phase = .lockReserved u → (∀ k, (u.imageId, k) ∉ imageKeys s.db) →
      (∀ sc, (s.txs i).scan = some sc → .image u.imageId ∉ sc.locked) →
      tx.phase.upload = none ∨ (tx.phase = .lockReserved u ∧
        ∀ sc, tx.scan = some sc → .image u.imageId ∉ sc.locked)) :
    Stored (s.update i locks tokens tx) := by
  have htx : (s.update i locks tokens tx).txs i = tx := State.setTx_self _ i tx
  apply h.quiet (Same.update s i locks tokens tx) (fun _ hne => State.setTx_of_ne _ tx hne) hlocks
    hcomp
  · rwa [htx]
  · rwa [htx]
  · rwa [htx]
  · rw [htx]
    by_cases hd : (s.txs i).phase = .done
    · exact .inl (hdone hd)
    · exact .inr ⟨hd, hl⟩
  · rwa [htx]

end Quiet

section Steps
variable {s s' : State} {i j : Nat} {u : Upload}

theorem Stored.upload_cases (h : Stored s) (hu : (s.txs j).phase.upload = some u) :
    (s.txs j).phase = .lockReserved u ∨ Locked s j u := by
  have hp := (h.txs j).phase
  cases hph : (s.txs j).phase with
  | lockReserved v =>
    rw [hph] at hu
    cases hu
    exact .inl rfl
  | promote | block | confirm | confirmed =>
    rw [hph] at hu hp
    cases hu
    exact .inr hp
  | _ =>
    rw [hph] at hu
    cases hu

theorem Stored.reserved_row (h : Stored s) (hp : (s.txs i).phase = .lockReserved u)
    (hsel : (Phase.lockReserved u).selects s.db (.image u.imageId) = true) :
    (u.imageId, u.destKey) ∈ imageKeys s.db := by
  have hfind := (Bool.and_eq_true_iff.mp hsel).2
  obtain ⟨img, himg⟩ := Option.isSome_iff_exists.mp hfind
  have hid : img.id = u.imageId := by
    have := List.find?_some himg
    simp at this
    exact this.1
  have hrow : (u.imageId, img.fileKey) ∈ imageKeys s.db :=
    List.mem_map.mpr ⟨img, List.mem_of_find?_eq_some himg, by rw [hid]⟩
  have hiss := h.upload_issued (i := i) (u := u) (by rw [hp]; rfl)
  have heq := h.issuedIds.eq (h.rows _ hrow) hiss rfl
  rwa [← heq]

theorem Stored.no_row_unselected (hno : ∀ k, (u.imageId, k) ∉ imageKeys s.db) :
    (Phase.lockReserved u).selects s.db (.image u.imageId) = false := by
  apply Bool.eq_false_iff.mpr
  intro hsel
  obtain ⟨img, himg⟩ := Option.isSome_iff_exists.mp (Bool.and_eq_true_iff.mp hsel).2
  have hid := List.find?_some himg
  simp only [Bool.and_eq_true, beq_iff_eq] at hid
  exact hno img.fileKey (List.mem_map.mpr ⟨img, List.mem_of_find?_eq_some himg, by rw [hid.1]⟩)

theorem Stored.environment (h : Stored s) (now : Timestamp) (tokens : KeyValue Uuid) :
    Stored { s with now := now, tokens := tokens } := by
  have hs : Same s { s with now := now, tokens := tokens } := ⟨rfl, rfl, rfl, rfl, rfl, rfl⟩
  apply h.quiet (i := 0) hs (fun _ _ => rfl) (.refl _ _) h.compatible _ (fun _ hu => hu) id
  · by_cases hd : (s.txs 0).phase = .done
    · exact .inl hd
    · exact .inr ⟨hd, fun _ hl => hl⟩
  · exact fun u hp _ hsc => .inr ⟨hp, hsc⟩
  · apply (h.txs 0).same hs fun _ hl => hl
    intro u hp sc hsc hm
    have hok := (h.txs 0).phase
    rw [hp] at hok
    exact hs.locked (fun _ hl => hl) (hok.2 sc hsc hm)

def Silent (ws : List Write) : Prop := ∀ w ∈ ws, w.confirms = none ∧ w.deletes = []

theorem Stored.silent (h : Stored s) (hc : ∀ u, (s.txs i).phase ≠ .confirmed u)
    (hr : (s.txs i).phase ≠ .ready) : Silent (s.txs i).writes := by
  intro w hw
  apply And.intro
  · cases hx : w.confirms with
    | none => rfl
    | some x =>
      obtain ⟨u, hp, _⟩ := (h.txs i).confirms w hw x hx
      exact absurd hp (hc u)
  · apply List.eq_nil_iff_forall_not_mem.mpr
    intro x hx
    exact hr ((h.txs i).deletes w hw x hx).1

theorem Silent.txOk (hw : Silent ws) (hp : PhaseOk s i scan ph)
    (hu : ∀ u, ph.upload = some u → (u.imageId, u.destKey) ∈ s.issued ∧ u.imageId ∉ s.confirmed) :
    TxOk s i ⟨ph, scan, ws⟩ := by
  refine ⟨hp, hu, fun w hm x hx => ?_, fun w hm x hx => ?_⟩
  · rw [(hw w hm).1] at hx
    cases hx
  · rw [(hw w hm).2] at hx
    cases hx

def Phase.isPlain : Phase → Bool
  | lockReserved _ | promote _ | block _ | confirm _ | confirmed _ | sweep _ _ | idle => false
  | _ => true

theorem Phase.isPlain.upload {ph : Phase} (h : ph.isPlain = true) : ph.upload = none := by
  cases ph <;> first | rfl | cases h

theorem Phase.isPlain.ok {ph : Phase} (h : ph.isPlain = true) : PhaseOk s i scan ph := by
  cases ph <;> trivial

theorem Stored.plain (h : Stored s) (tokens : KeyValue Uuid) (hph : ph.isPlain = true)
    (hd : (s.txs i).phase ≠ .done) (hl : ∀ u, (s.txs i).phase ≠ .lockReserved u) (hw : Silent ws) :
    Stored (s.update i s.locks tokens ⟨ph, none, ws⟩) := by
  have hnone := Phase.isPlain.upload hph
  apply h.update (.refl _ _) h.compatible fun _ hl => hl
  · exact hw.txOk (Phase.isPlain.ok hph) fun u hu => absurd (hnone.symm.trans hu) nofun
  · exact fun u hu => absurd (hnone.symm.trans hu) nofun
  · rintro - rfl
    cases hph
  · exact fun hp => absurd hp hd
  · exact fun u hp => absurd hp (hl u)

theorem Stored.opens (h : Stored s) (hidle : (s.txs i).phase = .idle) (hopen : Opens ph) :
    Stored (s.setTx i ⟨ph, none, []⟩) := by
  have hplain : ph.isPlain = true := by cases hopen <;> rfl
  apply h.plain s.tokens hplain
  · rw [hidle]
    nofun
  · rw [hidle]
    nofun
  · exact fun w hw => (nomatch hw)

theorem Stored.advances (h : Stored s) (tokens : KeyValue Uuid) (hph : Advances (s.txs i).phase ph) :
    Stored ({ s with tokens := tokens }.setPhase i ph) := by
  have hsilent : Silent (s.txs i).writes := by
    apply h.silent
    · intro u hp
      rw [hp] at hph
      cases hph
    · intro hp
      rw [hp] at hph
      cases hph
  change Stored (s.update i s.locks tokens ⟨ph, none, (s.txs i).writes⟩)
  generalize hq : (s.txs i).phase = q at hph
  cases hph with
  | confirm =>
    have hok := (h.txs i).phase
    rw [hq] at hok
    apply h.update (.refl _ _) h.compatible fun _ hl => hl
    · exact hsilent.txOk hok fun u hu => (h.txs i).issued u (by rw [hq]; exact hu)
    · rw [hq]
      exact fun u hu => hu
    · exact fun _ => nofun
    · rw [hq]
      nofun
    · rw [hq]
      exact fun u hp => nomatch hp
  | _ =>
    apply h.plain tokens rfl
    · rw [hq]
      nofun
    · rw [hq]
      nofun
    · exact hsilent

theorem Stored.scanning (h : Stored s) (hlocks : SameExcept s.locks locks i)
    (hcomp : Compatible locks) (hl : ∀ l ∈ s.locks, l ∈ locks)
    (hnew : ∀ r ∈ sc.locked, (∃ sc₀, (s.txs i).scan = some sc₀ ∧ r ∈ sc₀.locked) ∨
      ((s.txs i).phase.selects s.db r = true ∧ locks.AtLeast i r ((s.txs i).phase.mode r))) :
    Stored (s.update i locks s.tokens { s.txs i with scan := some sc }) := by
  apply h.update hlocks hcomp hl
  · apply (h.txs i).same (Same.update s i locks s.tokens _) hl
    intro u hp sc' hsc hm
    cases hsc
    rcases hnew _ hm with ⟨sc₀, hsc₀, hm⟩ | ⟨hsel, hat⟩
    · have hok := (h.txs i).phase
      rw [hp] at hok
      exact (Same.update s i locks s.tokens _).locked hl (hok.2 sc₀ hsc₀ hm)
    · rw [hp] at hsel hat
      exact ⟨hat, h.reserved_row hp hsel⟩
  · exact fun u hu => hu
  · exact id
  · exact id
  · intro u hp hno hsc₀
    refine .inr ⟨hp, fun sc' hsc hm => ?_⟩
    cases hsc
    rcases hnew _ hm with ⟨sc₀, hsc, hm⟩ | ⟨hsel, _⟩
    · exact hsc₀ sc₀ hsc hm
    · rw [hp, Stored.no_row_unselected hno] at hsel
      cases hsel

theorem Stored.starts (h : Stored s) {ph : Phase} (hph : (s.txs i).phase = ph) :
    Stored ({ s with locks := (s.locks.start i ph.mode (ph.targets s.db)).2 }.setTx i { s.txs i with
      scan := some (s.locks.start i ph.mode (ph.targets s.db)).1 }) := by
  apply h.scanning LockTable.sameExcept_acquire (h.compatible.start i _ _)
  · exact fun l hl => LockTable.mem_acquire.mpr (.inr hl)
  · intro r hr
    obtain ⟨hm, hat⟩ := LockTable.start_locked hr
    rw [hph]
    exact .inr ⟨(List.mem_filter.mp hm).2, hat⟩

theorem Stored.resumes (h : Stored s) (hsc : (s.txs i).scan = some sc)
    (hr : LockTable.Resumed s.locks i (s.txs i).phase.mode ((s.txs i).phase.selects s.db) sc r sc'
      locks) : Stored ({ s with locks := locks }.setTx i { s.txs i with scan := some sc' }) := by
  apply h.scanning hr.sameExcept (hr.compatible h.compatible)
  · cases hr with
    | locks => exact fun l hl => LockTable.mem_acquire.mpr (.inr hl)
    | skips => exact fun l hl => hl
  · cases hr with
    | locks _ hc =>
      intro r' hr'
      rcases List.mem_cons.mp hr' with rfl | hr'
      · exact .inr ⟨hc, LockTable.atLeast_acquire (List.mem_singleton_self r')⟩
      · exact .inl ⟨sc, hsc, hr'⟩
    | skips => exact fun r' hr' => .inl ⟨sc, hsc, hr'⟩

theorem Silent.append (h : Silent ws) (h' : Silent vs) : Silent (ws ++ vs) := by
  intro w hw
  exact (List.mem_append.mp hw).elim (h w) (h' w)

theorem Silent.refs (l : List RefWrite) : Silent (l.map .ref) := by
  intro w hw
  obtain ⟨v, _, rfl⟩ := List.mem_map.mp hw
  exact ⟨rfl, rfl⟩

theorem Silent.nil : Silent [] := fun _ hw => (nomatch hw)

theorem Silent.singleton (hc : w.confirms = none) (hd : w.deletes = []) : Silent [w] := by
  intro v hv
  cases List.mem_singleton.mp hv
  exact ⟨hc, hd⟩

theorem Stored.finishes (h : Stored s) (hsc : (s.txs i).scan = some sc)
    (hf : Finishes sc.locked (s.txs i).phase ph ws) :
    Stored (s.setTx i ⟨ph, none, (s.txs i).writes ++ ws⟩) := by
  have hsilent : Silent (s.txs i).writes := by
    apply h.silent
    · intro u hp
      rw [hp] at hf
      cases hf
    · intro hp
      rw [hp] at hf
      cases hf
  have hok := (h.txs i).phase
  have hiss := (h.txs i).issued
  change Stored (s.update i s.locks s.tokens ⟨ph, none, (s.txs i).writes ++ ws⟩)
  generalize hq : (s.txs i).phase = q at hf
  rw [hq] at hok hiss
  have hplain {ph' : Phase} {vs : List Write} (hp : ph'.isPlain = true) (hd : q ≠ .done)
      (hl : ∀ u, q ≠ .lockReserved u) (hv : Silent vs) :
      Stored (s.update i s.locks s.tokens ⟨ph', none, (s.txs i).writes ++ vs⟩) :=
    h.plain s.tokens hp (hq ▸ hd) (hq ▸ hl) (hsilent.append hv)
  cases hf with
  | validate | skip => exact hplain rfl nofun nofun .nil
  | write | markDeleted | insertPlain | insertUser | claim =>
    exact hplain rfl nofun nofun (.singleton rfl rfl)
  | detach => exact hplain rfl nofun nofun (.refs _)
  | lockReserved hl =>
    apply h.update (.refl _ _) h.compatible fun _ hl => hl
    · exact (hsilent.append .nil).txOk (hok.2 sc hsc hl) hiss
    · rw [hq]
      exact fun u hu => hu
    · exact fun _ => nofun
    · rw [hq]
      nofun
    · rw [hq]
      rintro u ⟨⟩ hno hscan
      exact absurd hl (hscan sc hsc)
  | @confirm u =>
    apply h.update (.refl _ _) h.compatible fun _ hl => hl
    · refine ⟨hok, hiss, fun w hw x hx => ?_, fun w hw x hx => ?_⟩
      · rcases List.mem_append.mp hw with hw | hw
        · rw [(hsilent w hw).1] at hx
          cases hx
        · cases List.mem_singleton.mp hw
          exact ⟨u, rfl, Option.some.inj hx⟩
      · rcases List.mem_append.mp hw with hw | hw
        · rw [(hsilent w hw).2] at hx
          cases hx
        · cases List.mem_singleton.mp hw
          cases hx
    · rw [hq]
      exact fun u hu => hu
    · exact fun _ => nofun
    · rw [hq]
      nofun
    · rw [hq]
      nofun
  | sweep =>
    apply h.update (.refl _ _) h.compatible fun _ hl => hl
    · refine ⟨trivial, nofun, fun w hw x hx => ?_, fun w hw x hx => ?_⟩
      · rcases List.mem_append.mp hw with hw | hw
        · rw [(hsilent w hw).1] at hx
          cases hx
        · cases List.mem_singleton.mp hw
          cases hx
      · rcases List.mem_append.mp hw with hw | hw
        · rw [(hsilent w hw).2] at hx
          cases hx
        · cases List.mem_singleton.mp hw
          exact ⟨rfl, (Same.update s i s.locks s.tokens _).emptied (fun _ hl => hl)
            (hok.2 x (List.mem_filter.mp hx).1)⟩
    · nofun
    · exact fun _ => nofun
    · rw [hq]
      nofun
    · rw [hq]
      nofun

theorem Stored.rolls (h : Stored s) (tokens : KeyValue Uuid) {objects : List String}
    (hobj : objects = s.objects ∨
      ∃ u, (s.txs i).phase = .promote u ∧ objects = u.destKey :: s.objects) :
    Stored ({ s with tokens := tokens, objects := objects }.rollback i) := by
  have htx : ({ s with tokens := tokens, objects := objects }.rollback i).txs i = .ended :=
    State.setTx_self _ i .ended
  have f : Frame s ({ s with tokens := tokens, objects := objects }.rollback i) i := {
    txs := fun j hne => State.setTx_of_ne _ .ended hne
    locks := LockTable.sameExcept_release
    issued := fun p hp => hp
    rows := fun p hp => .inl hp
    kept := fun p hp => .inl hp
    objects := fun k hk => by
      rcases hobj with rfl | ⟨u, hp, rfl⟩
      · exact .inl hk
      · exact (List.mem_cons.mp hk).elim (fun he => .inr ⟨u, hp, he.symm⟩) .inl
    confirmed := fun x hx => .inl hx
    uploads := fun u hu => by
      rw [htx] at hu
      cases hu }
  have e : History s ({ s with tokens := tokens, objects := objects }.rollback i) i := {
    selected := fun b x hm => .inl hm
    removed := fun b x hm => .inl hm
    begun := fun _ => by
      rw [htx]
      nofun
    alive := .inl (by rw [htx]; rfl)
    shut := fun _ _ _ _ => .inl (by rw [htx]; rfl) }
  apply h.next f e (h.compatible.release i) h.issuedIds h.issuedKeys
  rw [htx]
  exact tx_ended _ i

theorem Stored.reserves (h : Stored s) (hidle : (s.txs i).phase = .idle)
    (hnew : ∀ p ∈ s.issued, p.1 ≠ u.imageId ∧ p.2 ≠ u.destKey) :
    Stored ((s.reserve u).setTx i ⟨.lockReserved u, none, []⟩) := by
  have htx := State.setTx_self (s.reserve u) i ⟨.lockReserved u, none, []⟩
  have hfresh : Fresh s (u.imageId, u.destKey) := hnew
  have hkeys : imageKeys (s.reserve u).db = imageKeys s.db ++ [(u.imageId, u.destKey)] := by
    simp [imageKeys, State.reserve, MediaRepository.createReservedImage]
  have f : Frame s ((s.reserve u).setTx i ⟨.lockReserved u, none, []⟩) i := {
    txs := fun j hne => State.setTx_of_ne _ _ hne
    locks := .refl _ _
    issued := fun p hp => List.mem_cons_of_mem _ hp
    rows := fun p hp => by
      rcases List.mem_append.mp (hkeys ▸ hp) with hp | hp
      · exact .inl hp
      · rw [List.mem_singleton.mp hp]
        exact .inr ⟨hfresh, List.mem_cons_self⟩
    kept := fun p hp => .inl (hkeys ▸ List.mem_append_left _ hp)
    objects := fun k hk => .inl hk
    confirmed := fun x hx => .inl hx
    uploads := fun v hv => by
      rw [htx] at hv
      cases hv
      exact .inr hfresh }
  have e : History s ((s.reserve u).setTx i ⟨.lockReserved u, none, []⟩) i := {
    selected := fun b x hm => .inl hm
    removed := fun b x hm => .inl hm
    begun := fun _ => by
      rw [htx]
      intro hp
      cases hp
    alive := .inr ⟨by rw [hidle]; exact Phase.noConfusion, fun _ hl => hl, rfl⟩
    shut := fun _ hp => by
      rw [hidle] at hp
      cases hp }
  apply h.next f e h.compatible
  · exact List.nodup_cons.mpr ⟨fun hm => by
      obtain ⟨p, hp, he⟩ := List.mem_map.mp hm
      exact (hnew p hp).1 he, h.issuedIds⟩
  · exact List.nodup_cons.mpr ⟨fun hm => by
      obtain ⟨p, hp, he⟩ := List.mem_map.mp hm
      exact (hnew p hp).2 he, h.issuedKeys⟩
  · rw [htx]
    apply Silent.nil.txOk
    · apply And.intro (h.fresh_absent hfresh)
      intro r hr
      cases hr
    · rintro v ⟨⟩
      apply And.intro List.mem_cons_self
      intro hc
      obtain ⟨k, hk⟩ := h.confirmed _ hc
      exact (hnew _ hk).1 rfl

theorem Stored.promotes (h : Stored s) (hph : (s.txs i).phase = .promote u) :
    Stored ({ s with objects := u.destKey :: s.objects }.setPhase i (.block u)) := by
  have htx : (State.setPhase { s with objects := u.destKey :: s.objects } i (.block u)).txs i =
      ⟨.block u, none, (s.txs i).writes⟩ := State.setTx_self _ i _
  have f : Frame s ({ s with objects := u.destKey :: s.objects }.setPhase i (.block u)) i := {
    txs := fun j hne => State.setTx_of_ne _ _ hne
    locks := .refl _ _
    issued := fun p hp => hp
    rows := fun p hp => .inl hp
    kept := fun p hp => .inl hp
    objects := fun k hk => (List.mem_cons.mp hk).elim (fun he => .inr ⟨u, hph, he.symm⟩) .inl
    confirmed := fun x hx => .inl hx
    uploads := fun v hv => by
      rw [htx] at hv
      exact .inl (by rw [hph]; exact hv) }
  have e : History s ({ s with objects := u.destKey :: s.objects }.setPhase i (.block u)) i := {
    selected := fun b x hm => .inl hm
    removed := fun b x hm => .inl hm
    begun := fun _ => by
      rw [htx]
      nofun
    alive := .inr ⟨by rw [hph]; nofun, fun _ hl => hl, rfl⟩
    shut := fun _ hp => by
      rw [hph] at hp
      cases hp }
  apply h.next f e h.compatible h.issuedIds h.issuedKeys
  rw [htx]
  apply (h.silent (by rw [hph]; nofun) (by rw [hph]; nofun)).txOk
  · exact h.locked_promote hph
  · exact fun v hv => (h.txs i).issued v (by rw [hph]; exact hv)

theorem Stored.selects (h : Stored s) (hidle : (s.txs i).phase = .idle)
    (hpage : ∀ img ∈ page, img ∈ s.db.images ∧ s.locks.available i .update (.image img.id) = true) :
    Stored ((s.lockPage i page).setTx i ⟨.sweep page [], none, []⟩) := by
  have htx := State.setTx_self (s.lockPage i page) i ⟨.sweep page [], none, []⟩
  have hrow {img : Image} (hm : img ∈ page) : (img.id, img.fileKey) ∈ imageKeys s.db :=
    List.mem_map_of_mem (hpage img hm).1
  have howns {img : Image} (hm : img ∈ page) : (s.lockPage i page).Owns i img.id :=
    ⟨⟨i, .image img.id, .update⟩, LockTable.mem_acquire.mpr (.inl ⟨_, List.mem_map_of_mem hm, rfl⟩),
      rfl, rfl, Nat.le_refl _⟩
  have f : Frame s ((s.lockPage i page).setTx i ⟨.sweep page [], none, []⟩) i := {
    txs := fun j hne => State.setTx_of_ne _ _ hne
    locks := LockTable.sameExcept_acquire
    issued := fun p hp => hp
    rows := fun p hp => .inl hp
    kept := fun p hp => .inl hp
    objects := fun k hk => .inl hk
    confirmed := fun x hx => .inl hx
    uploads := fun v hv => by
      rw [htx] at hv
      cases hv }
  have e : History s ((s.lockPage i page).setTx i ⟨.sweep page [], none, []⟩) i := {
    selected := fun b x hm => by
      rcases List.mem_append.mp hm with hm | hm
      · obtain ⟨img, himg, he⟩ := List.mem_map.mp hm
        cases he
        obtain ⟨hm, hres⟩ := List.mem_filter.mp himg
        have hconf : img.id ∉ s.confirmed := by simpa using (Bool.and_eq_true_iff.mp hres).2
        exact .inr ⟨rfl, hidle, rfl, ⟨img.fileKey, h.rows _ (hrow hm)⟩, howns hm, hconf⟩
      · exact .inl hm
    removed := fun b x hm => .inl hm
    begun := fun _ => by
      rw [htx]
      nofun
    alive := .inr ⟨by rw [hidle]; nofun, fun _ hl => LockTable.mem_acquire.mpr (.inr hl), rfl⟩
    shut := fun _ hp => by
      rw [hidle] at hp
      cases hp }
  apply h.next f e _ h.issuedIds h.issuedKeys
  · rw [htx]
    exact Silent.nil.txOk ⟨fun img hm => ⟨howns hm, hrow hm⟩, nofun⟩ nofun
  · apply h.compatible.acquire
    intro r hr
    obtain ⟨img, hm, rfl⟩ := List.mem_map.mp hr
    exact (hpage img hm).2

theorem deleteObject_eq (s : State) (i : Nat) (img : Image) (r : StorageReply) :
    ∃ objects removed, s.deleteObject i img r = { s with objects := objects, removed := removed } ∧
      (∀ k ∈ objects, k ∈ s.objects) ∧ (r = .deleted → img.fileKey ∉ objects) ∧
      ∀ p ∈ removed, p ∈ s.removed ∨ (p = (i, img.id) ∧ img.fileKey ∈ s.objects) := by
  unfold State.deleteObject
  split
  · rename_i hr
    refine ⟨s.objects, s.removed, rfl, fun _ hk => hk, ?_, fun _ hp => .inl hp⟩
    rw [hr]
    nofun
  · refine ⟨_, _, rfl, fun k hk => (List.mem_filter.mp hk).1, fun _ hk => ?_, fun p hp => ?_⟩
    · simp at hk
    · split at hp
      · rename_i hobj
        exact (List.mem_cons.mp hp).elim (fun he => .inr ⟨he, List.contains_iff_mem.mp hobj⟩) .inl
      · exact .inl hp

/-- The object of an image that a batch selected while its upload had not been confirmed: an upload
that is still to lock its row has no object, and one that holds its row excludes the batch. -/
theorem Stored.no_upload (h : Stored s) (hown : s.Owns i x) (hrow : (x, k) ∈ imageKeys s.db)
    (hk : k ∈ s.objects) (hne : j ≠ i) (hu : (s.txs j).phase.upload = some u) : u.imageId ≠ x := by
  rintro rfl
  rcases h.upload_cases hu with hp | hl
  · have hok := (h.txs j).phase
    rw [hp] at hok
    have heq := h.issuedIds.eq (h.rows _ hrow) (h.upload_issued hu) rfl
    have hkey : k = u.destKey := congrArg Prod.snd heq
    exact hok.1 (hkey ▸ hk)
  · exact hne (h.owner_eq hl.1 hown)

theorem Stored.deletesObject (h : Stored s)
    (hph : (s.txs i).phase = .sweep (img :: rest) swept) (r : StorageReply) :
    Stored ((s.deleteObject i img r).setPhase i
      (.sweep rest (if r = .deleted then img.id :: swept else swept))) := by
  have hok := (h.txs i).phase
  rw [hph] at hok
  obtain ⟨howns, hrow⟩ := hok.1 img List.mem_cons_self
  obtain ⟨objects, removed, he, hobj, hgone, hrem⟩ := deleteObject_eq s i img r
  rw [he]
  generalize hph' : Phase.sweep rest (if r = .deleted then img.id :: swept else swept) = ph'
  have htx : (State.setPhase { s with objects := objects, removed := removed } i ph').txs i =
      ⟨ph', none, (s.txs i).writes⟩ := State.setTx_self _ i _
  have hnone : ph'.upload = none := by rw [← hph']; rfl
  have f : Frame s ({ s with objects := objects, removed := removed }.setPhase i ph') i := {
    txs := fun j hne => State.setTx_of_ne _ _ hne
    locks := .refl _ _
    issued := fun p hp => hp
    rows := fun p hp => .inl hp
    kept := fun p hp => .inl hp
    objects := fun k hk => .inl (hobj k hk)
    confirmed := fun x hx => .inl hx
    uploads := fun v hv => by
      rw [htx] at hv
      exact absurd (hnone.symm.trans hv) nofun }
  have e : History s ({ s with objects := objects, removed := removed }.setPhase i ph') i := {
    selected := fun b x hm => .inl hm
    removed := fun b x hm => by
      apply (hrem _ hm).imp_right
      rintro ⟨⟨⟩, hthere⟩
      refine ⟨rfl, by rw [hph]; nofun, fun hsel => ⟨?_, fun j u hu hx => ?_⟩⟩
      · exact ((h.selected i img.id hsel).2.resolve_left (by rw [hph]; nofun)).2
      · by_cases hji : j = i
        · rw [hji, htx] at hu
          exact absurd (hnone.symm.trans hu) nofun
        · rw [f.txs j hji] at hu
          exact absurd hx (h.no_upload howns hrow hthere hji hu)
    begun := fun _ => by
      rw [htx, ← hph']
      nofun
    alive := .inr ⟨by rw [hph]; nofun, fun _ hl => hl, rfl⟩
    shut := fun _ hp => by
      rw [hph] at hp
      cases hp }
  apply h.next f e h.compatible h.issuedIds h.issuedKeys
  rw [htx]
  apply (h.silent (by rw [hph]; nofun) (by rw [hph]; nofun)).txOk
  · rw [← hph']
    refine ⟨fun img' hm => hok.1 img' (List.mem_cons_of_mem img hm), fun x hx => ?_⟩
    have hold (hx : x ∈ swept) : Emptied s i x := hok.2 x hx
    split at hx
    · rename_i hr
      rcases List.mem_cons.mp hx with rfl | hx
      · refine ⟨howns, fun k hk hko => hgone hr ?_⟩
        have heq := h.issuedIds.eq (h.rows _ hk) (h.rows _ hrow) rfl
        have hkey : k = img.fileKey := congrArg Prod.snd heq
        exact hkey ▸ hko
      · exact ⟨(hold hx).1, fun k hk hko => (hold hx).2 k hk (hobj k hko)⟩
    · exact ⟨(hold hx).1, fun k hk hko => (hold hx).2 k hk (hobj k hko)⟩
  · exact fun u hu => absurd (hnone.symm.trans hu) nofun

theorem Stored.commits (h : Stored s) (hc : (s.txs i).phase.commits = true)
    (hdb : (s.txs i).writes.foldlM Write.apply s.db = some db) : Stored (s.committed i db) := by
  have htx : (s.committed i db).txs i = .ended := State.setTx_self _ i .ended
  have hactive : (s.txs i).phase ≠ .done := by
    intro hp
    rw [hp] at hc
    cases hc
  have hdel {x : Uuid} (hx : x ∈ (s.txs i).writes.flatMap Write.deletes) :
      (s.txs i).phase = .ready ∧ Emptied s i x := by
    obtain ⟨w, hw, hx⟩ := List.mem_flatMap.mp hx
    exact (h.txs i).deletes w hw x hx
  have hconf {x : Uuid} (hx : x ∈ (s.txs i).writes.filterMap Write.confirms) :
      ∃ u, (s.txs i).phase = .confirmed u ∧ u.imageId = x := by
    obtain ⟨w, hw, hx⟩ := List.mem_filterMap.mp hx
    exact (h.txs i).confirms w hw x hx
  have f : Frame s (s.committed i db) i := {
    txs := fun j hne => State.setTx_of_ne _ .ended hne
    locks := LockTable.sameExcept_release
    issued := fun p hp => hp
    rows := fun p hp => .inl ((applyAll_imageKeys hdb p).mp hp).1
    kept := fun p hp => by
      by_cases hx : p.1 ∈ (s.txs i).writes.flatMap Write.deletes
      · exact .inr ⟨(hdel hx).2.1, (hdel hx).2.2 p.2 hp⟩
      · exact .inl ((applyAll_imageKeys hdb p).mpr ⟨hp, hx⟩)
    objects := fun k hk => .inl hk
    confirmed := fun x hx => (List.mem_append.mp hx).elim (fun hx => .inr (hconf hx)) .inl
    uploads := fun u hu => by
      rw [htx] at hu
      cases hu }
  have e : History s (s.committed i db) i := {
    selected := fun b x hm => .inl hm
    removed := fun b x hm => by
      rcases List.mem_append.mp hm with hm | hm
      · obtain ⟨x, hx, he⟩ := List.mem_map.mp hm
        cases he
        obtain ⟨hready, hempty⟩ := hdel hx
        refine .inr ⟨rfl, by rw [hready]; nofun, fun hsel => ⟨fun hm => ?_, fun j u hu he => ?_⟩⟩
        · rcases List.mem_append.mp hm with hm | hm
          · obtain ⟨u, hp, _⟩ := hconf hm
            exact absurd (hready.symm.trans hp) nofun
          · exact ((h.selected i x hsel).2.resolve_left hactive).2 hm
        · by_cases hji : j = i
          · rw [hji, htx] at hu
            cases hu
          · rw [f.txs j hji] at hu ⊢
            subst he
            have hunlocked : ¬ Locked s j u := fun hl => hji (h.owner_eq hl.1 hempty.1)
            have hp := (h.upload_cases hu).resolve_right hunlocked
            refine ⟨hp, fun sc hsc hm => hunlocked ?_, fun k hk => ?_⟩
            · have hok := (h.txs j).phase
              rw [hp] at hok
              exact hok.2 sc hsc hm
            · exact ((applyAll_imageKeys hdb _).mp hk).2 hx
      · exact .inl hm
    begun := fun _ => by
      rw [htx]
      nofun
    alive := .inl (by rw [htx]; rfl)
    shut := fun _ _ _ _ => .inl (by rw [htx]; rfl) }
  apply h.next f e (h.compatible.release i) h.issuedIds h.issuedKeys
  rw [htx]
  exact tx_ended _ i

end Steps

theorem Stored.step (h : Stored s) (hs : step c s a = some s') : Stored s' := by
  cases step_effect hs with
  | environment now tokens => exact h.environment now tokens
  | opens hidle hopen => exact h.opens hidle hopen
  | advances tokens hph => exact h.advances tokens hph
  | reserves hidle hnew => exact h.reserves hidle hnew
  | promotes hph => exact h.promotes hph
  | rolls i tokens objects hobj => exact h.rolls tokens hobj
  | selects hidle _ =>
    apply h.selects hidle
    intro img hm
    obtain ⟨hrow, _, hfree⟩ := mem_cleanupPage hm
    exact ⟨hrow, hfree⟩
  | deletesObject hph r => exact h.deletesObject hph r
  | starts hst => exact h.starts rfl
  | resumes hsc hr => exact h.resumes hsc hr
  | finishes hsc _ hf => exact h.finishes hsc hf
  | commits hc hdb => exact h.commits hc hdb

theorem stored_init (hids : Keyed Image.id db.images) (hkeys : Keyed Image.fileKey db.images)
    (hobj : ∀ k ∈ objects, ∃ i ∈ db.images, i.fileKey = k) (tokens : KeyValue Uuid)
    (now : Timestamp) : Stored (State.init db objects tokens now) where
  compatible := LockTable.compatible_nil
  issuedIds := by
    unfold Keyed
    rw [State.init, imageKeys, List.map_map]
    exact hids
  issuedKeys := by
    unfold Keyed
    rw [State.init, imageKeys, List.map_map]
    exact hkeys
  rows p hp := hp
  objects k hk := by
    obtain ⟨i, hi, rfl⟩ := hobj k hk
    exact ⟨i.id, List.mem_map_of_mem hi⟩
  txs i := Silent.nil.txOk trivial nofun
  distinct i j u v _ hu := nomatch hu
  confirmed x hx := nomatch hx
  selected b x hm := nomatch hm
  removed b x hm := nomatch hm
  shut b x hm := nomatch hm

/-- Every object under a permanent key has a row, and no confirmed upload has lost its object or its
row to a batch that selected the row while it was reserved. -/
theorem no_object_without_row (c : Settings) (hids : Keyed Image.id db.images)
    (hkeys : Keyed Image.fileKey db.images)
    (hobj : ∀ k ∈ objects, ∃ i ∈ db.images, i.fileKey = k)
    (hrun : exec (step c) (State.init db objects tokens now) as = some s) :
    (∀ k ∈ s.objects, ∃ i ∈ s.db.images, i.fileKey = k) ∧
    ∀ batch x, x ∈ s.confirmed → (batch, x) ∈ s.selectedReserved → (batch, x) ∉ s.removed := by
  have h : Stored s := exec_invariant' Stored.step (stored_init hids hkeys hobj tokens now) hrun
  apply And.intro
  · intro k hk
    obtain ⟨x, hx⟩ := h.objects k hk
    obtain ⟨i, hi, he⟩ := List.mem_map.mp hx
    exact ⟨i, hi, congrArg Prod.snd he⟩
  · intro batch x hc hsel hrem
    exact (h.shut batch x hsel hrem).unconfirmed hc

def signupUpload (imageId : Uuid) (destKey : String) : Upload where
  imageId := imageId
  destKey := destKey
  fileUrl := "https://cdn/" ++ destKey
  contentType := "image/png"
  size := 10
  uploaderId := none
  signupToken := none

/-- The copy of a first upload raises although the object is there; a batch selects its row and the
reserved row of a second upload, which waits, and fails to delete the object of the second. -/
def overlappingRun : List Label :=
  [.upload 0 (signupUpload 1 "media/a"), .start 0, .finish 0, .promote 0 .raisedAfter,
   .upload 1 (signupUpload 2 "media/b"), .tick 61000000,
   .selectPage 2 .reclaimable none, .start 1, .storageDelete 2 .deleted, .storageDelete 2 .raised,
   .start 2, .finish 2, .commit 2,
   .resume 1 (.image 2), .finish 1, .promote 1 .ok, .runBlock 1, .start 1, .finish 1, .commit 1]

theorem no_object_without_row_overlappingRun :
    ∃ s, exec (step (.default id)) (State.init {} [] (fun _ => none) 0) overlappingRun = some s ∧
      s.objects = ["media/b"] ∧ s.confirmed = [2] ∧ s.selectedReserved = [(2, 1), (2, 2)] ∧
      s.removed = [(2, 1), (2, 1)] ∧
      (∀ k ∈ s.objects, ∃ i ∈ s.db.images, i.fileKey = k) ∧
      ∀ batch x, x ∈ s.confirmed → (batch, x) ∈ s.selectedReserved → (batch, x) ∉ s.removed := by
  have hrun : ∃ s, exec (step (.default id)) (State.init {} [] (fun _ => none) 0) overlappingRun =
      some s ∧ s.objects = ["media/b"] ∧ s.confirmed = [2] ∧
      s.selectedReserved = [(2, 1), (2, 2)] ∧ s.removed = [(2, 1), (2, 1)] :=
    ⟨_, rfl, rfl, rfl, rfl, rfl⟩
  obtain ⟨s, he, hobjects, hconfirmed, hselected, hremoved⟩ := hrun
  exact ⟨s, he, hobjects, hconfirmed, hselected, hremoved,
    no_object_without_row (.default id) (Table.keyed_nil _) (Table.keyed_nil _)
      (fun _ hk => absurd hk List.not_mem_nil) he⟩

end PuppyTalk.MediaTx
