import PuppyTalk.MediaEffects

namespace PuppyTalk.MediaTx

open ImageLifecycle (CleanupKind Settings SignUpRequest StorageReply Upload)
open LockTable (Compatible SameExcept)
open MediaRepository (attachable)
open Table (Keyed)

def State.Shares (s : State) (i : Nat) (x : Uuid) : Prop := s.locks.AtLeast i (.image x) .share

def State.Changes (s : State) (i : Nat) (x : Uuid) : Prop :=
  s.locks.AtLeast i (.image x) .noKeyUpdate

def Granted (s : State) (i : Nat) (x : Uuid) : Prop := s.Shares i x ∧ attachable s.db x = true

/-- The writes can be committed: they point to images that are held and alive, and whatever points
to an image that they mark as deleted is cut by them. -/
structure Safe (s : State) (i : Nat) (ws : List Write) : Prop where
  adds : ∀ w ∈ ws, ∀ x, w.target = some x → Granted s i x ∧ ∀ v ∈ ws, x ∉ v.kills
  kills : ∀ w ∈ ws, ∀ x ∈ w.kills, s.Changes i x ∧
    ∀ r, refersTo s.db x r = true → ∃ v ∈ ws, v.replaces = some r
  deletes : ∀ w ∈ ws, ∀ x ∈ w.deletes, ∀ r, refersTo s.db x r = false

structure Attaching (s : State) (i : Nat) (ws : List Write) (granted : List Uuid) : Prop where
  adds : ∀ w ∈ ws, ∀ x, w.target = some x → Granted s i x
  refs : ∀ w ∈ ws, w.kills = [] ∧ w.deletes = []
  granted : ∀ x ∈ granted, Granted s i x

def Selected (s : State) (i : Nat) (x : Uuid) : Prop :=
  s.Owns i x ∧ ∀ r, refersTo s.db x r = false

def RefPhaseOk (s : State) (i : Nat) (scan : Option (Scan RowId)) (ws : List Write) : Phase → Prop
  | .attach granted => Attaching s i ws granted
  | .validate granted _ => Attaching s i ws granted ∧
      ∀ sc, scan = some sc → ∀ x, .image x ∈ sc.locked → Granted s i x
  | .write granted w => Attaching s i ws granted ∧ ∀ x, w.imageId = some x → x ∈ granted
  | .markDeleted x _ _ => ws = [] ∧ ∀ sc, scan = some sc → .image x ∈ sc.locked → s.Changes i x
  | .detach x => (∃ now, ws = [.markDeleted x now]) ∧ s.Changes i x ∧
      ∀ sc, scan = some sc → ∀ r, refersTo s.db x r = true → r ∈ sc.locked ∨ r ∈ sc.waiting
  | .claim x _ => (∃ row, row.profileImageId = some x ∧ ws = [.insertUser row]) ∧
      ∀ sc, scan = some sc → .image x ∈ sc.locked → Granted s i x
  | .sweep rest swept => ws = [] ∧
      (∀ img ∈ rest, Selected s i img.id ∧ (img.id, img.fileKey) ∈ imageKeys s.db) ∧
      ∀ x ∈ swept, Selected s i x
  | .confirmed _ | .ready => Safe s i ws
  | .idle | .done => True
  | _ => ws = []

/-- Every reference points to a row that is alive, and every transaction holds what it relies on. -/
structure Linked (s : State) : Prop where
  compatible : Compatible s.locks
  issuedKeys : Keyed Prod.snd s.issued
  rows : ∀ p ∈ imageKeys s.db, p ∈ s.issued
  refs : ∀ x r, refersTo s.db x r = true → attachable s.db x = true
  txs : ∀ i, RefPhaseOk s i (s.txs i).scan (s.txs i).writes (s.txs i).phase

structure Keeps (s s' : State) (j : Nat) : Prop where
  locks : ∀ r m, s.locks.AtLeast j r m → s'.locks.AtLeast j r m
  alive : ∀ x, s.Shares j x → attachable s.db x = true → attachable s'.db x = true
  refs : ∀ x r, s.Changes j x → refersTo s'.db x r = true → refersTo s.db x r = true
  rows : ∀ p, s.Owns j p.1 → p ∈ imageKeys s.db → p ∈ imageKeys s'.db

structure RefFrame (s s' : State) (i : Nat) : Prop where
  txs : ∀ j, j ≠ i → s'.txs j = s.txs j
  locks : SameExcept s.locks s'.locks i
  refs : ∀ x r, refersTo s'.db x r = true → refersTo s.db x r = true ∨ s.Shares i x
  alive : ∀ x, attachable s.db x = true → attachable s'.db x = true ∨ s.Changes i x
  kept : ∀ p ∈ imageKeys s.db, p ∈ imageKeys s'.db ∨ s.Changes i p.1

section Keeps
variable {s s' : State} {i j : Nat} {x : Uuid} {ws : List Write} {scan : Option (Scan RowId)}

theorem State.Owns.changes (h : s.Owns i x) : s.Changes i x := h.mono (by decide)

theorem State.Changes.shares (h : s.Changes i x) : s.Shares i x := h.mono (by decide)

theorem Linked.shares_changes (h : Linked s) (hi : s.Shares i x) (hj : s.Changes j x) : i = j :=
  h.compatible.holder_eq hi hj rfl

theorem RefFrame.keeps (f : RefFrame s s' i) (h : Linked s) (hne : j ≠ i) : Keeps s s' j where
  locks _ _ ha := (f.locks.atLeast hne).mpr ha
  alive x hj ha := (f.alive x ha).resolve_right fun hi => hne (h.shares_changes hj hi)
  refs x r hj hr := (f.refs x r hr).resolve_right fun hi => hne (h.shares_changes hi hj).symm
  rows p hj hp := (f.kept p hp).resolve_right fun hi => hne (h.shares_changes hj.changes.shares hi)

theorem Keeps.of_locks (hdb : s'.db = s.db) (hl : ∀ l ∈ s.locks, l ∈ s'.locks) : Keeps s s' j where
  locks _ _ ha := ha.subset fun l hm _ => hl l hm
  alive _ _ ha := hdb ▸ ha
  refs _ _ _ hr := hdb ▸ hr
  rows _ _ hp := hdb ▸ hp

theorem Keeps.granted (k : Keeps s s' j) (h : Granted s j x) : Granted s' j x :=
  ⟨k.locks _ _ h.1, k.alive x h.1 h.2⟩

theorem Keeps.unreferenced (k : Keeps s s' j) (hc : s.Changes j x)
    (h : ∀ r, refersTo s.db x r = false) (r : RowId) : refersTo s'.db x r = false := by
  apply Bool.eq_false_iff.mpr
  intro hr
  exact Bool.eq_false_iff.mp (h r) (k.refs x r hc hr)

theorem Keeps.selected (k : Keeps s s' j) (h : Selected s j x) : Selected s' j x :=
  ⟨k.locks _ _ h.1, k.unreferenced h.1.changes h.2⟩

theorem deletes_subset_kills (w : Write) : ∀ x ∈ w.deletes, x ∈ w.kills := by
  cases w with
  | deleteImages => exact fun x hx => hx
  | _ => exact fun x hx => nomatch hx

theorem Keeps.safe (k : Keeps s s' j) (h : Safe s j ws) : Safe s' j ws where
  adds w hw x hx := (h.adds w hw x hx).imp_left k.granted
  kills w hw x hx := by
    obtain ⟨hc, hcut⟩ := h.kills w hw x hx
    exact ⟨k.locks _ _ hc, fun r hr => hcut r (k.refs x r hc hr)⟩
  deletes w hw x hx :=
    k.unreferenced (h.kills w hw x (deletes_subset_kills w x hx)).1 (h.deletes w hw x hx)

theorem Keeps.attaching (k : Keeps s s' j) {ids : List Uuid} (h : Attaching s j ws ids) :
    Attaching s' j ws ids where
  adds w hw x hx := k.granted (h.adds w hw x hx)
  refs := h.refs
  granted x hx := k.granted (h.granted x hx)

theorem Keeps.phase (k : Keeps s s' j) {ph : Phase} (h : RefPhaseOk s j scan ws ph) :
    RefPhaseOk s' j scan ws ph := by
  cases ph with
  | attach granted => exact k.attaching h
  | validate granted wanted =>
    exact ⟨k.attaching h.1, fun sc hsc x hx => k.granted (h.2 sc hsc x hx)⟩
  | write granted w => exact ⟨k.attaching h.1, h.2⟩
  | markDeleted x userId now => exact ⟨h.1, fun sc hsc hx => k.locks _ _ (h.2 sc hsc hx)⟩
  | detach x =>
    obtain ⟨hws, hc, hscan⟩ := h
    exact ⟨hws, k.locks _ _ hc, fun sc hsc r hr => hscan sc hsc r (k.refs x r hc hr)⟩
  | claim x userId => exact ⟨h.1, fun sc hsc hx => k.granted (h.2 sc hsc hx)⟩
  | sweep rest swept =>
    obtain ⟨hws, hrest, hdel⟩ := h
    refine ⟨hws, fun img hm => ?_, fun x hx => k.selected (hdel x hx)⟩
    obtain ⟨hsel, hrow⟩ := hrest img hm
    exact ⟨k.selected hsel, k.rows _ hsel.1 hrow⟩
  | confirmed | ready => exact k.safe h
  | _ => exact h

theorem Linked.next (h : Linked s) (f : RefFrame s s' i) (hcomp : Compatible s'.locks)
    (hkeys : Keyed Prod.snd s'.issued) (hrows : ∀ p ∈ imageKeys s'.db, p ∈ s'.issued)
    (hrefs : ∀ x r, refersTo s'.db x r = true → attachable s'.db x = true)
    (hown : RefPhaseOk s' i (s'.txs i).scan (s'.txs i).writes (s'.txs i).phase) : Linked s' where
  compatible := hcomp
  issuedKeys := hkeys
  rows := hrows
  refs := hrefs
  txs j := by
    by_cases hji : j = i
    · rw [hji]
      exact hown
    · rw [f.txs j hji]
      exact (f.keeps h hji).phase (h.txs j)

end Keeps

section Writes
variable {s : State} {i : Nat} {ws : List Write} {ids : List Uuid}

theorem Attaching.safe (h : Attaching s i ws ids) : Safe s i ws where
  adds w hw x hx := by
    apply And.intro (h.adds w hw x hx)
    intro v hv
    rw [(h.refs v hv).1]
    exact List.not_mem_nil
  kills w hw x hx := by
    rw [(h.refs w hw).1] at hx
    exact absurd hx List.not_mem_nil
  deletes w hw x hx := by
    rw [(h.refs w hw).2] at hx
    exact absurd hx List.not_mem_nil

theorem Attaching.write (h : Attaching s i ws ids) {w : RefWrite}
    (hw : ∀ x, w.imageId = some x → x ∈ ids) : Attaching s i (ws ++ [.ref w]) ids where
  adds v hv x hx := by
    rcases List.mem_append.mp hv with hv | hv
    · exact h.adds v hv x hx
    · cases List.mem_singleton.mp hv
      exact h.granted x (hw x hx)
  refs v hv := by
    rcases List.mem_append.mp hv with hv | hv
    · exact h.refs v hv
    · cases List.mem_singleton.mp hv
      exact ⟨rfl, rfl⟩
  granted := h.granted

theorem detach_some {w : RefWrite} (h : RefWrite.detach r = some w) : w.row = r ∧ w.imageId = none := by
  cases r with
  | image => cases h
  | _ =>
    cases h
    exact ⟨rfl, rfl⟩

theorem refersTo_detach (h : refersTo db x r = true) : ∃ w, RefWrite.detach r = some w := by
  cases r with
  | image => cases h
  | _ => exact ⟨_, rfl⟩

theorem safe_detach (hc : s.Changes i x) {locked : List RowId}
    (hcover : ∀ r, refersTo s.db x r = true → r ∈ locked) :
    Safe s i ([.markDeleted x now] ++ (locked.filterMap RefWrite.detach).map .ref) := by
  have hcut {w : Write} (hw : w ∈ (locked.filterMap RefWrite.detach).map Write.ref) :
      w.target = none ∧ w.kills = [] ∧ w.deletes = [] := by
    obtain ⟨v, hv, rfl⟩ := List.mem_map.mp hw
    obtain ⟨r, _, hr⟩ := List.mem_filterMap.mp hv
    exact ⟨(detach_some hr).2, rfl, rfl⟩
  apply Safe.mk
  · intro w hw y hy
    rcases List.mem_cons.mp hw with rfl | hw
    · cases hy
    · rw [(hcut hw).1] at hy
      cases hy
  · intro w hw y hy
    rcases List.mem_cons.mp hw with rfl | hw
    · cases List.mem_singleton.mp hy
      apply And.intro hc
      intro r hr
      obtain ⟨v, hv⟩ := refersTo_detach hr
      have hmem : v ∈ locked.filterMap RefWrite.detach :=
        List.mem_filterMap.mpr ⟨r, hcover r hr, hv⟩
      exact ⟨.ref v, List.mem_cons_of_mem _ (List.mem_map_of_mem hmem),
        congrArg some (detach_some hv).1⟩
    · rw [(hcut hw).2.1] at hy
      exact absurd hy List.not_mem_nil
  · intro w hw y hy
    rcases List.mem_cons.mp hw with rfl | hw
    · cases hy
    · rw [(hcut hw).2.2] at hy
      exact absurd hy List.not_mem_nil

theorem safe_claim (hrow : row.profileImageId = some x) (hg : Granted s i x) :
    Safe s i [.insertUser row, .claim x userId] := by
  have hkills : ∀ w ∈ [Write.insertUser row, .claim x userId], w.kills = [] ∧ w.deletes = [] := by
    simp [Write.kills, Write.deletes]
  refine ⟨fun w hw y hy => ⟨?_, fun v hv => ?_⟩, fun w hw y hy => ?_, fun w hw y hy => ?_⟩
  · rcases List.mem_cons.mp hw with rfl | hw
    · cases Option.some.inj (hrow.symm.trans hy)
      exact hg
    · cases List.mem_singleton.mp hw
      cases hy
  · rw [(hkills v hv).1]
    exact List.not_mem_nil
  · rw [(hkills w hw).1] at hy
    exact absurd hy List.not_mem_nil
  · rw [(hkills w hw).2] at hy
    exact absurd hy List.not_mem_nil

theorem safe_singleton {w : Write} (ht : w.target = none) (hk : w.kills = []) (hd : w.deletes = []) :
    Safe s i [w] := by
  refine ⟨fun v hv y hy => ?_, fun v hv y hy => ?_, fun v hv y hy => ?_⟩ <;>
    cases List.mem_singleton.mp hv
  · rw [ht] at hy
    cases hy
  · rw [hk] at hy
    exact absurd hy List.not_mem_nil
  · rw [hd] at hy
    exact absurd hy List.not_mem_nil

theorem safe_deleteImages (h : ∀ x ∈ ids, Selected s i x) : Safe s i [.deleteImages ids] := by
  refine ⟨fun v hv y hy => ?_, fun v hv y hy => ?_, fun v hv y hy => ?_⟩ <;>
    cases List.mem_singleton.mp hv
  · cases hy
  · apply And.intro (h y hy).1.changes
    intro r hr
    exact absurd hr (Bool.eq_false_iff.mp ((h y hy).2 r))
  · exact (h y hy).2

end Writes

def Label.sweepsUnused : Label → Bool
  | .selectPage _ kind _ => kind ≠ .expiredSignup
  | _ => true

section Steps
variable {s s' : State} {i : Nat} {u : Upload}

theorem Linked.quiet (h : Linked s) (hdb : s'.db = s.db) (hiss : s'.issued = s.issued)
    (htxs : ∀ j, j ≠ i → s'.txs j = s.txs j) (hlocks : SameExcept s.locks s'.locks i)
    (hcomp : Compatible s'.locks)
    (hown : RefPhaseOk s' i (s'.txs i).scan (s'.txs i).writes (s'.txs i).phase) : Linked s' := by
  have f : RefFrame s s' i := {
    txs := htxs
    locks := hlocks
    refs := fun x r hr => .inl (hdb ▸ hr)
    alive := fun x ha => .inl (hdb ▸ ha)
    kept := fun p hp => .inl (hdb ▸ hp) }
  apply h.next f hcomp (hiss ▸ h.issuedKeys) _ _ hown
  · rw [hdb, hiss]
    exact h.rows
  · rw [hdb]
    exact h.refs

theorem Linked.update (h : Linked s) (hdb : s'.db = s.db) (hiss : s'.issued = s.issued)
    (hlocks : s'.locks = s.locks) (htxs : s'.txs = Function.update s.txs i tx)
    (hown : RefPhaseOk s' i tx.scan tx.writes tx.phase) : Linked s' := by
  apply h.quiet (i := i) hdb hiss
  · intro j hne
    rw [htxs, Function.update_of_ne hne]
  · rw [hlocks]
    exact .refl _ _
  · rw [hlocks]
    exact h.compatible
  · rw [htxs, Function.update_self]
    exact hown

theorem Linked.environment (h : Linked s) (now : Timestamp) (tokens : KeyValue Uuid) :
    Linked { s with now := now, tokens := tokens } := by
  apply h.quiet (i := 0) (by rfl) (by rfl) (fun _ _ => by rfl) (by exact .refl _ _)
    (by exact h.compatible)
  have k : Keeps s { s with now := now, tokens := tokens } 0 := .of_locks rfl fun _ hl => hl
  exact k.phase (h.txs 0)

theorem Linked.opens (h : Linked s) (hopen : Opens ph) : Linked (s.setTx i ⟨ph, none, []⟩) := by
  apply h.update (by rfl) (by rfl) (by rfl) (by rfl)
  cases hopen with
  | attach => exact ⟨nofun, nofun, nofun⟩
  | markDeleted => exact ⟨rfl, nofun⟩
  | insertUser | getToken => rfl

theorem Linked.advances (h : Linked s) (tokens : KeyValue Uuid) (hph : Advances (s.txs i).phase ph) :
    Linked ({ s with tokens := tokens }.setPhase i ph) := by
  have k : Keeps s ({ s with tokens := tokens }.setPhase i ph) i := .of_locks rfl fun _ hl => hl
  have hok := h.txs i
  apply h.update (by rfl) (by rfl) (by rfl) (by rfl)
  generalize hq : (s.txs i).phase = q at hph hok
  cases hph with
  | validate => exact ⟨k.attaching hok, nofun⟩
  | write hall =>
    apply And.intro (k.attaching hok)
    intro x hx
    rw [hx] at hall
    simpa using hall
  | dropToken | insertUser | confirm => exact hok

theorem Linked.rolls (h : Linked s) (tokens : KeyValue Uuid) (objects : List String) :
    Linked ({ s with tokens := tokens, objects := objects }.rollback i) := by
  have htx : ({ s with tokens := tokens, objects := objects }.rollback i).txs i = .ended :=
    State.setTx_self _ i .ended
  apply h.quiet (i := i) (by rfl) (by rfl) (fun j hne => by exact State.setTx_of_ne _ .ended hne)
    LockTable.sameExcept_release (h.compatible.release i)
  rw [htx]
  trivial

theorem Linked.promotes (h : Linked s) (hph : (s.txs i).phase = .promote u) :
    Linked ({ s with objects := u.destKey :: s.objects }.setPhase i (.block u)) := by
  have hok := h.txs i
  rw [hph] at hok
  apply h.update (by rfl) (by rfl) (by rfl) (by rfl)
  exact hok

theorem Linked.reserves (h : Linked s)
    (hnew : ∀ p ∈ s.issued, p.1 ≠ u.imageId ∧ p.2 ≠ u.destKey) :
    Linked ((s.reserve u).setTx i ⟨.lockReserved u, none, []⟩) := by
  have hkeys : imageKeys (s.reserve u).db = imageKeys s.db ++ [(u.imageId, u.destKey)] := by
    simp [imageKeys, State.reserve, MediaRepository.createReservedImage]
  have halive (x : Uuid) (ha : attachable s.db x = true) : attachable (s.reserve u).db x = true := by
    obtain ⟨img, hm, he⟩ := attachable_iff.mp ha
    exact attachable_iff.mpr ⟨img, List.mem_append_left _ hm, he⟩
  have hrefs (x : Uuid) (r : RowId) (hr : refersTo (s.reserve u).db x r = true) :
      refersTo s.db x r = true := by
    cases r <;> exact hr
  have f : RefFrame s ((s.reserve u).setTx i ⟨.lockReserved u, none, []⟩) i := {
    txs := fun j hne => State.setTx_of_ne _ _ hne
    locks := .refl _ _
    refs := fun x r hr => .inl (hrefs x r hr)
    alive := fun x ha => .inl (halive x ha)
    kept := fun p hp => .inl (hkeys ▸ List.mem_append_left _ hp) }
  apply h.next f h.compatible
  · exact List.nodup_cons.mpr ⟨fun hm => by
      obtain ⟨p, hp, he⟩ := List.mem_map.mp hm
      exact (hnew p hp).2 he, h.issuedKeys⟩
  · intro p hp
    rcases List.mem_append.mp (hkeys ▸ hp) with hp | hp
    · exact List.mem_cons_of_mem _ (h.rows p hp)
    · rw [List.mem_singleton.mp hp]
      exact List.mem_cons_self
  · exact fun x r hr => halive x (h.refs x r (hrefs x r hr))
  · rw [State.setTx_self]
    rfl

theorem cleanupCondition_unreferenced (hk : kind ≠ .expiredSignup)
    (h : cleanupCondition c db now kind img = true) (r : RowId) : refersTo db img.id r = false := by
  have hun : MediaRepository.unreferenced db img = true := by
    cases kind with
    | expiredSignup => exact absurd rfl hk
    | abandoned => exact (Bool.and_eq_true_iff.mp h).2
    | reclaimable => exact (Bool.and_eq_true_iff.mp h).2
  apply Bool.eq_false_iff.mpr
  intro hr
  rw [MediaRepository.unreferenced, references_iff.mpr ⟨r, hr⟩] at hun
  cases hun

theorem Linked.selects (h : Linked s) (hk : kind ≠ .expiredSignup) :
    Linked ((s.lockPage i (cleanupPage c s i kind afterId)).setTx i
      ⟨.sweep (cleanupPage c s i kind afterId) [], none, []⟩) := by
  generalize hpage : cleanupPage c s i kind afterId = page
  have hmem {img : Image} (hm : img ∈ page) := mem_cleanupPage (hpage ▸ hm)
  apply h.quiet (i := i) (by rfl) (by rfl) (fun j hne => by exact State.setTx_of_ne _ _ hne)
    LockTable.sameExcept_acquire
  · apply h.compatible.acquire
    intro r hr
    obtain ⟨img, hm, rfl⟩ := List.mem_map.mp hr
    exact (hmem hm).2.2
  · rw [State.setTx_self]
    refine ⟨rfl, fun img hm => ⟨⟨?_, ?_⟩, List.mem_map_of_mem (hmem hm).1⟩, nofun⟩
    · exact ⟨⟨i, .image img.id, .update⟩,
        LockTable.mem_acquire.mpr (.inl ⟨_, List.mem_map_of_mem hm, rfl⟩), rfl, rfl, Nat.le_refl _⟩
    · exact cleanupCondition_unreferenced hk (hmem hm).2.1

theorem deleteObject_same (s : State) (i : Nat) (img : Image) (r : StorageReply) :
    ∃ objects removed, s.deleteObject i img r = { s with objects := objects, removed := removed } ∧
      ∀ k ∈ s.objects, k ≠ img.fileKey → k ∈ objects := by
  unfold State.deleteObject
  split
  · exact ⟨s.objects, s.removed, rfl, fun _ hk _ => hk⟩
  · exact ⟨_, _, rfl, fun k hk hne => List.mem_filter.mpr ⟨hk, by simpa using hne⟩⟩

theorem Linked.deletesObject (h : Linked s)
    (hph : (s.txs i).phase = .sweep (img :: rest) swept) (r : StorageReply) :
    Linked ((s.deleteObject i img r).setPhase i
      (.sweep rest (if r = .deleted then img.id :: swept else swept))) := by
  have hok := h.txs i
  rw [hph] at hok
  obtain ⟨hws, hrest, hdel⟩ := hok
  obtain ⟨objects, removed, he, _⟩ := deleteObject_same s i img r
  rw [he]
  apply h.update (by rfl) (by rfl) (by rfl) (by rfl)
  refine ⟨hws, fun img' hm => hrest img' (List.mem_cons_of_mem img hm), fun x hx => ?_⟩
  have hmem : x ∈ img.id :: swept := by
    split at hx
    · exact hx
    · exact List.mem_cons_of_mem _ hx
  rcases List.mem_cons.mp hmem with rfl | hx
  · exact (hrest img List.mem_cons_self).1
  · exact hdel x hx

/-- A locking statement goes on; what it has locked meets its condition, and a deletion's second
statement has every row that points to the image in hand or in sight. -/
theorem Linked.scanning (h : Linked s) (hlocks : SameExcept s.locks locks i)
    (hcomp : Compatible locks) (hl : ∀ l ∈ s.locks, l ∈ locks)
    (hnew : ∀ r ∈ sc.locked, (∃ sc₀, (s.txs i).scan = some sc₀ ∧ r ∈ sc₀.locked) ∨
      ((s.txs i).phase.selects s.db r = true ∧ locks.AtLeast i r ((s.txs i).phase.mode r)))
    (hcover : ∀ x, (s.txs i).phase = .detach x → ∀ r, refersTo s.db x r = true →
      r ∈ sc.locked ∨ r ∈ sc.waiting) :
    Linked ({ s with locks := locks }.setTx i { s.txs i with scan := some sc }) := by
  have htx := State.setTx_self { s with locks := locks } i { s.txs i with scan := some sc }
  have k : Keeps s ({ s with locks := locks }.setTx i { s.txs i with scan := some sc }) i :=
    .of_locks rfl hl
  apply h.quiet (i := i) (by rfl) (by rfl) (fun j hne => by exact State.setTx_of_ne _ _ hne) hlocks
    hcomp
  rw [htx]
  have hold := k.phase (h.txs i)
  have hold₀ := h.txs i
  generalize hq : (s.txs i).phase = q at hold hold₀ hnew hcover
  cases q with
  | validate granted wanted =>
    refine ⟨hold.1, fun sc' hsc x hx => ?_⟩
    cases hsc
    rcases hnew _ hx with ⟨sc₀, hsc₀, hm⟩ | ⟨hsel, hat⟩
    · exact hold.2 sc₀ hsc₀ x hm
    · exact ⟨hat, (Bool.and_eq_true_iff.mp hsel).2⟩
  | markDeleted x userId now =>
    refine ⟨hold.1, fun sc' hsc hx => ?_⟩
    cases hsc
    rcases hnew _ hx with ⟨sc₀, hsc₀, hm⟩ | ⟨_, hat⟩
    · exact hold.2 sc₀ hsc₀ hm
    · exact hat
  | detach x =>
    refine ⟨hold.1, hold.2.1, fun sc' hsc r hr => ?_⟩
    cases hsc
    exact hcover x rfl r hr
  | claim x userId =>
    refine ⟨hold.1, fun sc' hsc hx => ?_⟩
    cases hsc
    rcases hnew _ hx with ⟨sc₀, hsc₀, hm⟩ | ⟨hsel, hat⟩
    · exact hold.2 sc₀ hsc₀ hm
    · refine ⟨State.Changes.shares hat, ?_⟩
      obtain ⟨img, hm, he⟩ := List.any_eq_true.mp (Bool.and_eq_true_iff.mp hsel).2
      simp only [Bool.and_eq_true, beq_iff_eq, Option.isNone_iff_eq_none] at he
      exact attachable_iff.mpr ⟨img, hm, he.1.1, he.2⟩
  | _ => exact hold

theorem Linked.starts (h : Linked s) {ph : Phase} (hph : (s.txs i).phase = ph) :
    Linked ({ s with locks := (s.locks.start i ph.mode (ph.targets s.db)).2 }.setTx i { s.txs i with
      scan := some (s.locks.start i ph.mode (ph.targets s.db)).1 }) := by
  apply h.scanning LockTable.sameExcept_acquire (h.compatible.start i _ _)
  · exact fun l hl => LockTable.mem_acquire.mpr (.inr hl)
  · intro r hr
    obtain ⟨hm, hat⟩ := LockTable.start_locked hr
    rw [hph]
    exact .inr ⟨(List.mem_filter.mp hm).2, hat⟩
  · intro x hp r hr
    subst hph
    apply LockTable.mem_start
    rw [hp]
    exact List.mem_filter.mpr ⟨List.mem_append_left _ (mem_rowIds_of_refersTo hr), hr⟩

theorem Linked.resumes (h : Linked s) (hsc : (s.txs i).scan = some sc)
    (hr : LockTable.Resumed s.locks i (s.txs i).phase.mode ((s.txs i).phase.selects s.db) sc r sc'
      locks) : Linked ({ s with locks := locks }.setTx i { s.txs i with scan := some sc' }) := by
  have hcover (x : Uuid) (hp : (s.txs i).phase = .detach x) :
      ∀ r, refersTo s.db x r = true → r ∈ sc.locked ∨ r ∈ sc.waiting := by
    have hok := h.txs i
    rw [hp] at hok
    exact hok.2.2 sc hsc
  apply h.scanning hr.sameExcept (hr.compatible h.compatible)
  · cases hr with
    | locks => exact fun l hl => LockTable.mem_acquire.mpr (.inr hl)
    | skips => exact fun l hl => hl
  · cases hr with
    | locks _ hc =>
      intro r' hr'
      rcases List.mem_cons.mp hr' with rfl | hr'
      · exact .inr ⟨hc, LockTable.atLeast_acquire (List.mem_singleton_self r')⟩
      · exact .inl ⟨sc, hsc, hr'⟩
    | skips => exact fun r' hr' => .inl ⟨sc, hsc, hr'⟩
  · intro x hp r' hr'
    by_cases heq : r' = r
    · subst heq
      cases hr with
      | locks => exact .inl List.mem_cons_self
      | skips hc =>
        -- the row no longer points to the image
        rw [hp] at hc
        exact absurd hr' (Bool.eq_false_iff.mp hc)
    · have hw (hw : r' ∈ sc.waiting) : r' ∈ sc.waiting.filter fun w => w ≠ r :=
        List.mem_filter.mpr ⟨hw, by simpa using heq⟩
      cases hr with
      | locks => exact (hcover x hp r' hr').imp (List.mem_cons_of_mem r) hw
      | skips => exact (hcover x hp r' hr').imp_right hw

theorem Finishes.phaseOk {ph₀ : Phase} (hf : Finishes sc.locked ph₀ ph ws)
    (h : RefPhaseOk s i (some sc) ws₀ ph₀) (hw : sc.waiting = []) :
    RefPhaseOk s i none (ws₀ ++ ws) ph := by
  cases hf with
  | validate hl =>
    rw [List.append_nil]
    refine ⟨h.1.adds, h.1.refs, fun x hx => ?_⟩
    exact (List.mem_append.mp hx).elim (h.1.granted x) fun hx => h.2 sc rfl x (hl x hx)
  | skip =>
    rw [List.append_nil]
    exact h.1
  | write => exact h.1.write h.2
  | @markDeleted x userId now hl =>
    rw [h.1]
    exact ⟨⟨now, rfl⟩, h.2 sc rfl hl, nofun⟩
  | detach =>
    obtain ⟨⟨now, rfl⟩, hc, hcover⟩ := h
    apply safe_detach hc
    intro r hr
    have hin := hcover sc rfl r hr
    rw [hw] at hin
    exact hin.resolve_right List.not_mem_nil
  | insertPlain hrow =>
    cases h
    exact safe_singleton hrow rfl rfl
  | insertUser hrow =>
    cases h
    exact ⟨⟨_, hrow, rfl⟩, nofun⟩
  | claim hl =>
    obtain ⟨⟨row, hrow, rfl⟩, hg⟩ := h
    exact safe_claim hrow (hg sc rfl hl)
  | lockReserved =>
    cases h
    rfl
  | confirm =>
    cases h
    exact safe_singleton rfl rfl rfl
  | sweep =>
    obtain ⟨rfl, _, hdel⟩ := h
    apply safe_deleteImages
    intro x hx
    exact hdel x (List.mem_filter.mp hx).1

theorem Linked.finishes (h : Linked s) (hsc : (s.txs i).scan = some sc) (hw : sc.waiting = [])
    (hf : Finishes sc.locked (s.txs i).phase ph ws) :
    Linked (s.setTx i ⟨ph, none, (s.txs i).writes ++ ws⟩) := by
  have k : Keeps s (s.setTx i ⟨ph, none, (s.txs i).writes ++ ws⟩) i := .of_locks rfl fun _ hl => hl
  have hok := h.txs i
  rw [hsc] at hok
  apply h.update (by rfl) (by rfl) (by rfl) (by rfl)
  exact k.phase (hf.phaseOk hok hw)

theorem Linked.safe (h : Linked s) (hc : (s.txs i).phase.commits = true) : Safe s i (s.txs i).writes := by
  have hok := h.txs i
  cases hp : (s.txs i).phase with
  | attach granted =>
    rw [hp] at hok
    exact hok.safe
  | confirmed | ready =>
    rw [hp] at hok
    exact hok
  | _ =>
    rw [hp] at hc
    cases hc

theorem Linked.commits (h : Linked s) (hc : (s.txs i).phase.commits = true)
    (hdb : (s.txs i).writes.foldlM Write.apply s.db = some db) : Linked (s.committed i db) := by
  have hsafe := h.safe hc
  have htx : (s.committed i db).txs i = .ended := State.setTx_self _ i .ended
  have hkilled (x : Uuid) : (∃ w ∈ (s.txs i).writes, x ∈ w.kills) ∨
      ∀ w ∈ (s.txs i).writes, x ∉ w.kills := by
    by_cases hx : ∃ w ∈ (s.txs i).writes, x ∈ w.kills
    · exact .inl hx
    · exact .inr fun w hw hm => hx ⟨w, hw, hm⟩
  have f : RefFrame s (s.committed i db) i := {
    txs := fun j hne => State.setTx_of_ne _ .ended hne
    locks := LockTable.sameExcept_release
    refs := fun x r hr => by
      rcases applyAll_refersTo hdb hr with ⟨w, hw, ht⟩ | ⟨hr, _⟩
      · exact .inr (hsafe.adds w hw x ht).1.1
      · exact .inl hr
    alive := fun x ha => by
      rcases hkilled x with ⟨w, hw, hx⟩ | hno
      · exact .inr (hsafe.kills w hw x hx).1
      · exact .inl (applyAll_attachable hdb ha hno)
    kept := fun p hp => by
      by_cases hx : p.1 ∈ (s.txs i).writes.flatMap Write.deletes
      · obtain ⟨w, hw, hx⟩ := List.mem_flatMap.mp hx
        exact .inr (hsafe.kills w hw p.1 (deletes_subset_kills w p.1 hx)).1
      · exact .inl ((applyAll_imageKeys hdb p).mpr ⟨hp, hx⟩) }
  apply h.next f (h.compatible.release i) h.issuedKeys
  · exact fun p hp => h.rows p ((applyAll_imageKeys hdb p).mp hp).1
  · intro x r hr
    rcases applyAll_refersTo hdb hr with ⟨w, hw, ht⟩ | ⟨hr, hleft⟩
    · obtain ⟨hg, hno⟩ := hsafe.adds w hw x ht
      exact applyAll_attachable hdb hg.2 hno
    · rcases hkilled x with ⟨w, hw, hx⟩ | hno
      · obtain ⟨v, hv, hcut⟩ := (hsafe.kills w hw x hx).2 r hr
        exact absurd hcut (hleft v hv)
      · exact applyAll_attachable hdb (h.refs x r hr) hno
  · rw [htx]
    trivial

end Steps

theorem Linked.step (h : Linked s) (ha : a.sweepsUnused = true) (hs : step c s a = some s') :
    Linked s' := by
  cases step_effect hs with
  | environment now tokens => exact h.environment now tokens
  | opens _ hopen => exact h.opens hopen
  | advances tokens hph => exact h.advances tokens hph
  | reserves _ hnew => exact h.reserves hnew
  | promotes hph => exact h.promotes hph
  | rolls i tokens objects _ => exact h.rolls tokens objects
  | selects _ hlabel =>
    rw [hlabel] at ha
    exact h.selects (of_decide_eq_true ha)
  | deletesObject hph r => exact h.deletesObject hph r
  | starts hst => exact h.starts rfl
  | resumes hsc hr => exact h.resumes hsc hr
  | finishes hsc hw hf => exact h.finishes hsc hw hf
  | commits hc hdb => exact h.commits hc hdb

theorem Linked.spares (h : Linked s) (hs : MediaTx.step c s a = some s') (hi : img ∈ s.db.images)
    (href : s.db.references img.id = true) :
    (img.id, img.fileKey) ∈ imageKeys s'.db ∧ (img.fileKey ∈ s.objects → img.fileKey ∈ s'.objects) := by
  have hrow : (img.id, img.fileKey) ∈ imageKeys s.db := List.mem_map_of_mem hi
  obtain ⟨r, hr⟩ := references_iff.mp href
  cases step_effect hs with
  | environment | opens | advances | starts | resumes | finishes => exact ⟨hrow, id⟩
  | selects => exact ⟨hrow, id⟩
  | reserves =>
    apply And.intro _ id
    exact List.mem_map_of_mem (List.mem_append_left _ hi)
  | promotes => exact ⟨hrow, List.mem_cons_of_mem _⟩
  | rolls i tokens objects hobj =>
    apply And.intro hrow
    rcases hobj with rfl | ⟨u, _, rfl⟩
    · exact id
    · exact List.mem_cons_of_mem _
  | @deletesObject i img' rest swept hph reply =>
    obtain ⟨objects, removed, he, hkeep⟩ := deleteObject_same s i img' reply
    rw [he]
    apply And.intro hrow
    intro hk
    apply hkeep _ hk
    intro hsame
    have hok := h.txs i
    rw [hph] at hok
    obtain ⟨hsel, hrow'⟩ := hok.2.1 img' List.mem_cons_self
    have heq := h.issuedKeys.eq (h.rows _ hrow) (h.rows _ hrow') hsame
    have hid : img.id = img'.id := congrArg Prod.fst heq
    rw [hid] at hr
    exact absurd hr (Bool.eq_false_iff.mp (hsel.2 r))
  | commits hc hdb =>
    apply And.intro _ id
    apply (applyAll_imageKeys hdb _).mpr ⟨hrow, fun hm => ?_⟩
    obtain ⟨w, hw, hx⟩ := List.mem_flatMap.mp hm
    exact absurd hr (Bool.eq_false_iff.mp ((h.safe hc).deletes w hw img.id hx r))

theorem linked_init (hkeys : Keyed Image.fileKey db.images)
    (hrefs : ∀ x, db.references x = true → ∃ i ∈ db.images, i.id = x ∧ i.deletedAt = none)
    (objects : List String) (tokens : KeyValue Uuid) (now : Timestamp) :
    Linked (State.init db objects tokens now) where
  compatible := LockTable.compatible_nil
  issuedKeys := by
    unfold Keyed
    rw [State.init, imageKeys, List.map_map]
    exact hkeys
  rows _ hp := hp
  refs x r hr := attachable_iff.mpr (hrefs x (references_iff.mpr ⟨r, hr⟩))
  txs _ := trivial

/-- Every committed reference points to a row that is not marked as deleted, and no step takes the
row or the object of an image with a committed reference. -/
theorem no_reference_to_dead_image (c : Settings) (hkeys : Keyed Image.fileKey db.images)
    (hrefs : ∀ x, db.references x = true → ∃ i ∈ db.images, i.id = x ∧ i.deletedAt = none)
    (hsweeps : ∀ a ∈ as, a.sweepsUnused = true)
    (hrun : exec (step c) (State.init db objects tokens now) as = some s) :
    (∀ x, s.db.references x = true → ∃ i ∈ s.db.images, i.id = x ∧ i.deletedAt = none) ∧
    ∀ a s', step c s a = some s' → ∀ i ∈ s.db.images, s.db.references i.id = true →
      (∃ i' ∈ s'.db.images, i'.id = i.id) ∧ (i.fileKey ∈ s.objects → i.fileKey ∈ s'.objects) := by
  have h : Linked s := exec_invariant Linked.step (linked_init hkeys hrefs objects tokens now)
    (.of_forall hsweeps _ _) hrun
  apply And.intro
  · intro x hx
    obtain ⟨r, hr⟩ := references_iff.mp hx
    exact attachable_iff.mp (h.refs x r hr)
  · intro a s' hs i hi href
    obtain ⟨hrow, hobj⟩ := h.spares hs hi href
    obtain ⟨i', hi', he⟩ := List.mem_map.mp hrow
    exact ⟨⟨i', hi', congrArg Prod.fst he⟩, hobj⟩

def tokenUpload : Upload where
  imageId := 1
  destKey := "media/a"
  fileUrl := "https://cdn/media/a"
  contentType := "image/png"
  size := 10
  uploaderId := none
  signupToken := some "t"

def tokenSignUp : SignUpRequest where
  email := "a@example.com"
  hashedPassword := "hash"
  nickname := "dog"
  profileImageId := none
  signupToken := some "t"

/-- A signup takes its image over; its owner deletes the image while a post attaches it, and the
deletion waits. -/
def attachDuringDelete : List Label :=
  [.upload 0 tokenUpload, .start 0, .finish 0, .promote 0 .ok, .runBlock 0, .start 0, .finish 0,
   .commit 0,
   .signup 1 10 tokenSignUp, .verifyUploadToken 1, .verifyUploadToken 1, .start 1, .finish 1,
   .start 1, .finish 1, .commit 1,
   .attach 2, .assertImagesAttachable 2 [1], .start 2, .finish 2, .deleteImage 3 1 10, .start 3,
   .writeReference 2 (.insertPostImage ⟨5, 7, 1, 0⟩), .start 2, .finish 2, .commit 2]

theorem no_reference_to_dead_image_attachDuringDelete :
    ∃ s, exec (step (.default id)) (State.init {} [] (fun _ => none) 0) attachDuringDelete = some s ∧
      s.db.references 1 = true ∧ (s.txs 3).scan = some ⟨[], [.image 1]⟩ ∧
      (∀ x, s.db.references x = true → ∃ i ∈ s.db.images, i.id = x ∧ i.deletedAt = none) ∧
      ∀ a s', step (.default id) s a = some s' → ∀ i ∈ s.db.images, s.db.references i.id = true →
        (∃ i' ∈ s'.db.images, i'.id = i.id) ∧ (i.fileKey ∈ s.objects → i.fileKey ∈ s'.objects) := by
  have hrun : ∃ s, exec (step (.default id)) (State.init {} [] (fun _ => none) 0)
      attachDuringDelete = some s ∧ s.db.references 1 = true ∧
      (s.txs 3).scan = some ⟨[], [.image 1]⟩ := ⟨_, rfl, rfl, rfl⟩
  have hsweeps : attachDuringDelete.all Label.sweepsUnused = true := rfl
  have hrefs (x : Uuid) (hx : ({} : Db).references x = true) :
      ∃ i ∈ ({} : Db).images, i.id = x ∧ i.deletedAt = none := nomatch hx
  obtain ⟨s, he, href, hwaits⟩ := hrun
  exact ⟨s, he, href, hwaits, no_reference_to_dead_image (.default id) (Table.keyed_nil _) hrefs
    (List.all_eq_true.mp hsweeps) he⟩

end PuppyTalk.MediaTx
