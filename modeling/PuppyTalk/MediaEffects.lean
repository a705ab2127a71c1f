import PuppyTalk.MediaTransactions

namespace PuppyTalk.MediaTx

open ImageLifecycle (CleanupKind Settings StorageReply Upload)
open MediaRepository (attachable)

def Write.kills : Write → List Uuid
  | .markDeleted imageId _ => [imageId]
  | .deleteImages ids => ids
  | _ => []

def Write.target : Write → Option Uuid
  | .ref w => w.imageId
  | .insertUser row => row.profileImageId
  | _ => none

def Write.replaces : Write → Option RowId
  | .ref w => some w.row
  | _ => none

section Writes
variable {db db' : Db} {w : Write} {ws : List Write} {x : Uuid}

theorem attachable_iff : attachable db x = true ↔ ∃ i ∈ db.images, i.id = x ∧ i.deletedAt = none := by
  simp [attachable]

theorem refersTo_user : refersTo db x (.user n) = true ↔
    ∃ u ∈ db.users, u.id = n ∧ u.profileImageId = some x := by
  simp [refersTo]

theorem refersTo_dog : refersTo db x (.dog n) = true ↔
    ∃ d ∈ db.dogProfiles, d.id = n ∧ d.profileImageId = some x := by
  simp [refersTo]

theorem refersTo_postImage : refersTo db x (.postImage n) = true ↔
    n = x ∧ ∃ p ∈ db.postImages, p.imageId = x := by
  simp [refersTo]

theorem references_iff : db.references x = true ↔ ∃ r, refersTo db x r = true := by
  simp only [Db.references, Bool.or_eq_true, List.any_eq_true, beq_iff_eq]
  apply Iff.intro
  · rintro ((⟨u, hu, he⟩ | ⟨d, hd, he⟩) | hp)
    · exact ⟨.user u.id, refersTo_user.mpr ⟨u, hu, rfl, he⟩⟩
    · exact ⟨.dog d.id, refersTo_dog.mpr ⟨d, hd, rfl, he⟩⟩
    · exact ⟨.postImage x, refersTo_postImage.mpr ⟨rfl, hp⟩⟩
  · rintro ⟨r, hr⟩
    cases r with
    | image => cases hr
    | user id =>
      obtain ⟨u, hu, _, he⟩ := refersTo_user.mp hr
      exact .inl (.inl ⟨u, hu, he⟩)
    | dog id =>
      obtain ⟨d, hd, _, he⟩ := refersTo_dog.mp hr
      exact .inl (.inr ⟨d, hd, he⟩)
    | postImage id => exact .inr (refersTo_postImage.mp hr).2

theorem mem_rowIds_of_refersTo (h : refersTo db x r = true) : r ∈ rowIds db := by
  simp only [rowIds, List.mem_append, List.mem_map]
  cases r with
  | image => cases h
  | user id =>
    obtain ⟨u, hu, rfl, _⟩ := refersTo_user.mp h
    exact .inl (.inl (.inr ⟨u, hu, rfl⟩))
  | dog id =>
    obtain ⟨d, hd, rfl, _⟩ := refersTo_dog.mp h
    exact .inl (.inr ⟨d, hd, rfl⟩)
  | postImage id =>
    obtain ⟨rfl, p, hp, he⟩ := refersTo_postImage.mp h
    exact .inr ⟨p, hp, by rw [he]⟩

theorem refWrite_images {w : RefWrite} (h : w.apply db = some db') : db'.images = db.images := by
  cases w <;> simp only [RefWrite.apply] at h
  case insertDog | insertPostImage =>
    split at h
    · cases h
    · cases h
      rfl
  all_goals
    cases h
    rfl

theorem refWrite_refersTo {w : RefWrite} (h : w.apply db = some db')
    (hr : refersTo db' x r = true) :
    (r = w.row ∧ w.imageId = some x) ∨ (r ≠ w.row ∧ refersTo db x r = true) := by
  cases w with
  | setUserImage userId imageId =>
    cases h
    cases r with
    | user id =>
      obtain ⟨u, hu, rfl, he⟩ := refersTo_user.mp hr
      obtain ⟨v, hv, rfl⟩ := Table.mem_update.mp hu
      by_cases hid : (v.id == userId) = true
      · rw [if_pos hid] at he ⊢
        exact .inl ⟨congrArg RowId.user (eq_of_beq hid), he⟩
      · rw [if_neg hid] at he ⊢
        refine .inr ⟨fun hrow => hid ?_, refersTo_user.mpr ⟨v, hv, rfl, he⟩⟩
        rw [RowId.user.inj hrow]
        exact beq_self_eq_true userId
    | _ => exact .inr ⟨RowId.noConfusion, hr⟩
  | setDogImage dogId imageId =>
    cases h
    cases r with
    | dog id =>
      obtain ⟨d, hd, rfl, he⟩ := refersTo_dog.mp hr
      obtain ⟨e, hm, rfl⟩ := Table.mem_update.mp hd
      by_cases hid : (e.id == dogId) = true
      · rw [if_pos hid] at he ⊢
        exact .inl ⟨congrArg RowId.dog (eq_of_beq hid), he⟩
      · rw [if_neg hid] at he ⊢
        refine .inr ⟨fun hrow => hid ?_, refersTo_dog.mpr ⟨e, hm, rfl, he⟩⟩
        rw [RowId.dog.inj hrow]
        exact beq_self_eq_true dogId
    | _ => exact .inr ⟨RowId.noConfusion, hr⟩
  | insertDog row =>
    simp only [RefWrite.apply, Option.ite_none_left_eq_some, Option.some.injEq] at h
    obtain ⟨hnew, rfl⟩ := h
    cases r with
    | dog id =>
      obtain ⟨d, hd, rfl, he⟩ := refersTo_dog.mp hr
      rcases List.mem_append.mp hd with hd | hd
      · refine .inr ⟨fun hrow => hnew ?_, refersTo_dog.mpr ⟨d, hd, rfl, he⟩⟩
        exact List.any_eq_true.mpr ⟨d, hd, beq_iff_eq.mpr (RowId.dog.inj hrow)⟩
      · cases List.mem_singleton.mp hd
        exact .inl ⟨rfl, he⟩
    | _ => exact .inr ⟨RowId.noConfusion, hr⟩
  | deleteDog dogId =>
    cases h
    cases r with
    | dog id =>
      obtain ⟨d, hd, rfl, he⟩ := refersTo_dog.mp hr
      obtain ⟨hm, hkeep⟩ := Table.mem_delete.mp hd
      refine .inr ⟨fun hrow => ?_, refersTo_dog.mpr ⟨d, hm, rfl, he⟩⟩
      exact beq_eq_false_iff_ne.mp hkeep (RowId.dog.inj hrow)
    | _ => exact .inr ⟨RowId.noConfusion, hr⟩
  | insertPostImage row =>
    simp only [RefWrite.apply, Option.ite_none_left_eq_some, Option.some.injEq] at h
    obtain ⟨hnew, rfl⟩ := h
    cases r with
    | postImage id =>
      obtain ⟨rfl, p, hp, he⟩ := refersTo_postImage.mp hr
      rcases List.mem_append.mp hp with hp | hp
      · refine .inr ⟨fun hrow => hnew ?_, refersTo_postImage.mpr ⟨rfl, p, hp, he⟩⟩
        exact List.any_eq_true.mpr ⟨p, hp, by simp [he, RowId.postImage.inj hrow]⟩
      · cases List.mem_singleton.mp hp
        exact .inl ⟨congrArg RowId.postImage he.symm, congrArg some he⟩
    | _ => exact .inr ⟨RowId.noConfusion, hr⟩
  | deletePostImage imageId =>
    cases h
    cases r with
    | postImage id =>
      obtain ⟨rfl, p, hp, he⟩ := refersTo_postImage.mp hr
      obtain ⟨hm, hkeep⟩ := Table.mem_delete.mp hp
      refine .inr ⟨fun hrow => ?_, refersTo_postImage.mpr ⟨rfl, p, hm, he⟩⟩
      exact beq_eq_false_iff_ne.mp hkeep (he.trans (RowId.postImage.inj hrow))
    | _ => exact .inr ⟨RowId.noConfusion, hr⟩

theorem imageKeys_update {p : Image → Bool} {f : Image → Image}
    (h : db'.images = Table.update p f db.images)
    (hf : ∀ i, (f i).id = i.id ∧ (f i).fileKey = i.fileKey) : imageKeys db' = imageKeys db := by
  simp only [imageKeys, h, Table.update, List.map_map]
  apply List.map_congr_left
  intro i _
  simp only [Function.comp_apply]
  split
  · rw [(hf i).1, (hf i).2]
  · rfl

theorem apply_imageKeys (h : w.apply db = some db') (p : Uuid × String) :
    p ∈ imageKeys db' ↔ p ∈ imageKeys db ∧ p.1 ∉ w.deletes := by
  have hsame (he : imageKeys db' = imageKeys db) (hd : w.deletes = []) :
      p ∈ imageKeys db' ↔ p ∈ imageKeys db ∧ p.1 ∉ w.deletes := by
    simp [he, hd]
  cases w with
  | ref w => exact hsame (by rw [imageKeys, refWrite_images h, imageKeys]) rfl
  | insertUser row =>
    simp only [Write.apply, Option.ite_none_left_eq_some, Option.some.injEq] at h
    obtain ⟨_, rfl⟩ := h
    exact hsame rfl rfl
  | claim imageId userId =>
    cases h
    exact hsame (imageKeys_update rfl fun _ => ⟨rfl, rfl⟩) rfl
  | markDeleted imageId now =>
    cases h
    exact hsame (imageKeys_update rfl fun _ => ⟨rfl, rfl⟩) rfl
  | confirm u =>
    cases h
    exact hsame (imageKeys_update rfl fun _ => ⟨rfl, rfl⟩) rfl
  | deleteImages ids =>
    cases h
    simp only [imageKeys, Write.deletes, MediaRepository.deleteImagesByIds, List.mem_map,
      Table.mem_delete]
    apply Iff.intro
    · rintro ⟨i, ⟨hi, hn⟩, rfl⟩
      exact ⟨⟨i, hi, rfl⟩, by simpa using hn⟩
    · rintro ⟨⟨i, hi, rfl⟩, hn⟩
      exact ⟨i, ⟨hi, by simpa using hn⟩, rfl⟩

theorem apply_attachable (h : w.apply db = some db') (ha : attachable db x = true)
    (hk : x ∉ w.kills) : attachable db' x = true := by
  obtain ⟨i, hi, rfl, halive⟩ := attachable_iff.mp ha
  rw [attachable_iff]
  cases w with
  | ref w => exact ⟨i, refWrite_images h ▸ hi, rfl, halive⟩
  | insertUser row =>
    simp only [Write.apply, Option.ite_none_left_eq_some, Option.some.injEq] at h
    obtain ⟨_, rfl⟩ := h
    exact ⟨i, hi, rfl, halive⟩
  | claim imageId userId =>
    cases h
    refine ⟨_, Table.mem_update.mpr ⟨i, hi, rfl⟩, ?_, ?_⟩
    · split <;> rfl
    · split <;> exact halive
  | markDeleted imageId now =>
    cases h
    have hne : ¬ (i.id == imageId) = true := by simpa [Write.kills] using hk
    exact ⟨i, Table.mem_update.mpr ⟨i, hi, if_neg hne⟩, rfl, halive⟩
  | confirm u =>
    cases h
    refine ⟨_, Table.mem_update.mpr ⟨i, hi, rfl⟩, ?_, ?_⟩
    · split <;> rfl
    · split
      · rfl
      · exact halive
  | deleteImages ids =>
    cases h
    exact ⟨i, Table.mem_delete.mpr ⟨hi, by simpa [Write.kills] using hk⟩, rfl, halive⟩

theorem apply_refersTo (h : w.apply db = some db') (hr : refersTo db' x r = true) :
    w.target = some x ∨ (refersTo db x r = true ∧ w.replaces ≠ some r) := by
  cases w with
  | ref w =>
    rcases refWrite_refersTo h hr with ⟨_, ht⟩ | ⟨hne, hr⟩
    · exact .inl ht
    · exact .inr ⟨hr, fun he => hne (Option.some.inj he).symm⟩
  | insertUser row =>
    simp only [Write.apply, Option.ite_none_left_eq_some, Option.some.injEq] at h
    obtain ⟨_, rfl⟩ := h
    cases r with
    | user n =>
      obtain ⟨u, hu, rfl, he⟩ := refersTo_user.mp hr
      rcases List.mem_append.mp hu with hu | hu
      · exact .inr ⟨refersTo_user.mpr ⟨u, hu, rfl, he⟩, nofun⟩
      · cases List.mem_singleton.mp hu
        exact .inl he
    | _ => exact .inr ⟨hr, nofun⟩
  | claim | markDeleted | confirm =>
    cases h
    cases r <;> exact .inr ⟨hr, nofun⟩
  | deleteImages ids =>
    cases h
    refine .inr ⟨?_, nofun⟩
    cases r with
    | image => cases hr
    | user n =>
      obtain ⟨u, hu, rfl, he⟩ := refersTo_user.mp hr
      obtain ⟨v, hv, rfl⟩ := List.mem_map.mp hu
      exact refersTo_user.mpr ⟨v, hv, rfl, (Option.filter_eq_some_iff.mp he).1⟩
    | dog n =>
      obtain ⟨d, hd, rfl, he⟩ := refersTo_dog.mp hr
      obtain ⟨e, hm, rfl⟩ := List.mem_map.mp hd
      exact refersTo_dog.mpr ⟨e, hm, rfl, (Option.filter_eq_some_iff.mp he).1⟩
    | postImage n =>
      obtain ⟨rfl, p, hp, he⟩ := refersTo_postImage.mp hr
      exact refersTo_postImage.mpr ⟨rfl, p, (Table.mem_delete.mp hp).1, he⟩

theorem foldlM_cons_some (h : (w :: ws).foldlM Write.apply db = some db') :
    ∃ db₁, w.apply db = some db₁ ∧ ws.foldlM Write.apply db₁ = some db' := by
  rw [List.foldlM_cons] at h
  exact Option.bind_eq_some_iff.mp h

theorem applyAll_imageKeys (h : ws.foldlM Write.apply db = some db') (p : Uuid × String) :
    p ∈ imageKeys db' ↔ p ∈ imageKeys db ∧ p.1 ∉ ws.flatMap Write.deletes := by
  induction ws generalizing db with
  | nil =>
    cases h
    simp
  | cons w ws ih =>
    obtain ⟨db₁, hw, hws⟩ := foldlM_cons_some h
    rw [ih hws, apply_imageKeys hw, List.flatMap_cons, List.mem_append, not_or, and_assoc]

theorem applyAll_attachable (h : ws.foldlM Write.apply db = some db')
    (ha : attachable db x = true) (hk : ∀ w ∈ ws, x ∉ w.kills) : attachable db' x = true := by
  induction ws generalizing db with
  | nil =>
    cases h
    exact ha
  | cons w ws ih =>
    obtain ⟨db₁, hw, hws⟩ := foldlM_cons_some h
    apply ih hws
    · exact apply_attachable hw ha (hk w List.mem_cons_self)
    · exact fun v hv => hk v (List.mem_cons_of_mem w hv)

theorem applyAll_refersTo (h : ws.foldlM Write.apply db = some db')
    (hr : refersTo db' x r = true) :
    (∃ w ∈ ws, w.target = some x) ∨ (refersTo db x r = true ∧ ∀ w ∈ ws, w.replaces ≠ some r) := by
  induction ws generalizing db with
  | nil =>
    cases h
    exact .inr ⟨hr, nofun⟩
  | cons w ws ih =>
    obtain ⟨db₁, hw, hws⟩ := foldlM_cons_some h
    rcases ih hws with ⟨v, hv, ht⟩ | ⟨hr, hrest⟩
    · exact .inl ⟨v, List.mem_cons_of_mem w hv, ht⟩
    · rcases apply_refersTo hw hr with ht | ⟨hr, hne⟩
      · exact .inl ⟨w, List.mem_cons_self, ht⟩
      · exact .inr ⟨hr, List.forall_mem_cons.mpr ⟨hne, hrest⟩⟩

end Writes

@[simp] theorem State.setTx_self (s : State) (i : Nat) (tx : Tx) : (s.setTx i tx).txs i = tx := by
  simp [State.setTx]

theorem State.setTx_of_ne (s : State) (tx : Tx) (h : j ≠ i) : (s.setTx i tx).txs j = s.txs j := by
  simp [State.setTx, h]

def State.Owns (s : State) (i : Nat) (x : Uuid) : Prop := s.locks.AtLeast i (.image x) .update

def State.update (s : State) (i : Nat) (locks : LockTable Nat RowId) (tokens : KeyValue Uuid)
    (tx : Tx) : State :=
  { s with locks := locks, tokens := tokens }.setTx i tx

theorem mem_cleanupPage {s : State} (h : img ∈ cleanupPage c s i kind afterId) :
    img ∈ s.db.images ∧ cleanupCondition c s.db s.now kind img = true ∧
      s.locks.available i .update (.image img.id) = true := by
  have hm := List.mem_of_mem_take h
  rw [List.mem_insertionSort] at hm
  have hp := List.mem_filter.mp (List.mem_filter.mp hm).1
  exact ⟨hp.1, Bool.and_eq_true_iff.mp hp.2⟩

inductive Opens : Phase → Prop where
  | attach : Opens (.attach [])
  | markDeleted : Opens (.markDeleted imageId userId now)
  | insertUser : Opens (.insertUser row)
  | getToken : Opens (.getToken userId data token)

inductive Advances : Phase → Phase → Prop where
  | validate : Advances (.attach granted) (.validate granted wanted)
  | write {w : RefWrite} (h : w.imageId.all granted.contains = true) :
      Advances (.attach granted) (.write granted w)
  | dropToken : Advances (.getToken userId data token) (.dropToken userId data token imageId)
  | insertUser : Advances (.dropToken userId data token imageId) (.insertUser row)
  | confirm : Advances (.block u) (.confirm u)

inductive Finishes (locked : List RowId) : Phase → Phase → List Write → Prop where
  | validate (hl : ∀ x ∈ wanted, .image x ∈ locked) :
      Finishes locked (.validate granted wanted) (.attach (granted ++ wanted)) []
  | skip : Finishes locked (.write granted w) (.attach granted) []
  | write : Finishes locked (.write granted w) (.attach granted) [.ref w]
  | markDeleted (hl : .image x ∈ locked) :
      Finishes locked (.markDeleted x userId now) (.detach x) [.markDeleted x now]
  | detach :
      Finishes locked (.detach x) .ready ((locked.filterMap RefWrite.detach).map .ref)
  | insertPlain (hrow : row.profileImageId = none) :
      Finishes locked (.insertUser row) .ready [.insertUser row]
  | insertUser (hrow : row.profileImageId = some x) :
      Finishes locked (.insertUser row) (.claim x row.id) [.insertUser row]
  | claim (hl : .image x ∈ locked) : Finishes locked (.claim x userId) .ready [.claim x userId]
  | lockReserved (hl : .image u.imageId ∈ locked) :
      Finishes locked (.lockReserved u) (.promote u) []
  | confirm : Finishes locked (.confirm u) (.confirmed u) [.confirm u]
  | sweep : Finishes locked (.sweep rest swept) .ready
      [.deleteImages (swept.filter fun x => locked.contains (.image x))]

theorem next_finishes {ph : Phase} (h : ph.next locked = some (ph', ws)) :
    Finishes locked ph ph' ws := by
  cases ph with
  | validate granted wanted =>
    simp only [Phase.next, Option.ite_none_right_eq_some, List.all_eq_true, List.contains_iff_mem] at h
    obtain ⟨hl, he⟩ := h
    cases he
    exact .validate hl
  | write granted w =>
    simp only [Phase.next] at h
    split at h
    · cases h
      exact .skip
    · obtain ⟨_, he⟩ := Option.ite_none_right_eq_some.mp h
      cases he
      exact .write
  | markDeleted x userId now =>
    obtain ⟨hl, he⟩ := Option.ite_none_right_eq_some.mp h
    cases he
    exact .markDeleted (List.contains_iff_mem.mp hl)
  | detach x =>
    cases h
    exact .detach
  | insertUser row =>
    simp only [Phase.next] at h
    split at h
    · rename_i hrow
      cases h
      exact .insertPlain hrow
    · rename_i x hrow
      obtain ⟨_, he⟩ := Option.ite_none_right_eq_some.mp h
      cases he
      exact .insertUser hrow
  | claim x userId =>
    obtain ⟨hl, he⟩ := Option.ite_none_right_eq_some.mp h
    cases he
    exact .claim (List.contains_iff_mem.mp hl)
  | lockReserved u =>
    obtain ⟨hl, he⟩ := Option.ite_none_right_eq_some.mp h
    cases he
    exact .lockReserved (List.contains_iff_mem.mp hl)
  | confirm u =>
    obtain ⟨_, he⟩ := Option.ite_none_right_eq_some.mp h
    cases he
    exact .confirm
  | sweep rest swept =>
    cases h
    exact .sweep
  | _ => cases h

inductive Effect (c : Settings) (s : State) (a : Label) : State → Prop where
  | environment (now : Timestamp) (tokens : KeyValue Uuid) :
      Effect c s a { s with now := now, tokens := tokens }
  | opens (hidle : (s.txs i).phase = .idle) (hopen : Opens ph) : Effect c s a (s.setTx i ⟨ph, none, []⟩)
  | advances (tokens : KeyValue Uuid) (hph : Advances (s.txs i).phase ph) :
      Effect c s a ({ s with tokens := tokens }.setPhase i ph)
  | reserves (hidle : (s.txs i).phase = .idle)
      (hnew : ∀ p ∈ s.issued, p.1 ≠ u.imageId ∧ p.2 ≠ u.destKey) :
      Effect c s a ((s.reserve u).setTx i ⟨.lockReserved u, none, []⟩)
  | promotes (hph : (s.txs i).phase = .promote u) :
      Effect c s a ({ s with objects := u.destKey :: s.objects }.setPhase i (.block u))
  | rolls (i : Nat) (tokens : KeyValue Uuid) (objects : List String)
      (hobj : objects = s.objects ∨
        ∃ u, (s.txs i).phase = .promote u ∧ objects = u.destKey :: s.objects) :
      Effect c s a ({ s with tokens := tokens, objects := objects }.rollback i)
  | selects (hidle : (s.txs i).phase = .idle) (ha : a = .selectPage i kind afterId) :
      Effect c s a ((s.lockPage i (cleanupPage c s i kind afterId)).setTx i
        ⟨.sweep (cleanupPage c s i kind afterId) [], none, []⟩)
  | deletesObject (hph : (s.txs i).phase = .sweep (img :: rest) swept) (r : StorageReply) :
      Effect c s a ((s.deleteObject i img r).setPhase i
        (.sweep rest (if r = .deleted then img.id :: swept else swept)))
  | starts (hst : (s.txs i).phase.isStatement = true) :
      Effect c s a ({ s with locks := (s.locks.start i (s.txs i).phase.mode
        ((s.txs i).phase.targets s.db)).2 }.setTx i { s.txs i with
          scan := some (s.locks.start i (s.txs i).phase.mode ((s.txs i).phase.targets s.db)).1 })
  | resumes (hsc : (s.txs i).scan = some sc)
      (hr : LockTable.Resumed s.locks i (s.txs i).phase.mode ((s.txs i).phase.selects s.db) sc r sc'
        locks) :
      Effect c s a ({ s with locks := locks }.setTx i { s.txs i with scan := some sc' })
  | finishes (hsc : (s.txs i).scan = some sc) (hw : sc.waiting = [])
      (hf : Finishes sc.locked (s.txs i).phase ph ws) :
      Effect c s a (s.setTx i ⟨ph, none, (s.txs i).writes ++ ws⟩)
  | commits (hc : (s.txs i).phase.commits = true)
      (hdb : (s.txs i).writes.foldlM Write.apply s.db = some db) :
      Effect c s a (s.committed i db)

theorem enter_some {s : State} {ph : Phase} (h : s.enter i ph = some s') :
    (s.txs i).phase = .idle ∧ s' = s.setTx i ⟨ph, none, []⟩ := by
  unfold State.enter at h
  split at h
  · rename_i hidle
    cases h
    exact ⟨hidle, rfl⟩
  · cases h

theorem step_effect {s : State} (h : step c s a = some s') : Effect c s a s' := by
  cases a with
  | tick d =>
    cases h
    exact .environment _ _
  | tokenExpired token =>
    cases h
    exact .environment _ _
  | attach i =>
    obtain ⟨hidle, rfl⟩ := enter_some h
    exact .opens hidle .attach
  | assertImagesAttachable i ids =>
    simp only [step, assertImagesAttachable] at h
    split at h
    · rename_i hph
      split at h
      · rw [← Option.some.inj h]
        exact .environment s.now s.tokens
      · cases h
        exact .advances s.tokens (hph ▸ .validate)
    · cases h
  | writeReference i w =>
    simp only [step, writeReference] at h
    split at h
    · rename_i hph
      split at h
      · rename_i hall
        cases h
        exact .advances s.tokens (hph ▸ .write hall)
      · cases h
    · cases h
  | deleteImage i imageId userId =>
    obtain ⟨hidle, rfl⟩ := enter_some h
    exact .opens hidle .markDeleted
  | signup i userId data =>
    simp only [step, signup] at h
    split at h
    · cases h
    · split at h
      · obtain ⟨hidle, rfl⟩ := enter_some h
        exact .opens hidle .insertUser
      · obtain ⟨hidle, rfl⟩ := enter_some h
        exact .opens hidle .getToken
  | verifyUploadToken i =>
    simp only [step, verifyUploadToken] at h
    split at h
    · rename_i hph
      split at h
      · cases h
        exact .rolls i s.tokens s.objects (.inl rfl)
      · cases h
        exact .advances s.tokens (hph ▸ .dropToken)
    · rename_i hph
      split at h
      · cases h
        exact .rolls i _ s.objects (.inl rfl)
      · cases h
        exact .advances _ (hph ▸ .insertUser)
    · cases h
  | upload i u =>
    simp only [step, upload] at h
    split at h
    · cases h
    · rename_i hnew
      obtain ⟨hidle, rfl⟩ := enter_some h
      refine .reserves hidle ?_
      intro p hp
      simp only [Bool.or_eq_true, not_or, List.any_eq_true, not_exists, not_and] at hnew
      simpa using hnew.1 p hp
  | promote i r =>
    simp only [step, promote] at h
    split at h
    · rename_i u hph
      split at h
      · cases h
        refine .rolls i s.tokens _ ?_
        split
        · exact .inr ⟨u, hph, rfl⟩
        · exact .inl rfl
      · rename_i hok
        have hr : r = .ok := by simpa [Reply.failed] using hok
        cases h
        subst hr
        exact .promotes hph
    · cases h
  | runBlock i =>
    simp only [step, runBlock] at h
    split at h
    · rename_i hph
      cases h
      exact .advances _ (hph ▸ .confirm)
    · cases h
  | selectPage i kind afterId =>
    obtain ⟨hidle, rfl⟩ := enter_some h
    exact .selects hidle rfl
  | storageDelete i r =>
    simp only [step, storageDelete] at h
    split at h
    · rename_i hph
      cases h
      exact .deletesObject hph r
    · cases h
  | start i =>
    simp only [step, start] at h
    split at h
    · rename_i hst
      cases h
      exact .starts hst.1
    · cases h
  | resume i r =>
    simp only [step, resume] at h
    split at h
    · cases h
    · rename_i sc hsc
      obtain ⟨⟨sc', locks⟩, hr, rfl⟩ := Option.map_eq_some_iff.mp h
      exact .resumes hsc (LockTable.resume_some hr)
  | finish i =>
    simp only [step, finish] at h
    split at h
    · cases h
    · rename_i sc hsc
      split at h
      · rename_i hw
        split at h
        · cases h
          exact .rolls i s.tokens s.objects (.inl rfl)
        · rename_i hn
          cases h
          exact .finishes hsc hw (next_finishes hn)
      · cases h
  | commit i =>
    simp only [step, commit] at h
    split at h
    · rename_i hc
      obtain ⟨db, hdb, rfl⟩ := Option.map_eq_some_iff.mp h
      exact .commits hc hdb
    · cases h
  | rollback i =>
    simp only [step] at h
    split at h
    · cases h
    · cases h
      exact .rolls i s.tokens s.objects (.inl rfl)

end PuppyTalk.MediaTx
