import PuppyTalk.ImageCleanup
import PuppyTalk.MediaTransactions
import PuppyTalk.Paging

namespace PuppyTalk.CleanupLoop

open ImageLifecycle (CleanupKind Settings)
open Paging (Reads beyond orderBy)
open Table (Keyed)

variable {ε : Type}

/-- What one batch meets: what others have committed since the batch before, the clock, the rows
that others hold, and how `storage_delete` ends for the file of a row. -/
structure Turn (ε : Type) where
  others : Db → Db
  now : Timestamp
  locked : Uuid → Bool
  storageDelete : Image → Except ε Unit

def Turn.attempts (t : Turn ε) (rows : List Image) : List (Image × Except ε Unit) :=
  rows.map fun i => (i, t.storageDelete i)

/-- The loop between two batches. `fetched` and `deleted` only record what happened: the rows that
were fetched with the answer of the storage, and the rows that left the table. -/
structure Loop (ε : Type) where
  db : Db
  lastId : Option Uuid
  totalDeleted : Nat
  failed : List (Image × ε)
  ended : Bool
  fetched : List (Image × Except ε Unit)
  deleted : List Image

/-- The inner loop: the ids that `deletable_ids` collects and the calls of `on_delete_failed`. -/
def deleteObjects (storageDelete : Image → Except ε Unit) :
    List Image → List Uuid × List (Image × ε)
  | [] => ([], [])
  | img :: rows =>
    let (deletableIds, failed) := deleteObjects storageDelete rows
    match storageDelete img with
    | .ok () => (img.id :: deletableIds, failed)
    | .error e => (deletableIds, (img, e) :: failed)

/-- `delete_images_by_ids` with the rows that the `RETURNING` clause names. -/
def deleteReturning (db : Db) (imageIds : List Uuid) : List Image × Db :=
  if imageIds.isEmpty then ([], db)
  else (db.images.filter fun i => imageIds.contains i.id,
    MediaRepository.deleteImagesByIds db imageIds)

section

variable (cond : Db → Timestamp → Image → Bool) (batchSize : Nat)

def matching (t : Turn ε) (db : Db) : List Image :=
  (t.others db).images.filter (cond (t.others db) t.now)

/-- `_cleanup_page`: `SKIP LOCKED` passes over a row before `LIMIT` counts it. -/
def page (t : Turn ε) (s : Loop ε) : List Image :=
  MediaRepository.cleanupPage ((matching cond t s.db).filter fun i => !t.locked i.id) s.lastId
    batchSize

def batch (t : Turn ε) (s : Loop ε) : Loop ε :=
  if s.ended then s
  else
    let db := t.others s.db
    let rows := page cond batchSize t s
    match rows.getLast? with
    | none => { s with db := db, ended := true }
    | some last =>
      let (deletableIds, failed) := deleteObjects t.storageDelete rows
      let (gone, db) := deleteReturning db deletableIds
      { db := db
        lastId := some last.id
        totalDeleted := s.totalDeleted + gone.length
        failed := s.failed ++ failed
        ended := decide (rows.length < batchSize)
        fetched := s.fetched ++ t.attempts rows
        deleted := s.deleted ++ gone }

def after (turns : Nat → Turn ε) (db : Db) : Nat → Loop ε
  | 0 => ⟨db, none, 0, [], false, [], []⟩
  | n + 1 => batch cond batchSize (turns n) (after turns db n)

/-- `_keyset_cleanup`: the number it returns once it has ended. -/
def keysetCleanup (turns : Nat → Turn ε) (db : Db) (batches : Nat) : Option Nat :=
  let s := after cond batchSize turns db batches
  if s.ended then some s.totalDeleted else none

end

def succeeded (fetched : List (Image × Except ε Unit)) : List Image :=
  fetched.filterMap fun f => match f.2 with
    | .ok () => some f.1
    | .error _ => none

def failures (fetched : List (Image × Except ε Unit)) : List (Image × ε) :=
  fetched.filterMap fun f => match f.2 with
    | .ok () => none
    | .error e => some (f.1, e)

@[simp] theorem succeeded_append (fs gs : List (Image × Except ε Unit)) :
    succeeded (fs ++ gs) = succeeded fs ++ succeeded gs := List.filterMap_append

@[simp] theorem failures_append (fs gs : List (Image × Except ε Unit)) :
    failures (fs ++ gs) = failures fs ++ failures gs := List.filterMap_append

theorem mem_succeeded {fetched : List (Image × Except ε Unit)} :
    img ∈ succeeded fetched ↔ (img, .ok ()) ∈ fetched := by
  simp only [succeeded, List.mem_filterMap]
  constructor
  · rintro ⟨⟨i, r⟩, hmem, h⟩
    cases r with
    | error e => cases h
    | ok u =>
      cases h
      exact hmem
  · intro hmem
    exact ⟨_, hmem, rfl⟩

theorem succeeded_sublist (fetched : List (Image × Except ε Unit)) :
    (succeeded fetched).Sublist (fetched.map (·.1)) := by
  induction fetched with
  | nil => exact .slnil
  | cons f fetched ih =>
    obtain ⟨i, r⟩ := f
    cases r with
    | ok u => exact ih.cons_cons i
    | error e => exact ih.cons i

@[simp] theorem Turn.attempts_fst (t : Turn ε) (rows : List Image) :
    (t.attempts rows).map (·.1) = rows := by
  rw [Turn.attempts, List.map_map]
  exact List.map_id rows

theorem Turn.mem_attempts {t : Turn ε} {rows : List Image} :
    (img, r) ∈ t.attempts rows ↔ img ∈ rows ∧ t.storageDelete img = r := by
  simp [Turn.attempts]

theorem deleteObjects_eq (t : Turn ε) (rows : List Image) :
    deleteObjects t.storageDelete rows =
      ((succeeded (t.attempts rows)).map (·.id), failures (t.attempts rows)) := by
  induction rows with
  | nil => rfl
  | cons img rows ih =>
    rw [deleteObjects, ih]
    cases h : t.storageDelete img with
    | ok u => simp [Turn.attempts, succeeded, failures, h]
    | error e => simp [Turn.attempts, succeeded, failures, h]

theorem deleteReturning_fst (db : Db) (ids : List Uuid) :
    (deleteReturning db ids).1 = db.images.filter fun i => ids.contains i.id := by
  cases ids with
  | nil => simp [deleteReturning]
  | cons => rfl

theorem deleteReturning_images (db : Db) (ids : List Uuid) :
    (deleteReturning db ids).2.images = db.images.filter fun i => !ids.contains i.id := by
  cases ids with
  | nil => simp [deleteReturning]
  | cons => rfl

def pageMore (limit : Nat) (rows : List Image) (afterId : Option Uuid) :
    Option (List Image × Bool) :=
  some (MediaRepository.cleanupPage rows afterId limit,
    decide (limit < (beyond (· < ·) Image.id afterId rows).length))

theorem cleanupPage_eq (rows : List Image) (afterId : Option Uuid) (limit : Nat) :
    MediaRepository.cleanupPage rows afterId limit =
      (orderBy (· < ·) Image.id (beyond (· < ·) Image.id afterId rows)).take limit := by
  simp only [MediaRepository.cleanupPage, orderBy, beyond, not_lt]

theorem reads_pageMore (limit : Nat) :
    Reads (· < ·) Image.id limit id id (fun i => some i.id) (pageMore limit) where
  items rows c items hasMore h := by
    cases h
    exact cleanupPage_eq rows c limit
  hasMore rows c items hasMore h := by
    cases h
    rfl
  bound rows i hi := rfl

structure IsPage (rows : List Image) (afterId : Option Uuid) (limit : Nat)
    (items : List Image) : Prop where
  sorted : items.Pairwise fun a b => a.id < b.id
  mem : ∀ a ∈ items, a ∈ rows ∧ ∀ k ∈ afterId, k < a.id
  rest : ∀ a ∈ rows, (∀ k ∈ afterId, k < a.id) → a ∉ items →
    (∀ b ∈ items, b.id < a.id) ∧ limit ≤ items.length
  last : ∀ b, items.getLast? = some b → ∀ a ∈ items, a.id ≤ b.id

theorem isPage_cleanupPage (h : Keyed Image.id rows) (afterId : Option Uuid) (limit : Nat) :
    IsPage rows afterId limit (MediaRepository.cleanupPage rows afterId limit) := by
  have hr := reads_pageMore limit
  have hp : pageMore limit rows afterId = some (MediaRepository.cleanupPage rows afterId limit, _) :=
    rfl
  apply IsPage.mk
  · exact (List.pairwise_append.mp (hr.pairwise hp h)).1
  · intro a ha
    exact hr.mem_items hp ha
  · intro a ha hk hn
    obtain ⟨hlt, hmore⟩ := hr.lt_of_not_mem hp h ha hk hn
    have hsize := hr.size_lt hp hmore
    apply And.intro hlt
    rw [cleanupPage_eq, List.length_take, Paging.length_orderBy]
    exact le_min le_rfl hsize.le
  · intro b hb a ha
    rcases hr.le_last hp h hb ha with rfl | hlt
    · exact le_rfl
    · exact hlt.le

section Step

variable {cond : Db → Timestamp → Image → Bool} {batchSize : Nat} {t : Turn ε} {s : Loop ε}

structure Step (batchSize : Nat) (t : Turn ε) (rows : List Image) (s s' : Loop ε) : Prop where
  fetched : s'.fetched = s.fetched ++ t.attempts rows
  failed : s'.failed = s.failed ++ failures (t.attempts rows)
  lastId : s'.lastId = (rows.getLast?.map (·.id)).or s.lastId
  ended : s'.ended = decide (rows.length < batchSize)
  account : ∃ gone, gone.Perm (succeeded (t.attempts rows)) ∧
    s'.deleted = s.deleted ++ gone ∧ s'.totalDeleted = s.totalDeleted + gone.length ∧
    s'.db.images = (t.others s.db).images.filter (· ∉ gone)

theorem keyed_matching (h : Keyed Image.id (t.others s.db).images) :
    Keyed Image.id ((matching cond t s.db).filter fun i => !t.locked i.id) :=
  h.sublist ((List.filter_sublist.trans List.filter_sublist).map _)

theorem mem_unlocked : img ∈ (matching cond t s.db).filter (fun i => !t.locked i.id) ↔
    img ∈ matching cond t s.db ∧ t.locked img.id = false := by
  simp

theorem isPage_page (h : Keyed Image.id (t.others s.db).images) :
    IsPage ((matching cond t s.db).filter fun i => !t.locked i.id) s.lastId batchSize
      (page cond batchSize t s) :=
  isPage_cleanupPage (keyed_matching h) _ _

theorem id_mem_iff {db : Db} {rows : List Image} (h : Keyed Image.id db.images)
    (hrows : ∀ i ∈ rows, i ∈ db.images) (hmem : img ∈ db.images) :
    img.id ∈ rows.map (·.id) ↔ img ∈ rows := by
  constructor
  · intro hid
    obtain ⟨i, hi, he⟩ := List.mem_map.mp hid
    rwa [← h.eq (hrows i hi) hmem he]
  · exact List.mem_map_of_mem

theorem deleteReturning_perm {rows : List Image} (h : Keyed Image.id db.images)
    (hrows : ∀ i ∈ rows, i ∈ db.images) (hnodup : rows.Nodup) :
    (deleteReturning db (rows.map (·.id))).1.Perm rows := by
  rw [deleteReturning_fst, List.perm_ext_iff_of_nodup (h.nodup.filter _) hnodup]
  intro img
  rw [List.mem_filter, List.contains_iff_mem]
  constructor
  · rintro ⟨hmem, hid⟩
    exact (id_mem_iff h hrows hmem).mp hid
  · intro hmem
    exact ⟨hrows img hmem, List.mem_map_of_mem hmem⟩

theorem deleteReturning_rest {rows : List Image} (h : Keyed Image.id db.images)
    (hrows : ∀ i ∈ rows, i ∈ db.images) :
    (deleteReturning db (rows.map (·.id))).2.images = db.images.filter (· ∉ rows) := by
  rw [deleteReturning_images]
  apply List.filter_congr
  intro img hmem
  simp only [List.contains_eq_mem, id_mem_iff h hrows hmem, decide_not]

theorem step_batch (hsize : 1 ≤ batchSize) (hs : s.ended = false)
    (h : Keyed Image.id (t.others s.db).images) :
    Step batchSize t (page cond batchSize t s) s (batch cond batchSize t s) := by
  have hpage : IsPage _ _ _ (page cond batchSize t s) := isPage_page h
  cases hl : (page cond batchSize t s).getLast? with
  | none =>
    have hnil := List.getLast?_eq_none_iff.mp hl
    simp only [batch, hs, hl, Bool.false_eq_true, if_false]
    rw [hnil]
    refine ⟨?_, ?_, rfl, ?_, [], .nil, ?_, rfl, ?_⟩
    · exact (List.append_nil _).symm
    · exact (List.append_nil _).symm
    · exact (decide_eq_true hsize).symm
    · exact (List.append_nil _).symm
    · simp
  | some last =>
    -- The rows whose object is gone are rows of the page, hence of the table.
    have hsub : (succeeded (t.attempts (page cond batchSize t s))).Sublist
        (page cond batchSize t s) := by
      simpa only [Turn.attempts_fst] using succeeded_sublist (t.attempts (page cond batchSize t s))
    have hrows : ∀ i ∈ succeeded (t.attempts (page cond batchSize t s)),
        i ∈ (t.others s.db).images := by
      intro i hi
      exact (List.mem_filter.mp (mem_unlocked.mp (hpage.mem i (hsub.mem hi)).1).1).1
    have hnodup : (page cond batchSize t s).Nodup :=
      hpage.sorted.imp fun hlt he => hlt.ne (congrArg Image.id he)
    have hperm := deleteReturning_perm h hrows (hnodup.sublist hsub)
    simp only [batch, hs, hl, deleteObjects_eq, Bool.false_eq_true, if_false]
    refine ⟨rfl, rfl, ?_, rfl, _, hperm, rfl, rfl, ?_⟩
    · rw [hl]
      rfl
    · simp only [deleteReturning_rest h hrows, hperm.mem_iff]

end Step

section Run

variable {cond : Db → Timestamp → Image → Bool} {batchSize : Nat} {turns : Nat → Turn ε} {db : Db}

def matchingAt (cond : Db → Timestamp → Image → Bool) (batchSize : Nat) (turns : Nat → Turn ε)
    (db : Db) (k : Nat) : List Image :=
  matching cond (turns k) (after cond batchSize turns db k).db

/-- The table keeps its primary key, and from one batch to the next no new row matches. -/
structure Quiet (cond : Db → Timestamp → Image → Bool) (batchSize : Nat) (turns : Nat → Turn ε)
    (db : Db) : Prop where
  keyed : ∀ k, Keyed Image.id ((turns k).others (after cond batchSize turns db k).db).images
  noNew : ∀ k, (after cond batchSize turns db (k + 1)).ended = false →
    ∀ img ∈ matchingAt cond batchSize turns db (k + 1),
      ∃ i ∈ matchingAt cond batchSize turns db k, i.id = img.id

def Loop.fetchedIds (s : Loop ε) : List Uuid := s.fetched.map (·.1.id)

structure Accounts (s : Loop ε) : Prop where
  sorted : s.fetchedIds.Pairwise (· < ·)
  upTo : ∀ x ∈ s.fetchedIds, ∃ last ∈ s.lastId, x ≤ last
  deleted : s.deleted.Perm (succeeded s.fetched)
  failed : s.failed = failures s.fetched
  total : s.totalDeleted = s.deleted.length

theorem Step.fetchedIds {t : Turn ε} {rows : List Image} {s s' : Loop ε}
    (h : Step batchSize t rows s s') : s'.fetchedIds = s.fetchedIds ++ rows.map (·.id) := by
  rw [Loop.fetchedIds, h.fetched, List.map_append]
  simp [Loop.fetchedIds, Turn.attempts]

theorem Step.le_lastId {t : Turn ε} {rows all : List Image} {s s' : Loop ε}
    (h : Step batchSize t rows s s') (hp : IsPage all s.lastId batchSize rows)
    (hu : ∀ x ∈ s.fetchedIds, ∃ last ∈ s.lastId, x ≤ last) :
    ∀ x ∈ s'.fetchedIds, ∃ last ∈ s'.lastId, x ≤ last := by
  intro x hx
  rw [h.fetchedIds, List.mem_append] at hx
  rw [h.lastId]
  cases hl : rows.getLast? with
  | none =>
    rw [List.getLast?_eq_none_iff.mp hl] at hx
    exact hu x (hx.resolve_right List.not_mem_nil)
  | some last =>
    refine ⟨last.id, rfl, ?_⟩
    rcases hx with hx | hx
    · obtain ⟨k, hk, hle⟩ := hu x hx
      exact hle.trans ((hp.mem last (List.mem_of_getLast? hl)).2 k hk).le
    · obtain ⟨i, hi, rfl⟩ := List.mem_map.mp hx
      exact hp.last last hl i hi

theorem Accounts.step {t : Turn ε} {rows all : List Image} {s s' : Loop ε} (ha : Accounts s)
    (h : Step batchSize t rows s s') (hp : IsPage all s.lastId batchSize rows) : Accounts s' := by
  obtain ⟨gone, hperm, hdel, htot, -⟩ := h.account
  apply Accounts.mk
  · rw [h.fetchedIds, List.pairwise_append]
    refine ⟨ha.sorted, List.pairwise_map.mpr hp.sorted, ?_⟩
    intro x hx y hy
    obtain ⟨i, hi, rfl⟩ := List.mem_map.mp hy
    obtain ⟨k, hk, hle⟩ := ha.upTo x hx
    exact hle.trans_lt ((hp.mem i hi).2 k hk)
  · exact h.le_lastId hp ha.upTo
  · rw [hdel, h.fetched, succeeded_append]
    exact ha.deleted.append hperm
  · rw [h.failed, ha.failed, h.fetched, failures_append]
  · rw [htot, hdel, ha.total, List.length_append]

theorem batch_ended {t : Turn ε} {s : Loop ε} (h : s.ended = true) :
    batch cond batchSize t s = s := by
  rw [batch, if_pos h]

theorem accounts_zero : Accounts (after cond batchSize turns db 0) :=
  ⟨.nil, fun _ => nofun, .nil, rfl, rfl⟩

theorem running_of_succ (h : (after cond batchSize turns db (k + 1)).ended = false) :
    (after cond batchSize turns db k).ended = false := by
  by_contra hk
  rw [Bool.not_eq_false] at hk
  rw [after, batch_ended hk, hk] at h
  cases h

section

variable (hsize : 1 ≤ batchSize) (hq : Quiet cond batchSize turns db)

include hq in
theorem Quiet.isPage (k : Nat) :
    IsPage ((matchingAt cond batchSize turns db k).filter fun i => !(turns k).locked i.id)
      (after cond batchSize turns db k).lastId batchSize
      (page cond batchSize (turns k) (after cond batchSize turns db k)) :=
  isPage_page (hq.keyed k)

include hsize hq

theorem Quiet.step (hk : (after cond batchSize turns db k).ended = false) :
    Step batchSize (turns k) (page cond batchSize (turns k) (after cond batchSize turns db k))
      (after cond batchSize turns db k) (after cond batchSize turns db (k + 1)) :=
  step_batch hsize hk (hq.keyed k)

theorem Quiet.induction {P : Nat → Loop ε → Prop} (h₀ : P 0 (after cond batchSize turns db 0))
    (hstep : ∀ k s', Step batchSize (turns k)
      (page cond batchSize (turns k) (after cond batchSize turns db k))
      (after cond batchSize turns db k) s' → P k (after cond batchSize turns db k) →
      (after cond batchSize turns db k).ended = false → P (k + 1) s')
    (hmono : ∀ k s, s.ended = true → P k s → P (k + 1) s) (n : Nat) :
    P n (after cond batchSize turns db n) := by
  induction n with
  | zero => exact h₀
  | succ k ih =>
    cases hk : (after cond batchSize turns db k).ended with
    | false => exact hstep k _ (hq.step hsize hk) ih hk
    | true =>
      rw [after, batch_ended hk]
      exact hmono k _ hk ih

theorem Quiet.accounts (n : Nat) : Accounts (after cond batchSize turns db n) :=
  hq.induction hsize (P := fun _ => Accounts) accounts_zero
    (fun k _ h ha _ => ha.step h (hq.isPage k)) (fun _ _ _ ha => ha) n

omit hsize in
theorem Quiet.matching_start : ∀ k, (after cond batchSize turns db k).ended = false →
    ∀ img ∈ matchingAt cond batchSize turns db k,
      img.id ∈ (matchingAt cond batchSize turns db 0).map (·.id) := by
  intro k
  induction k with
  | zero =>
    intro _ img hmem
    exact List.mem_map_of_mem hmem
  | succ k ih =>
    intro hk img hmem
    obtain ⟨i, hi, hid⟩ := hq.noNew k hk img hmem
    rw [← hid]
    exact ih (running_of_succ hk) i hi

theorem Quiet.fetched_start (n : Nat) : (after cond batchSize turns db n).fetchedIds ⊆
    (matchingAt cond batchSize turns db 0).map (·.id) := by
  refine hq.induction hsize
    (P := fun _ s => s.fetchedIds ⊆ (matchingAt cond batchSize turns db 0).map (·.id))
    (List.nil_subset _) ?_ ?_ n
  · intro k s' h ih hk
    rw [h.fetchedIds]
    refine List.append_subset.mpr ⟨ih, fun x hx => ?_⟩
    obtain ⟨i, hi, rfl⟩ := List.mem_map.mp hx
    exact hq.matching_start k hk i (mem_unlocked.mp ((hq.isPage k).mem i hi).1).1
  · intro _ _ _ ih
    exact ih

theorem Quiet.full (n : Nat) : (after cond batchSize turns db n).ended = false →
    n * batchSize ≤ (after cond batchSize turns db n).fetchedIds.length := by
  refine hq.induction hsize (P := fun n s => s.ended = false → n * batchSize ≤ s.fetchedIds.length)
    (fun _ => by simp) ?_ ?_ n
  · intro k s' h ih hk hs'
    have hrows := h.ended
    rw [hs', eq_comm, decide_eq_false_iff_not, not_lt] at hrows
    rw [h.fetchedIds, List.length_append, List.length_map, Nat.succ_mul]
    exact Nat.add_le_add (ih hk) hrows
  · intro k s hs _ hr
    rw [hs] at hr
    cases hr

theorem Quiet.running_le (h : (after cond batchSize turns db n).ended = false) :
    n * batchSize ≤ (matchingAt cond batchSize turns db 0).length := by
  have hnodup : (after cond batchSize turns db n).fetchedIds.Nodup :=
    (hq.accounts hsize n).sorted.imp fun hlt => hlt.ne
  calc n * batchSize ≤ (after cond batchSize turns db n).fetchedIds.length := hq.full hsize n h
    _ ≤ ((matchingAt cond batchSize turns db 0).map (·.id)).length :=
      (List.subperm_of_subset hnodup (hq.fetched_start hsize n)).length_le
    _ = _ := List.length_map _

theorem Quiet.ends : ∃ n, (after cond batchSize turns db n).ended = true ∧
    ∀ k < n, (after cond batchSize turns db k).ended = false := by
  have hex : ∃ n, (after cond batchSize turns db n).ended = true := by
    by_contra hn
    push Not at hn
    have hrun := hq.running_le hsize (n := (matchingAt cond batchSize turns db 0).length + 1)
      (Bool.not_eq_true _ ▸ hn _)
    have := Nat.le_mul_of_pos_right ((matchingAt cond batchSize turns db 0).length + 1) hsize
    omega
  refine ⟨Nat.find hex, Nat.find_spec hex, fun k hk => ?_⟩
  exact Bool.not_eq_true _ ▸ Nat.find_min hex hk

theorem Quiet.passed {x : Uuid} (n : Nat)
    (hx : ∀ k < n, x ∈ (after cond batchSize turns db k).fetchedIds ∨
      ∃ img ∈ matchingAt cond batchSize turns db k, img.id = x ∧ (turns k).locked x = false) :
    x ∈ (after cond batchSize turns db n).fetchedIds ∨
      (after cond batchSize turns db n).ended = false ∧
        ∀ last ∈ (after cond batchSize turns db n).lastId, last < x := by
  induction n with
  | zero => exact .inr ⟨rfl, fun _ h => nomatch h⟩
  | succ k ih =>
    rcases ih fun j hj => hx j (hj.trans k.lt_succ_self) with hmem | ⟨hk, hlast⟩
    · left
      cases hk : (after cond batchSize turns db k).ended with
      | true =>
        rw [after, batch_ended hk]
        exact hmem
      | false =>
        rw [(hq.step hsize hk).fetchedIds]
        exact List.mem_append_left _ hmem
    · have hstep := hq.step hsize hk
      rw [hstep.fetchedIds, List.mem_append]
      rcases hx k k.lt_succ_self with hmem | ⟨img, hmatch, rfl, hlock⟩
      · exact .inl (.inl hmem)
      · by_cases hpage : img ∈ page cond batchSize (turns k) (after cond batchSize turns db k)
        · exact .inl (.inr (List.mem_map_of_mem hpage))
        · -- The row is not on the page, so the page is full and ends before it.
          obtain ⟨hlt, hfull⟩ :=
            (hq.isPage k).rest img (mem_unlocked.mpr ⟨hmatch, hlock⟩) hlast hpage
          refine .inr ⟨?_, ?_⟩
          · rw [hstep.ended, decide_eq_false_iff_not, not_lt]
            exact hfull
          · intro last hl
            rw [hstep.lastId] at hl
            cases hb : (page cond batchSize (turns k) (after cond batchSize turns db k)).getLast? with
            | none =>
              rw [hb] at hl
              exact hlast last hl
            | some b =>
              rw [hb] at hl
              cases hl
              exact hlt b (List.mem_of_getLast? hb)

theorem Quiet.complete {x : Uuid} (hn : (after cond batchSize turns db n).ended = true)
    (hx : ∀ k < n, x ∈ (after cond batchSize turns db k).fetchedIds ∨
      ∃ img ∈ matchingAt cond batchSize turns db k, img.id = x ∧ (turns k).locked x = false) :
    x ∈ (after cond batchSize turns db n).fetchedIds := by
  rcases hq.passed hsize n hx with hmem | ⟨hrun, -⟩
  · exact hmem
  · rw [hn] at hrun
    cases hrun

theorem Quiet.kept {img : Image} {e : ε} (n : Nat)
    (hothers : ∀ k < n, img ∈ (after cond batchSize turns db k).db.images →
      img ∈ ((turns k).others (after cond batchSize turns db k).db).images)
    (hf : (img, .error e) ∈ (after cond batchSize turns db n).fetched) :
    img ∈ (after cond batchSize turns db n).db.images := by
  induction n with
  | zero => cases hf
  | succ k ih =>
    replace ih := ih fun j hj => hothers j (hj.trans k.lt_succ_self)
    cases hk : (after cond batchSize turns db k).ended with
    | true =>
      rw [after, batch_ended hk] at hf ⊢
      exact ih hf
    | false =>
      have hstep := hq.step hsize hk
      have hpage := hq.isPage k
      obtain ⟨gone, hperm, -, -, himages⟩ := hstep.account
      rw [hstep.fetched, List.mem_append] at hf
      rw [himages, List.mem_filter, decide_eq_true_iff, hperm.mem_iff, mem_succeeded,
        Turn.mem_attempts]
      rcases hf with hold | hnew
      · refine ⟨hothers k k.lt_succ_self (ih hold), fun hgone => ?_⟩
        obtain ⟨last, hlast, hle⟩ := (hq.accounts hsize k).upTo img.id (List.mem_map_of_mem hold)
        exact absurd ((hpage.mem img hgone.1).2 last hlast) (not_lt.mpr hle)
      · obtain ⟨hrow, herr⟩ := Turn.mem_attempts.mp hnew
        refine ⟨(List.mem_filter.mp (mem_unlocked.mp (hpage.mem img hrow).1).1).1, fun hgone => ?_⟩
        rw [herr] at hgone
        cases hgone.2

end

end Run

section Still

def Local (cond : Db → Timestamp → Image → Bool) : Prop :=
  ∀ db ids now img, img.id ∉ ids →
    cond (MediaRepository.deleteImagesByIds db ids) now img = true → cond db now img = true

theorem references_deleteImagesByIds (h : db.references i = true) (hi : i ∉ ids) :
    (MediaRepository.deleteImagesByIds db ids).references i = true := by
  have hkeep (o : Option Uuid) (ho : o = some i) : (o.filter fun i => !ids.contains i) = some i := by
    simp [ho, Option.filter, hi]
  rw [Db.references_iff]
  rcases Db.references_iff.mp h with ⟨u, hu, he⟩ | ⟨d, hd, he⟩ | ⟨p, hp, rfl⟩
  · exact .inl ⟨_, List.mem_map_of_mem hu, hkeep _ he⟩
  · exact .inr (.inl ⟨_, List.mem_map_of_mem hd, hkeep _ he⟩)
  · exact .inr (.inr ⟨p, List.mem_filter.mpr ⟨hp, by simpa using hi⟩, rfl⟩)

theorem local_cleanupCondition (c : Settings) (kind : CleanupKind) :
    Local fun db now => MediaTx.cleanupCondition c db now kind := by
  intro db ids now img hid h
  have hunref (hu : MediaRepository.unreferenced (MediaRepository.deleteImagesByIds db ids) img =
      true) : MediaRepository.unreferenced db img = true := by
    rw [MediaRepository.unreferenced, Bool.not_eq_true'] at hu ⊢
    by_contra href
    rw [references_deleteImagesByIds (Bool.not_eq_false _ ▸ href) hid] at hu
    cases hu
  cases kind with
  | expiredSignup => exact h
  | abandoned =>
    obtain ⟨hrow, hu⟩ := Bool.and_eq_true_iff.mp h
    exact Bool.and_eq_true_iff.mpr ⟨hrow, hunref hu⟩
  | reclaimable =>
    obtain ⟨hrow, hu⟩ := Bool.and_eq_true_iff.mp h
    exact Bool.and_eq_true_iff.mpr ⟨hrow, hunref hu⟩

variable {cond : Db → Timestamp → Image → Bool} {batchSize : Nat} {turns : Nat → Turn ε} {db : Db}

theorem batch_db {t : Turn ε} {s : Loop ε} (hs : s.ended = false) :
    ∃ ids, (batch cond batchSize t s).db = (deleteReturning (t.others s.db) ids).2 := by
  cases hl : (page cond batchSize t s).getLast? with
  | none =>
    refine ⟨[], ?_⟩
    simp only [batch, hs, hl, Bool.false_eq_true, if_false]
    rfl
  | some last =>
    refine ⟨(deleteObjects t.storageDelete (page cond batchSize t s)).1, ?_⟩
    simp only [batch, hs, hl, Bool.false_eq_true, if_false]

theorem deleteReturning_eq (db : Db) (ids : List Uuid) :
    (deleteReturning db ids).2 = db ∨
      (deleteReturning db ids).2 = MediaRepository.deleteImagesByIds db ids := by
  cases ids with
  | nil => exact .inl rfl
  | cons => exact .inr rfl

theorem quiet_of_still (hc : Local cond) (hdb : Keyed Image.id db.images)
    (hothers : ∀ k, (turns k).others = id) (hnow : ∀ k, (turns k).now = now) :
    Quiet cond batchSize turns db := by
  have hstep (k : Nat) (hk : (after cond batchSize turns db k).ended = false) :
      ∃ ids, (after cond batchSize turns db (k + 1)).db =
        (deleteReturning (after cond batchSize turns db k).db ids).2 := by
    obtain ⟨ids, h⟩ : ∃ ids, (after cond batchSize turns db (k + 1)).db =
      (deleteReturning ((turns k).others (after cond batchSize turns db k).db) ids).2 := batch_db hk
    rw [hothers] at h
    exact ⟨ids, h⟩
  apply Quiet.mk
  · intro k
    rw [hothers, id]
    induction k with
    | zero => exact hdb
    | succ k ih =>
      cases hk : (after cond batchSize turns db k).ended with
      | true =>
        rw [after, batch_ended hk]
        exact ih
      | false =>
        obtain ⟨ids, h⟩ := hstep k hk
        rw [h, deleteReturning_images]
        exact ih.sublist (List.filter_sublist.map _)
  · intro k hk img hmem
    obtain ⟨ids, h⟩ := hstep k (running_of_succ hk)
    rw [matchingAt, matching, hothers, id, hnow, List.mem_filter] at hmem
    obtain ⟨hrow, hcond⟩ := hmem
    refine ⟨img, ?_, rfl⟩
    rw [matchingAt, matching, hothers, id, hnow, List.mem_filter]
    rw [h, deleteReturning_images, List.mem_filter] at hrow
    refine ⟨hrow.1, ?_⟩
    rw [h] at hcond
    rcases deleteReturning_eq (after cond batchSize turns db k).db ids with he | he
    · rwa [he] at hcond
    · rw [he] at hcond
      exact hc _ ids now img (by simpa using hrow.2) hcond

end Still

/-- What a whole run of the loop amounts to when it ends with its `n`th batch. -/
structure Exact (cond : Db → Timestamp → Image → Bool) (batchSize : Nat) (turns : Nat → Turn ε)
    (db : Db) (n : Nat) : Prop where
  ended : (after cond batchSize turns db n).ended = true
  running : ∀ k < n, (after cond batchSize turns db k).ended = false
  once : (after cond batchSize turns db n).fetchedIds.Nodup
  /-- Each batch takes out of the table what it adds to `deleted`, and nothing else. -/
  account : ∀ k < n, ∃ gone,
    (after cond batchSize turns db (k + 1)).deleted = (after cond batchSize turns db k).deleted ++ gone ∧
    gone ⊆ ((turns k).others (after cond batchSize turns db k).db).images ∧
    (after cond batchSize turns db (k + 1)).db.images =
      ((turns k).others (after cond batchSize turns db k).db).images.filter (· ∉ gone)
  deleted : (after cond batchSize turns db n).deleted.Perm
    (succeeded (after cond batchSize turns db n).fetched)
  reported : (after cond batchSize turns db n).failed =
    failures (after cond batchSize turns db n).fetched
  /-- A row whose object could not be deleted is still there, unless another request removed it. -/
  kept : ∀ img e, (img, .error e) ∈ (after cond batchSize turns db n).fetched →
    (∀ k < n, img ∈ (after cond batchSize turns db k).db.images →
      img ∈ ((turns k).others (after cond batchSize turns db k).db).images) →
    img ∈ (after cond batchSize turns db n).db.images
  /-- A row that every batch finds matching and unlocked, until it is fetched, is fetched. -/
  complete : ∀ x, (∀ k < n, x ∈ (after cond batchSize turns db k).fetchedIds ∨
      ∃ img ∈ matchingAt cond batchSize turns db k, img.id = x ∧ (turns k).locked x = false) →
    x ∈ (after cond batchSize turns db n).fetchedIds
  returns : keysetCleanup cond batchSize turns db n =
    some (after cond batchSize turns db n).deleted.length

theorem keysetCleanup_exact (cond : Db → Timestamp → Image → Bool) {batchSize : Nat}
    (hsize : 1 ≤ batchSize) (turns : Nat → Turn ε) (db : Db)
    (hq : Quiet cond batchSize turns db) : ∃ n, Exact cond batchSize turns db n := by
  obtain ⟨n, hended, hrunning⟩ := hq.ends hsize
  have ha := hq.accounts hsize n
  refine ⟨n, hended, hrunning, ?_, ?_, ha.deleted, ha.failed, ?_, ?_, ?_⟩
  · exact ha.sorted.imp fun hlt => hlt.ne
  · intro k hk
    obtain ⟨gone, hperm, hdel, -, himages⟩ := (hq.step hsize (hrunning k hk)).account
    refine ⟨gone, hdel, fun img hgone => ?_, himages⟩
    have hrow := (Turn.mem_attempts.mp (mem_succeeded.mp (hperm.mem_iff.mp hgone))).1
    exact (List.mem_filter.mp (mem_unlocked.mp ((hq.isPage k).mem img hrow).1).1).1
  · intro img e hf hothers
    exact hq.kept hsize n hothers hf
  · intro x hx
    exact hq.complete hsize hended hx
  · rw [keysetCleanup, if_pos hended, ha.total]

/-- Three uploads that never became part of a sign-up: another request holds the first, and the
storage fails for the second. -/
def threeUploads : Db where
  images := [1, 2, 3].map fun i => ⟨i, "", "", none, none, none, 0, none⟩

def threeTurns (_ : Nat) : Turn String where
  others := id
  now := 4000 * 1000000
  locked i := i == 1
  storageDelete i := if i.id = 2 then .error "SlowDown" else .ok ()

theorem keysetCleanup_exact_threeUploads :
    (∃ n, Exact (fun db now => MediaTx.cleanupCondition (.default id) db now .expiredSignup) 1
      threeTurns threeUploads n) ∧
    keysetCleanup (fun db now => MediaTx.cleanupCondition (.default id) db now .expiredSignup) 1
      threeTurns threeUploads 3 = some 1 := by
  refine ⟨keysetCleanup_exact _ le_rfl threeTurns threeUploads ?_, by decide⟩
  exact quiet_of_still (local_cleanupCondition _ _) (by decide) (fun _ => rfl) fun _ => rfl

end PuppyTalk.CleanupLoop
