import PuppyTalk.Comments

namespace PuppyTalk

open CommentsRepository Table

/-- `count_visible_for_post` on the rows alone. -/
def visibleCount (cs : List Comment) (postId : Uuid) : Nat :=
  cs.countP fun c => c.postId == postId && shown cs c

theorem countVisibleForPost_eq (db : Db) (postId : Uuid) :
    countVisibleForPost db postId = visibleCount db.comments postId := rfl

/-- Ids are distinct, and the parent of a reply is a root of the same post. -/
structure CommentTree (cs : List Comment) : Prop where
  ids : Keyed Comment.id cs
  parent : ∀ c ∈ cs, ∀ q, c.parentId = some q →
    ∃ r ∈ cs, r.id = q ∧ r.postId = c.postId ∧ r.parentId = none

structure KeepsPlace (f : Comment → Comment) : Prop where
  id : ∀ c, (f c).id = c.id
  postId : ∀ c, (f c).postId = c.postId
  parentId : ∀ c, (f c).parentId = c.parentId

theorem KeepsPlace.ite (h : KeepsPlace f) (p : Comment → Bool) :
    KeepsPlace fun c => if p c then f c else c where
  id c := by split; exacts [h.id c, rfl]
  postId c := by split; exacts [h.postId c, rfl]
  parentId c := by split; exacts [h.parentId c, rfl]

theorem CommentTree.nil : CommentTree [] := ⟨keyed_nil _, fun _ h => by cases h⟩

theorem CommentTree.update (h : CommentTree cs) (hf : KeepsPlace f) (p : Comment → Bool) :
    CommentTree (Table.update p f cs) := by
  have hg := hf.ite p
  refine ⟨h.ids.update hf.id, ?_⟩
  intro c' hc' q hq
  obtain ⟨c, hc, rfl⟩ := mem_update.mp hc'
  rw [hg.parentId c] at hq
  obtain ⟨r, hr, hid, hpost, hroot⟩ := h.parent c hc q hq
  refine ⟨_, mem_update.mpr ⟨r, hr, rfl⟩, ?_⟩
  exact ⟨(hg.id r).trans hid, (hg.postId r).trans (hpost.trans (hg.postId c).symm),
    (hg.parentId r).trans hroot⟩

theorem CommentTree.append (h : CommentTree cs) (hn : ∀ c ∈ cs, c.id ≠ n.id)
    (hp : ∀ q, n.parentId = some q → ∃ r ∈ cs, r.id = q ∧ r.postId = n.postId ∧ r.parentId = none) :
    CommentTree (cs ++ [n]) := by
  refine ⟨h.ids.append hn, ?_⟩
  intro c hc q hq
  have hr : ∃ r ∈ cs, r.id = q ∧ r.postId = c.postId ∧ r.parentId = none := by
    rcases List.mem_append.mp hc with hc | hc
    · exact h.parent c hc q hq
    · cases List.mem_singleton.mp hc
      exact hp q hq
  obtain ⟨r, hr, hrest⟩ := hr
  exact ⟨r, List.mem_append_left _ hr, hrest⟩

theorem shown_root (cs : List Comment) (h : c.parentId = none) : shown cs c = c.alive := by
  simp [shown, h]

theorem CommentTree.shown_reply (h : CommentTree cs) (hc : c.parentId = some q) (hr : r ∈ cs)
    (hid : r.id = q) : shown cs c = (c.alive && r.alive) := by
  subst q
  simp [shown, hc, h.ids.row_eq hr]

theorem CommentTree.shown_eq (h : CommentTree cs) (hc : c ∈ cs) :
    (c.parentId = none ∧ shown cs c = c.alive) ∨
    ∃ r ∈ cs, c.parentId = some r.id ∧ r.postId = c.postId ∧ r.parentId = none ∧
      shown cs c = (c.alive && r.alive) := by
  cases hp : c.parentId with
  | none => exact .inl ⟨rfl, shown_root cs hp⟩
  | some q =>
    obtain ⟨r, hr, rfl, hpost, hroot⟩ := h.parent c hc q hp
    exact .inr ⟨r, hr, rfl, hpost, hroot, h.shown_reply hp hr rfl⟩

theorem shown_update (cs : List Comment) (hf : KeepsPlace f) (p : Comment → Bool) (c : Comment) :
    shown (Table.update p f cs) (if p c then f c else c) =
      ((if p c then f c else c).alive && match c.parentId with
        | none => true
        | some q => (row Comment.id cs q).any fun r => (if p r then f r else r).alive) := by
  have hpar := (hf.ite p).parentId c
  simp only [shown, hpar]
  cases c.parentId with
  | none => rfl
  | some q => simp only [row_update hf.id, Option.any_map]

theorem CommentTree.visibleCount_update_other (h : CommentTree cs) (hf : KeepsPlace f)
    (hp : ∀ c ∈ cs, p c = true → c.postId = postId) (hne : other ≠ postId) :
    visibleCount (Table.update p f cs) other = visibleCount cs other := by
  have hsame (c : Comment) (hc : c ∈ cs) (hpost : c.postId = other) :
      (if p c then f c else c) = c := by
    apply if_neg
    intro hpc
    exact hne (hpost.symm.trans (hp c hc hpc))
  apply countP_map_eq
  intro c hc
  rw [(hf.ite p).postId c]
  by_cases hpost : c.postId = other
  · rw [shown_update cs hf p c, hsame c hc hpost]
    congr 1
    rcases h.shown_eq hc with ⟨hroot, he⟩ | ⟨r, hr, hpar, hrpost, hrroot, he⟩
    · rw [he, hroot]
      simp
    · rw [he, hpar]
      simp [h.ids.row_eq hr, hsame r hr (hrpost.trans hpost)]
  · rw [beq_false_of_ne hpost, Bool.false_and, Bool.false_and]

theorem CommentTree.visibleCount_update_alive (h : CommentTree cs) (hf : KeepsPlace f)
    (ha : ∀ c ∈ cs, p c = true → (f c).alive = c.alive) (postId : Uuid) :
    visibleCount (Table.update p f cs) postId = visibleCount cs postId := by
  have hg (c : Comment) (hc : c ∈ cs) : (if p c then f c else c).alive = c.alive := by
    split
    · exact ha c hc ‹_›
    · rfl
  apply countP_map_eq
  intro c hc
  rw [(hf.ite p).postId c, shown_update cs hf p c, hg c hc]
  congr 1
  rcases h.shown_eq hc with ⟨hroot, he⟩ | ⟨r, hr, hpar, _, _, he⟩
  · rw [he, hroot]
    simp
  · rw [he, hpar]
    simp [h.ids.row_eq hr, hg r hr]

theorem CommentTree.visibleCount_append (h : CommentTree cs) (n : Comment)
    (hp : ∀ q, n.parentId = some q → ∃ r ∈ cs, r.id = q) (postId : Uuid) :
    visibleCount (cs ++ [n]) postId =
      visibleCount cs postId + (n.postId == postId && shown cs n).toNat := by
  have hsame (c : Comment) (hc : ∀ q, c.parentId = some q → ∃ r ∈ cs, r.id = q) :
      shown (cs ++ [n]) c = shown cs c := by
    cases hpar : c.parentId with
    | none => simp [shown, hpar]
    | some q =>
      obtain ⟨r, hr, hid⟩ := hc q hpar
      simp only [shown, hpar, row_append_of_mem hr hid n]
  have hold : List.countP (fun c => c.postId == postId && shown (cs ++ [n]) c) cs =
      visibleCount cs postId := by
    apply List.countP_congr
    intro c hc
    rw [hsame c]
    intro q hq
    obtain ⟨r, hr, hid, _⟩ := h.parent c hc q hq
    exact ⟨r, hr, hid⟩
  simp only [visibleCount, List.countP_append, List.countP_singleton, hsame n hp] at hold ⊢
  rw [hold]
  cases n.postId == postId && shown cs n <;> rfl

def markDeleted (now : Timestamp) (c : Comment) : Comment := { c with deletedAt := some now }

theorem markDeleted_keepsPlace (now : Timestamp) : KeepsPlace (markDeleted now) :=
  ⟨fun _ => rfl, fun _ => rfl, fun _ => rfl⟩

theorem markDeleted_alive (now : Timestamp) (c : Comment) : (markDeleted now c).alive = false := by
  simp [markDeleted, Comment.alive]

def repliesAlive (cs : List Comment) (r : Comment) : Nat :=
  cs.countP fun c => c.parentId == some r.id && c.alive

theorem CommentTree.visibleCount_delete (h : CommentTree cs) (hr : r ∈ cs) (hra : r.alive = true)
    (hp : ∀ c ∈ cs, p c = true ↔ c = r) (now : Timestamp) :
    visibleCount cs r.postId = visibleCount (Table.update p (markDeleted now) cs) r.postId +
      (shown cs r).toNat + repliesAlive cs r := by
  have hf := markDeleted_keepsPlace now
  have hself : (if p r then markDeleted now r else r) = markDeleted now r := if_pos ((hp r hr).mpr rfl)
  have hother (c : Comment) (hc : c ∈ cs) (hne : c ≠ r) :
      (if p c then markDeleted now c else c) = c := if_neg fun hpc => hne ((hp c hc).mp hpc)
  have hown : (shown cs r).toNat = cs.countP fun c => decide (c.id = r.id) && shown cs r := by
    cases shown cs r with
    | false => simp
    | true => simp [h.ids.countP_key hr]
  rw [hown]
  apply countP_eq_add
  intro c hc
  rw [(hf.ite p).postId c, shown_update cs hf p c]
  by_cases hcr : c = r
  · subst c
    have hpar : (r.parentId == some r.id) = false := by
      rcases h.shown_eq hr with ⟨hroot, _⟩ | ⟨s, hs, hpar, _, hroot, _⟩
      · simp [hroot]
      · rw [beq_eq_false_iff_ne, hpar]
        intro he
        cases h.ids.eq hs hr (Option.some.inj he)
        cases hroot.symm.trans hpar
    simp [hself, markDeleted_alive, hpar]
  · have hid : c.id ≠ r.id := fun he => hcr (h.ids.eq hc hr he)
    rw [hother c hc hcr]
    rcases h.shown_eq hc with ⟨hroot, he⟩ | ⟨s, hs, hpar, hpost, hroot, he⟩
    · simp [he, hroot, hid]
    · by_cases hsr : s = r
      · subst s
        simp [he, hpar, h.ids.row_eq hr, hself, markDeleted_alive, hid, hra, hpost]
      · have hsid : s.id ≠ r.id := fun he => hsr (h.ids.eq hs hr he)
        simp [he, hpar, h.ids.row_eq hs, hother s hs hsr, hid, hsid]

end PuppyTalk
