import PuppyTalk.Run
import PuppyTalk.Moderation
import PuppyTalk.PostService
import PuppyTalk.CommentTree

namespace PuppyTalk

open CommentsRepository Table

def CountExact (db : Db) : Prop :=
  ∀ p ∈ db.posts, p.deletedAt = none → p.commentCount = countVisibleForPost db p.id

theorem CountExact.update_iff (h : CountExact db) {f : Post → Post} {g : Post → Bool}
    (hposts : db'.posts = Table.update g f db.posts)
    (hid : ∀ p, (f p).id = p.id) (hdel : ∀ p, (f p).deletedAt = p.deletedAt)
    (hg : ∀ p, p.deletedAt = none → (g p = true ↔ p.id = postId))
    (hcs : ∀ other, other ≠ postId →
      visibleCount db'.comments other = visibleCount db.comments other) :
    CountExact db' ↔ ∀ p ∈ db.posts, p.id = postId → p.deletedAt = none →
      (f p).commentCount = visibleCount db'.comments postId := by
  constructor
  · intro h' p hp hpid hlive
    have hmem : f p ∈ db'.posts := by
      rw [hposts, mem_update]
      exact ⟨p, hp, if_pos ((hg p hlive).mpr hpid)⟩
    have he := h' (f p) hmem ((hdel p).trans hlive)
    rwa [hid p, hpid] at he
  · intro hone p' hp' hlive'
    rw [hposts] at hp'
    obtain ⟨p, hp, rfl⟩ := mem_update.mp hp'
    have hlive : p.deletedAt = none := by
      split at hlive'
      · exact (hdel p).symm.trans hlive'
      · exact hlive'
    by_cases hpid : p.id = postId
    · rw [if_pos ((hg p hlive).mpr hpid), hid p, hpid]
      exact hone p hp hpid hlive
    · rw [if_neg fun hgp => hpid ((hg p hlive).mp hgp), countVisibleForPost_eq, hcs p.id hpid]
      exact h p hp hlive

theorem CountExact.congr (h : CountExact db) (hposts : db'.posts = db.posts)
    (hcs : ∀ postId, visibleCount db'.comments postId = visibleCount db.comments postId) :
    CountExact db' := by
  intro p hp hlive
  rw [hposts] at hp
  rw [countVisibleForPost_eq, hcs]
  exact h p hp hlive

structure Exact (db : Db) : Prop where
  tree : CommentTree db.comments
  count : CountExact db

theorem Exact.congr (h : Exact db) (hposts : db'.posts = db.posts)
    (hcs : db'.comments = db.comments) : Exact db' :=
  ⟨hcs ▸ h.tree, h.count.congr hposts fun _ => by rw [hcs]⟩

theorem Exact.updateComments (h : Exact db) (hposts : db'.posts = db.posts)
    (hcs : db'.comments = Table.update p f db.comments) (hf : KeepsPlace f)
    (ha : ∀ c ∈ db.comments, p c = true → (f c).alive = c.alive) : Exact db' := by
  constructor
  · rw [hcs]
    exact h.tree.update hf p
  · apply h.count.congr hposts
    intro postId
    rw [hcs]
    exact h.tree.visibleCount_update_alive hf ha postId

theorem Exact.updatePosts (h : Exact db) {f : Post → Post} {g : Post → Bool}
    (hposts : db'.posts = Table.update g f db.posts) (hcs : db'.comments = db.comments)
    (hf : ∀ p, (f p).id = p.id ∧ (f p).commentCount = p.commentCount ∧
      ((f p).deletedAt = none → p.deletedAt = none)) : Exact db' := by
  refine ⟨hcs ▸ h.tree, ?_⟩
  intro p' hp' hlive'
  rw [hposts] at hp'
  rw [countVisibleForPost_eq, hcs]
  obtain ⟨p, hp, rfl⟩ := mem_update.mp hp'
  obtain ⟨hid, hcount, hdel⟩ := hf p
  by_cases hg : g p = true
  · rw [if_pos hg] at hlive' ⊢
    rw [hid, hcount]
    exact h.count p hp (hdel hlive')
  · rw [if_neg hg] at hlive' ⊢
    exact h.count p hp hlive'

theorem updatePost_guard (postId : Uuid) (alive : Bool) (p : Post) (hlive : p.deletedAt = none) :
    (p.id == postId && (!alive || p.deletedAt.isNone)) = true ↔ p.id = postId := by
  simp [hlive]

theorem Exact.afterTransition (h : Exact db) (hf : KeepsPlace f)
    (hp : ∀ c, p c = true → c.id = commentId) (now : Timestamp) :
    Exact (CommentModeration.afterTransition commentId now
      (db.updateComments p f (·.postId))).2 := by
  cases hfind : db.comments.find? p with
  | none =>
    have hsame := update_eq_self f hfind
    simp only [Db.updateComments, updateReturning, hfind, Option.map_none, hsame,
      CommentModeration.afterTransition]
    exact h
  | some r =>
    have hr : r ∈ db.comments := List.mem_of_find?_eq_some hfind
    have hpr : p r = true := List.find?_some hfind
    have hpost (c : Comment) (hc : c ∈ db.comments) (hpc : p c = true) : c.postId = r.postId := by
      rw [h.tree.ids.eq hc hr ((hp c hpc).trans (hp r hpr).symm)]
    simp only [Db.updateComments, updateReturning, hfind, Option.map_some, hf.postId,
      CommentModeration.afterTransition]
    refine ⟨h.tree.update hf p, ?_⟩
    have hcs (other : Uuid) (hne : other ≠ r.postId) :=
      h.tree.visibleCount_update_other hf hpost hne
    have hn := Int.natCast_nonneg (visibleCount (Table.update p f db.comments) r.postId)
    apply (h.count.update_iff (f := fun q => { q with
      commentCount := max 0 (visibleCount (Table.update p f db.comments) r.postId : Int),
      updatedAt := now }) rfl (fun _ => rfl) (fun _ => rfl) (updatePost_guard r.postId false) hcs).mpr
    intro q _ _ _
    exact Int.max_eq_right hn

theorem Exact.setBlinded (h : Exact db) (t : TargetType) (targetId : Uuid) (now : Timestamp) :
    Exact ((moderationTarget t).setBlinded db targetId now).2 := by
  cases t with
  | post => exact h.updatePosts rfl rfl fun _ => ⟨rfl, rfl, id⟩
  | comment =>
    apply h.afterTransition (f := fun c => { c with isBlinded := true, updatedAt := now })
      ⟨fun _ => rfl, fun _ => rfl, fun _ => rfl⟩
    intro c hc
    simp only [Bool.and_eq_true, beq_iff_eq] at hc
    exact hc.1.1

theorem Exact.unblind (h : Exact db) (t : TargetType) (targetId : Uuid) (now : Timestamp) :
    Exact ((moderationTarget t).unblind db targetId now).2 := by
  cases t with
  | post => exact h.updatePosts rfl rfl fun _ => ⟨rfl, rfl, id⟩
  | comment =>
    apply h.afterTransition (f := fun c => { c with isBlinded := false, updatedAt := now })
      ⟨fun _ => rfl, fun _ => rfl, fun _ => rfl⟩
    intro c hc
    simp only [Bool.and_eq_true, beq_iff_eq] at hc
    exact hc.1.1

theorem Exact.resetReports (h : Exact db) (t : TargetType) (targetId : Uuid) (now : Timestamp) :
    Exact ((moderationTarget t).resetReports db targetId now).2 := by
  cases t with
  | post => exact h.updatePosts rfl rfl fun _ => ⟨rfl, rfl, id⟩
  | comment =>
    exact (h.unblind .comment targetId now).updateComments rfl rfl
      ⟨fun _ => rfl, fun _ => rfl, fun _ => rfl⟩ fun _ _ _ => rfl

theorem Exact.incrementReportCount (h : Exact db) (t : TargetType) (targetId : Uuid) (now : Timestamp) :
    Exact ((moderationTarget t).incrementReportCount db targetId now).2 := by
  cases t with
  | post => exact h.updatePosts rfl rfl fun _ => ⟨rfl, rfl, id⟩
  | comment =>
    exact h.updateComments rfl rfl ⟨fun _ => rfl, fun _ => rfl, fun _ => rfl⟩ fun _ _ _ => rfl

theorem orNotFound_db (target : ModerationTarget) (r : Bool × Db) :
    (AdminService.orNotFound target r).2 = r.2 := by
  obtain ⟨ok, db⟩ := r
  cases ok <;> rfl

theorem Exact.submitReport (h : Exact db) (blindThreshold : Int) (reporter : Uuid) (t : TargetType)
    (id : Uuid) (reason : ReportReason) (reportId : Uuid) (now : Timestamp) :
    Exact (ReportService.submitReport blindThreshold db reporter t id reason reportId now).2 := by
  have hinc := h.incrementReportCount t id now
  simp only [ReportService.submitReport, Db.begin]
  generalize (moderationTarget t).incrementReportCount db id now = r at hinc ⊢
  obtain ⟨_ | n, db₁⟩ := r
  · exact h
  · have hrep : Exact (ReportsRepository.createReport db₁ reportId reporter
        (moderationTarget t).targetType id (some reason.value) now) := hinc.congr rfl rfl
    by_cases hn : blindThreshold ≤ n
    · simp only [if_pos hn]
      exact hrep.setBlinded t id now
    · simp only [if_neg hn]
      exact hrep

theorem Exact.deletePost (h : Exact db) (postId : Uuid) (now : Timestamp) :
    Exact (PostService.deletePost db postId now).2 := by
  simp only [PostService.deletePost, Db.begin, PostsRepository.softDelete,
    PostsRepository.updatePost, Db.updatePosts, updateReturning]
  cases hfind : db.posts.find? fun p => p.id == postId && (!true || p.deletedAt.isNone) with
  | none => exact h
  | some p₀ =>
    have hf : KeepsPlace (markDeleted now) := markDeleted_keepsPlace now
    refine ⟨h.tree.update hf _, ?_⟩
    intro p' hp' hlive'
    obtain ⟨p, hp, rfl⟩ := mem_update.mp hp'
    by_cases hg : (p.id == postId && (!true || p.deletedAt.isNone)) = true
    · rw [if_pos hg] at hlive'
      cases hlive'
    · rw [if_neg hg] at hlive' ⊢
      have hne : p.id ≠ postId := by
        intro he
        exact hg (by simp [he, hlive'])
      have hcs := h.tree.visibleCount_update_other hf (p := fun c => c.postId == postId &&
        c.deletedAt.isNone) (fun c _ hc => by simp at hc; exact hc.1) hne
      rw [h.count p hp hlive']
      exact congrArg Nat.cast hcs.symm

def newComment (id postId userId : Uuid) (content : String) (parentId : Option Uuid)
    (now : Timestamp) : Comment :=
  { id := id, postId := postId, authorId := some userId, parentId := parentId, content := content,
    likeCount := 0, reportCount := 0, isBlinded := false, createdAt := now, updatedAt := now,
    deletedAt := none }

def AcceptedParent (db : Db) (postId parentId : Uuid) (r : Comment) : Prop :=
  r ∈ db.comments ∧ r.id = parentId ∧ r.deletedAt = none ∧ r.postId = postId ∧ r.parentId = none

theorem parentAccepted_iff (h : Keyed Comment.id db.comments) :
    CommentService.parentAccepted postId (getCommentMeta db parentId) = true ↔
      ∃ r, AcceptedParent db postId parentId r := by
  constructor
  · intro ha
    cases hrow : row Comment.id db.comments parentId with
    | none => simp [getCommentMeta, hrow, CommentService.parentAccepted] at ha
    | some r =>
      simp only [getCommentMeta, hrow, Option.map_some, CommentService.parentAccepted,
        Bool.and_eq_true, Option.isNone_iff_eq_none, beq_iff_eq] at ha
      exact ⟨r, row_mem hrow, row_key hrow, ha.1.1, ha.1.2, ha.2⟩
  · rintro ⟨r, hr, rfl, hdel, hpost, hroot⟩
    simp [getCommentMeta, h.row_eq hr, CommentService.parentAccepted, hdel, hpost, hroot]

theorem createComment_cases (h : Keyed Comment.id db.comments) (postId userId : Uuid)
    (content : String) (parentId : Option Uuid) (commentId notificationId : Uuid) (now : Timestamp)
    (hdb' : db' = (CommentService.createComment db postId userId content parentId commentId
      notificationId now).2) :
    (db' = db ∧ (PostsRepository.getVisiblePostAuthor db postId (some userId) = none ∨
      ∃ q, parentId = some q ∧ ∀ r, ¬ AcceptedParent db postId q r)) ∨
    ((∃ a, PostsRepository.getVisiblePostAuthor db postId (some userId) = some a) ∧
      (∀ q, parentId = some q → ∃ r, AcceptedParent db postId q r) ∧
      db'.comments = db.comments ++ [newComment commentId postId userId content parentId now] ∧
      db'.posts = Table.update (fun p => p.id == postId && (!false || p.deletedAt.isNone))
        (fun p => { p with commentCount := p.commentCount + 1, updatedAt := now }) db.posts) := by
  subst db'
  simp only [CommentService.createComment, Db.begin]
  cases hv : PostsRepository.getVisiblePostAuthor db postId (some userId) with
  | none => exact .inl ⟨rfl, .inl rfl⟩
  | some a =>
    by_cases hp : (parentId.all fun p =>
        CommentService.parentAccepted postId (getCommentMeta db p)) = true
    · right
      simp only [if_pos hp]
      refine ⟨⟨a, rfl⟩, ?_, ?_⟩
      · rintro q rfl
        exact (parentAccepted_iff h).mp hp
      · cases a with
        | none => exact ⟨rfl, rfl⟩
        | some author =>
          by_cases ha : author = userId
          · simp only [if_pos ha]
            exact ⟨rfl, rfl⟩
          · simp only [if_neg ha]
            exact ⟨rfl, rfl⟩
    · left
      simp only [if_neg hp]
      refine ⟨trivial, .inr ?_⟩
      cases parentId with
      | none => exact absurd rfl hp
      | some q =>
        refine ⟨q, rfl, fun r hr => hp ?_⟩
        exact (parentAccepted_iff h).mpr ⟨r, hr⟩

theorem getVisiblePostAuthor_some (h : PostsRepository.getVisiblePostAuthor db postId u = some a) :
    ∃ p ∈ db.posts, p.id = postId ∧ p.deletedAt = none := by
  obtain ⟨p, hp, _⟩ := Option.map_eq_some_iff.mp h
  have hc := List.find?_some hp
  simp only [PostsRepository.postVisible, Bool.and_eq_true, beq_iff_eq,
    Option.isNone_iff_eq_none] at hc
  exact ⟨p, List.mem_of_find?_eq_some hp, hc.1, hc.2.1.1⟩

def CreationCounted (db : Db) (postId userId : Uuid) (parentId : Option Uuid) : Prop :=
  (PostsRepository.getVisiblePostAuthor db postId (some userId)).isSome →
    ∀ q, parentId = some q → ∀ r, AcceptedParent db postId q r → r.isBlinded = false

theorem CommentTree.shown_new_iff (h : CommentTree db.comments)
    (hv : PostsRepository.getVisiblePostAuthor db postId (some userId) = some a)
    (hpar : ∀ q, parentId = some q → ∃ r, AcceptedParent db postId q r) (commentId : Uuid)
    (content : String) (now : Timestamp) :
    shown db.comments (newComment commentId postId userId content parentId now) = true ↔
      CreationCounted db postId userId parentId := by
  cases parentId with
  | none =>
    apply iff_of_true
    · exact shown_root _ rfl
    · intro _ q hq
      cases hq
  | some q =>
    obtain ⟨r, hr⟩ := hpar q rfl
    have halive : r.alive = !r.isBlinded := by simp [Comment.alive, hr.2.2.1]
    have hself : (newComment commentId postId userId content (some q) now).alive = true := rfl
    rw [h.shown_reply rfl hr.1 hr.2.1, hself, halive, Bool.true_and, Bool.not_eq_true']
    constructor
    · rintro hb _ q' hq' r' hr'
      cases hq'
      rw [h.ids.eq hr'.1 hr.1 (hr'.2.1.trans hr.2.1.symm)]
      exact hb
    · intro hc
      exact hc (by simp [hv]) q rfl r hr

theorem Exact.createComment (h : Exact db) (postId userId : Uuid) (content : String)
    (parentId : Option Uuid) (commentId notificationId : Uuid) (now : Timestamp)
    (hnew : ∀ c ∈ db.comments, c.id ≠ commentId)
    (hdb' : db' = (CommentService.createComment db postId userId content parentId commentId
      notificationId now).2) :
    CommentTree db'.comments ∧ (CreationCounted db postId userId parentId ↔ CountExact db') := by
  rcases createComment_cases h.tree.ids postId userId content parentId commentId notificationId now
    hdb' with ⟨rfl, hno⟩ | ⟨⟨a, hv⟩, hpar, hcs, hposts⟩
  · refine ⟨h.tree, iff_of_true ?_ h.count⟩
    intro hv q hq r hr
    rcases hno with hno | ⟨q', hq', hno⟩
    · simp [hno] at hv
    · cases hq.symm.trans hq'
      exact absurd hr (hno r)
  · obtain ⟨p, hp, hpid, hlive⟩ := getVisiblePostAuthor_some hv
    have hparent (q : Uuid) (hq : parentId = some q) : ∃ r ∈ db.comments, r.id = q := by
      obtain ⟨r, hr, hid, _⟩ := hpar q hq
      exact ⟨r, hr, hid⟩
    have hcount := h.tree.visibleCount_append
      (newComment commentId postId userId content parentId now) hparent
    constructor
    · rw [hcs]
      apply h.tree.append hnew
      intro q hq
      obtain ⟨r, hr, hid, _, hpost, hroot⟩ := hpar q hq
      exact ⟨r, hr, hid, hpost, hroot⟩
    rw [h.count.update_iff hposts (fun _ => rfl) (fun _ => rfl) (updatePost_guard postId false) ?_,
      hcs, hcount]
    · -- the counter gains one, so the new comment has to be shown
      rw [← h.tree.shown_new_iff hv hpar commentId content now]
      have hb : ((newComment commentId postId userId content parentId now).postId == postId) =
          true := beq_self_eq_true postId
      rw [hb, Bool.true_and]
      constructor
      · intro hs q hq hqid hqlive
        have hnow := h.count q hq hqlive
        rw [hqid, countVisibleForPost_eq] at hnow
        simp [hs, hnow]
      · intro hall
        have hnow := h.count p hp hlive
        rw [hpid, countVisibleForPost_eq] at hnow
        have he := hall p hp hpid hlive
        simp only [hnow] at he
        cases hs : shown db.comments (newComment commentId postId userId content parentId now) with
        | true => rfl
        | false =>
          rw [hs, Bool.toNat_false] at he
          omega
    · intro other hne
      have hb : ((newComment commentId postId userId content parentId now).postId == other) =
          false := beq_false_of_ne (Ne.symm hne)
      rw [hcs, hcount, hb]
      rfl

def deletable (postId commentId : Uuid) (c : Comment) : Bool :=
  c.id == commentId && c.postId == postId && c.deletedAt.isNone

theorem deletable_iff : deletable postId commentId c = true ↔
    c.id = commentId ∧ c.postId = postId ∧ c.deletedAt = none := by
  simp [deletable, and_assoc]

theorem deleteComment_eq (db : Db) (postId commentId : Uuid) (now : Timestamp) :
    CommentsRepository.deleteComment db postId commentId now =
      (((db.comments.find? (deletable postId commentId)).map fun c =>
        if c.isBlinded then none else some c.postId).join,
      { db with comments := Table.update (deletable postId commentId) (markDeleted now) db.comments }) :=
  rfl

theorem deleteComment_cases (h : Keyed Comment.id db.comments) (postId commentId : Uuid)
    (now : Timestamp) (hdb' : db' = (CommentService.deleteComment db postId commentId now).2) :
    (db'.posts = db.posts ∧ db'.comments = db.comments ∧
      ∀ c ∈ db.comments, deletable postId commentId c = false) ∨
    ∃ r ∈ db.comments, deletable postId commentId r = true ∧
      db'.comments = Table.update (deletable postId commentId) (markDeleted now) db.comments ∧
      ((r.isBlinded = true ∧ db'.posts = db.posts) ∨
       (r.isBlinded = false ∧ db'.posts =
        Table.update (fun p => p.id == postId && (!false || p.deletedAt.isNone))
          (fun p => { p with commentCount := max (p.commentCount - 1) 0, updatedAt := now })
          db.posts)) := by
  subst db'
  cases hfind : db.comments.find? (deletable postId commentId) with
  | none =>
    left
    have hrepo : CommentsRepository.deleteComment db postId commentId now = (none, db) := by
      rw [deleteComment_eq, hfind, update_eq_self (markDeleted now) hfind]
      rfl
    refine ⟨?_, ?_, fun c hc => by simpa using List.find?_eq_none.mp hfind c hc⟩
    all_goals
      simp only [CommentService.deleteComment, Db.begin, hrepo]
      cases getCommentMeta db commentId with
      | none => rfl
      | some m => by_cases hm : m.postId ≠ postId ∨ m.deletedAt = none <;> simp [hm]
  | some r =>
    right
    have hr : r ∈ db.comments := List.mem_of_find?_eq_some hfind
    have hpr : deletable postId commentId r = true := List.find?_some hfind
    obtain ⟨hid, hpost, hdel⟩ := deletable_iff.mp hpr
    refine ⟨r, hr, hpr, ?_⟩
    cases hb : r.isBlinded with
    | false =>
      have hrepo : CommentsRepository.deleteComment db postId commentId now = (some postId, { db with
          comments := Table.update (deletable postId commentId) (markDeleted now) db.comments }) := by
        rw [deleteComment_eq, hfind]
        simp [hb, hpost]
      simp only [CommentService.deleteComment, Db.begin, hrepo]
      exact ⟨rfl, .inr ⟨trivial, rfl⟩⟩
    | true =>
      have hrepo : CommentsRepository.deleteComment db postId commentId now = (none, { db with
          comments := Table.update (deletable postId commentId) (markDeleted now) db.comments }) := by
        rw [deleteComment_eq, hfind]
        simp [hb]
      have hrow : row Comment.id (Table.update (deletable postId commentId) (markDeleted now)
          db.comments) commentId = some (markDeleted now r) := by
        rw [row_update (markDeleted_keepsPlace now).id, ← hid, h.row_eq hr, hid]
        simp [hpr]
      have hm : ¬ (r.postId ≠ postId ∨ some now = none) := by
        simp [hpost]
      simp only [CommentService.deleteComment, Db.begin, hrepo, getCommentMeta, hrow,
        Option.map_some, markDeleted, if_neg hm]
      exact ⟨trivial, .inl ⟨trivial, trivial⟩⟩

/-- A root is deleted when none of its replies is visible; a reply when its parent is visible, or
when the counter stands at zero anyway. -/
def DeletionCounted (db : Db) (postId commentId : Uuid) : Prop :=
  ∀ c ∈ db.comments, c.id = commentId → c.postId = postId → c.alive = true →
    ∀ p ∈ db.posts, p.id = postId → p.deletedAt = none →
      match c.parentId with
      | none => ∀ r ∈ db.comments, r.parentId = some c.id → r.alive = false
      | some q => (∃ r ∈ db.comments, r.id = q ∧ r.alive = true) ∨ p.commentCount = 0

theorem CommentTree.repliesAlive_of_reply (h : CommentTree cs) (hr : r ∈ cs)
    (hpar : r.parentId = some q) : repliesAlive cs r = 0 := by
  apply List.countP_eq_zero.mpr
  intro c hc hcr
  simp only [Bool.and_eq_true, beq_iff_eq] at hcr
  obtain ⟨s, hs, hid, _, hroot⟩ := h.parent c hc _ hcr.1
  cases h.ids.eq hs hr hid
  cases hroot.symm.trans hpar

theorem CommentTree.decrement_iff (h : CommentTree cs) (hr : r ∈ cs) (hra : r.alive = true)
    {n m : Nat} (hm : n = m + (shown cs r).toNat + repliesAlive cs r) {count : Int}
    (hn : count = n) :
    max (count - 1) 0 = m ↔
      match r.parentId with
      | none => ∀ c ∈ cs, c.parentId = some r.id → c.alive = false
      | some q => (∃ s ∈ cs, s.id = q ∧ s.alive = true) ∨ count = 0 := by
  cases hpar : r.parentId with
  | none =>
    have hs : shown cs r = true := (shown_root cs hpar).trans hra
    rw [hs, Bool.toNat_true] at hm
    have hzero : repliesAlive cs r = 0 ↔ ∀ c ∈ cs, c.parentId = some r.id → c.alive = false := by
      simp [repliesAlive, List.countP_eq_zero]
    rw [← hzero]
    omega
  | some q =>
    rw [h.repliesAlive_of_reply hr hpar] at hm
    obtain ⟨s, hs, hid, -, -⟩ := h.parent r hr q hpar
    have hshown := h.shown_reply hpar hs hid
    rw [hra, Bool.true_and] at hshown
    have hex : (∃ s ∈ cs, s.id = q ∧ s.alive = true) ↔ s.alive = true := by
      constructor
      · rintro ⟨s', hs', hid', ha⟩
        rwa [h.ids.eq hs hs' (hid.trans hid'.symm)]
      · exact fun ha => ⟨s, hs, hid, ha⟩
    simp only [hex]
    cases hsa : s.alive with
    | true =>
      rw [hshown, hsa, Bool.toNat_true] at hm
      simp only [true_or, iff_true]
      omega
    | false =>
      rw [hshown, hsa, Bool.toNat_false] at hm
      simp only [Bool.false_eq_true, false_or]
      omega

theorem Exact.deleteComment (h : Exact db) (postId commentId : Uuid) (now : Timestamp)
    (hdb' : db' = (CommentService.deleteComment db postId commentId now).2) :
    CommentTree db'.comments ∧ (DeletionCounted db postId commentId ↔ CountExact db') := by
  have hf := markDeleted_keepsPlace now
  rcases deleteComment_cases h.tree.ids postId commentId now hdb' with
    ⟨hposts, hcs, hno⟩ | ⟨r, hr, hpr, hcs, hrest⟩
  · have hexact := h.congr hposts hcs
    refine ⟨hexact.tree, iff_of_true ?_ hexact.count⟩
    intro c hc hid hpost ha
    have hd := hno c hc
    simp only [Comment.alive, Bool.and_eq_true, Option.isNone_iff_eq_none] at ha
    rw [deletable_iff.mpr ⟨hid, hpost, ha.1⟩] at hd
    cases hd
  obtain ⟨hid, rfl, hdel⟩ := deletable_iff.mp hpr
  have honly (c : Comment) (hc : c ∈ db.comments) :
      deletable r.postId commentId c = true ↔ c = r := by
    constructor
    · intro hd
      exact h.tree.ids.eq hc hr ((deletable_iff.mp hd).1.trans hid.symm)
    · rintro rfl
      exact hpr
  rcases hrest with ⟨hb, hposts⟩ | ⟨hb, hposts⟩
  · have hra : r.alive = false := by simp [Comment.alive, hb]
    have hexact := h.updateComments hposts hcs hf (fun c hc hd => by
      rw [(honly c hc).mp hd, markDeleted_alive, hra])
    refine ⟨hexact.tree, iff_of_true ?_ hexact.count⟩
    intro c hc hcid _ ha
    rw [h.tree.ids.eq hc hr (hcid.trans hid.symm), hra] at ha
    cases ha
  · have hra : r.alive = true := by simp [Comment.alive, hb, hdel]
    have hcount := h.tree.visibleCount_delete hr hra honly now
    refine ⟨hcs ▸ h.tree.update hf _, ?_⟩
    rw [h.count.update_iff hposts (fun _ => rfl) (fun _ => rfl) (updatePost_guard r.postId false)
      (fun other hne => ?_), hcs]
    · have hiff (p : Post) (hp : p ∈ db.posts) (hpid : p.id = r.postId)
          (hlive : p.deletedAt = none) :=
        h.tree.decrement_iff hr hra hcount (hpid ▸ h.count p hp hlive)
      constructor
      · intro hc p hp hpid hlive
        exact (hiff p hp hpid hlive).mpr (hc r hr hid rfl hra p hp hpid hlive)
      · intro hall c hc hcid _ _ p hp hpid hlive
        rw [h.tree.ids.eq hc hr (hcid.trans hid.symm)]
        exact (hiff p hp hpid hlive).mp (hall p hp hpid hlive)
    · rw [hcs]
      exact h.tree.visibleCount_update_other hf (fun c hc hd => by rw [(honly c hc).mp hd]) hne

namespace CommentCount

inductive Op where
  | createComment (postId userId : Uuid) (content : String) (parentId : Option Uuid)
      (commentId notificationId : Uuid) (now : Timestamp)
  | deleteComment (postId commentId : Uuid) (now : Timestamp)
  | blind (targetType : TargetType) (targetId : Uuid) (now : Timestamp)
  | unblind (targetType : TargetType) (targetId : Uuid) (now : Timestamp)
  | resetReports (targetType : TargetType) (targetId : Uuid) (now : Timestamp)
  | submitReport (reporterId : Uuid) (targetType : TargetType) (targetId : Uuid)
      (reason : ReportReason) (reportId : Uuid) (now : Timestamp)
  | deletePost (postId : Uuid) (now : Timestamp)
  deriving DecidableEq, Repr

def step (blindThreshold : Int) (db : Db) : Op → Option Db
  | .createComment postId userId content parentId commentId notificationId now =>
    if db.comments.any (·.id == commentId) then none
    else some (CommentService.createComment db postId userId content parentId commentId
      notificationId now).2
  | .deleteComment postId commentId now =>
    some (CommentService.deleteComment db postId commentId now).2
  | .blind t id now => some (AdminService.blind db t id now).2
  | .unblind t id now => some (AdminService.unblind db t id now).2
  | .resetReports t id now => some (AdminService.resetReports db t id now).2
  | .submitReport reporter t id reason reportId now =>
    some (ReportService.submitReport blindThreshold db reporter t id reason reportId now).2
  | .deletePost postId now => some (PostService.deletePost db postId now).2

def Counted (db : Db) : Op → Prop
  | .createComment postId userId _ parentId _ _ _ => CreationCounted db postId userId parentId
  | .deleteComment postId commentId _ => DeletionCounted db postId commentId
  | _ => True

structure WithoutComments (db : Db) : Prop where
  comments : db.comments = []
  count : ∀ p ∈ db.posts, p.deletedAt = none → p.commentCount = 0

theorem WithoutComments.exact (h : WithoutComments db) : Exact db := by
  constructor
  · rw [h.comments]
    exact CommentTree.nil
  · intro p hp hlive
    rw [h.count p hp hlive, countVisibleForPost_eq, h.comments]
    rfl

theorem step_iff (h : Exact db) (hs : step blindThreshold db op = some db') :
    CommentTree db'.comments ∧ (Counted db op ↔ CountExact db') := by
  have hkept {db' : Db} (h' : Exact db') : CommentTree db'.comments ∧ (True ↔ CountExact db') :=
    ⟨h'.tree, iff_of_true trivial h'.count⟩
  cases op with
  | createComment postId userId content parentId commentId notificationId now =>
    simp only [step] at hs
    split at hs
    · cases hs
    · rename_i hnew
      refine h.createComment postId userId content parentId commentId notificationId now ?_
        (Option.some.inj hs).symm
      simpa using hnew
  | deleteComment postId commentId now =>
    exact h.deleteComment postId commentId now (Option.some.inj hs).symm
  | blind t id now =>
    cases hs
    apply hkept
    rw [AdminService.blind, orNotFound_db]
    exact h.setBlinded t id now
  | unblind t id now =>
    cases hs
    apply hkept
    rw [AdminService.unblind, orNotFound_db]
    exact h.unblind t id now
  | resetReports t id now =>
    cases hs
    apply hkept
    rw [AdminService.resetReports, orNotFound_db]
    have hrep : Exact (ReportsRepository.deleteByTarget db (moderationTarget t).targetType id now) :=
      h.congr rfl rfl
    exact hrep.resetReports t id now
  | submitReport reporter t id reason reportId now =>
    cases hs
    exact hkept (h.submitReport blindThreshold reporter t id reason reportId now)
  | deletePost postId now =>
    cases hs
    exact hkept (h.deletePost postId now)

/-- From a database without comments the counters are right in every state of a run exactly when
every creation and deletion in it changes the number of visible comments by one. -/
theorem comment_count_exact_iff (blindThreshold : Int) (h : WithoutComments db)
    (hrun : exec (step blindThreshold) db ops = some db') :
    Along (step blindThreshold) Counted db ops ↔ Always (step blindThreshold) CountExact db ops :=
  along_iff_always (fun ht hc hs => step_iff ⟨ht, hc⟩ hs) h.exact.tree h.exact.count hrun

def sampleDb : Db where
  posts := [{
    id := 1, userId := some 10, title := "산책", content := "오늘 산책 다녀왔어요",
    categoryId := none, viewCount := 0, likeCount := 0, commentCount := 0, reportCount := 0,
    isBlinded := false, createdAt := 0, updatedAt := 0, deletedAt := none, version := 1 }]

theorem sampleDb_withoutComments : WithoutComments sampleDb := by
  apply WithoutComments.mk rfl
  intro p hp _
  cases List.mem_singleton.mp hp
  rfl

def replyDeletedRun : List Op :=
  [.createComment 1 11 "귀여워요" none 101 201 1, .createComment 1 10 "고마워요" (some 101) 102 202 2,
   .deleteComment 1 102 3]

theorem comment_count_exact_iff_replyDeletedRun :
    WithoutComments sampleDb ∧ (exec (step 5) sampleDb replyDeletedRun).isSome ∧
    (Along (step 5) Counted sampleDb replyDeletedRun ↔
      Always (step 5) CountExact sampleDb replyDeletedRun) := by
  have hrun : ∃ db', exec (step 5) sampleDb replyDeletedRun = some db' := ⟨_, rfl⟩
  obtain ⟨db', hrun⟩ := hrun
  exact ⟨sampleDb_withoutComments, by rw [hrun]; rfl,
    comment_count_exact_iff 5 sampleDb_withoutComments hrun⟩

def rootDeletedRun : List Op :=
  [.createComment 1 11 "귀여워요" none 101 201 1, .createComment 1 10 "고마워요" (some 101) 102 202 2,
   .deleteComment 1 101 3]

/-- After the root is gone the post still counts one comment and none is visible. -/
theorem comment_count_not_exact : ¬ ∀ db ops db', WithoutComments db →
    exec (step 5) db ops = some db' → CountExact db' := by
  intro h
  have hrun : ∃ db', exec (step 5) sampleDb rootDeletedRun = some db' ∧
      db'.posts.map (fun p => (p.deletedAt, p.commentCount)) = [(none, 1)] ∧
      countVisibleForPost db' 1 = 0 ∧ db'.posts.map (·.id) = [1] := by
    exact ⟨_, rfl, rfl, rfl, rfl⟩
  obtain ⟨db', he, hposts, hvis, hids⟩ := hrun
  have hexact := h sampleDb rootDeletedRun db' sampleDb_withoutComments he
  match hp : db'.posts with
  | [] => simp [hp] at hposts
  | p :: ps =>
    simp only [hp, List.map_cons, List.cons.injEq, Prod.mk.injEq] at hposts hids
    have hcount := hexact p (hp ▸ List.mem_cons_self) hposts.1.1
    rw [hids.1, hvis, hposts.1.2] at hcount
    cases hcount

end CommentCount

end PuppyTalk
