import PuppyTalk.Moderation
import PuppyTalk.Python
import PuppyTalk.Schemas

namespace PuppyTalk

open Paging

deriving instance Inhabited for TargetType

structure ReportedTarget where
  targetType : TargetType
  targetId : Uuid
  reportCount : Int
  createdAt : Timestamp
  deriving DecidableEq, Repr

def ReportedTarget.rank (t : ReportedTarget) : Int ×ₗ Timestamp ×ₗ Uuid :=
  toLex (t.reportCount, toLex (t.createdAt, t.targetId))

def Post.reportedTarget (p : Post) : ReportedTarget where
  targetType := .post
  targetId := p.id
  reportCount := p.reportCount
  createdAt := p.createdAt

def Comment.reportedTarget (c : Comment) : ReportedTarget where
  targetType := .comment
  targetId := c.id
  reportCount := c.reportCount
  createdAt := c.createdAt

namespace AdminReportsRepository

def postSel (db : Db) : List ReportedTarget :=
  (db.posts.filter fun p =>
    p.deletedAt.isNone && decide (0 < p.reportCount) && p.userId.isSome).map Post.reportedTarget

def commentSel (db : Db) : List ReportedTarget :=
  (db.comments.filter fun c =>
    c.deletedAt.isNone && decide (0 < c.reportCount) && c.authorId.isSome).map
      Comment.reportedTarget

def pageReportedTargets (db : Db) (offset size : Nat) : List (TargetType × Uuid) × Nat :=
  let u := postSel db ++ commentSel db
  ((slice offset size (orderBy (· > ·) ReportedTarget.rank u)).map
    fun t => (t.targetType, t.targetId), u.length)

end AdminReportsRepository

structure ReportMeta where
  reasons : TargetType × Uuid → List String := fun _ => []
  lastAt : TargetType × Uuid → Option Timestamp := fun _ => none

def Report.givenReason (r : Report) : Option String := r.reason.filter (· ≠ "")

def Report.target (r : Report) : TargetType × Uuid := (r.targetType, r.targetId)

def ReportMeta.add (m : ReportMeta) (r : Report) : ReportMeta where
  reasons := match r.givenReason with
    | some reason => Function.update m.reasons r.target (m.reasons r.target ++ [reason])
    | none => m.reasons
  lastAt :=
    if (m.lastAt r.target).all (· < r.createdAt) then
      Function.update m.lastAt r.target (some r.createdAt)
    else m.lastAt

namespace ReportsRepository

def bulkReportMeta (db : Db) (postIds commentIds : List Uuid) : ReportMeta :=
  if postIds = [] ∧ commentIds = [] then {}
  else
    let inArm (r : Report) : Bool := match r.targetType with
      | .post => postIds.contains r.targetId
      | .comment => commentIds.contains r.targetId
    let rows := orderBy (· < ·) (fun r => toLex (r.targetId, r.createdAt))
      (db.reports.filter fun r => inArm r && r.deletedAt.isNone)
    rows.foldl ReportMeta.add {}

end ReportsRepository

def PostsRepository.getReportedByIds (db : Db) (postIds : List Uuid) : List Post :=
  db.posts.filter fun p => postIds.contains p.id

def PostsRepository.getTitlesByIds (db : Db) (postIds : List Uuid) (id : Uuid) : Option String :=
  (db.posts.find? fun p => p.id == id && postIds.contains p.id && p.deletedAt.isNone).map (·.title)

def CommentsRepository.getReportedByIds (db : Db) (commentIds : List Uuid) : List Comment :=
  db.comments.filter fun c => commentIds.contains c.id

structure ReportedPostAuthorInfo where
  id : Uuid
  nickname : String
  profileImageUrl : Option String
  status : UserStatus
  deriving DecidableEq, Repr

structure ReportedPostItem where
  targetType : TargetType
  id : Uuid
  postId : Uuid
  title : String
  contentPreview : String
  userId : Uuid
  author : Option ReportedPostAuthorInfo
  authorStatus : Option UserStatus
  reportCount : Int
  reportReasons : List String
  isBlinded : Bool
  createdAt : Timestamp
  lastReportedAt : Option Timestamp
  deriving DecidableEq, Repr, Inhabited

namespace AdminService

def contentPreviewLen : Nat := 80

def contentPreview (content : String) : String :=
  String.ofList (content.toList.take contentPreviewLen) ++
    if contentPreviewLen < Python.len content then "…" else ""

def authorInfo (buildUrl : String → String) (db : Db) (userId : Uuid) :
    Option ReportedPostAuthorInfo :=
  (Table.row User.id db.users userId).map fun user =>
    { id := user.id, nickname := user.nickname
      profileImageUrl := user.profileImageId.bind fun i =>
        (Table.row Image.id db.images i).map fun image => buildUrl image.fileKey
      status := user.status }

def makeItem (buildUrl : String → String) (db : Db) (reports : ReportMeta)
    (target : TargetType × Uuid) (postId : Uuid) (title : String) (userId : Uuid) (content : String)
    (reportCount : Int) (isBlinded : Bool) (createdAt : Timestamp) : ReportedPostItem where
  targetType := target.1
  id := target.2
  postId := postId
  title := title
  contentPreview := contentPreview content
  userId := userId
  author := authorInfo buildUrl db userId
  authorStatus := (authorInfo buildUrl db userId).map (·.status)
  reportCount := reportCount
  reportReasons := reports.reasons target
  isBlinded := isBlinded
  createdAt := createdAt
  lastReportedAt := reports.lastAt target

def reportedItem (buildUrl : String → String) (db : Db) (posts : List Post)
    (comments : List Comment) (titles : Uuid → Option String) (reports : ReportMeta)
    (target : TargetType × Uuid) : Option ReportedPostItem :=
  match target.1 with
  | .post => (Table.row Post.id posts target.2).bind fun p => p.userId.map fun userId =>
    makeItem buildUrl db reports target p.id p.title userId p.content p.reportCount p.isBlinded
      p.createdAt
  | .comment => (Table.row Comment.id comments target.2).bind fun c => c.authorId.map fun userId =>
    makeItem buildUrl db reports target c.postId ((titles c.postId).getD "") userId c.content
      c.reportCount c.isBlinded c.createdAt

def getReportedPosts (buildUrl : String → String) (db : Db) (page size : Nat) :
    List ReportedPostItem × Nat :=
  let (pageRows, total) := AdminReportsRepository.pageReportedTargets db (offsetOf page size) size
  let postIds := (pageRows.filter fun t => t.1 = .post).map Prod.snd
  let commentIds := (pageRows.filter fun t => t.1 = .comment).map Prod.snd
  let posts := PostsRepository.getReportedByIds db postIds
  let comments := CommentsRepository.getReportedByIds db commentIds
  let reports := ReportsRepository.bulkReportMeta db postIds commentIds
  let titles := PostsRepository.getTitlesByIds db (comments.map (·.postId))
  (pageRows.filterMap (reportedItem buildUrl db posts comments titles reports), total)

theorem foldl_add_reasons (rows : List Report) (k : TargetType × Uuid) :
    (rows.foldl ReportMeta.add {}).reasons k =
      (rows.filter fun r => r.target = k).filterMap Report.givenReason := by
  induction rows using List.reverseRecOn with
  | nil => rfl
  | append_singleton rows r ih =>
    rw [List.foldl_append, List.foldl_cons, List.foldl_nil, List.filter_append,
      List.filterMap_append, ← ih, ReportMeta.add]
    dsimp only
    by_cases hk : r.target = k
    · subst hk
      cases hr : r.givenReason <;> simp [hr]
    · cases hr : r.givenReason <;> simp [hk, Function.update_of_ne (Ne.symm hk)]

theorem foldl_add_lastAt (rows : List Report) (k : TargetType × Uuid)
    (h : (rows.filter fun r => r.target = k).Pairwise fun a b => a.createdAt < b.createdAt) :
    (rows.foldl ReportMeta.add {}).lastAt k =
      (rows.filter fun r => r.target = k).getLast?.map (·.createdAt) := by
  induction rows using List.reverseRecOn with
  | nil => rfl
  | append_singleton rows r ih =>
    rw [List.filter_append] at h
    have hlast := ih (List.pairwise_append.mp h).1
    rw [List.foldl_append, List.foldl_cons, List.foldl_nil, List.filter_append, ReportMeta.add]
    dsimp only
    by_cases hk : r.target = k
    · subst hk
      have hall : ((rows.foldl ReportMeta.add {}).lastAt r.target).all (· < r.createdAt) = true := by
        rw [hlast, Option.all_eq_true]
        intro t ht
        obtain ⟨a, ha, rfl⟩ := Option.map_eq_some_iff.mp ht
        have hlt := (List.pairwise_append.mp h).2.2 a (List.mem_of_getLast? ha) r (by simp)
        exact decide_eq_true hlt
      rw [if_pos hall]
      simp
    · have hne : (List.filter (fun r => decide (r.target = k)) [r]) = [] := by simp [hk]
      rw [hne, List.append_nil, ← hlast]
      split
      · exact Function.update_of_ne (Ne.symm hk) _ _
      · rfl

def liveReports (db : Db) (k : TargetType × Uuid) : List Report :=
  orderBy (· < ·) Report.createdAt (db.reports.filter fun r => r.target = k && r.deletedAt.isNone)

def DistinctTimes (db : Db) : Prop :=
  ((db.reports.filter (·.deletedAt.isNone)).map fun r => (r.target, r.createdAt)).Nodup

theorem mem_liveReports : r ∈ liveReports db k ↔
    r ∈ db.reports ∧ r.target = k ∧ r.deletedAt = none := by
  simp [liveReports]

theorem liveReports_times (h : DistinctTimes db) (k : TargetType × Uuid) :
    ((db.reports.filter fun r => r.target = k && r.deletedAt.isNone).map
      Report.createdAt).Nodup := by
  have hk : ((db.reports.filter fun r => r.target = k && r.deletedAt.isNone).map
      fun r => (r.target, r.createdAt)).Nodup := by
    rw [← List.filter_filter]
    exact h.sublist (List.filter_sublist.map _)
  refine List.Nodup.map_on ?_ (List.Nodup.of_map _ hk)
  intro a ha b hb he
  refine List.inj_on_of_nodup_map hk ha hb (Prod.ext ?_ he)
  simp only [List.mem_filter, Bool.and_eq_true, decide_eq_true_eq] at ha hb
  exact ha.2.1.trans hb.2.1.symm

theorem liveReports_pairwise (h : DistinctTimes db) (k : TargetType × Uuid) :
    (liveReports db k).Pairwise fun a b => a.createdAt < b.createdAt :=
  orderBy_pairwise (liveReports_times h k)

theorem filter_reportRows (h : DistinctTimes db) (inArm : Report → Bool)
    (harm : ∀ r, r.target = k → inArm r = true) :
    (orderBy (· < ·) (fun r : Report => toLex (r.targetId, r.createdAt))
      (db.reports.filter fun r => inArm r && r.deletedAt.isNone)).filter (fun r => r.target = k) =
        liveReports db k := by
  symm
  have hperm : ((orderBy (· < ·) (fun r : Report => toLex (r.targetId, r.createdAt))
      (db.reports.filter fun r => inArm r && r.deletedAt.isNone)).filter
        fun r => r.target = k).Perm
      (db.reports.filter fun r => r.target = k && r.deletedAt.isNone) := by
    refine ((orderBy_perm _).filter _).trans (.of_eq ?_)
    rw [List.filter_filter]
    apply List.filter_congr
    intro r _
    by_cases hk : r.target = k <;> simp [hk, harm]
  have hne := List.pairwise_map.mp ((hperm.map _).nodup_iff.mpr (liveReports_times h k))
  refine orderBy_eq ?_ hperm
  apply (List.Pairwise.and ((orderBy_sorted _).filter _) hne).imp_of_mem
  rintro a b ha hb ⟨hle, hne⟩
  have hid : a.targetId = b.targetId := by
    have ha := of_decide_eq_true (List.mem_filter.mp ha).2
    have hb := of_decide_eq_true (List.mem_filter.mp hb).2
    exact congrArg Prod.snd (ha.trans hb.symm)
  rw [Prod.Lex.toLex_lt_toLex, hid] at hle
  simp only [lt_irrefl, true_and, false_or, not_lt] at hle
  exact lt_of_le_of_ne hle hne

theorem bulkReportMeta_eq (h : DistinctTimes db) (postIds commentIds : List Uuid)
    (hk : k.2 ∈ match k.1 with
      | .post => postIds
      | .comment => commentIds) :
    (ReportsRepository.bulkReportMeta db postIds commentIds).reasons k =
        (liveReports db k).filterMap Report.givenReason ∧
      (ReportsRepository.bulkReportMeta db postIds commentIds).lastAt k =
        (liveReports db k).getLast?.map (·.createdAt) := by
  have hsome : ¬ (postIds = [] ∧ commentIds = []) := by
    rintro ⟨rfl, rfl⟩
    obtain ⟨_ | _, i⟩ := k <;> cases hk
  have harm : ∀ r : Report, r.target = k → (match r.targetType with
      | .post => postIds.contains r.targetId
      | .comment => commentIds.contains r.targetId) = true := by
    rintro r rfl
    obtain ⟨id, reporterId, _ | _, targetId, reason, createdAt, deletedAt⟩ := r <;>
      exact List.contains_iff_mem.mpr hk
  rw [ReportsRepository.bulkReportMeta, if_neg hsome]
  have hrows := filter_reportRows h _ harm
  constructor
  · rw [foldl_add_reasons, hrows]
  · rw [foldl_add_lastAt, hrows]
    rw [hrows]
    exact liveReports_pairwise h k

def Reported (db : Db) (t : ReportedTarget) : Prop :=
  (∃ p ∈ db.posts, p.deletedAt = none ∧ 0 < p.reportCount ∧ p.userId ≠ none ∧
      t = p.reportedTarget) ∨
    ∃ c ∈ db.comments, c.deletedAt = none ∧ 0 < c.reportCount ∧ c.authorId ≠ none ∧
      t = c.reportedTarget

structure Describes (db : Db) (t : ReportedTarget) (i : ReportedPostItem) : Prop where
  target : i.targetType = t.targetType ∧ i.id = t.targetId
  rank : i.reportCount = t.reportCount ∧ i.createdAt = t.createdAt
  post : ∀ p ∈ db.posts, t = p.reportedTarget → i.postId = p.id ∧ i.title = p.title ∧
    i.contentPreview = contentPreview p.content ∧ p.userId = some i.userId ∧
      i.isBlinded = p.isBlinded
  comment : ∀ c ∈ db.comments, t = c.reportedTarget → i.postId = c.postId ∧
    i.contentPreview = contentPreview c.content ∧ c.authorId = some i.userId ∧
      i.isBlinded = c.isBlinded
  reports : ∃ reports : List Report,
    (∀ r, r ∈ reports ↔ r ∈ db.reports ∧ r.targetType = t.targetType ∧
      r.targetId = t.targetId ∧ r.deletedAt = none) ∧
    reports.Pairwise (fun a b => a.createdAt < b.createdAt) ∧
    i.reportReasons = reports.filterMap Report.givenReason ∧
    i.lastReportedAt = reports.getLast?.map (·.createdAt)

def targets (db : Db) : List ReportedTarget :=
  orderBy (· > ·) ReportedTarget.rank
    (AdminReportsRepository.postSel db ++ AdminReportsRepository.commentSel db)

theorem mem_targets : t ∈ targets db ↔ Reported db t := by
  simp only [targets, mem_orderBy, List.mem_append, AdminReportsRepository.postSel,
    AdminReportsRepository.commentSel, List.mem_map, List.mem_filter, Bool.and_eq_true,
    Option.isNone_iff_eq_none, decide_eq_true_eq, Option.isSome_iff_ne_none, Reported]
  apply or_congr
  · constructor
    · rintro ⟨p, ⟨hp, ⟨hdel, hrc⟩, hu⟩, rfl⟩
      exact ⟨p, hp, hdel, hrc, hu, rfl⟩
    · rintro ⟨p, hp, hdel, hrc, hu, rfl⟩
      exact ⟨p, ⟨hp, ⟨hdel, hrc⟩, hu⟩, rfl⟩
  · constructor
    · rintro ⟨c, ⟨hc, ⟨hdel, hrc⟩, hu⟩, rfl⟩
      exact ⟨c, hc, hdel, hrc, hu, rfl⟩
    · rintro ⟨c, hc, hdel, hrc, hu, rfl⟩
      exact ⟨c, ⟨hc, ⟨hdel, hrc⟩, hu⟩, rfl⟩

theorem targets_pairwise (hposts : Table.Keyed Post.id db.posts)
    (hcomments : Table.Keyed Comment.id db.comments)
    (hids : ∀ p ∈ db.posts, ∀ c ∈ db.comments, p.id ≠ c.id) :
    (targets db).Pairwise fun a b => a.rank > b.rank := by
  apply orderBy_pairwise
  apply List.Nodup.of_map (fun k => (ofLex (ofLex k).2).2)
  simp only [AdminReportsRepository.postSel, AdminReportsRepository.commentSel, List.map_append,
    List.map_map]
  rw [List.nodup_append]
  refine ⟨hposts.sublist (List.filter_sublist.map _), hcomments.sublist (List.filter_sublist.map _),
    ?_⟩
  intro i hi j hj
  obtain ⟨p, hp, rfl⟩ := List.mem_map.mp hi
  obtain ⟨c, hc, rfl⟩ := List.mem_map.mp hj
  exact hids p (List.mem_filter.mp hp).1 c (List.mem_filter.mp hc).1

def liveTitle (db : Db) (id : Uuid) : Option String :=
  (db.posts.find? fun p => p.id == id && p.deletedAt.isNone).map (·.title)

def liveMeta (db : Db) : ReportMeta where
  reasons k := (liveReports db k).filterMap Report.givenReason
  lastAt k := (liveReports db k).getLast?.map (·.createdAt)

def feedItem (buildUrl : String → String) (db : Db) (t : ReportedTarget) : ReportedPostItem :=
  (reportedItem buildUrl db db.posts db.comments (liveTitle db) (liveMeta db)
    (t.targetType, t.targetId)).getD default

theorem row_filter {key : α → Uuid} {rows : List α} {ids : List Uuid}
    (hkeyed : Table.Keyed key rows) (hr : r ∈ rows) (hid : key r ∈ ids) :
    Table.row key (rows.filter fun a => ids.contains (key a)) (key r) = some r := by
  have hsub : Table.Keyed key (rows.filter fun a => ids.contains (key a)) :=
    hkeyed.sublist (List.filter_sublist.map _)
  exact hsub.row_eq (List.mem_filter.mpr ⟨hr, List.contains_iff_mem.mpr hid⟩)

theorem reportedItem_post (hrow : Table.row Post.id posts p.id = some p)
    (hu : p.userId = some userId) (buildUrl : String → String) (db : Db) (comments : List Comment)
    (titles : Uuid → Option String) (reports : ReportMeta) :
    reportedItem buildUrl db posts comments titles reports (.post, p.id) =
      some (makeItem buildUrl db reports (.post, p.id) p.id p.title userId p.content p.reportCount
        p.isBlinded p.createdAt) := by
  simp only [reportedItem, hrow, hu, Option.bind_some, Option.map_some]

theorem reportedItem_comment (hrow : Table.row Comment.id comments c.id = some c)
    (hu : c.authorId = some userId) (buildUrl : String → String) (db : Db) (posts : List Post)
    (titles : Uuid → Option String) (reports : ReportMeta) :
    reportedItem buildUrl db posts comments titles reports (.comment, c.id) =
      some (makeItem buildUrl db reports (.comment, c.id) c.postId ((titles c.postId).getD "") userId
        c.content c.reportCount c.isBlinded c.createdAt) := by
  simp only [reportedItem, hrow, hu, Option.bind_some, Option.map_some]

section Page

variable {db : Db} (hposts : Table.Keyed Post.id db.posts)
variable (hcomments : Table.Keyed Comment.id db.comments) (htimes : DistinctTimes db)
variable (buildUrl : String → String)

include hposts hcomments htimes

theorem feedItem_describes (ht : Reported db t) : Describes db t (feedItem buildUrl db t) := by
  have hreports : ∃ reports : List Report,
      (∀ r, r ∈ reports ↔ r ∈ db.reports ∧ r.targetType = t.targetType ∧
        r.targetId = t.targetId ∧ r.deletedAt = none) ∧
      reports.Pairwise (fun a b => a.createdAt < b.createdAt) ∧
      (liveMeta db).reasons (t.targetType, t.targetId) = reports.filterMap Report.givenReason ∧
      (liveMeta db).lastAt (t.targetType, t.targetId) = reports.getLast?.map (·.createdAt) := by
    refine ⟨liveReports db (t.targetType, t.targetId), fun r => ?_, liveReports_pairwise htimes _,
      rfl, rfl⟩
    rw [mem_liveReports, Report.target, Prod.mk.injEq, and_assoc]
  rcases ht with ⟨p, hp, -, -, hu, rfl⟩ | ⟨c, hc, -, -, hu, rfl⟩
  · obtain ⟨userId, hu⟩ := Option.ne_none_iff_exists'.mp hu
    have hitem : feedItem buildUrl db p.reportedTarget = makeItem buildUrl db (liveMeta db)
        (.post, p.id) p.id p.title userId p.content p.reportCount p.isBlinded p.createdAt :=
      congrArg (Option.getD · default) (reportedItem_post (hposts.row_eq hp) hu _ _ _ _ _)
    rw [hitem]
    refine ⟨⟨rfl, rfl⟩, ⟨rfl, rfl⟩, ?_, ?_, hreports⟩
    · intro q hq he
      obtain rfl := hposts.eq hp hq (congrArg ReportedTarget.targetId he)
      exact ⟨rfl, rfl, rfl, hu, rfl⟩
    · intro c _ he
      cases congrArg ReportedTarget.targetType he
  · obtain ⟨userId, hu⟩ := Option.ne_none_iff_exists'.mp hu
    have hitem : feedItem buildUrl db c.reportedTarget = makeItem buildUrl db (liveMeta db)
        (.comment, c.id) c.postId ((liveTitle db c.postId).getD "") userId c.content c.reportCount
        c.isBlinded c.createdAt :=
      congrArg (Option.getD · default) (reportedItem_comment (hcomments.row_eq hc) hu _ _ _ _ _)
    rw [hitem]
    refine ⟨⟨rfl, rfl⟩, ⟨rfl, rfl⟩, ?_, ?_, hreports⟩
    · intro p _ he
      cases congrArg ReportedTarget.targetType he
    · intro e he h
      obtain rfl := hcomments.eq hc he (congrArg ReportedTarget.targetId h)
      exact ⟨rfl, rfl, hu, rfl⟩

theorem reportedItem_feedItem {postIds commentIds : List Uuid} (ht : Reported db t)
    (hk : t.targetId ∈ match t.targetType with
      | .post => postIds
      | .comment => commentIds) :
    reportedItem buildUrl db (PostsRepository.getReportedByIds db postIds)
        (CommentsRepository.getReportedByIds db commentIds)
        (PostsRepository.getTitlesByIds db
          ((CommentsRepository.getReportedByIds db commentIds).map (·.postId)))
        (ReportsRepository.bulkReportMeta db postIds commentIds) (t.targetType, t.targetId) =
      some (feedItem buildUrl db t) := by
  obtain ⟨hreasons, hlast⟩ :=
    bulkReportMeta_eq (k := (t.targetType, t.targetId)) htimes postIds commentIds hk
  rw [feedItem]
  rcases ht with ⟨p, hp, -, -, hu, rfl⟩ | ⟨c, hc, -, -, hu, rfl⟩
  · obtain ⟨userId, hu⟩ := Option.ne_none_iff_exists'.mp hu
    simp only [Post.reportedTarget] at *
    have hrow : Table.row Post.id (PostsRepository.getReportedByIds db postIds) p.id = some p :=
      row_filter hposts hp hk
    rw [reportedItem_post hrow hu, reportedItem_post (hposts.row_eq hp) hu]
    simp only [makeItem, hreasons, hlast, Option.getD_some]
    rfl
  · obtain ⟨userId, hu⟩ := Option.ne_none_iff_exists'.mp hu
    simp only [Comment.reportedTarget] at *
    have htitle : PostsRepository.getTitlesByIds db
        ((CommentsRepository.getReportedByIds db commentIds).map (·.postId)) c.postId =
          liveTitle db c.postId := by
      have hmem : c.postId ∈ (CommentsRepository.getReportedByIds db commentIds).map (·.postId) :=
        List.mem_map_of_mem (List.mem_filter.mpr ⟨hc, List.contains_iff_mem.mpr hk⟩)
      rw [PostsRepository.getTitlesByIds, liveTitle]
      congr 2
      funext p
      by_cases he : p.id = c.postId
      · rw [he, List.contains_iff_mem.mpr hmem, Bool.and_true]
      · rw [beq_eq_false_iff_ne.mpr he]
        rfl
    have hrow : Table.row Comment.id (CommentsRepository.getReportedByIds db commentIds) c.id =
        some c := row_filter hcomments hc hk
    rw [reportedItem_comment hrow hu, reportedItem_comment (hcomments.row_eq hc) hu, htitle]
    simp only [makeItem, hreasons, hlast, Option.getD_some]
    rfl

theorem getReportedPosts_eq (page size : Nat) :
    getReportedPosts buildUrl db page size =
      ((slice (offsetOf page size) size (targets db)).map (feedItem buildUrl db),
        (targets db).length) := by
  rw [getReportedPosts, AdminReportsRepository.pageReportedTargets]
  refine Prod.ext ?_ (length_orderBy _).symm
  refine List.filterMap_map.trans (Eq.trans (List.filterMap_congr fun t ht => ?_)
    (congrFun (List.filterMap_eq_map (f := feedItem buildUrl db)) _))
  have hreported := mem_targets.mp (List.mem_of_mem_drop (List.mem_of_mem_take ht))
  refine reportedItem_feedItem hposts hcomments htimes buildUrl hreported ?_
  split
  all_goals
    rename_i htype
    simp only [List.mem_map, List.mem_filter, decide_eq_true_eq]
    exact ⟨(t.targetType, t.targetId), ⟨⟨t, ht, rfl⟩, htype⟩, rfl⟩

end Page

theorem slice_map (offset size : Nat) (f : α → β) (l : List α) :
    slice offset size (l.map f) = (slice offset size l).map f := by
  rw [slice, slice, ← List.map_drop, ← List.map_take]

/-- The pages of the feed one after another list every reported post and comment once, in order,
each with the live reports on it. -/
theorem reportedFeed_tiles (buildUrl : String → String) (db : Db)
    (hposts : Table.Keyed Post.id db.posts) (hcomments : Table.Keyed Comment.id db.comments)
    (hids : ∀ p ∈ db.posts, ∀ c ∈ db.comments, p.id ≠ c.id) (htimes : DistinctTimes db)
    (size : Nat) (hsize : 1 ≤ size) :
    ∃ (targets : List ReportedTarget) (item : ReportedTarget → ReportedPostItem),
      (∀ t, t ∈ targets ↔ Reported db t) ∧
      targets.Pairwise (fun a b => a.rank > b.rank) ∧
      (∀ t ∈ targets, Describes db t (item t)) ∧
      (∀ page, getReportedPosts buildUrl db (page + 1) size =
        ((slice (page * size) size targets).map item, targets.length)) ∧
      ∀ n, (getReportedPosts buildUrl db (n + 1) size).1 = [] →
        (List.range n).flatMap (fun page => (getReportedPosts buildUrl db (page + 1) size).1) =
          targets.map item := by
  have hpage : ∀ page, getReportedPosts buildUrl db (page + 1) size =
      ((slice (page * size) size (targets db)).map (feedItem buildUrl db), (targets db).length) :=
    fun page => getReportedPosts_eq hposts hcomments htimes buildUrl (page + 1) size
  refine ⟨targets db, feedItem buildUrl db, fun t => mem_targets,
    targets_pairwise hposts hcomments hids,
    fun t ht => feedItem_describes hposts hcomments htimes buildUrl (mem_targets.mp ht), hpage, ?_⟩
  intro n hn
  simp only [hpage, ← slice_map] at hn ⊢
  exact slices_eq hsize _ hn

def reportedDb : Db where
  posts := [{
    id := 10, userId := some 1, title := "산책", content := "같이 걸어요", categoryId := none,
    viewCount := 0, likeCount := 0, commentCount := 1, reportCount := 2, isBlinded := false,
    createdAt := 0, updatedAt := 0, deletedAt := none, version := 1 }]
  comments := [{
    id := 20, postId := 10, authorId := some 2, parentId := none, content := "멍멍",
    likeCount := 0, reportCount := 1, isBlinded := false, createdAt := 1, updatedAt := 1,
    deletedAt := none }]
  reports := [(30, .post, 10, some "스팸"), (31, .comment, 20, none), (32, .post, 10, none)].map
    fun (id, targetType, targetId, reason) => {
      id := id, reporterId := 3, targetType := targetType, targetId := targetId, reason := reason,
      createdAt := id, deletedAt := none }

theorem reportedFeed_tiles_reportedDb :
    ((List.range 2).flatMap fun page => (getReportedPosts id reportedDb (page + 1) 1).1).length =
      (getReportedPosts id reportedDb 1 1).2 := by
  obtain ⟨targets, item, -, -, -, hpage, hall⟩ := reportedFeed_tiles id reportedDb (by decide)
    (by decide) (by decide) (by unfold DistinctTimes; decide) 1 (by decide)
  rw [hall 2 rfl, List.length_map]
  exact (congrArg Prod.snd (hpage 0)).symm

end AdminService

end PuppyTalk
