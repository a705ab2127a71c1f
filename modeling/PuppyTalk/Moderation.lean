import PuppyTalk.Comments

namespace PuppyTalk

namespace ReportsRepository

def createReport (db : Db) (id reporterId : Uuid) (targetType : TargetType) (targetId : Uuid)
    (reason : Option String) (now : Timestamp) : Db :=
  { db with reports := db.reports ++ [{
      id := id, reporterId := reporterId, targetType := targetType, targetId := targetId,
      reason := reason, createdAt := now, deletedAt := none }] }

def deleteByTarget (db : Db) (targetType : TargetType) (targetId : Uuid) (now : Timestamp) : Db :=
  let reports := Table.update
    (fun r => decide (r.targetType = targetType) && r.targetId == targetId && r.deletedAt.isNone)
    (fun r => { r with deletedAt := some now }) db.reports
  { db with reports := reports }

end ReportsRepository

/-- `_ModerationRepo` with its `not_found`. -/
structure ModerationTarget where
  targetType : TargetType
  incrementReportCount : Db → Uuid → Timestamp → Option Int × Db
  setBlinded : Db → Uuid → Timestamp → Bool × Db
  unblind : Db → Uuid → Timestamp → Bool × Db
  resetReports : Db → Uuid → Timestamp → Bool × Db
  notFound : ApiException

def moderationTarget : TargetType → ModerationTarget
  | .post =>
    { targetType := .post
      incrementReportCount := PostsRepository.incrementReportCount
      setBlinded := PostsRepository.setBlinded
      unblind := PostsRepository.unblind
      resetReports := PostsRepository.resetReports
      notFound := .postNotFound }
  | .comment =>
    { targetType := .comment
      incrementReportCount := fun db id _ => CommentsRepository.incrementReportCount db id
      setBlinded := CommentModeration.setBlinded
      unblind := CommentModeration.unblind
      resetReports := CommentModeration.resetReports
      notFound := .commentNotFound }

namespace ReportService

structure ReportSubmitData where
  reported : Bool
  blinded : Bool
  deriving DecidableEq, Repr

/-- `submit_report`; `blindThreshold` is `REPORT_BLIND_THRESHOLD`. -/
def submitReport (blindThreshold : Int) (db : Db) (reporterId : Uuid) (targetType : TargetType)
    (targetId : Uuid) (reason : ReportReason) (reportId : Uuid) (now : Timestamp) :
    Except ApiException ReportSubmitData × Db :=
  let target := moderationTarget targetType
  db.begin fun db =>
    match target.incrementReportCount db targetId now with
    | (none, _) => .error target.notFound
    | (some newCount, db) =>
      let db := ReportsRepository.createReport db reportId reporterId target.targetType targetId
        (some reason.value) now
      if blindThreshold ≤ newCount then
        .ok ({ reported := true, blinded := true }, (target.setBlinded db targetId now).2)
      else .ok ({ reported := true, blinded := false }, db)

end ReportService

namespace AdminService

/-- The not-found of a moderation call is raised after its transaction has committed. -/
def orNotFound (target : ModerationTarget) : Bool × Db → Except ApiException Unit × Db
  | (true, db) => (.ok (), db)
  | (false, db) => (.error target.notFound, db)

def blind (db : Db) (targetType : TargetType) (targetId : Uuid) (now : Timestamp) :
    Except ApiException Unit × Db :=
  let t := moderationTarget targetType
  orNotFound t (t.setBlinded db targetId now)

def unblind (db : Db) (targetType : TargetType) (targetId : Uuid) (now : Timestamp) :
    Except ApiException Unit × Db :=
  let t := moderationTarget targetType
  orNotFound t (t.unblind db targetId now)

def resetReports (db : Db) (targetType : TargetType) (targetId : Uuid) (now : Timestamp) :
    Except ApiException Unit × Db :=
  let t := moderationTarget targetType
  orNotFound t (t.resetReports (ReportsRepository.deleteByTarget db t.targetType targetId now)
    targetId now)

end AdminService

namespace AdminService

inductive Call where
  | blind
  | unblind
  | resetReports
  deriving DecidableEq, Repr

def Call.run : Call → Db → TargetType → Uuid → Timestamp → Except ApiException Unit × Db
  | .blind => AdminService.blind
  | .unblind => AdminService.unblind
  | .resetReports => AdminService.resetReports

end AdminService

section FailedModeration

def targetAlive (db : Db) : TargetType → Uuid → Bool
  | .post, targetId => db.posts.any fun p => p.id == targetId && p.deletedAt.isNone
  | .comment, targetId => db.comments.any fun c => c.id == targetId && c.deletedAt.isNone

def hasLiveReport (db : Db) (targetType : TargetType) (targetId : Uuid) : Bool :=
  db.reports.any fun r =>
    decide (r.targetType = targetType) && r.targetId == targetId && r.deletedAt.isNone

theorem Db.updatePosts_none {db : Db} {conds : Post → Bool} {values : Post → Post}
    {returning : Post → β} (h : (db.updatePosts conds values returning).1.isSome = false) :
    (db.updatePosts conds values returning).2 = db := by
  have hn : db.posts.find? conds = none := by
    simpa only [Db.updatePosts, Table.updateReturning, Option.isSome_map,
      Option.isSome_eq_false_iff, Option.isNone_iff_eq_none] using h
  simp only [Db.updatePosts, Table.updateReturning, Table.update_eq_self values hn]

theorem Db.updateComments_none {db : Db} {conds : Comment → Bool} {values : Comment → Comment}
    {returning : Comment → β} (h : (db.updateComments conds values returning).1.isSome = false) :
    (db.updateComments conds values returning).2 = db := by
  have hn : db.comments.find? conds = none := by
    simpa only [Db.updateComments, Table.updateReturning, Option.isSome_map,
      Option.isSome_eq_false_iff, Option.isNone_iff_eq_none] using h
  simp only [Db.updateComments, Table.updateReturning, Table.update_eq_self values hn]

theorem CommentModeration.afterTransition_false {r : Option Uuid × Db}
    (h : (afterTransition commentId now r).1 = false) : r.1.isSome = false := by
  obtain ⟨_ | postId, db⟩ := r
  · rfl
  · exact Bool.noConfusion h

theorem CommentModeration.afterTransition_none {r : Option Uuid × Db} (h : r.1.isSome = false) :
    (afterTransition commentId now r).2 = r.2 := by
  obtain ⟨_ | postId, db⟩ := r
  · rfl
  · exact nomatch h

theorem CommentModeration.setBlinded_false
    (h : (CommentModeration.setBlinded db commentId now).1 = false) :
    (CommentModeration.setBlinded db commentId now).2 = db := by
  have hn := CommentModeration.afterTransition_false h
  exact (CommentModeration.afterTransition_none hn).trans (Db.updateComments_none hn)

theorem CommentModeration.unblind_none
    (h : (CommentsRepository.unblindIfBlinded db commentId now).1.isSome = false) :
    (CommentModeration.unblind db commentId now).2 = db :=
  (CommentModeration.afterTransition_none h).trans (Db.updateComments_none h)

theorem CommentModeration.unblind_false (h : (CommentModeration.unblind db commentId now).1 = false) :
    (CommentModeration.unblind db commentId now).2 = db :=
  CommentModeration.unblind_none (CommentModeration.afterTransition_false h)

theorem CommentsRepository.unblindIfBlinded_dead (h : targetAlive db .comment commentId = false) :
    (CommentsRepository.unblindIfBlinded db commentId now).1.isSome = false := by
  have hdead := List.any_eq_false.mp h
  have hnone : db.comments.find?
      (fun c => c.id == commentId && c.deletedAt.isNone && c.isBlinded) = none := by
    refine List.find?_eq_none.mpr fun c hc hp => hdead c hc ?_
    exact (Bool.and_eq_true_iff.mp hp).1
  simp only [CommentsRepository.unblindIfBlinded, Db.updateComments, Table.updateReturning, hnone,
    Option.map_none, Option.isSome_none]

theorem CommentModeration.afterTransition_comments (r : Option Uuid × Db) :
    (afterTransition commentId now r).2.comments = r.2.comments := by
  obtain ⟨_ | postId, db⟩ := r
  · rfl
  · rfl

theorem targetAlive_unblind (db : Db) (commentId : Uuid) (now : Timestamp) :
    targetAlive (CommentModeration.unblind db commentId now).2 .comment commentId =
      targetAlive db .comment commentId := by
  unfold targetAlive CommentModeration.unblind
  rw [CommentModeration.afterTransition_comments]
  simp only [CommentsRepository.unblindIfBlinded, Db.updateComments, Table.updateReturning,
    Table.update, List.any_map]
  congr 1
  funext c
  simp only [Function.comp_apply]
  split <;> rfl

theorem CommentsRepository.resetReports_fst (db : Db) (commentId : Uuid) (now : Timestamp) :
    (CommentsRepository.resetReports db commentId now).1 = targetAlive db .comment commentId := by
  simp only [CommentsRepository.resetReports, Db.updateComments, Table.updateReturning,
    Option.isSome_map, targetAlive]
  exact List.isSome_find?

theorem moderationTarget_resetReports (db : Db) (targetType : TargetType) (targetId : Uuid)
    (now : Timestamp) :
    ((moderationTarget targetType).resetReports db targetId now).1 =
      targetAlive db targetType targetId := by
  cases targetType with
  | post =>
    simp only [moderationTarget, PostsRepository.resetReports, PostsRepository.updatePost,
      Db.updatePosts, Table.updateReturning, Option.isSome_map, targetAlive, Bool.not_true,
      Bool.false_or]
    exact List.isSome_find?
  | comment =>
    exact (CommentsRepository.resetReports_fst _ _ _).trans (targetAlive_unblind db targetId now)

theorem moderationTarget_resetReports_dead (h : targetAlive db targetType targetId = false) :
    ((moderationTarget targetType).resetReports db targetId now).2 = db := by
  cases targetType with
  | post =>
    have hfst := moderationTarget_resetReports db .post targetId now
    exact Db.updatePosts_none (hfst.trans h)
  | comment =>
    have hkeep : (CommentModeration.unblind db targetId now).2 = db :=
      CommentModeration.unblind_none (CommentsRepository.unblindIfBlinded_dead h)
    have hfst := CommentsRepository.resetReports_fst db targetId now
    show (CommentsRepository.resetReports (CommentModeration.unblind db targetId now).2
      targetId now).2 = db
    rw [hkeep]
    exact Db.updateComments_none (hfst.trans h)

theorem moderationTarget_setBlinded_false
    (h : ((moderationTarget targetType).setBlinded db targetId now).1 = false) :
    ((moderationTarget targetType).setBlinded db targetId now).2 = db := by
  cases targetType with
  | post => exact Db.updatePosts_none h
  | comment => exact CommentModeration.setBlinded_false h

theorem moderationTarget_unblind_false
    (h : ((moderationTarget targetType).unblind db targetId now).1 = false) :
    ((moderationTarget targetType).unblind db targetId now).2 = db := by
  cases targetType with
  | post => exact Db.updatePosts_none h
  | comment => exact CommentModeration.unblind_false h

theorem ReportsRepository.deleteByTarget_eq_self_iff (db : Db) (targetType : TargetType)
    (targetId : Uuid) (now : Timestamp) :
    ReportsRepository.deleteByTarget db targetType targetId now = db ↔
      hasLiveReport db targetType targetId = false := by
  have hchange : ∀ r : Report, (decide (r.targetType = targetType) && r.targetId == targetId &&
      r.deletedAt.isNone) = true → { r with deletedAt := some now } ≠ r := by
    intro r hr he
    have hlive := Option.isNone_iff_eq_none.mp (Bool.and_eq_true_iff.mp hr).2
    exact nomatch (congrArg Report.deletedAt he).trans hlive
  refine Iff.trans ⟨fun h => congrArg Db.reports h, fun h => ?_⟩
    (Table.update_eq_self_iff hchange)
  exact congrArg (fun reports => { db with reports := reports }) h

theorem AdminService.orNotFound_fst (target : ModerationTarget) (r : Bool × Db) :
    (AdminService.orNotFound target r).1 = .error target.notFound ↔ r.1 = false := by
  obtain ⟨_ | _, db⟩ := r
  · exact iff_of_true rfl rfl
  · exact iff_of_false nofun nofun

theorem AdminService.orNotFound_snd (target : ModerationTarget) (r : Bool × Db) :
    (AdminService.orNotFound target r).2 = r.2 := by
  obtain ⟨_ | _, db⟩ := r
  · rfl
  · rfl

/-- A failed blinding or unblinding writes nothing. A failed reset has already deleted the reports
on its target, so it writes nothing just when there were none to delete. -/
theorem AdminService.notFound_unchanged_iff (call : AdminService.Call) (db : Db)
    (targetType : TargetType) (targetId : Uuid) (now : Timestamp) :
    ((call.run db targetType targetId now).1 = .error (moderationTarget targetType).notFound →
        (call.run db targetType targetId now).2 = db) ↔
      (call = .resetReports → targetAlive db targetType targetId = false →
        hasLiveReport db targetType targetId = false) := by
  cases call with
  | blind =>
    refine iff_of_true (fun h => ?_) nofun
    have hfalse := (AdminService.orNotFound_fst _ _).mp h
    exact (AdminService.orNotFound_snd _ _).trans (moderationTarget_setBlinded_false hfalse)
  | unblind =>
    refine iff_of_true (fun h => ?_) nofun
    have hfalse := (AdminService.orNotFound_fst _ _).mp h
    exact (AdminService.orNotFound_snd _ _).trans (moderationTarget_unblind_false hfalse)
  | resetReports =>
    have htype : (moderationTarget targetType).targetType = targetType := by
      cases targetType <;> rfl
    -- the reports are deleted first, which leaves the target's row as it was
    have halive : targetAlive (ReportsRepository.deleteByTarget db targetType targetId now)
        targetType targetId = targetAlive db targetType targetId := by
      cases targetType <;> rfl
    simp only [AdminService.Call.run, AdminService.resetReports, AdminService.orNotFound_fst,
      AdminService.orNotFound_snd, moderationTarget_resetReports, htype, halive, true_imp_iff]
    refine imp_congr_right fun hdead => ?_
    rw [moderationTarget_resetReports_dead (halive.trans hdead)]
    exact ReportsRepository.deleteByTarget_eq_self_iff db targetType targetId now

/-- Resetting the reports of a deleted post answers 404 and deletes them all the same. -/
theorem AdminService.resetReports_notFound_writes :
    let post : Post := {
      id := 1, userId := some 2, title := "t", content := "c", categoryId := none, viewCount := 0,
      likeCount := 0, commentCount := 0, reportCount := 1, isBlinded := false, createdAt := 0,
      updatedAt := 0, deletedAt := some 5, version := 1 }
    let report : Report := {
      id := 3, reporterId := 4, targetType := .post, targetId := 1, reason := none,
      createdAt := 1, deletedAt := none }
    let db : Db := { posts := [post], reports := [report] }
    AdminService.resetReports db .post 1 9 =
      (.error .postNotFound, { db with reports := [{ report with deletedAt := some 9 }] }) := by
  decide

end FailedModeration

end PuppyTalk
