import PuppyTalk.Moderation
import PuppyTalk.PostTransactions

namespace PuppyTalk.Backend

namespace PostsRepository

def incrementReportCount (postId : Uuid) (now : Timestamp) : TxM (Option Int) :=
  updateOneReturning .incrementReportCount Tables.posts
    (fun p => p.id == postId && p.deletedAt.isNone && p.userId.isSome)
    (fun p => { p with reportCount := p.reportCount + 1, updatedAt := now }) (fun _ => rfl)
    (·.reportCount)

def setBlinded (postId : Uuid) (now : Timestamp) : TxM Bool := do
  let r ← updatePost .setBlinded postId true now (fun p => { p with isBlinded := true })
    (fun _ => rfl) (·.id)
  pure r.isSome

def unblind (postId : Uuid) (now : Timestamp) : TxM Bool := do
  let r ← updatePost .unblind postId true now (fun p => { p with isBlinded := false })
    (fun _ => rfl) (·.id)
  pure r.isSome

def resetReports (postId : Uuid) (now : Timestamp) : TxM Bool := do
  let r ← updatePost .resetReports postId true now
    (fun p => { p with reportCount := 0, isBlinded := false }) (fun _ => rfl) (·.id)
  pure r.isSome

def setCommentCount (postId : Uuid) (value : Int) (now : Timestamp) : TxM Bool := do
  let r ← updatePost .setCommentCount postId false now
    (fun p => { p with commentCount := max 0 value }) (fun _ => rfl) (·.id)
  pure r.isSome

end PostsRepository

namespace CommentsRepository

def incrementReportCount (commentId : Uuid) : TxM (Option Int) :=
  updateOneReturning .incrementReportCount Tables.comments
    (fun c => c.id == commentId && c.deletedAt.isNone && c.authorId.isSome)
    (fun c => { c with reportCount := c.reportCount + 1 }) (fun _ => rfl) (·.reportCount)

def blindIfVisible (commentId : Uuid) (now : Timestamp) : TxM (Option Uuid) :=
  updateOneReturning .setBlinded Tables.comments
    (fun c => c.id == commentId && c.deletedAt.isNone && !c.isBlinded)
    (fun c => { c with isBlinded := true, updatedAt := now }) (fun _ => rfl) (·.postId)

def unblindIfBlinded (commentId : Uuid) (now : Timestamp) : TxM (Option Uuid) :=
  updateOneReturning .unblind Tables.comments
    (fun c => c.id == commentId && c.deletedAt.isNone && c.isBlinded)
    (fun c => { c with isBlinded := false, updatedAt := now }) (fun _ => rfl) (·.postId)

/-- `reset_reports` through `_update_comment` with `alive` and `touch`. -/
def resetReports (commentId : Uuid) (now : Timestamp) : TxM Bool := do
  let r ← updateOneReturning .resetReports Tables.comments
    (fun c => c.id == commentId && c.deletedAt.isNone)
    (fun c => { c with reportCount := 0, updatedAt := now }) (fun _ => rfl) (·.id)
  pure r.isSome

def countVisibleForPost (postId : Uuid) : TxM Nat :=
  query (.countVisibleForPost postId) fun d =>
    PuppyTalk.CommentsRepository.countVisibleForPost d.toDb postId

end CommentsRepository

namespace CommentModeration

def resyncCount (postId : Uuid) (now : Timestamp) : TxM Unit := do
  let count ← CommentsRepository.countVisibleForPost postId
  let _ ← PostsRepository.setCommentCount postId count now
  pure ()

def isAlive (commentId : Uuid) : TxM Bool := do
  let c ← CommentsRepository.getCommentMeta commentId
  pure (c.any fun c => c.deletedAt.isNone)

def afterTransition (commentId : Uuid) (now : Timestamp) : Option Uuid → TxM Bool
  | some postId => do
    resyncCount postId now
    pure true
  | none => isAlive commentId

def setBlinded (commentId : Uuid) (now : Timestamp) : TxM Bool := do
  let postId ← CommentsRepository.blindIfVisible commentId now
  afterTransition commentId now postId

def unblind (commentId : Uuid) (now : Timestamp) : TxM Bool := do
  let postId ← CommentsRepository.unblindIfBlinded commentId now
  afterTransition commentId now postId

def resetReports (commentId : Uuid) (now : Timestamp) : TxM Bool := do
  let _ ← unblind commentId now
  CommentsRepository.resetReports commentId now

end CommentModeration

structure ModerationTarget where
  targetType : TargetType
  incrementReportCount : Uuid → Timestamp → TxM (Option Int)
  setBlinded : Uuid → Timestamp → TxM Bool
  unblind : Uuid → Timestamp → TxM Bool
  resetReports : Uuid → Timestamp → TxM Bool
  notFound : ApiException

def moderationTarget : TargetType → ModerationTarget
  | .post =>
    { targetType := .post
      incrementReportCount := PostsRepository.incrementReportCount
      setBlinded := PostsRepository.setBlinded
      unblind := PostsRepository.unblind
      resetReports := PostsRepository.resetReports
      notFound := .postNotFound }
  | .comment =>
    { targetType := .comment
      incrementReportCount := fun id _ => CommentsRepository.incrementReportCount id
      setBlinded := CommentModeration.setBlinded
      unblind := CommentModeration.unblind
      resetReports := CommentModeration.resetReports
      notFound := .commentNotFound }

namespace ReportsRepository

def createReport (id reporterId : Uuid) (targetType : TargetType) (targetId : Uuid)
    (reason : Option String) (now : Timestamp) : TxM Unit :=
  insertRow .insertReport Tables.reports
    { id := id, reporterId := reporterId, targetType := targetType, targetId := targetId,
      reason := reason, createdAt := now, deletedAt := none }
    (references Tables.users (·.id == reporterId))

def deleteByTarget (targetType : TargetType) (targetId : Uuid) (now : Timestamp) : TxM Unit :=
  updateRows .deleteByTarget Tables.reports
    (fun r => decide (r.targetType = targetType) && r.targetId == targetId && r.deletedAt.isNone)
    (fun r => { r with deletedAt := some now }) fun _ => rfl

end ReportsRepository

namespace ReportService

open PuppyTalk.ReportService (ReportSubmitData)

/-- `submit_report`; `blindThreshold` is `REPORT_BLIND_THRESHOLD`. -/
def submitReport (blindThreshold : Int) (reporterId : Uuid) (targetType : TargetType)
    (targetId : Uuid) (reason : ReportReason) (reportId : Uuid) (now : Timestamp) :
    TxM ReportSubmitData :=
  let target := moderationTarget targetType
  transaction do
    match ← target.incrementReportCount targetId now with
    | none => raise target.notFound
    | some newCount =>
      ReportsRepository.createReport reportId reporterId target.targetType targetId (some reason.value)
        now
      if blindThreshold ≤ newCount then
        let _ ← target.setBlinded targetId now
        pure { reported := true, blinded := true }
      else pure { reported := true, blinded := false }

end ReportService

namespace AdminService

def orNotFound (target : ModerationTarget) (ok : Bool) : TxM Unit :=
  if ok then pure () else raise target.notFound

def blind (targetType : TargetType) (targetId : Uuid) (now : Timestamp) : TxM Unit := do
  let t := moderationTarget targetType
  let ok ← transaction (t.setBlinded targetId now)
  orNotFound t ok

def unblind (targetType : TargetType) (targetId : Uuid) (now : Timestamp) : TxM Unit := do
  let t := moderationTarget targetType
  let ok ← transaction (t.unblind targetId now)
  orNotFound t ok

def resetReports (targetType : TargetType) (targetId : Uuid) (now : Timestamp) : TxM Unit := do
  let t := moderationTarget targetType
  let ok ← transaction do
    ReportsRepository.deleteByTarget t.targetType targetId now
    t.resetReports targetId now
  orNotFound t ok

end AdminService

end PuppyTalk.Backend
