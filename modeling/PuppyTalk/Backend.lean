import PuppyTalk.ChatTransactions
import PuppyTalk.ModerationTransactions

namespace PuppyTalk.Backend

open ImageLifecycle (SignUpRequest)
open Backend.ChatService (ChatMessageSend)
open Backend.UserService (PurgeJob)

/-- The requests, with the ids they draw, their clock and the answers that are free. -/
inductive Request where
  | like (target : TargetType) (targetId userId notificationId : Uuid) (now : Timestamp)
  | unlike (target : TargetType) (targetId userId : Uuid) (now : Timestamp)
  | createComment (postId userId : Uuid) (content : String) (parentId : Option Uuid)
      (commentId notificationId : Uuid) (now : Timestamp)
  | deleteComment (postId commentId : Uuid) (now : Timestamp)
  | incrementView (postId : Uuid) (now : Timestamp)
  | flushViewCounts (fields : List (Uuid × Int)) (now : Timestamp)
  | updatePost (postId : Uuid) (data : PostUpdateRequest) (categoryExists : Bool)
      (rowIds : Uuid → Uuid) (now : Timestamp)
  | deletePost (postId : Uuid) (now : Timestamp)
  | submitReport (reporterId : Uuid) (target : TargetType) (targetId : Uuid) (reason : ReportReason)
      (reportId : Uuid) (now : Timestamp)
  | blind (target : TargetType) (targetId : Uuid) (now : Timestamp)
  | unblind (target : TargetType) (targetId : Uuid) (now : Timestamp)
  | resetReports (target : TargetType) (targetId : Uuid) (now : Timestamp)
  | purge (job : PurgeJob) (chunk : Nat)
  | deleteUser (userId : Uuid) (now : Timestamp)
  | toggleBlock (blockerId targetUserId : Uuid) (now : Timestamp)
  | setUserStatus (userId : Uuid) (status : UserStatus) (now : Timestamp)
  | signup (userId : Uuid) (data : SignUpRequest) (getReply delReply : Reply) (now : Timestamp)
  | resolveDirectRoom (userId peerId roomId : Uuid) (retries : Nat) (now : Timestamp)
  | sendDm (socket : Socket) (payload : ChatMessageSend) (roomId messageId : Uuid) (retries : Nat)
      (now : Timestamp)
  | disconnect (socket : Socket)

def once (x : TxM α) : TxM (Option Request) := x >>= fun _ => .pure none

def program (cfg : Config) : Request → TxM (Option Request)
  | .like target targetId userId notificationId now =>
    once (LikeService.like (likeTarget target) targetId userId notificationId now)
  | .unlike target targetId userId now =>
    once (LikeService.unlike (likeTarget target) targetId userId now)
  | .createComment postId userId content parentId commentId notificationId now =>
    once (CommentService.createComment postId userId content parentId commentId notificationId now)
  | .deleteComment postId commentId now => once (CommentService.deleteComment postId commentId now)
  | .incrementView postId now => once (PostService.incrementView postId now)
  | .flushViewCounts fields now => once (PostService.flushViewCounts fields now)
  | .updatePost postId data categoryExists rowIds now =>
    once (PostService.updatePost cfg postId data categoryExists rowIds now)
  | .deletePost postId now => once (PostService.deletePost postId now)
  | .submitReport reporterId target targetId reason reportId now =>
    once (ReportService.submitReport cfg.reportBlindThreshold reporterId target targetId reason
      reportId now)
  | .blind target targetId now => once (AdminService.blind target targetId now)
  | .unblind target targetId now => once (AdminService.unblind target targetId now)
  | .resetReports target targetId now => once (AdminService.resetReports target targetId now)
  | .purge job chunk => do
    let more ← UserService.purgeChunk job chunk
    pure (if more then some (.purge job (chunk + 1)) else none)
  | .deleteUser userId now => once (UserService.deleteUser userId now)
  | .toggleBlock blockerId targetUserId now =>
    once (UserService.toggleBlockUser blockerId targetUserId now)
  | .setUserStatus userId status now => once (AdminService.setUserStatus userId status now)
  | .signup userId data getReply delReply now =>
    once (AuthService.signup cfg userId data getReply delReply now)
  | .resolveDirectRoom userId peerId roomId retries now =>
    once (ChatService.resolveDirectRoom userId peerId roomId retries now)
  | .sendDm socket payload roomId messageId retries now =>
    once (ChatService.sendDmFromWs socket payload roomId messageId retries now)
  | .disconnect socket => once (ChatService.disconnect socket)

abbrev World := Txn.World Store Outside Request Statement (Option Nat)

abbrev State := Txn.State Store Row Outside Failure Statement (Option Nat) Request

abbrev Spec := Txn.Spec Store Row Outside Failure Statement (Option Nat) Request

abbrev Known := Txn.Known Store Row Outside Statement (Option Nat) Request

abbrev Commit := Txn.Commit Store Request Statement (Option Nat)

abbrev State.start (db : Store) (ext : Outside) : State := Txn.State.init db ext

abbrev step (cfg : Config) : State → Txn.Label Row Request → Option State := Txn.step (program cfg)

namespace Sample

/-! A small database for runs on fixed inputs. -/

def config : Config where
  reportBlindThreshold := 5
  lower := id

def user (id : Uuid) : User where
  id := id
  version := 1
  email := toString id
  password := ""
  nickname := toString id
  profileImageId := none
  status := .active
  createdAt := 0
  updatedAt := 0
  deletedAt := none

def post (id userId : Uuid) : Post where
  id := id
  userId := some userId
  title := ""
  content := ""
  categoryId := none
  viewCount := 0
  likeCount := 0
  commentCount := 0
  reportCount := 0
  isBlinded := false
  createdAt := 0
  updatedAt := 0
  deletedAt := none
  version := 1

def store : Store where
  users := [user 1, user 2]
  posts := [post 10 1]

def outside : Outside where
  uploadTokens _ := none
  roomCache _ := []

def stmt (i : Nat) (rows : List Row) : List (Txn.Label Row Request) :=
  .run i :: (rows.map (.lock i) ++ [.run i])

theorem store_valid : store.Valid := by
  constructor <;> decide

end Sample

end PuppyTalk.Backend
