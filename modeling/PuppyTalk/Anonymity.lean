import PuppyTalk.Hashtags
import PuppyTalk.RecentRooms
import PuppyTalk.Withdrawal

namespace PuppyTalk

open Paging

structure RepresentativeDogInfo where
  name : String
  breed : String
  gender : DogGender
  birthDate : Int
  deriving DecidableEq, Repr

structure AuthorInfo where
  id : Uuid
  nickname : String
  profileImageId : Option Uuid
  profileImageUrl : Option String
  representativeDog : Option RepresentativeDogInfo
  deriving DecidableEq, Repr

namespace AuthorInfo

variable (buildUrl : String → String) (d : Store)

/-- `User.profile_image_url`. -/
def profileImageUrlOf (u : User) : Option String :=
  u.profileImageId.bind fun i =>
    (Table.row Image.id d.images i).map fun image => buildUrl image.fileKey

/-- The schema of a user, behind `anonymize_inactive`. -/
def ofUser (u : User) : AuthorInfo :=
  if u.status ≠ .active then
    { id := u.id, nickname := "알수없음", profileImageId := none, profileImageUrl := none
      representativeDog := none }
  else
    { id := u.id, nickname := u.nickname, profileImageId := u.profileImageId
      profileImageUrl := profileImageUrlOf buildUrl d u
      representativeDog := (PeerJoin.representative d u.id).map fun g =>
        { name := g.name, breed := g.breed, gender := g.gender, birthDate := g.birthDate } }

def load (userId : Option Uuid) : Option AuthorInfo :=
  userId.bind fun id => (Table.row User.id d.users id).map (ofUser buildUrl d)

end AuthorInfo

structure AuthoredPost where
  post : PostResponse
  author : Option AuthorInfo

structure AuthoredComment where
  comment : CommentResponse
  author : Option AuthorInfo
  replyAuthors : List (Option AuthorInfo)

def PostsRepository.getPostDetail (d : Store) (postId : Uuid) (currentUserId : Option Uuid) :
    Option (Post × Bool) :=
  (d.posts.find? fun p => p.id == postId && postVisible d.toDb currentUserId p).map fun p =>
    (p, currentUserId.any fun userId =>
      d.postLikes.any fun l => l.postId == p.id && l.userId == userId)

/-- `get_post_detail`; `extra` is what the counting of views adds to the column. -/
def PostService.getPostDetail (d : Store) (postId : Uuid) (currentUserId : Option Uuid)
    (extra : Int) : Except ApiException PostResponse :=
  match PostsRepository.getPostDetail d postId currentUserId with
  | none => .error .postNotFound
  | some (post, isLiked) =>
    let data := PostService.postToResponse d [] post
    .ok { data with isLiked := isLiked, viewCount := data.viewCount + extra }

/-- `get_room_peer_info`; what is sent is the other member. -/
def ChatService.getRoomPeerInfo (d : Store) (roomId userId : Uuid) :
    Except ApiException (Uuid × ChatPeerProfile) :=
  let rows := (d.chatRooms.filter fun r => r.id == roomId && isMine userId r).flatMap fun room =>
    (PeerJoin.apply d userId room).map fun peer => (room.id, peer)
  match rows.head? with
  | none => .error (.forbidden (some roomForbiddenMessage))
  | some row => .ok row

namespace Anonymity

section Responses

variable (buildUrl : String → String) (d : Store)

def sendPost (r : PostResponse) : AuthoredPost where
  post := r
  author := AuthorInfo.load buildUrl d r.author

def sendComment (r : CommentResponse) : AuthoredComment where
  comment := r
  author := AuthorInfo.load buildUrl d r.author
  replyAuthors := r.replies.map fun reply => AuthorInfo.load buildUrl d reply.author

end Responses

structure SameResponses (u : Unicode) (buildUrl : String → String) (viewer : Uuid)
    (s s' : Snapshot) : Prop where
  posts : ∀ size q categoryId cursor,
    (PostService.getPosts u s size q categoryId (some viewer) cursor).map
        (Prod.map (List.map (sendPost buildUrl s.toStore)) id) =
      (PostService.getPosts u s' size q categoryId (some viewer) cursor).map
        (Prod.map (List.map (sendPost buildUrl s'.toStore)) id)
  postDetail : ∀ postId extra,
    (PostService.getPostDetail s.toStore postId (some viewer) extra).map
        (sendPost buildUrl s.toStore) =
      (PostService.getPostDetail s'.toStore postId (some viewer) extra).map
        (sendPost buildUrl s'.toStore)
  comments : ∀ postId page size sort,
    (CommentService.getComments s.toStore postId page size sort (some viewer)).map
        (Prod.map (List.map (sendComment buildUrl s.toStore)) id) =
      (CommentService.getComments s'.toStore postId page size sort (some viewer)).map
        (Prod.map (List.map (sendComment buildUrl s'.toStore)) id)
  replies : ∀ postId commentId size sort cursor,
    (CommentService.getReplies s.toStore postId commentId size sort cursor (some viewer)).map
        (Prod.map (List.map (sendComment buildUrl s.toStore)) id) =
      (CommentService.getReplies s'.toStore postId commentId size sort cursor (some viewer)).map
        (Prod.map (List.map (sendComment buildUrl s'.toStore)) id)
  blockedUsers : ∀ size cursor,
    UserService.getBlockedList buildUrl s.toStore viewer size cursor =
      UserService.getBlockedList buildUrl s'.toStore viewer size cursor
  recentRooms : ∀ limit, ChatService.listRecentRooms s.toStore viewer limit =
    ChatService.listRecentRooms s'.toStore viewer limit
  roomPeer : ∀ roomId, ChatService.getRoomPeerInfo s.toStore roomId viewer =
    ChatService.getRoomPeerInfo s'.toStore roomId viewer

structure Names where
  email : String
  nickname : String

def withdrawnRow (now : Timestamp) (names : Names) (u : User) : User :=
  Registration.withdrawn now { u with email := names.email, nickname := names.nickname }

def withdrawnAs (s : Snapshot) (userId : Uuid) (now : Timestamp) (names : Names) : Snapshot :=
  { s with users := Table.update (fun u => u.id == userId) (withdrawnRow now names) s.users }

def Shared (viewer userId : Uuid) (room : ChatRoom) : Prop :=
  (room.user1Id = viewer ∧ room.user2Id = userId) ∨ (room.user1Id = userId ∧ room.user2Id = viewer)

instance (viewer userId : Uuid) (room : ChatRoom) : Decidable (Shared viewer userId room) :=
  inferInstanceAs (Decidable (_ ∨ _))

section Mask

open UsersRepository

theorem mask_toList_eq (value suffix : String) :
    (maskForWithdrawal value suffix).toList =
      (value.toList.take (255 - suffix.toList.length) ++ suffix.toList).take 255 := by
  rw [maskForWithdrawal, String.toList_ofList, deletedAtMaxLen, String.length_toList]

theorem mask_eq_iff (value value' suffix : String) :
    maskForWithdrawal value suffix = maskForWithdrawal value' suffix ↔
      value.toList.take (255 - suffix.toList.length) =
        value'.toList.take (255 - suffix.toList.length) := by
  rw [← String.toList_inj, mask_toList_eq, mask_toList_eq]
  constructor
  · intro h
    by_cases hfits : suffix.toList.length ≤ 255
    · have hwhole : ∀ v : String,
          (v.toList.take (255 - suffix.toList.length) ++ suffix.toList).take 255 =
            v.toList.take (255 - suffix.toList.length) ++ suffix.toList := by
        intro v
        apply List.take_of_length_le
        rw [List.length_append, List.length_take]
        omega
      rw [hwhole, hwhole] at h
      exact List.append_cancel_right h
    · have hzero : 255 - suffix.toList.length = 0 := by omega
      rw [hzero, List.take_zero, List.take_zero]
  · intro h
    rw [h]

end Mask

section Users

variable (s : Snapshot) (users : List User)

-- these queries do not read the table of users

theorem getPosts_users (u : Unicode) :
    PostService.getPosts u { s with users := users } = PostService.getPosts u s := rfl

theorem getPostDetail_users :
    PostService.getPostDetail { s with users := users }.toStore =
      PostService.getPostDetail s.toStore := rfl

theorem getComments_users :
    CommentService.getComments { s with users := users }.toStore =
      CommentService.getComments s.toStore := rfl

theorem getReplies_users :
    CommentService.getReplies { s with users := users }.toStore =
      CommentService.getReplies s.toStore := rfl

theorem lastMsg_users :
    ChatService.lastMsg { s with users := users }.toStore = ChatService.lastMsg s.toStore := rfl

theorem unread_users :
    ChatService.unread { s with users := users }.toStore = ChatService.unread s.toStore := rfl

end Users

section Withdrawn

variable {s : Snapshot} {userId : Uuid} {now : Timestamp} {names names' : Names}

theorem withdrawnRow_id (now : Timestamp) (names : Names) (u : User) :
    (withdrawnRow now names u).id = u.id := by
  simp only [withdrawnRow, Registration.withdrawn]

theorem withdrawnRow_nickname (now : Timestamp) (names : Names) (u : User) :
    (withdrawnRow now names u).nickname = UsersRepository.maskForWithdrawal names.nickname
      (UsersRepository.deletedAtSuffix u.id now) := by
  simp only [withdrawnRow, Registration.withdrawn]

theorem deleteUser_withdrawnAs (hids : Table.Keyed User.id s.users) (hu : u ∈ s.users)
    (hlive : u.deletedAt = none) (now : Timestamp) :
    UserService.deleteUser s.toDb u.id now =
      (.ok (), (withdrawnAs s u.id now ⟨u.email, u.nickname⟩).toDb) := by
  obtain ⟨e, hnone, -⟩ | ⟨-, hok⟩ := Registration.deleteUser_cases hids u.id now
  · have hnot := List.find?_eq_none.mp hnone u hu
    simp [hlive] at hnot
  · have hsame : Table.update (fun v => v.id == u.id && v.deletedAt.isNone)
        (Registration.withdrawn now) s.users =
        Table.update (fun v => v.id == u.id) (withdrawnRow now ⟨u.email, u.nickname⟩) s.users := by
      refine List.map_congr_left fun v hv => ?_
      by_cases hid : v.id = u.id
      · obtain rfl := hids.eq hv hu hid
        have hnone : v.deletedAt.isNone = true := Option.isNone_iff_eq_none.mpr hlive
        simp only [beq_self_eq_true, hnone, Bool.and_self, if_true, withdrawnRow]
      · simp only [beq_eq_false_iff_ne.mpr hid, Bool.false_and, Bool.false_eq_true, if_false]
    rw [hok, hsame]
    rfl

theorem ofUser_withdrawnRow (buildUrl : String → String) (d : Store) (now : Timestamp)
    (names names' : Names) (u : User) :
    AuthorInfo.ofUser buildUrl d (withdrawnRow now names u) =
      AuthorInfo.ofUser buildUrl d (withdrawnRow now names' u) := by
  simp only [AuthorInfo.ofUser, withdrawnRow, Registration.withdrawn, ne_eq, reduceCtorEq,
    not_false_eq_true, if_true]

theorem load_withdrawnAs (buildUrl : String → String) (names names' : Names)
    (author : Option Uuid) :
    AuthorInfo.load buildUrl (withdrawnAs s userId now names).toStore author =
      AuthorInfo.load buildUrl (withdrawnAs s userId now names').toStore author := by
  have hrow : ∀ names id, Table.row User.id (withdrawnAs s userId now names).users id =
      (Table.row User.id s.users id).map fun u =>
        if u.id == userId then withdrawnRow now names u else u :=
    fun names id => Table.row_update (withdrawnRow_id now names) s.users id
  have hinfo : ∀ names u, AuthorInfo.ofUser buildUrl (withdrawnAs s userId now names).toStore u =
      AuthorInfo.ofUser buildUrl s.toStore u := fun _ _ => rfl
  cases author with
  | none => simp only [AuthorInfo.load, Option.bind_none]
  | some id =>
    simp only [AuthorInfo.load, Option.bind_some, hrow]
    cases Table.row User.id s.users id with
    | none => simp only [Option.map_none]
    | some u =>
      simp only [Option.map_some, hinfo]
      split
      · exact congrArg some (ofUser_withdrawnRow buildUrl s.toStore now names names' u)
      · rfl

theorem sendPost_withdrawnAs (buildUrl : String → String) (names names' : Names) :
    sendPost buildUrl (withdrawnAs s userId now names).toStore =
      sendPost buildUrl (withdrawnAs s userId now names').toStore := by
  funext r
  rw [sendPost, sendPost, load_withdrawnAs buildUrl names names']

theorem sendComment_withdrawnAs (buildUrl : String → String) (names names' : Names) :
    sendComment buildUrl (withdrawnAs s userId now names).toStore =
      sendComment buildUrl (withdrawnAs s userId now names').toStore := by
  funext r
  simp only [sendComment, load_withdrawnAs buildUrl names names']

theorem getBlockedUsers_withdrawnAs (names names' : Names) (viewer : Uuid) (size : Nat)
    (cursor : Option Uuid) :
    UsersRepository.getBlockedUsers (withdrawnAs s userId now names).toStore viewer size cursor =
      UsersRepository.getBlockedUsers (withdrawnAs s userId now names').toStore viewer size
        cursor := by
  have hrows : ∀ (names : Names) (b : UserBlock),
      (withdrawnAs s userId now names).users.filter (fun u => u.id == b.blockedId &&
        b.blockerId == viewer && u.deletedAt.isNone && cursor.all (b.blockedId < ·)) =
      s.users.filter fun u => !(u.id == userId) && (u.id == b.blockedId &&
        b.blockerId == viewer && u.deletedAt.isNone && cursor.all (b.blockedId < ·)) := by
    intro names b
    refine Table.filter_update fun u _ => ?_
    have hdeleted : (withdrawnRow now names u).deletedAt.isNone = false := by
      simp only [withdrawnRow, Registration.withdrawn, Option.isNone_some]
    rw [hdeleted, Bool.and_false, Bool.false_and]
  unfold UsersRepository.getBlockedUsers
  simp only [hrows]
  rfl

end Withdrawn

section Rooms

variable {s : Snapshot} {userId viewer : Uuid} {now : Timestamp} {names names' : Names}
  {room : ChatRoom}

theorem withdrawnAs_valid (hv : s.Valid) : (withdrawnAs s userId now names).Valid :=
  { hv with users := hv.users.update (withdrawnRow_id now names) }

theorem apply_withdrawnAs (hc : ChatService.Constraints s.toStore) (names : Names)
    (viewer : Uuid) (room : ChatRoom) :
    PeerJoin.apply (withdrawnAs s userId now names).toStore viewer room =
      ((Table.row User.id s.users (PeerJoin.peerId viewer room)).map fun u =>
        let peer := if u.id == userId then withdrawnRow now names u else u
        PeerJoin.columns viewer room peer (PeerJoin.profileImage s.toStore peer)
          (PeerJoin.representative s.toStore peer.id)
          (PeerJoin.dogImage s.toStore (PeerJoin.representative s.toStore peer.id))).toList := by
  have hrow : Table.row User.id (withdrawnAs s userId now names).users
      (PeerJoin.peerId viewer room) = _ :=
    Table.row_update (withdrawnRow_id now names) s.users _
  rw [PeerJoin.apply_eq (withdrawnAs_valid hc.valid) hc.representative, hrow, Option.map_map]
  rfl

theorem peerId_eq_iff (viewer userId : Uuid) (room : ChatRoom) :
    ChatService.isMine viewer room = true ∧ PeerJoin.peerId viewer room = userId ↔
      Shared viewer userId room := by
  simp only [ChatService.isMine, Bool.or_eq_true, beq_iff_eq, PeerJoin.peerId, Shared]
  by_cases h : room.user1Id = viewer
  · simp only [h, true_or, if_true, true_and]
    constructor
    · exact .inl
    · rintro (h' | ⟨h₁, h₂⟩)
      · exact h'
      · exact h₂.trans h₁
  · simp only [h, false_or, if_false, false_and]
    exact And.comm

theorem apply_same (hc : ChatService.Constraints s.toStore)
    (h : PeerJoin.peerId viewer room = userId →
      UsersRepository.maskForWithdrawal names.nickname
          (UsersRepository.deletedAtSuffix userId now) =
        UsersRepository.maskForWithdrawal names'.nickname
          (UsersRepository.deletedAtSuffix userId now)) :
    PeerJoin.apply (withdrawnAs s userId now names).toStore viewer room =
      PeerJoin.apply (withdrawnAs s userId now names').toStore viewer room := by
  rw [apply_withdrawnAs hc, apply_withdrawnAs hc]
  cases hrow : Table.row User.id s.users (PeerJoin.peerId viewer room) with
  | none => simp only [Option.map_none]
  | some u =>
    by_cases hid : u.id = userId
    · have hmask := h ((Table.row_key hrow).symm.trans hid)
      simp only [Option.map_some, hid, beq_self_eq_true, if_true, PeerJoin.columns,
        PeerJoin.profileImage, withdrawnRow, Registration.withdrawn, hmask]
    · simp only [Option.map_some, beq_eq_false_iff_ne.mpr hid, Bool.false_eq_true, if_false]

theorem apply_shows (hc : ChatService.Constraints s.toStore) (hr : room ∈ s.chatRooms)
    (hpeer : PeerJoin.peerId viewer room = userId) (now : Timestamp) (names : Names) :
    ∃ peer, PeerJoin.apply (withdrawnAs s userId now names).toStore viewer room = [peer] ∧
      peer.peerNickname = UsersRepository.maskForWithdrawal names.nickname
        (UsersRepository.deletedAtSuffix userId now) := by
  obtain ⟨u, hu, hid, -⟩ := ChatService.peerId_spec hc hr viewer
  have hrow : Table.row User.id s.users (PeerJoin.peerId viewer room) = some u :=
    hid ▸ hc.valid.users.row_eq hu
  have huser : (u.id == userId) = true := beq_iff_eq.mpr (hid.trans hpeer)
  rw [apply_withdrawnAs hc, hrow]
  simp only [huser, if_true, Option.map_some, Option.toList_some]
  refine ⟨_, rfl, ?_⟩
  simp only [PeerJoin.columns, withdrawnRow_nickname, hid.trans hpeer]

theorem recentRooms_withdrawnAs
    (h : ∀ room ∈ s.chatRooms, ChatService.isMine viewer room = true →
      PeerJoin.apply (withdrawnAs s userId now names).toStore viewer room =
        PeerJoin.apply (withdrawnAs s userId now names').toStore viewer room) (limit : Nat) :
    ChatService.listRecentRooms (withdrawnAs s userId now names).toStore viewer limit =
      ChatService.listRecentRooms (withdrawnAs s userId now names').toStore viewer limit := by
  have hrows : ChatService.recentRoomRows (withdrawnAs s userId now names).toStore viewer =
      ChatService.recentRoomRows (withdrawnAs s userId now names').toStore viewer := by
    have hlast : ∀ names, ChatService.lastMsg (withdrawnAs s userId now names).toStore viewer =
        ChatService.lastMsg s.toStore viewer := fun _ => congrFun (lastMsg_users s _) viewer
    have hunread : ∀ names, ChatService.unread (withdrawnAs s userId now names).toStore viewer =
        ChatService.unread s.toStore viewer := fun _ => congrFun (unread_users s _) viewer
    have hrooms : ∀ names, (withdrawnAs s userId now names).chatRooms = s.chatRooms := fun _ => rfl
    simp only [ChatService.recentRoomRows, hlast, hunread, hrooms]
    refine List.flatMap_congr fun room hroom => ?_
    obtain ⟨hr, hmine⟩ := List.mem_filter.mp hroom
    rw [h room hr hmine]
  rw [ChatService.listRecentRooms, ChatService.listRecentRooms, hrows]

theorem getRoomPeerInfo_withdrawnAs
    (h : ∀ room ∈ s.chatRooms, ChatService.isMine viewer room = true →
      PeerJoin.apply (withdrawnAs s userId now names).toStore viewer room =
        PeerJoin.apply (withdrawnAs s userId now names').toStore viewer room) (roomId : Uuid) :
    ChatService.getRoomPeerInfo (withdrawnAs s userId now names).toStore roomId viewer =
      ChatService.getRoomPeerInfo (withdrawnAs s userId now names').toStore roomId viewer := by
  have hrows : (s.chatRooms.filter fun r => r.id == roomId && ChatService.isMine viewer r).flatMap
      (fun room => (PeerJoin.apply (withdrawnAs s userId now names).toStore viewer room).map
        fun peer => (room.id, peer)) =
      (s.chatRooms.filter fun r => r.id == roomId && ChatService.isMine viewer r).flatMap
        fun room => (PeerJoin.apply (withdrawnAs s userId now names').toStore viewer room).map
          fun peer => (room.id, peer) := by
    refine List.flatMap_congr fun room hroom => ?_
    obtain ⟨hr, hmine⟩ := List.mem_filter.mp hroom
    rw [h room hr (Bool.and_eq_true_iff.mp hmine).2]
  have hrooms : ∀ names, (withdrawnAs s userId now names).chatRooms = s.chatRooms := fun _ => rfl
  simp only [ChatService.getRoomPeerInfo, hrooms, hrows]

theorem getRoomPeerInfo_shows (hc : ChatService.Constraints s.toStore) (hr : room ∈ s.chatRooms)
    (hshared : Shared viewer userId room) (now : Timestamp) (names : Names) :
    ∃ peer : ChatPeerProfile,
      ChatService.getRoomPeerInfo (withdrawnAs s userId now names).toStore room.id viewer =
        .ok (room.id, peer) ∧
      peer.peerNickname = UsersRepository.maskForWithdrawal names.nickname
        (UsersRepository.deletedAtSuffix userId now) := by
  obtain ⟨hmine, hpeer⟩ := (peerId_eq_iff viewer userId room).mpr hshared
  obtain ⟨peer, hpeer, hnickname⟩ := apply_shows hc hr hpeer now names
  have hroom : s.chatRooms.filter (fun r => r.id == room.id && ChatService.isMine viewer r) =
      [room] := by
    have hid : s.chatRooms.filter (fun r => r.id = room.id) = [room] := by
      rw [hc.rooms.filter_eq, hc.rooms.row_eq hr, Option.toList_some]
    have hsplit : s.chatRooms.filter (fun r => r.id == room.id && ChatService.isMine viewer r) =
        (s.chatRooms.filter fun r => r.id = room.id).filter (ChatService.isMine viewer) := by
      rw [List.filter_filter]
      apply List.filter_congr
      intro r _
      rw [Bool.and_comm]
      rfl
    rw [hsplit, hid, List.filter_cons_of_pos hmine, List.filter_nil]
  have hrooms : (withdrawnAs s userId now names).chatRooms = s.chatRooms := rfl
  refine ⟨peer, ?_, hnickname⟩
  simp only [ChatService.getRoomPeerInfo, hrooms, hroom, List.flatMap_cons, List.flatMap_nil,
    List.append_nil, hpeer, List.map_cons, List.map_nil, List.head?_cons]

end Rooms

/-- Whoever shares a room with the withdrawn user reads the nickname, as far as the suffix leaves
room for it; nobody else learns either name. -/
theorem sameResponses_iff (u : Unicode) (buildUrl : String → String) (s : Snapshot)
    (hc : ChatService.Constraints s.toStore) (userId viewer : Uuid) (now : Timestamp)
    (names names' : Names) :
    SameResponses u buildUrl viewer (withdrawnAs s userId now names)
        (withdrawnAs s userId now names') ↔
      (∀ room ∈ s.chatRooms, ¬ Shared viewer userId room) ∨
        names.nickname.toList.take
            (255 - (UsersRepository.deletedAtSuffix userId now).toList.length) =
          names'.nickname.toList.take
            (255 - (UsersRepository.deletedAtSuffix userId now).toList.length) := by
  rw [← mask_eq_iff]
  constructor
  · intro h
    by_cases hshared : ∃ room ∈ s.chatRooms, Shared viewer userId room
    · right
      obtain ⟨room, hr, hshared⟩ := hshared
      obtain ⟨peer, hok, hnickname⟩ := getRoomPeerInfo_shows hc hr hshared now names
      obtain ⟨peer', hok', hnickname'⟩ := getRoomPeerInfo_shows hc hr hshared now names'
      have hsame := h.roomPeer room.id
      rw [hok, hok', Except.ok.injEq, Prod.mk.injEq] at hsame
      rw [← hnickname, ← hnickname', hsame.2]
    · left
      intro room hr hroom
      exact hshared ⟨room, hr, hroom⟩
  · intro h
    have happly : ∀ room ∈ s.chatRooms, ChatService.isMine viewer room = true →
        PeerJoin.apply (withdrawnAs s userId now names).toStore viewer room =
          PeerJoin.apply (withdrawnAs s userId now names').toStore viewer room := by
      intro room hr hmine
      refine apply_same hc fun hpeer => ?_
      rcases h with hnone | hmask
      · exact absurd ((peerId_eq_iff viewer userId room).mp ⟨hmine, hpeer⟩) (hnone room hr)
      · exact hmask
    have hposts : ∀ names, PostService.getPosts u (withdrawnAs s userId now names) =
        PostService.getPosts u s := fun _ => getPosts_users s _ u
    have hdetail : ∀ names, PostService.getPostDetail (withdrawnAs s userId now names).toStore =
        PostService.getPostDetail s.toStore := fun _ => getPostDetail_users s _
    have hcomments : ∀ names, CommentService.getComments (withdrawnAs s userId now names).toStore =
        CommentService.getComments s.toStore := fun _ => getComments_users s _
    have hreplies : ∀ names, CommentService.getReplies (withdrawnAs s userId now names).toStore =
        CommentService.getReplies s.toStore := fun _ => getReplies_users s _
    have himages : ∀ names, (withdrawnAs s userId now names).images = s.images := fun _ => rfl
    exact {
      posts := fun size q categoryId cursor => by
        rw [sendPost_withdrawnAs buildUrl names names', hposts, hposts]
      postDetail := fun postId extra => by
        rw [sendPost_withdrawnAs buildUrl names names', hdetail, hdetail]
      comments := fun postId page size sort => by
        rw [sendComment_withdrawnAs buildUrl names names', hcomments, hcomments]
      replies := fun postId commentId size sort cursor => by
        rw [sendComment_withdrawnAs buildUrl names names', hreplies, hreplies]
      blockedUsers := fun size cursor => by
        simp only [UserService.getBlockedList, getBlockedUsers_withdrawnAs names names', himages]
      recentRooms := recentRooms_withdrawnAs happly
      roomPeer := getRoomPeerInfo_withdrawnAs happly }

section Sample

def inbox : Snapshot := { ChatService.inboxOfTwo with }

/-- User 1 reads the old nickname of user 2 above their conversation. -/
theorem sameResponses_diverges :
    ¬ SameResponses Backend.asciiText id 1 (withdrawnAs inbox 2 0 ⟨"bo@dog.kr", "바둑이"⟩)
      (withdrawnAs inbox 2 0 ⟨"bo@dog.kr", "누렁이"⟩) := by
  intro h
  have hc : ChatService.Constraints inbox.toStore := ChatService.inboxOfTwo_constraints
  have hshared : Shared 1 2 { id := 30, user1Id := 1, user2Id := 2, createdAt := 0, updatedAt := 0 } :=
    by decide
  obtain ⟨peer, hok, hnickname⟩ :=
    getRoomPeerInfo_shows hc List.mem_cons_self hshared 0 ⟨"bo@dog.kr", "바둑이"⟩
  obtain ⟨peer', hok', hnickname'⟩ :=
    getRoomPeerInfo_shows hc List.mem_cons_self hshared 0 ⟨"bo@dog.kr", "누렁이"⟩
  have hsame := h.roomPeer 30
  rw [hok, hok', Except.ok.injEq, Prod.mk.injEq] at hsame
  rw [hsame.2, hnickname', mask_eq_iff] at hnickname
  exact absurd hnickname (by decide +kernel)

/-- User 3 has no conversation with user 2. -/
theorem sameResponses_iff_inbox :
    SameResponses Backend.asciiText id 3 (withdrawnAs inbox 2 0 ⟨"bo@dog.kr", "바둑이"⟩)
      (withdrawnAs inbox 2 0 ⟨"nu@dog.kr", "누렁이"⟩) :=
  (sameResponses_iff Backend.asciiText id inbox ChatService.inboxOfTwo_constraints 2 3 0 _ _).mpr
    (.inl (by decide))

end Sample

end Anonymity

end PuppyTalk
