import PuppyTalk.CommentPages
import PuppyTalk.PostSearch

namespace PuppyTalk

open Paging

/-- The database as a request for a list reads it, with the categories that no service writes. -/
structure Snapshot extends Store where
  categories : List Nat := []

structure PostResponse where
  id : Uuid
  title : String
  content : String
  viewCount : Int
  likeCount : Int
  commentCount : Int
  isLiked : Bool
  author : Option Uuid
  files : List PostImage
  categoryId : Option Nat
  hashtags : List String
  version : Nat
  isEdited : Bool
  createdAt : Timestamp

namespace PostsRepository

def getAllPosts (u : Unicode) (d : Store) (size : Nat) (cursor : Option Uuid)
    (search : Option ParsedSearch) (categoryId : Option Nat) (currentUserId : Option Uuid) :
    List Post :=
  let rows := d.posts.filter fun p => postVisible d.toDb currentUserId p &&
    searchMatch u d search p && categoryId.all (fun c => p.categoryId == some c) &&
    cursor.all (p.id < ·)
  (orderBy (· > ·) Post.id rows).take (size + 1)

end PostsRepository

def PostLikesRepository.getLikedPostIdsForUser (d : Store) (userId : Uuid) (postIds : List Uuid) :
    List Uuid :=
  (d.postLikes.filter fun l => l.userId == userId && postIds.contains l.postId).map (·.postId)

namespace PostService

def unknownCategoryMessage : String := "존재하지 않는 카테고리입니다."

/-- `_validate_refs` without images. -/
def validateCategory (s : Snapshot) (categoryId : Option Nat) : Except ApiException Unit :=
  if categoryId.all s.categories.contains then .ok ()
  else .error (.invalidRequest unknownCategoryMessage)

def postToResponse (d : Store) (likedIds : List Uuid) (p : Post) : PostResponse where
  id := p.id
  title := p.title
  content := p.content
  viewCount := p.viewCount
  likeCount := p.likeCount
  commentCount := p.commentCount
  isLiked := likedIds.contains p.id
  author := p.userId
  files := orderBy (· < ·) PostImage.id (d.postImages.filter (·.postId == p.id))
  categoryId := p.categoryId
  hashtags := (d.postHashtags.filter (·.postId == p.id)).map (·.hashtag)
  version := p.version
  isEdited := 1 < p.version
  createdAt := p.createdAt

def getPosts (u : Unicode) (s : Snapshot) (size : Nat) (q : Option String) (categoryId : Option Nat)
    (currentUserId cursor : Option Uuid) : Except ApiException (List PostResponse × Bool) := do
  let search ← PostsRepository.validateSearchQuery u q
  validateCategory s categoryId
  let fetched := PostsRepository.getAllPosts u s.toStore size cursor search categoryId currentUserId
  let (posts, hasMore) := splitPage fetched size
  let likedIds := match currentUserId with
    | none => []
    | some userId => PostLikesRepository.getLikedPostIdsForUser s.toStore userId (posts.map (·.id))
  pure (posts.map (postToResponse s.toStore likedIds), hasMore)

end PostService

structure NotificationItem where
  id : Uuid
  kind : NotificationKind
  actorId : Option Uuid
  postId : Option Uuid
  commentId : Option Uuid
  readAt : Option Timestamp
  createdAt : Timestamp

def NotificationsRepository.listForUser (d : Store) (userId : Uuid) (cursorId : Option Uuid)
    (size : Nat) : List Notification × Bool :=
  let rows := d.notifications.filter fun n => n.userId == userId && cursorId.all (n.id < ·)
  splitPage ((orderBy (· > ·) Notification.id rows).take (size + 1)) size

namespace NotificationService

def rowToItem (row : Notification) : NotificationItem where
  id := row.id
  kind := row.kind
  actorId := row.actorId
  postId := row.postId
  commentId := row.commentId
  readAt := row.readAt
  createdAt := row.createdAt

def listNotifications (d : Store) (userId : Uuid) (cursorId : Option Uuid) (size : Nat) :
    List NotificationItem × Bool :=
  let (rows, hasMore) := NotificationsRepository.listForUser d userId cursorId size
  (rows.map rowToItem, hasMore)

end NotificationService

structure BlockedUserItem where
  id : Uuid
  nickname : String
  profileImageUrl : Option String

/-- The join of `user_blocks` and `users`, ordered by the blocked id. -/
def UsersRepository.getBlockedUsers (d : Store) (blockerId : Uuid) (size : Nat)
    (cursor : Option Uuid) : List User :=
  let rows := d.userBlocks.flatMap fun b =>
    (d.users.filter fun u => u.id == b.blockedId && b.blockerId == blockerId &&
      u.deletedAt.isNone && cursor.all (b.blockedId < ·)).map fun u => (b, u)
  ((orderBy (· > ·) (fun r => r.1.blockedId) rows).take (size + 1)).map Prod.snd

/-- `get_blocked_list`; `buildUrl` makes the address of an image from its key. -/
def UserService.getBlockedList (buildUrl : String → String) (d : Store) (blockerId : Uuid)
    (size : Nat) (cursor : Option Uuid) : List BlockedUserItem × Bool :=
  let (users, hasMore) := splitPage (UsersRepository.getBlockedUsers d blockerId size cursor) size
  (users.map fun u =>
    { id := u.id, nickname := u.nickname
      profileImageUrl := u.profileImageId.bind fun i =>
        (Table.row Image.id d.images i).map fun image => buildUrl image.fileKey },
    hasMore)

inductive CursorList where
  | posts (q : Option String) (categoryId : Option Nat) (viewer : Option Uuid)
  | replies (postId commentId : Uuid) (sort : Option String) (viewer : Option Uuid)
  | notifications (userId : Uuid)
  | blockedUsers (blockerId : Uuid)

namespace CursorList

def page (u : Unicode) (buildUrl : String → String) (size : Nat) (list : CursorList) (s : Snapshot)
    (cursor : Option Uuid) : Option (List Uuid × Bool) :=
  match list with
  | .posts q categoryId viewer =>
    (PostService.getPosts u s size q categoryId viewer cursor).toOption.map
      fun (items, hasMore) => (items.map (·.id), hasMore)
  | .replies postId commentId sort viewer =>
    (CommentService.repliesPage postId commentId size sort viewer s.toStore cursor).map
      fun (items, hasMore) => (items.map (·.id), hasMore)
  | .notifications userId =>
    let (items, hasMore) := NotificationService.listNotifications s.toStore userId cursor size
    some (items.map (·.id), hasMore)
  | .blockedUsers blockerId =>
    let (items, hasMore) := UserService.getBlockedList buildUrl s.toStore blockerId size cursor
    some (items.map (·.id), hasMore)

def before : CursorList → Uuid → Uuid → Prop
  | .replies _ _ sort _ => CommentService.replyLt sort
  | _ => (· > ·)

instance : (list : CursorList) → DecidableRel list.before
  | .posts .. => inferInstanceAs (DecidableRel (· > ·))
  | .replies _ _ sort _ => inferInstanceAs (DecidableRel (CommentService.replyLt sort))
  | .notifications _ => inferInstanceAs (DecidableRel (· > ·))
  | .blockedUsers _ => inferInstanceAs (DecidableRel (· > ·))

instance : (list : CursorList) → IsStrictTotalOrder Uuid list.before
  | .posts .. => inferInstanceAs (IsStrictTotalOrder Uuid (· > ·))
  | .replies _ _ sort _ => inferInstanceAs (IsStrictTotalOrder Uuid (CommentService.replyLt sort))
  | .notifications _ => inferInstanceAs (IsStrictTotalOrder Uuid (· > ·))
  | .blockedUsers _ => inferInstanceAs (IsStrictTotalOrder Uuid (· > ·))

def Shows (u : Unicode) (s : Snapshot) (id : Uuid) : CursorList → Prop
  | .posts q categoryId viewer => ∃ search, PostsRepository.validateSearchQuery u q = .ok search ∧
      ∃ p ∈ s.posts, p.id = id ∧ p.deletedAt = none ∧ p.isBlinded = false ∧
        ¬ CommentService.Blocks s.toStore viewer p.userId ∧
        PostsRepository.searchMatch u s.toStore search p = true ∧
        ∀ c ∈ categoryId, p.categoryId = some c
  | .replies _ commentId _ viewer => ∃ c ∈ s.comments, c.id = id ∧ c.parentId = some commentId ∧
      CommentService.VisibleTo s.toStore viewer c
  | .notifications userId => ∃ n ∈ s.notifications, n.id = id ∧ n.userId = userId
  | .blockedUsers blockerId => ∃ b ∈ s.userBlocks, b.blockerId = blockerId ∧ b.blockedId = id ∧
      ∃ user ∈ s.users, user.id = id ∧ user.deletedAt = none

def postRows (u : Unicode) (q : Option String) (categoryId : Option Nat) (viewer : Option Uuid)
    (d : Store) : List Post :=
  match PostsRepository.validateSearchQuery u q with
  | .error _ => []
  | .ok search => d.posts.filter fun p => PostsRepository.postVisible d.toDb viewer p &&
      PostsRepository.searchMatch u d search p && categoryId.all (fun c => p.categoryId == some c)

def blockRows (blockerId : Uuid) (d : Store) : List (UserBlock × User) :=
  d.userBlocks.flatMap fun b =>
    (d.users.filter fun u => u.id == b.blockedId && b.blockerId == blockerId &&
      u.deletedAt.isNone).map fun u => (b, u)

def ids (u : Unicode) (list : CursorList) (s : Snapshot) : List Uuid :=
  match list with
  | .posts q categoryId viewer => (postRows u q categoryId viewer s.toStore).map (·.id)
  | .replies _ commentId _ viewer =>
    (CommentService.replyRows viewer commentId s.toStore).map (·.id)
  | .notifications userId => (s.notifications.filter (·.userId == userId)).map (·.id)
  | .blockedUsers blockerId => (blockRows blockerId s.toStore).map (·.1.blockedId)

theorem mem_ids {list : CursorList} {i : Uuid} : i ∈ list.ids u s ↔ list.Shows u s i := by
  cases list with
  | posts q categoryId viewer =>
    simp only [ids, Shows, postRows]
    cases PostsRepository.validateSearchQuery u q with
    | error e => simp
    | ok search =>
      simp only [List.mem_map, List.mem_filter, PostsRepository.postVisible,
        CommentService.authorNotBlocked_iff, Bool.and_eq_true, Option.isNone_iff_eq_none,
        Bool.not_eq_true', Option.all_eq_true, beq_iff_eq]
      constructor
      · rintro ⟨p, ⟨hp, ⟨⟨⟨hdel, hblind⟩, hblock⟩, hmatch⟩, hcat⟩, rfl⟩
        exact ⟨search, rfl, p, hp, rfl, hdel, hblind, hblock, hmatch, hcat⟩
      · rintro ⟨_, ⟨⟩, p, hp, rfl, hdel, hblind, hblock, hmatch, hcat⟩
        exact ⟨p, ⟨hp, ⟨⟨⟨hdel, hblind⟩, hblock⟩, hmatch⟩, hcat⟩, rfl⟩
  | replies postId commentId sort viewer =>
    simp only [ids, Shows, CommentService.replyRows, List.map_map, List.mem_map, List.mem_filter,
      CommentService.replyVisible_iff, Bool.and_eq_true, beq_iff_eq]
    constructor
    · rintro ⟨c, ⟨hc, hp, hv⟩, rfl⟩
      exact ⟨c, hc, rfl, hp, hv⟩
    · rintro ⟨c, hc, rfl, hp, hv⟩
      exact ⟨c, ⟨hc, hp, hv⟩, rfl⟩
  | notifications userId =>
    simp only [ids, Shows, List.mem_map, List.mem_filter, beq_iff_eq]
    constructor
    · rintro ⟨n, ⟨hn, hu⟩, rfl⟩
      exact ⟨n, hn, rfl, hu⟩
    · rintro ⟨n, hn, rfl, hu⟩
      exact ⟨n, ⟨hn, hu⟩, rfl⟩
  | blockedUsers blockerId =>
    simp only [ids, Shows, blockRows, List.map_flatMap, List.map_map, List.mem_flatMap,
      List.mem_map, List.mem_filter, Bool.and_eq_true, beq_iff_eq, Option.isNone_iff_eq_none]
    constructor
    · rintro ⟨b, hb, user, ⟨hu, ⟨hid, hby⟩, hdel⟩, rfl⟩
      exact ⟨b, hb, hby, rfl, user, hu, hid, hdel⟩
    · rintro ⟨b, hb, hby, rfl, user, hu, hid, hdel⟩
      exact ⟨b, hb, user, ⟨hu, ⟨hid, hby⟩, hdel⟩, rfl⟩

theorem ids_nodup (h : s.toStore.Valid) (list : CursorList) : (list.ids u s).Nodup := by
  cases list with
  | posts q categoryId viewer =>
    simp only [ids, postRows]
    cases PostsRepository.validateSearchQuery u q with
    | error e => exact List.nodup_nil
    | ok search => exact h.posts.sublist (List.filter_sublist.map _)
  | replies postId commentId sort viewer =>
    exact CommentService.replyRows_nodup h.comments viewer commentId
  | notifications userId => exact h.notifications.sublist (List.filter_sublist.map _)
  | blockedUsers blockerId =>
    rw [ids, blockRows, List.map_flatMap, List.nodup_flatMap]
    constructor
    · intro b _
      rw [List.map_map]
      refine List.Nodup.map_on ?_ (h.users.of_map.filter _)
      intro v hv w hw _
      simp only [List.mem_filter, Bool.and_eq_true, beq_iff_eq] at hv hw
      exact h.users.eq hv.1 hw.1 (hv.2.1.1.trans hw.2.1.1.symm)
    · refine (List.pairwise_map.mp h.userBlocks).imp ?_
      intro b c hbc i hb hc
      simp only [List.map_map, List.mem_map, List.mem_filter, Bool.and_eq_true, beq_iff_eq] at hb hc
      obtain ⟨v, ⟨-, ⟨-, hv⟩, -⟩, rfl⟩ := hb
      obtain ⟨w, ⟨-, ⟨-, hw⟩, -⟩, he⟩ := hc
      exact hbc (Prod.ext (hv.trans hw.symm) he.symm)

theorem splitPage_keys {lt : Uuid → Uuid → Prop} [DecidableRel lt] (key : α → Uuid)
    (cursor : Option Uuid) (rows : List α) (size : Nat) :
    (splitPage ((orderBy lt key (beyond lt key cursor rows)).take (size + 1)) size).map
        (·.map key) id =
      ((orderBy lt id (beyond lt id cursor (rows.map key))).take size,
        decide (size < (beyond lt id cursor (rows.map key)).length)) := by
  rw [splitPage_take, beyond_map, orderBy_map, length_orderBy, List.length_map, ← List.map_take]
  rfl

theorem getAllPosts_eq (hq : PostsRepository.validateSearchQuery u q = .ok search) (d : Store)
    (size : Nat) (cursor : Option Uuid) (categoryId : Option Nat) (viewer : Option Uuid) :
    PostsRepository.getAllPosts u d size cursor search categoryId viewer =
      (orderBy (· > ·) Post.id (beyond (· > ·) Post.id cursor
        (postRows u q categoryId viewer d))).take (size + 1) := by
  simp only [PostsRepository.getAllPosts, postRows, hq, beyond, List.filter_filter]
  congr 3
  funext p
  exact Bool.and_comm _ _

theorem getBlockedUsers_eq (d : Store) (blockerId : Uuid) (size : Nat) (cursor : Option Uuid) :
    UsersRepository.getBlockedUsers d blockerId size cursor =
      ((orderBy (· > ·) (fun r => r.1.blockedId) (beyond (· > ·) (fun r => r.1.blockedId) cursor
        (blockRows blockerId d))).take (size + 1)).map Prod.snd := by
  rw [UsersRepository.getBlockedUsers, blockRows, beyond, List.filter_flatMap]
  simp only [List.filter_map, List.filter_filter]
  congr 4
  funext b
  congr 2
  funext v
  exact Bool.and_comm _ _

theorem getPosts_ids (hq : PostsRepository.validateSearchQuery u q = .ok search)
    (hc : PostService.validateCategory s categoryId = .ok ()) (size : Nat)
    (viewer cursor : Option Uuid) :
    (PostService.getPosts u s size q categoryId viewer cursor).toOption.map
        (fun r => (r.1.map (·.id), r.2)) =
      some ((splitPage (PostsRepository.getAllPosts u s.toStore size cursor search categoryId
        viewer) size).map (·.map Post.id) id) := by
  rw [PostService.getPosts, hq, hc]
  show some (List.map _ (List.map _ _), _) = some (List.map _ _, _)
  rw [List.map_map]
  rfl

theorem listNotifications_ids (d : Store) (userId : Uuid) (cursor : Option Uuid) (size : Nat) :
    (NotificationService.listNotifications d userId cursor size).map (·.map (·.id)) id =
      (splitPage ((orderBy (· > ·) Notification.id (beyond (· > ·) Notification.id cursor
        (d.notifications.filter (·.userId == userId)))).take (size + 1)) size).map
          (·.map (·.id)) id := by
  have hrows : beyond (· > ·) Notification.id cursor (d.notifications.filter (·.userId == userId)) =
      d.notifications.filter fun n => n.userId == userId && cursor.all (n.id < ·) := by
    rw [beyond, List.filter_filter]
    congr 1
    funext n
    exact Bool.and_comm _ _
  rw [NotificationService.listNotifications, NotificationsRepository.listForUser, hrows]
  refine Prod.ext ?_ rfl
  exact List.map_map

theorem id_of_mem_blockRows (h : r ∈ blockRows blockerId d) : r.2.id = r.1.blockedId := by
  simp only [blockRows, List.mem_flatMap, List.mem_map, List.mem_filter, Bool.and_eq_true,
    beq_iff_eq] at h
  obtain ⟨b, -, v, ⟨-, ⟨hv, -⟩, -⟩, rfl⟩ := h
  exact hv

theorem getBlockedList_ids (buildUrl : String → String) (d : Store) (blockerId : Uuid)
    (size : Nat) (cursor : Option Uuid) :
    (UserService.getBlockedList buildUrl d blockerId size cursor).map (·.map (·.id)) id =
      (splitPage ((orderBy (· > ·) (fun r => r.1.blockedId) (beyond (· > ·)
        (fun r => r.1.blockedId) cursor (blockRows blockerId d))).take (size + 1)) size).map
          (·.map (·.1.blockedId)) id := by
  rw [UserService.getBlockedList, getBlockedUsers_eq]
  refine Prod.ext ?_ ?_
  · simp only [splitPage, Prod.map, ← List.map_take, List.map_map]
    apply List.map_congr_left
    intro r hr
    have hrow := mem_orderBy.mp (List.mem_of_mem_take (List.mem_of_mem_take hr))
    exact id_of_mem_blockRows (mem_beyond.mp hrow).1
  · simp [splitPage]

theorem page_eq (u : Unicode) (buildUrl : String → String) (size : Nat) (list : CursorList)
    (s : Snapshot) (cursor : Option Uuid) :
    list.page u buildUrl size s cursor = (list.page u buildUrl size s none).map fun _ =>
      ((orderBy list.before id (beyond list.before id cursor (list.ids u s))).take size,
        decide (size < (beyond list.before id cursor (list.ids u s)).length)) := by
  cases list with
  | posts q categoryId viewer =>
    rw [page, page]
    cases hq : PostsRepository.validateSearchQuery u q with
    | error e =>
      simp only [PostService.getPosts, hq]
      rfl
    | ok search =>
      cases hc : PostService.validateCategory s categoryId with
      | error e =>
        simp only [PostService.getPosts, hq, hc]
        rfl
      | ok _ =>
        rw [getPosts_ids hq hc, getPosts_ids hq hc, getAllPosts_eq hq, splitPage_keys]
        rfl
  | replies postId commentId sort viewer =>
    simp only [page, CommentService.getReplies_cases]
    split
    · rw [ids, beyond_map, orderBy_map, List.length_map, ← List.map_take]
      rfl
    · rfl
  | notifications userId =>
    exact congrArg some ((listNotifications_ids s.toStore userId cursor size).trans
      (splitPage_keys _ cursor (s.notifications.filter (·.userId == userId)) size))
  | blockedUsers blockerId =>
    exact congrArg some ((getBlockedList_ids buildUrl s.toStore blockerId size cursor).trans
      (splitPage_keys _ cursor (blockRows blockerId s.toStore) size))

theorem reads (u : Unicode) (buildUrl : String → String) (size : Nat) (list : CursorList) :
    Reads list.before id size (list.ids u) id some (list.page u buildUrl size) where
  items s cursor items more h := by
    rw [page_eq, Option.map_eq_some_iff] at h
    obtain ⟨_, -, he⟩ := h
    exact (congrArg Prod.fst he).symm
  hasMore s cursor items more h := by
    rw [page_eq, Option.map_eq_some_iff] at h
    obtain ⟨_, -, he⟩ := h
    exact (congrArg Prod.snd he).symm
  bound _ _ _ := rfl

/-- Following the last id of every answer, whatever changes between the requests: nothing comes
twice, the order holds over all pages, and a row that can be seen all the time comes once. Over
rows that do not change the requests end. -/
theorem traversal (u : Unicode) (buildUrl : String → String) (list : CursorList) (size : Nat)
    (hsize : 1 ≤ size) (history : List Snapshot) (hvalid : ∀ s ∈ history, s.toStore.Valid) :
    let visits := walk some (list.page u buildUrl size) none history
    (Ended visits → ∀ i, (∀ v ∈ visits, list.Shows u v.state i) → (returned visits).count i = 1) ∧
      (returned visits).Nodup ∧
      (returned visits).Pairwise list.before ∧
      (∀ v ∈ visits, (∀ i ∈ v.items, list.Shows u v.state i) ∧
        (v.hasMore = true ↔ ∃ i, list.Shows u v.state i ∧ (∀ c ∈ v.cursor, list.before c i) ∧
          i ∉ v.items)) ∧
      ∀ s ∈ history, (list.page u buildUrl size s none).isSome = true →
        ∀ rows : List Uuid, rows.Nodup → (∀ i, i ∈ rows ↔ list.Shows u s i) →
          ∀ m > rows.length / size,
            let pages := walk some (list.page u buildUrl size) none (List.replicate m s)
            Ended pages ∧ pages.length ≤ rows.length / size + 1 := by
  intro visits
  have hr := reads u buildUrl size list
  have hkeys : ∀ s ∈ history, ((list.ids u s).map id).Nodup := by
    intro s hs
    rw [List.map_id]
    exact ids_nodup (hvalid s hs) list
  have hpair : (returned visits).Pairwise list.before := (walk_pairwise hr hsize hkeys).1
  have hnodup : (returned visits).Nodup := by
    refine hpair.imp ?_
    rintro i _ h rfl
    exact irrefl_of list.before i h
  refine ⟨?_, hnodup, hpair, ?_, ?_⟩
  · intro hend i hi
    apply List.count_eq_one_of_mem hnodup
    rw [← List.map_id (returned visits)]
    refine walk_complete hr hsize hkeys hend (fun _ h => by cases h) fun v hv => ?_
    rw [List.map_id]
    exact mem_ids.mpr (hi v hv)
  · intro v hv
    obtain ⟨hs, hp⟩ := page_of_mem_walk hv
    refine ⟨fun i hi => mem_ids.mp (hr.mem_items hp hi).1, ?_⟩
    constructor
    · intro hmore
      obtain ⟨i, hi, hc, hlt⟩ := (hr.hasMore_iff hp (hkeys _ hs)).mp hmore
      exact ⟨i, mem_ids.mp hi, hc, fun hmem => irrefl_of list.before _ (hlt i hmem)⟩
    · rintro ⟨i, hi, hc, hmem⟩
      exact (hr.lt_of_not_mem hp (hkeys _ hs) (mem_ids.mpr hi) hc hmem).2
  · intro s hs hp rows hrows hshows m hm
    have hlen : (list.ids u s).length = rows.length := by
      apply List.Perm.length_eq
      apply (List.perm_ext_iff_of_nodup (ids_nodup (hvalid s hs) list) hrows).mpr
      exact fun i => mem_ids.trans (hshows i).symm
    have hnext : ∀ i ∈ list.ids u s, (list.page u buildUrl size s (some i)).isSome = true := by
      intro i _
      rw [page_eq, Option.isSome_map]
      exact hp
    have h := walk_replicate hr hsize (hkeys s hs) hp hnext (m := m) (by simpa [hlen] using hm)
    simpa [hlen] using h.2

def inbox (l : List Uuid) : Snapshot where
  notifications := l.map fun i => {
    id := i, userId := 9, kind := .likePost, actorId := some 1, postId := some 10,
    commentId := none, readAt := none, createdAt := i }

theorem inbox_valid {l : List Uuid} (h : l.Nodup) : (inbox l).toStore.Valid := by
  constructor
  case notifications =>
    unfold Table.Keyed inbox
    rw [List.map_map]
    exact h.map fun _ _ he => he
  all_goals exact Table.keyed_nil _

/-- One notification comes and one goes between the requests. -/
theorem traversal_inbox :
    let visits := walk some ((notifications 9).page ⟨id, Char.isDigit, id⟩ id 1) none
      [inbox [3, 2, 1], inbox [4, 3, 2, 1], inbox [4, 2, 1]]
    Ended visits ∧ (returned visits).count 1 = 1 := by
  intro visits
  have hend : Ended visits := ⟨_, rfl, by decide⟩
  have hsees : ∀ v ∈ visits, 1 ∈ (notifications 9).ids ⟨id, Char.isDigit, id⟩ v.state := by decide
  refine ⟨hend, (traversal ⟨id, Char.isDigit, id⟩ id (.notifications 9) 1 (by decide) _ ?_).1 hend 1
    fun v hv => mem_ids.mp (hsees v hv)⟩
  simp only [List.mem_cons, List.not_mem_nil, or_false]
  rintro s (rfl | rfl | rfl)
  all_goals exact inbox_valid (by decide)

/-- The word stands in the title, in the content or in a hashtag of the post, up to case. -/
def Mentions (u : Unicode) (d : Store) (p : Post) (word : String) : Prop :=
  ∃ text, (text = p.title ∨ text = p.content ∨
      ∃ h ∈ d.postHashtags, h.postId = p.id ∧ h.hashtag = text) ∧
    word.toList.map u.fold <:+: text.toList.map u.fold

theorem tokenMatch_iff (u : Unicode) (d : Store) (p : Post) (word : String) :
    PostsRepository.tokenMatch u d p word = true ↔ Mentions u d p word := by
  simp only [PostsRepository.tokenMatch, PostsRepository.hashtagMatchExists, Bool.or_eq_true,
    List.any_eq_true, Bool.and_eq_true, beq_iff_eq, contains_iff, Mentions]
  constructor
  · rintro ((h | h) | ⟨tag, htag, hpost, h⟩)
    · exact ⟨_, .inl rfl, h⟩
    · exact ⟨_, .inr (.inl rfl), h⟩
    · exact ⟨_, .inr (.inr ⟨tag, htag, hpost, rfl⟩), h⟩
  · rintro ⟨_, rfl | rfl | ⟨tag, htag, hpost, rfl⟩, h⟩
    · exact .inl (.inl h)
    · exact .inl (.inr h)
    · exact .inr ⟨tag, htag, hpost, h⟩

/-- A search for words, read to its end over rows that do not change, returns newest first exactly
the posts that the reader may see and that mention every word. -/
theorem wordSearch_exact (u : Unicode) (buildUrl : String → String) (s : Snapshot)
    (hvalid : s.toStore.Valid) (size : Nat) (hsize : 1 ≤ size) (q : String)
    (hne : Python.strip q ≠ "") (hword : (Python.strip q).toList.head? ≠ some '#')
    (hlong : ∀ w ∈ PostsRepository.splitWords (Python.strip q),
      PostsRepository.isTokenTooShort u w = false)
    (categoryId : Option Nat) (hcategory : PostService.validateCategory s categoryId = .ok ())
    (viewer : Option Uuid) (m : Nat) (hm : s.posts.length / size < m) :
    let pages := walk some (page u buildUrl size (.posts (some q) categoryId viewer)) none
      (List.replicate m s)
    Ended pages ∧ (returned pages).Pairwise (· > ·) ∧
      ∀ i, i ∈ returned pages ↔ ∃ p ∈ s.posts, p.id = i ∧ p.deletedAt = none ∧
        p.isBlinded = false ∧ ¬ CommentService.Blocks s.toStore viewer p.userId ∧
        (∀ c ∈ categoryId, p.categoryId = some c) ∧
        ∀ w ∈ PostsRepository.splitWords (Python.strip q), Mentions u s.toStore p w := by
  intro pages
  have hquery : PostsRepository.validateSearchQuery u (some q) =
      .ok (some ⟨none, PostsRepository.splitWords (Python.strip q)⟩) := by
    have hshort : (PostsRepository.splitWords (Python.strip q)).any
        (PostsRepository.isTokenTooShort u) = false := by
      simpa using hlong
    simp only [PostsRepository.validateSearchQuery, Option.getD_some, if_neg hne, if_neg hword, hshort]
    rfl
  have hpage : ∀ cursor, (page u buildUrl size (.posts (some q) categoryId viewer) s cursor).isSome =
      true := by
    intro cursor
    rw [page, getPosts_ids hquery hcategory]
    rfl
  have hkeys : (((posts (some q) categoryId viewer).ids u s).map id).Nodup := by
    rw [List.map_id]
    exact ids_nodup hvalid _
  have hlen : ((posts (some q) categoryId viewer).ids u s).length ≤ s.posts.length := by
    rw [ids, postRows, hquery, List.length_map]
    exact List.length_filter_le _ _
  have hwalk := walk_replicate (reads u buildUrl size (.posts (some q) categoryId viewer)) hsize hkeys
    (hpage none) (fun _ _ => hpage _) (m := m)
    (lt_of_le_of_lt (Nat.div_le_div_right ((List.length_filter_le _ _).trans hlen)) hm)
  refine ⟨hwalk.2.1, ?_, fun i => ?_⟩
  · rw [hwalk.1, id_eq, beyond_none]
    exact orderBy_pairwise hkeys
  · rw [hwalk.1, id_eq, beyond_none, mem_orderBy, mem_ids, Shows, hquery]
    constructor
    · rintro ⟨_, ⟨⟩, p, hp, hid, hdel, hblind, hblock, hmatch, hcat⟩
      exact ⟨p, hp, hid, hdel, hblind, hblock, hcat, fun w hw =>
        (tokenMatch_iff u _ p w).mp (List.all_eq_true.mp hmatch w hw)⟩
    · rintro ⟨p, hp, hid, hdel, hblind, hblock, hcat, hwords⟩
      exact ⟨_, rfl, p, hp, hid, hdel, hblind, hblock,
        List.all_eq_true.mpr fun w hw => (tokenMatch_iff u _ p w).mpr (hwords w hw), hcat⟩

def discount : Snapshot where
  posts := [{
    id := 10, userId := none, title := "100% dog", content := "", categoryId := none, viewCount := 0,
    likeCount := 0, commentCount := 0, reportCount := 0, isBlinded := false, createdAt := 0,
    updatedAt := 0, deletedAt := none, version := 1 }]

/-- The percent sign is searched for as it stands. -/
theorem wordSearch_exact_discount :
    10 ∈ returned (walk some (page ⟨id, Char.isDigit, id⟩ id 1 (.posts (some "00% dog") none none))
      none [discount, discount]) := by
  have hvalid : discount.toStore.Valid := by
    constructor <;> decide
  refine ((wordSearch_exact ⟨id, Char.isDigit, id⟩ id discount hvalid 1 (by decide) "00% dog"
    (by decide) (by decide) (by decide) none rfl none 2 (by decide)).2.2 10).mpr ?_
  refine ⟨_, List.mem_cons_self, rfl, rfl, rfl, ?_, ?_, fun w hw => ⟨_, .inl rfl, ?_⟩⟩
  · rintro ⟨_, _, ⟨⟩, _⟩
  · rintro c ⟨⟩
  · revert w
    decide

end CursorList

end PuppyTalk
