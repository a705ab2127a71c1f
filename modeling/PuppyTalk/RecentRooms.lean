import PuppyTalk.ChatHistory
import PuppyTalk.Python

namespace PuppyTalk

open Paging

structure ChatPeerProfile where
  peerUserId : Uuid
  peerNickname : String
  peerProfileImageUrl : Option String
  peerDogProfileImageUrl : Option String
  peerDogName : Option String
  peerDogBreed : Option String
  peerDogGender : Option DogGender
  peerDogBirthDate : Option Int
  deriving DecidableEq, Repr, Inhabited

structure ChatRoomListItem extends ChatPeerProfile where
  roomId : Uuid
  lastMessagePreview : String
  unreadCount : Nat
  updatedAt : Timestamp
  deriving DecidableEq, Repr, Inhabited

namespace PeerJoin

def peerId (userId : Uuid) (room : ChatRoom) : Uuid :=
  if room.user1Id = userId then room.user2Id else room.user1Id

def columns (userId : Uuid) (room : ChatRoom) (peer : User) (image : Option Image)
    (dog : Option DogProfile) (dogImage : Option Image) : ChatPeerProfile where
  peerUserId := peerId userId room
  peerNickname := peer.nickname
  peerProfileImageUrl := image.map (·.fileUrl)
  peerDogProfileImageUrl := dogImage.map (·.fileUrl)
  peerDogName := dog.map (·.name)
  peerDogBreed := dog.map (·.breed)
  peerDogGender := dog.map (·.gender)
  peerDogBirthDate := dog.map (·.birthDate)

def apply (d : Store) (userId : Uuid) (room : ChatRoom) : List ChatPeerProfile :=
  (d.users.filter fun u => u.id = peerId userId room).flatMap fun peer =>
    (Table.outerJoin (fun i => peer.profileImageId = some i.id) d.images).flatMap fun image =>
      (Table.outerJoin (fun g => g.ownerId = peer.id && g.isRepresentative) d.dogProfiles).flatMap
        fun dog =>
          (Table.outerJoin (fun i => dog.any fun g => g.profileImageId = some i.id) d.images).map
            fun dogImage => columns userId room peer image dog dogImage

def profileImage (d : Store) (u : User) : Option Image :=
  d.images.find? fun i => u.profileImageId = some i.id

def representative (d : Store) (ownerId : Uuid) : Option DogProfile :=
  d.dogProfiles.find? fun g => g.ownerId = ownerId && g.isRepresentative

def dogImage (d : Store) (dog : Option DogProfile) : Option Image :=
  d.images.find? fun i => dog.any fun g => g.profileImageId = some i.id

theorem eq_of_representative (h : OneRepresentative dogs) (hg : g ∈ dogs) (hg' : g' ∈ dogs)
    (hr : g.isRepresentative = true) (hr' : g'.isRepresentative = true)
    (ho : g.ownerId = g'.ownerId) : g = g' :=
  Table.Keyed.eq h (List.mem_filter.mpr ⟨hg, hr⟩) (List.mem_filter.mpr ⟨hg', hr'⟩) ho

theorem apply_eq (hv : d.Valid) (hrep : OneRepresentative d.dogProfiles) (userId : Uuid)
    (room : ChatRoom) :
    apply d userId room = ((Table.row User.id d.users (peerId userId room)).map fun peer =>
      columns userId room peer (profileImage d peer) (representative d peer.id)
        (dogImage d (representative d peer.id))).toList := by
  have hdogs : ∀ ownerId, Table.outerJoin (fun g => g.ownerId = ownerId && g.isRepresentative)
      d.dogProfiles = [representative d ownerId] := by
    intro ownerId
    refine Table.outerJoin_eq hv.dogProfiles.nodup fun g hg g' hg' hm hm' => ?_
    simp only [Bool.and_eq_true, decide_eq_true_eq] at hm hm'
    exact eq_of_representative hrep hg hg' hm.2 hm'.2 (hm.1.trans hm'.1.symm)
  have himage : ∀ u : User, Table.outerJoin (fun i => u.profileImageId = some i.id) d.images =
      [profileImage d u] := by
    intro u
    refine Table.outerJoin_eq hv.images.nodup fun i hi i' hi' hm hm' => hv.images.eq hi hi' ?_
    exact Option.some.inj ((of_decide_eq_true hm).symm.trans (of_decide_eq_true hm'))
  have hdogImage : ∀ dog : Option DogProfile,
      Table.outerJoin (fun i => dog.any fun g => g.profileImageId = some i.id) d.images =
        [dogImage d dog] := by
    intro dog
    refine Table.outerJoin_eq hv.images.nodup fun i hi i' hi' hm hm' => hv.images.eq hi hi' ?_
    cases dog with
    | none => cases hm
    | some g => exact Option.some.inj ((of_decide_eq_true hm).symm.trans (of_decide_eq_true hm'))
  rw [apply, hv.users.filter_eq]
  cases Table.row User.id d.users (peerId userId room) with
  | none => rfl
  | some peer =>
    simp only [Option.toList_some, List.flatMap_cons, List.flatMap_nil, List.append_nil, himage,
      hdogs, hdogImage, List.map_cons, List.map_nil, Option.map_some]

end PeerJoin

namespace ChatService

def isMine (userId : Uuid) (room : ChatRoom) : Bool :=
  room.user1Id == userId || room.user2Id == userId

def myMessages (d : Store) (userId : Uuid) : List ChatMessage :=
  let myRoomIds := (d.chatRooms.filter (isMine userId)).map (·.id)
  d.chatMessages.filter fun m => myRoomIds.contains m.roomId

def lastMsg (d : Store) (userId : Uuid) : List ChatMessage :=
  ((ranked (· > ·) messageKey ChatMessage.roomId (myMessages d userId)).filter
    fun r => r.2.1 = 1).map Prod.fst

def unread (d : Store) (userId : Uuid) : List (Uuid × Nat) :=
  Table.groupCount ChatMessage.roomId
    ((myMessages d userId).filter fun m => !m.isRead && m.senderId != userId)

structure RecentRoomRow where
  roomId : Uuid
  peer : ChatPeerProfile
  lastContent : String
  lastCreatedAt : Timestamp
  unreadCount : Nat
  deriving Inhabited

def recentRoomRows (d : Store) (userId : Uuid) : List RecentRoomRow :=
  (d.chatRooms.filter (isMine userId)).flatMap fun room =>
    (PeerJoin.apply d userId room).flatMap fun peer =>
      ((lastMsg d userId).filter fun m => m.roomId = room.id).flatMap fun last =>
        (Table.outerJoin (fun c => c.1 = room.id) (unread d userId)).map fun count =>
          { roomId := room.id, peer := peer, lastContent := last.content
            lastCreatedAt := last.createdAt, unreadCount := (count.map Prod.snd).getD 0 }

def previewOf (content : String) : String :=
  let preview := Python.strip (content.map fun c => if c = '\n' then ' ' else c)
  if 120 < Python.len preview then String.ofList (preview.toList.take 117) ++ "…" else preview

def roomListItem (r : RecentRoomRow) : ChatRoomListItem where
  toChatPeerProfile := r.peer
  roomId := r.roomId
  lastMessagePreview := previewOf r.lastContent
  unreadCount := r.unreadCount
  updatedAt := r.lastCreatedAt

def listRecentRooms (d : Store) (userId : Uuid) (limit : Nat) : List ChatRoomListItem :=
  let rows := orderBy (· > ·) (fun r : RecentRoomRow => toLex (r.lastCreatedAt, r.roomId))
    (recentRoomRows d userId)
  (rows.take limit).map roomListItem

def lastOf (d : Store) (roomId : Uuid) : Option ChatMessage :=
  (orderBy (· > ·) messageKey (d.chatMessages.filter fun m => m.roomId = roomId)).head?

theorem myMessages_room (hr : room ∈ d.chatRooms) (hmine : isMine userId room = true) :
    (myMessages d userId).filter (fun m => m.roomId = room.id) =
      d.chatMessages.filter fun m => m.roomId = room.id := by
  rw [myMessages, List.filter_filter]
  apply List.filter_congr
  intro m _
  by_cases hm : m.roomId = room.id
  · have hmem : m.roomId ∈ (d.chatRooms.filter (isMine userId)).map (·.id) :=
      hm ▸ List.mem_map_of_mem (List.mem_filter.mpr ⟨hr, hmine⟩)
    rw [List.contains_iff_mem.mpr hmem, Bool.and_true]
  · simp [hm]

theorem lastOf_mem (h : lastOf d roomId = some m) : m ∈ d.chatMessages ∧ m.roomId = roomId := by
  simpa using mem_orderBy.mp (List.mem_of_head? h)

theorem mem_lastMsg (hr : room ∈ d.chatRooms) (hmine : isMine userId room = true) :
    m ∈ (lastMsg d userId).filter (fun m => m.roomId = room.id) ↔ lastOf d room.id = some m := by
  have hhead : m.roomId = room.id →
      (orderBy (· > ·) messageKey ((myMessages d userId).filter fun b => b.roomId = m.roomId))[0]? =
        lastOf d room.id := by
    intro hm
    rw [hm, myMessages_room hr hmine, lastOf, List.head?_eq_getElem?]
  constructor
  · intro h
    obtain ⟨hlast, hroom⟩ := List.mem_filter.mp h
    obtain ⟨⟨m', rn, n⟩, hrow, rfl⟩ := List.mem_map.mp hlast
    obtain ⟨hrow, hrn⟩ := List.mem_filter.mp hrow
    obtain ⟨⟨i, hi, rfl⟩, -⟩ := mem_ranked.mp hrow
    obtain rfl : i = 0 := by simpa using hrn
    rw [← hhead (of_decide_eq_true hroom)]
    exact hi
  · intro h
    have hroom := (lastOf_mem h).2
    have hrow := mem_ranked.mpr ⟨⟨0, (hhead hroom).trans h, rfl⟩, rfl⟩
    have hlast : m ∈ lastMsg d userId := List.mem_map_of_mem (List.mem_filter.mpr ⟨hrow, rfl⟩)
    exact List.mem_filter.mpr ⟨hlast, decide_eq_true hroom⟩

theorem lastMsg_room (hv : d.Valid) (hr : room ∈ d.chatRooms) (hmine : isMine userId room = true) :
    (lastMsg d userId).filter (fun m => m.roomId = room.id) = (lastOf d room.id).toList := by
  have hnodup : ((lastMsg d userId).filter fun m => m.roomId = room.id).Nodup := by
    apply List.Nodup.filter
    exact (nodup_ranked (hv.chatMessages.nodup.filter _)).sublist (List.filter_sublist.map _)
  have hmem : ∀ m, m ∈ (lastMsg d userId).filter (fun m => m.roomId = room.id) ↔
      lastOf d room.id = some m := fun m => mem_lastMsg hr hmine
  cases hlast : lastOf d room.id with
  | none =>
    rw [hlast] at hmem
    exact List.eq_nil_iff_forall_not_mem.mpr fun m hm => nomatch (hmem m).mp hm
  | some m =>
    rw [hlast] at hmem
    apply List.perm_singleton.mp
    rw [List.perm_ext_iff_of_nodup hnodup (List.nodup_singleton m)]
    intro m'
    rw [hmem, List.mem_singleton, Option.some.injEq, eq_comm]

theorem unread_room (hr : room ∈ d.chatRooms) (hmine : isMine userId room = true) :
    ∃ count, Table.outerJoin (fun c => c.1 = room.id) (unread d userId) = [count] ∧
      (count.map Prod.snd).getD 0 = d.chatMessages.countP fun m =>
        m.roomId = room.id && (!m.isRead && m.senderId != userId) := by
  obtain ⟨count, hjoin, hcount⟩ := Table.outerJoin_groupCount ChatMessage.roomId
    ((myMessages d userId).filter fun m => !m.isRead && m.senderId != userId) room.id
  refine ⟨count, hjoin, hcount.trans ?_⟩
  rw [List.countP_eq_length_filter, List.filter_comm, myMessages_room hr hmine, List.filter_filter,
    List.countP_eq_length_filter]
  congr 2
  funext m
  exact Bool.and_comm _ _

def rowOf (d : Store) (userId : Uuid) (room : ChatRoom) (peer : User) (last : ChatMessage) :
    RecentRoomRow where
  roomId := room.id
  peer := PeerJoin.columns userId room peer (PeerJoin.profileImage d peer)
    (PeerJoin.representative d peer.id) (PeerJoin.dogImage d (PeerJoin.representative d peer.id))
  lastContent := last.content
  lastCreatedAt := last.createdAt
  unreadCount := d.chatMessages.countP fun m =>
    m.roomId = room.id && (!m.isRead && m.senderId != userId)

def roomRow (d : Store) (userId : Uuid) (room : ChatRoom) : Option RecentRoomRow := do
  let peer ← Table.row User.id d.users (PeerJoin.peerId userId room)
  let last ← lastOf d room.id
  pure (rowOf d userId room peer last)

theorem recentRoomRows_eq (hv : d.Valid) (hrep : OneRepresentative d.dogProfiles)
    (userId : Uuid) :
    recentRoomRows d userId = (d.chatRooms.filter (isMine userId)).filterMap (roomRow d userId) := by
  rw [recentRoomRows, List.filterMap_eq_flatMap_toList]
  apply List.flatMap_congr
  intro room hroom
  obtain ⟨hr, hmine⟩ := List.mem_filter.mp hroom
  obtain ⟨count, hjoin, hcount⟩ := unread_room hr hmine
  rw [PeerJoin.apply_eq hv hrep, lastMsg_room hv hr hmine, hjoin, roomRow]
  cases Table.row User.id d.users (PeerJoin.peerId userId room) with
  | none => rfl
  | some peer =>
    cases lastOf d room.id with
    | none => rfl
    | some last =>
      simp [hcount, rowOf]

structure Constraints (d : Store) : Prop where
  valid : d.Valid
  rooms : Table.Keyed ChatRoom.id d.chatRooms
  members : ∀ room ∈ d.chatRooms, room.user1Id < room.user2Id ∧
    (∃ u ∈ d.users, u.id = room.user1Id) ∧ ∃ u ∈ d.users, u.id = room.user2Id
  representative : OneRepresentative d.dogProfiles

/-- An item shows the newest message of its room, what is unread in it, and the other member. -/
structure DescribesRoom (d : Store) (userId : Uuid) (room : ChatRoom) (i : ChatRoomListItem) :
    Prop where
  roomId : i.roomId = room.id
  last : ∃ last ∈ d.chatMessages, last.roomId = room.id ∧
    (∀ m ∈ d.chatMessages, m.roomId = room.id → messageKey m ≤ messageKey last) ∧
    i.lastMessagePreview = previewOf last.content ∧ i.updatedAt = last.createdAt
  unread : i.unreadCount = d.chatMessages.countP fun m =>
    m.roomId = room.id && (!m.isRead && m.senderId != userId)
  peer : ∃ peer ∈ d.users, peer.id ≠ userId ∧ (peer.id = room.user1Id ∨ peer.id = room.user2Id) ∧
    i.peerUserId = peer.id ∧ i.peerNickname = peer.nickname ∧
    (∀ url, i.peerProfileImageUrl = some url ↔
      ∃ image ∈ d.images, peer.profileImageId = some image.id ∧ image.fileUrl = url) ∧
    ∃ dog : Option DogProfile,
      (∀ g, dog = some g ↔ g ∈ d.dogProfiles ∧ g.ownerId = peer.id ∧ g.isRepresentative = true) ∧
      i.peerDogName = dog.map (·.name) ∧ i.peerDogBreed = dog.map (·.breed) ∧
      i.peerDogGender = dog.map (·.gender) ∧ i.peerDogBirthDate = dog.map (·.birthDate) ∧
      ∀ url, i.peerDogProfileImageUrl = some url ↔
        ∃ g ∈ dog, ∃ image ∈ d.images, g.profileImageId = some image.id ∧ image.fileUrl = url

theorem peerId_spec (hc : Constraints d) (hr : room ∈ d.chatRooms) (userId : Uuid) :
    ∃ peer ∈ d.users, peer.id = PeerJoin.peerId userId room ∧ peer.id ≠ userId ∧
      (peer.id = room.user1Id ∨ peer.id = room.user2Id) := by
  obtain ⟨hlt, ⟨u₁, hu₁, hid₁⟩, u₂, hu₂, hid₂⟩ := hc.members room hr
  rw [PeerJoin.peerId]
  by_cases h : room.user1Id = userId
  · rw [if_pos h]
    exact ⟨u₂, hu₂, hid₂, hid₂ ▸ h ▸ hlt.ne', .inr hid₂⟩
  · rw [if_neg h]
    exact ⟨u₁, hu₁, hid₁, hid₁ ▸ h, .inl hid₁⟩

theorem lastOf_greatest (h : lastOf d roomId = some last) (hm : m ∈ d.chatMessages)
    (hroom : m.roomId = roomId) : messageKey m ≤ messageKey last := by
  have hmem : m ∈ orderBy (· > ·) messageKey (d.chatMessages.filter fun m => m.roomId = roomId) :=
    mem_orderBy.mpr (List.mem_filter.mpr ⟨hm, decide_eq_true hroom⟩)
  have hsorted : (orderBy (· > ·) messageKey (d.chatMessages.filter fun m => m.roomId = roomId)).Pairwise
      fun a b => ¬ messageKey b > messageKey a := orderBy_sorted _
  obtain ⟨rest, hlist⟩ := List.head?_eq_some_iff.mp h
  rw [hlist] at hmem hsorted
  rcases List.mem_cons.mp hmem with rfl | hmem
  · exact le_rfl
  · exact not_lt.mp ((List.pairwise_cons.mp hsorted).1 m hmem)

theorem fileUrl_iff {images : List Image} (hi : Table.Keyed Image.id images) (o : Option Uuid)
    (url : String) :
    (images.find? fun i => o = some i.id).map (·.fileUrl) = some url ↔
      ∃ image ∈ images, o = some image.id ∧ image.fileUrl = url := by
  constructor
  · intro h
    obtain ⟨image, himage, hurl⟩ := Option.map_eq_some_iff.mp h
    have hid := List.find?_some himage
    exact ⟨image, List.mem_of_find?_eq_some himage, of_decide_eq_true hid, hurl⟩
  · rintro ⟨image, himage, hid, rfl⟩
    rw [hi.find_eq_some (i := image.id) (fun s hs => ?_) himage (decide_eq_true hid)]
    · rfl
    · exact (Option.some.inj (hid.symm.trans (of_decide_eq_true hs))).symm

theorem representative_iff (hc : Constraints d) (ownerId : Uuid) (g : DogProfile) :
    PeerJoin.representative d ownerId = some g ↔
      g ∈ d.dogProfiles ∧ g.ownerId = ownerId ∧ g.isRepresentative = true := by
  constructor
  · intro h
    have hg := List.find?_some h
    rw [Bool.and_eq_true, decide_eq_true_eq] at hg
    exact ⟨List.mem_of_find?_eq_some h, hg⟩
  · rintro ⟨hg, ho, hr⟩
    cases hfind : PeerJoin.representative d ownerId with
    | none =>
      have hnot := List.find?_eq_none.mp hfind g hg
      simp [ho, hr] at hnot
    | some g' =>
      have hg' := List.find?_some hfind
      rw [Bool.and_eq_true, decide_eq_true_eq] at hg'
      rw [PeerJoin.eq_of_representative hc.representative (List.mem_of_find?_eq_some hfind) hg hg'.2 hr
        (hg'.1.trans ho.symm)]

theorem dogImage_iff (hc : Constraints d) (dog : Option DogProfile) (url : String) :
    (PeerJoin.dogImage d dog).map (·.fileUrl) = some url ↔
      ∃ g ∈ dog, ∃ image ∈ d.images, g.profileImageId = some image.id ∧ image.fileUrl = url := by
  cases dog with
  | none => simp [PeerJoin.dogImage, List.find?_eq_none.mpr]
  | some g =>
    refine (fileUrl_iff hc.valid.images g.profileImageId url).trans ?_
    simp

theorem rowOf_describes (hc : Constraints d) (hpeer : peer ∈ d.users)
    (hid : peer.id = PeerJoin.peerId userId room) (hne : peer.id ≠ userId)
    (hmember : peer.id = room.user1Id ∨ peer.id = room.user2Id)
    (hlast : lastOf d room.id = some last) :
    DescribesRoom d userId room (roomListItem (rowOf d userId room peer last)) where
  roomId := rfl
  last := ⟨last, (lastOf_mem hlast).1, (lastOf_mem hlast).2,
    fun _ hm hroom => lastOf_greatest hlast hm hroom, by rw [roomListItem, rowOf], rfl⟩
  unread := rfl
  peer := ⟨peer, hpeer, hne, hmember, hid.symm, rfl,
    fileUrl_iff hc.valid.images peer.profileImageId, PeerJoin.representative d peer.id,
    representative_iff hc peer.id, rfl, rfl, rfl, rfl, dogImage_iff hc _⟩

theorem roomRow_some (hc : Constraints d) (hr : room ∈ d.chatRooms) (userId : Uuid)
    (hm : m ∈ d.chatMessages) (hroom : m.roomId = room.id) :
    ∃ row, roomRow d userId room = some row ∧ DescribesRoom d userId room (roomListItem row) := by
  obtain ⟨peer, hpeer, hid, hne, hmember⟩ := peerId_spec hc hr userId
  obtain ⟨last, hlast⟩ : ∃ last, lastOf d room.id = some last := by
    rw [lastOf, ← Option.isSome_iff_exists, List.isSome_head?]
    have hmem : m ∈ orderBy (· > ·) messageKey (d.chatMessages.filter fun m => m.roomId = room.id) :=
      mem_orderBy.mpr (List.mem_filter.mpr ⟨hm, decide_eq_true hroom⟩)
    exact List.ne_nil_of_mem hmem
  have hrow : Table.row User.id d.users (PeerJoin.peerId userId room) = some peer :=
    hid ▸ hc.valid.users.row_eq hpeer
  rw [roomRow, hrow, hlast]
  exact ⟨_, rfl, rowOf_describes hc hpeer hid hne hmember hlast⟩

theorem roomRow_isSome (hc : Constraints d) (hr : room ∈ d.chatRooms) (userId : Uuid) :
    (roomRow d userId room).isSome = true ↔ ∃ m ∈ d.chatMessages, m.roomId = room.id := by
  constructor
  · intro h
    rw [roomRow] at h
    cases hpeer : Table.row User.id d.users (PeerJoin.peerId userId room) with
    | none =>
      rw [hpeer] at h
      cases h
    | some peer =>
      cases hlast : lastOf d room.id with
      | none =>
        rw [hpeer, hlast] at h
        cases h
      | some last => exact ⟨last, lastOf_mem hlast⟩
  · rintro ⟨m, hm, hroom⟩
    obtain ⟨row, hrow, -⟩ := roomRow_some hc hr userId hm hroom
    rw [hrow]
    rfl

theorem filterMap_eq_map_filter [Inhabited β] (f : α → Option β) (l : List α) :
    l.filterMap f = (l.filter fun a => (f a).isSome).map fun a => (f a).getD default := by
  induction l with
  | nil => rfl
  | cons a l ih => cases h : f a <;> simp [h, ih]

/-- A user's rooms that have a message are listed once, by the time of the newest one. -/
theorem recentRooms_spec (d : Store) (hc : Constraints d) (userId : Uuid) :
    ∃ (rooms : List ChatRoom) (item : ChatRoom → ChatRoomListItem),
      (∀ room, room ∈ rooms ↔ room ∈ d.chatRooms ∧
        (room.user1Id = userId ∨ room.user2Id = userId) ∧
          ∃ m ∈ d.chatMessages, m.roomId = room.id) ∧
      rooms.Nodup ∧
      (rooms.map item).Pairwise (fun a b =>
        toLex (b.updatedAt, b.roomId) < toLex (a.updatedAt, a.roomId)) ∧
      (∀ room ∈ rooms, DescribesRoom d userId room (item room)) ∧
      ∀ limit, listRecentRooms d userId limit = (rooms.take limit).map item := by
  let row := fun room => (roomRow d userId room).getD default
  let key := fun room => toLex ((row room).lastCreatedAt, (row room).roomId)
  let mine := (d.chatRooms.filter (isMine userId)).filter fun room =>
    (roomRow d userId room).isSome
  have hrows : recentRoomRows d userId = mine.map row :=
    (recentRoomRows_eq hc.valid hc.representative userId).trans (filterMap_eq_map_filter _ _)
  have hmem : ∀ room, room ∈ mine ↔ room ∈ d.chatRooms ∧
      (room.user1Id = userId ∨ room.user2Id = userId) ∧
        ∃ m ∈ d.chatMessages, m.roomId = room.id := by
    intro room
    rw [List.mem_filter, List.mem_filter, isMine, Bool.or_eq_true, beq_iff_eq, beq_iff_eq, and_assoc]
    exact and_congr_right fun hr => and_congr_right fun _ => roomRow_isSome hc hr userId
  have hrow : ∀ room ∈ mine, DescribesRoom d userId room (roomListItem (row room)) := by
    intro room h
    obtain ⟨hr, -, m, hm, hroom⟩ := (hmem room).mp h
    obtain ⟨r, hsome, hdesc⟩ := roomRow_some hc hr userId hm hroom
    have he : row room = r := congrArg (Option.getD · default) hsome
    rwa [he]
  have hnodup : mine.Nodup := (hc.rooms.nodup.filter _).filter _
  refine ⟨orderBy (· > ·) key mine, fun room => roomListItem (row room),
    fun room => mem_orderBy.trans (hmem room), (orderBy_perm mine).nodup_iff.mpr hnodup, ?_,
    fun room h => hrow room (mem_orderBy.mp h), fun limit => ?_⟩
  · have hkeys : (mine.map key).Nodup := by
      refine List.Nodup.map_on (fun a ha b hb he => ?_) hnodup
      have hid : (row a).roomId = (row b).roomId := congrArg (fun k => (ofLex k).2) he
      have ha' : (row a).roomId = a.id := (hrow a ha).roomId
      have hb' : (row b).roomId = b.id := (hrow b hb).roomId
      exact hc.rooms.eq ((hmem a).mp ha).1 ((hmem b).mp hb).1 (ha'.symm.trans (hid.trans hb'))
    have hpair : (orderBy (· > ·) key mine).Pairwise fun a b => key a > key b :=
      orderBy_pairwise hkeys
    exact List.pairwise_map.mpr hpair
  · rw [listRecentRooms, hrows, orderBy_map, ← List.map_take, List.map_map]
    rfl

/-- Users 1 and 2 with the room `chat`; user 2 has a representative dog. -/
def inboxOfTwo : Store where
  chatRooms := [{ id := 30, user1Id := 1, user2Id := 2, createdAt := 0, updatedAt := 0 }]
  chatMessages := [{
    id := 40, roomId := 30, senderId := 2, content := "멍", isRead := false, createdAt := 1 }]
  users := [1, 2].map fun id => {
    id := id, version := 1, email := "", password := "", nickname := "누리", profileImageId := none,
    status := .active, createdAt := 0, updatedAt := 0, deletedAt := none }
  dogProfiles := [{
    id := 50, ownerId := 2, name := "보리", breed := "푸들", gender := .female, birthDate := 0,
    profileImageId := none, isRepresentative := true, createdAt := 0, updatedAt := 0 }]

theorem inboxOfTwo_constraints : Constraints inboxOfTwo where
  valid := by constructor <;> decide
  rooms := by decide
  members := by decide
  representative := by unfold OneRepresentative; decide

theorem recentRooms_spec_inboxOfTwo :
    ∃ (rooms : List ChatRoom) (item : ChatRoom → ChatRoomListItem),
      30 ∈ rooms.map (·.id) ∧ (∀ room ∈ rooms, DescribesRoom inboxOfTwo 1 room (item room)) ∧
        listRecentRooms inboxOfTwo 1 20 = (rooms.take 20).map item := by
  obtain ⟨rooms, item, hmem, -, -, hdesc, hlist⟩ :=
    recentRooms_spec inboxOfTwo inboxOfTwo_constraints 1
  have hroom := (hmem { id := 30, user1Id := 1, user2Id := 2, createdAt := 0, updatedAt := 0 }).mpr
    (by decide)
  exact ⟨rooms, item, List.mem_map_of_mem hroom, hdesc, hlist 20⟩

end ChatService

end PuppyTalk
