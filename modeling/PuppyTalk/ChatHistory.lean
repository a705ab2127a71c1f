import PuppyTalk.Schemas
import PuppyTalk.Store

namespace PuppyTalk

open Paging

inductive ChatPageDirection where
  | before
  | after
  deriving DecidableEq, Repr

structure ChatMessageItem where
  id : Uuid
  roomId : Uuid
  senderId : Uuid
  content : String
  isRead : Bool
  createdAt : Timestamp
  deriving DecidableEq, Repr

namespace ChatService

def roomForbiddenMessage : String := "이 채팅방에 접근할 수 없습니다."

def invalidCursorMessage : String := "유효하지 않은 cursor 입니다."

def cursorRequiredMessage : String := "direction=after 에는 cursor 가 필요합니다."

def messageKey (m : ChatMessage) : Timestamp ×ₗ Uuid := toLex (m.createdAt, m.id)

def messageItem (m : ChatMessage) : ChatMessageItem where
  id := m.id
  roomId := m.roomId
  senderId := m.senderId
  content := m.content
  isRead := m.isRead
  createdAt := m.createdAt

/-- `_room_membership_guard`; a cursor that was asked for comes back as its row value. -/
def roomMembershipGuard (d : Store) (roomId userId : Uuid) (cursorMessageId : Option Uuid) :
    Except ApiException (Option (Timestamp ×ₗ Uuid)) :=
  match d.chatRooms.find? (·.id == roomId) with
  | none => .error (.forbidden (some roomForbiddenMessage))
  | some room =>
    if userId ≠ room.user1Id ∧ userId ≠ room.user2Id then
      .error (.forbidden (some roomForbiddenMessage))
    else
      match cursorMessageId with
      | none => .ok none
      | some cursorId =>
        match d.chatMessages.find? fun m => m.id == cursorId && m.roomId == roomId with
        | none => .error (.invalidRequest invalidCursorMessage)
        | some m => .ok (some (messageKey m))

def listRoomMessages (d : Store) (roomId userId : Uuid) (cursorMessageId : Option Uuid)
    (limit : Nat) (direction : ChatPageDirection) :
    Except ApiException (List ChatMessageItem × Bool) := do
  let cursorRow ← roomMembershipGuard d roomId userId cursorMessageId
  if direction = .after ∧ cursorRow = none then
    throw (.invalidRequest cursorRequiredMessage)
  let rows := d.chatMessages.filter (·.roomId == roomId)
  let fetched := match direction with
    | .after => orderBy (· < ·) messageKey (rows.filter fun m => cursorRow.all (messageKey m > ·))
    | .before => orderBy (· > ·) messageKey (rows.filter fun m => cursorRow.all (messageKey m < ·))
  let (pageRows, hasMore) := splitPage (fetched.take (limit + 1)) limit
  -- the answer is newest first in both directions
  let pageRows := match direction with
    | .after => pageRows.reverse
    | .before => pageRows
  pure (pageRows.map messageItem, hasMore)

def nextCursor : ChatPageDirection → List ChatMessageItem → Option ChatMessageItem
  | .before, items => items.getLast?
  | .after, items => items.head?

structure HistoryPage where
  cursor : Uuid
  items : List ChatMessageItem
  hasMore : Bool

/-- A client that asks page after page, at most `n` times, until there is no more. -/
def scroll (d : Store) (roomId userId : Uuid) (limit : Nat) (direction : ChatPageDirection) :
    Nat → Uuid → List HistoryPage
  | 0, _ => []
  | n + 1, cursor =>
    match listRoomMessages d roomId userId (some cursor) limit direction with
    | .error _ => []
    | .ok (items, hasMore) =>
      { cursor := cursor, items := items, hasMore := hasMore } ::
        if hasMore then (nextCursor direction items).elim [] fun i =>
          scroll d roomId userId limit direction n i.id
        else []

def onward : ChatPageDirection → (a b : Timestamp ×ₗ Uuid) → Prop
  | .before => (· > ·)
  | .after => (· < ·)

instance : (direction : ChatPageDirection) → DecidableRel (onward direction)
  | .before => inferInstanceAs (DecidableRel (· > ·))
  | .after => inferInstanceAs (DecidableRel (· < ·))

instance : (direction : ChatPageDirection) → IsStrictTotalOrder _ (onward direction)
  | .before => inferInstanceAs (IsStrictTotalOrder (Timestamp ×ₗ Uuid) (· > ·))
  | .after => inferInstanceAs (IsStrictTotalOrder (Timestamp ×ₗ Uuid) (· < ·))

def itemKey (i : ChatMessageItem) : Timestamp ×ₗ Uuid := toLex (i.createdAt, i.id)

def Newer (a b : ChatMessageItem) : Prop := itemKey b < itemKey a

def oriented : ChatPageDirection → List ChatMessageItem → List ChatMessageItem
  | .before, items => items
  | .after, items => items.reverse

theorem oriented_oriented (direction : ChatPageDirection) (items : List ChatMessageItem) :
    oriented direction (oriented direction items) = items := by
  cases direction with
  | before => rfl
  | after => exact List.reverse_reverse items

theorem oriented_perm (direction : ChatPageDirection) (items : List ChatMessageItem) :
    (oriented direction items).Perm items := by
  cases direction with
  | before => exact .refl _
  | after => exact List.reverse_perm items

theorem nextCursor_oriented (direction : ChatPageDirection) (items : List ChatMessageItem) :
    nextCursor direction (oriented direction items) = items.getLast? := by
  cases direction with
  | before => rfl
  | after => exact List.head?_reverse

theorem oriented_pairwise (h : items.Pairwise fun a b => onward direction (itemKey a) (itemKey b)) :
    (oriented direction items).Pairwise Newer := by
  cases direction with
  | before => exact h
  | after => exact List.pairwise_reverse.mpr h

def roomItems (d : Store) (roomId : Uuid) : List ChatMessageItem :=
  (d.chatMessages.filter (·.roomId == roomId)).map messageItem

def cursorKey (d : Store) (roomId cursor : Uuid) : Option (Timestamp ×ₗ Uuid) :=
  (d.chatMessages.find? fun m => m.id == cursor && m.roomId == roomId).map messageKey

def isMember (d : Store) (roomId userId : Uuid) : Bool :=
  (d.chatRooms.find? (·.id == roomId)).any fun room =>
    userId == room.user1Id || userId == room.user2Id

def readPage (d : Store) (roomId userId : Uuid) (limit : Nat) (direction : ChatPageDirection)
    (_ : Unit) (cursor : Uuid) : Option (List ChatMessageItem × Bool) :=
  (listRoomMessages d roomId userId (some cursor) limit direction).toOption.map
    (Prod.map (oriented direction) id)

theorem roomMembershipGuard_some (d : Store) (roomId userId cursor : Uuid) :
    (roomMembershipGuard d roomId userId (some cursor)).toOption =
      if isMember d roomId userId then (cursorKey d roomId cursor).map some else none := by
  rw [roomMembershipGuard, isMember, cursorKey]
  cases d.chatRooms.find? (·.id == roomId) with
  | none => rfl
  | some room =>
    by_cases h : userId ≠ room.user1Id ∧ userId ≠ room.user2Id
    · simp [h.1, h.2, Except.toOption]
    · dsimp only
      rw [if_neg h, if_pos (by simpa [imp_iff_not_or] using h)]
      cases d.chatMessages.find? fun m => m.id == cursor && m.roomId == roomId <;> rfl

theorem splitPage_items (direction : ChatPageDirection) (d : Store) (roomId : Uuid) (limit : Nat)
    (cursorRow : Option (Timestamp ×ₗ Uuid)) :
    (splitPage ((orderBy (onward direction) messageKey (beyond (onward direction) messageKey
        cursorRow (d.chatMessages.filter (·.roomId == roomId)))).take (limit + 1)) limit).map
          (·.map messageItem) id =
      ((orderBy (onward direction) itemKey
          (beyond (onward direction) itemKey cursorRow (roomItems d roomId))).take limit,
        decide (limit < (beyond (onward direction) itemKey cursorRow
          (roomItems d roomId)).length)) := by
  rw [splitPage_take, roomItems, beyond_map, orderBy_map, length_orderBy, List.length_map,
    ← List.map_take]
  rfl

theorem listRoomMessages_eq
    (hg : roomMembershipGuard d roomId userId (some cursor) = .ok (some k)) (limit : Nat)
    (direction : ChatPageDirection) :
    listRoomMessages d roomId userId (some cursor) limit direction =
      .ok (oriented direction ((orderBy (onward direction) itemKey
          (beyond (onward direction) itemKey (some k) (roomItems d roomId))).take limit),
        decide (limit < (beyond (onward direction) itemKey (some k)
          (roomItems d roomId)).length)) := by
  have hsplit := splitPage_items direction d roomId limit (some k)
  rw [listRoomMessages, hg]
  cases direction with
  | before => exact congrArg Except.ok hsplit
  | after =>
    refine congrArg Except.ok (Eq.trans ?_ (congrArg (Prod.map List.reverse id) hsplit))
    refine Prod.ext ?_ rfl
    exact List.map_reverse

theorem readPage_eq (d : Store) (roomId userId : Uuid) (limit : Nat)
    (direction : ChatPageDirection) (cursor : Uuid) :
    readPage d roomId userId limit direction () cursor =
      if isMember d roomId userId then (cursorKey d roomId cursor).map fun k =>
        ((orderBy (onward direction) itemKey
            (beyond (onward direction) itemKey (some k) (roomItems d roomId))).take limit,
          decide (limit < (beyond (onward direction) itemKey (some k) (roomItems d roomId)).length))
      else none := by
  have hguard := roomMembershipGuard_some d roomId userId cursor
  rw [readPage]
  cases hg : roomMembershipGuard d roomId userId (some cursor) with
  | error e =>
    rw [hg] at hguard
    rw [listRoomMessages, hg]
    split at hguard
    · rw [if_pos ‹_›, Option.map_eq_none_iff.mp hguard.symm]
      rfl
    · rw [if_neg ‹_›]
      rfl
  | ok row =>
    rw [hg] at hguard
    split at hguard
    · obtain ⟨k, hk, rfl⟩ := Option.map_eq_some_iff.mp hguard.symm
      rw [if_pos ‹_›, hk, listRoomMessages_eq hg]
      exact congrArg some (Prod.ext (oriented_oriented _ _) rfl)
    · cases hguard

theorem cursorKey_of_mem (hids : Table.Keyed ChatMessage.id d.chatMessages)
    (hm : m ∈ d.chatMessages) (hroom : m.roomId = roomId) :
    cursorKey d roomId m.id = some (messageKey m) := by
  rw [cursorKey, hids.find_eq_some (i := m.id) _ hm (by simp [hroom])]
  · rfl
  · intro m' hm'
    rw [Bool.and_eq_true, beq_iff_eq] at hm'
    exact hm'.1

theorem readPage_reads (d : Store) (hids : Table.Keyed ChatMessage.id d.chatMessages)
    (roomId userId : Uuid) (limit : Nat) (direction : ChatPageDirection) :
    Reads (onward direction) itemKey limit (fun _ => roomItems d roomId) (cursorKey d roomId)
      (·.id) (readPage d roomId userId limit direction) where
  items _ cursor items more h := by
    rw [readPage_eq] at h
    split at h
    · obtain ⟨k, hk, he⟩ := Option.map_eq_some_iff.mp h
      rw [hk]
      exact (congrArg Prod.fst he).symm
    · cases h
  hasMore _ cursor items more h := by
    rw [readPage_eq] at h
    split at h
    · obtain ⟨k, hk, he⟩ := Option.map_eq_some_iff.mp h
      rw [hk]
      exact (congrArg Prod.snd he).symm
    · cases h
  bound _ i hi := by
    obtain ⟨m, hm, rfl⟩ := List.mem_map.mp hi
    obtain ⟨hm, hroom⟩ := List.mem_filter.mp hm
    exact cursorKey_of_mem hids hm (beq_iff_eq.mp hroom)

theorem scroll_eq (d : Store) (roomId userId : Uuid) (limit : Nat) (direction : ChatPageDirection)
    (n : Nat) (cursor : Uuid) :
    scroll d roomId userId limit direction n cursor =
      (walk (·.id) (readPage d roomId userId limit direction) cursor (List.replicate n ())).map
        fun v => { cursor := v.cursor, items := oriented direction v.items, hasMore := v.hasMore } := by
  induction n generalizing cursor with
  | zero => rfl
  | succ n ih =>
    rw [scroll, List.replicate_succ]
    cases hp : listRoomMessages d roomId userId (some cursor) limit direction with
    | error e =>
      rw [walk_none]
      · rfl
      · rw [readPage, hp]
        rfl
    | ok r =>
      obtain ⟨items, more⟩ := r
      have hread : readPage d roomId userId limit direction () cursor =
          some (oriented direction items, more) := by
        rw [readPage, hp]
        rfl
      cases more with
      | false =>
        rw [walk_last hread]
        simp [oriented_oriented]
      | true =>
        have hnext : nextCursor direction items = (oriented direction items).getLast? := by
          rw [← nextCursor_oriented, oriented_oriented]
        rw [walk, hread]
        dsimp only
        rw [if_pos rfl, if_pos rfl, hnext, List.map_cons, oriented_oriented]
        congr 1
        cases (oriented direction items).getLast? with
        | none => rfl
        | some i => exact ih i.id

theorem roomItems_nodup (hids : Table.Keyed ChatMessage.id d.chatMessages) (roomId : Uuid) :
    ((roomItems d roomId).map itemKey).Nodup := by
  have h : ((d.chatMessages.filter (·.roomId == roomId)).map ChatMessage.id).Nodup :=
    hids.sublist (List.filter_sublist.map _)
  rw [roomItems, List.map_map]
  apply List.Nodup.of_map (fun k => (ofLex k).2)
  rw [List.map_map]
  exact h

theorem mem_beyond_roomItems : i ∈ beyond (onward direction) itemKey (some k) (roomItems d roomId) ↔
    ∃ m ∈ d.chatMessages, m.roomId = roomId ∧ onward direction k (messageKey m) ∧
      i = messageItem m := by
  simp only [mem_beyond, roomItems, List.mem_map, List.mem_filter, beq_iff_eq, Option.mem_def,
    Option.some.injEq, forall_eq']
  constructor
  · rintro ⟨⟨m, ⟨hm, hroom⟩, rfl⟩, hk⟩
    exact ⟨m, hm, hroom, hk, rfl⟩
  · rintro ⟨m, hm, hroom, hk, rfl⟩
    exact ⟨⟨m, ⟨hm, hroom⟩, rfl⟩, hk⟩

theorem isMember_of_mem (hrooms : Table.Keyed ChatRoom.id d.chatRooms) (hroom : room ∈ d.chatRooms)
    (hmember : userId = room.user1Id ∨ userId = room.user2Id) :
    isMember d room.id userId = true := by
  rw [isMember, hrooms.find_eq_some (i := room.id) (fun s hs => beq_iff_eq.mp hs) hroom (by simp)]
  simpa using hmember

theorem mem_of_cursorKey (h : cursorKey d roomId cursor = some k) :
    ∃ c ∈ d.chatMessages, c.roomId = roomId ∧ c.id = cursor ∧ messageKey c = k := by
  obtain ⟨c, hc, rfl⟩ := Option.map_eq_some_iff.mp h
  have hp := List.find?_some hc
  rw [Bool.and_eq_true, beq_iff_eq, beq_iff_eq] at hp
  exact ⟨c, List.mem_of_find?_eq_some hc, hp.2, hp.1, rfl⟩

theorem readPage_spec (hids : Table.Keyed ChatMessage.id d.chatMessages)
    (hp : readPage d roomId userId limit direction () cursor = some (items, more)) :
    (oriented direction items).Pairwise Newer ∧
      ∃ c ∈ d.chatMessages, c.roomId = roomId ∧ c.id = cursor ∧
        (more = true ↔ ∃ m ∈ d.chatMessages, m.roomId = roomId ∧
          onward direction (messageKey c) (messageKey m) ∧
            messageItem m ∉ oriented direction items) := by
  have hr := readPage_reads d hids roomId userId limit direction
  have hkeys := roomItems_nodup hids roomId
  refine ⟨oriented_pairwise (List.pairwise_append.mp (hr.pairwise hp hkeys)).1, ?_⟩
  obtain ⟨k, hk⟩ : ∃ k, cursorKey d roomId cursor = some k := by
    rw [readPage_eq] at hp
    split at hp
    · obtain ⟨k, hk, -⟩ := Option.map_eq_some_iff.mp hp
      exact ⟨k, hk⟩
    · cases hp
  obtain ⟨c, hc, hcroom, hcid, rfl⟩ := mem_of_cursorKey hk
  refine ⟨c, hc, hcroom, hcid, ?_⟩
  simp only [(oriented_perm direction items).mem_iff]
  constructor
  · intro hmore
    obtain ⟨i, hi, hlt, hall⟩ := (hr.hasMore_iff hp hkeys).mp hmore
    rw [hk] at hlt
    obtain ⟨m, hm, hmroom, hcm, rfl⟩ := mem_beyond_roomItems.mp (mem_beyond.mpr ⟨hi, hlt⟩)
    exact ⟨m, hm, hmroom, hcm, fun hmem => irrefl_of (onward direction) _ (hall _ hmem)⟩
  · rintro ⟨m, hm, hmroom, hlt, hnot⟩
    obtain ⟨hi, hlt⟩ := mem_beyond.mp (mem_beyond_roomItems.mpr ⟨m, hm, hmroom, hlt, rfl⟩)
    rw [← hk] at hlt
    exact (hr.lt_of_not_mem hp hkeys hi hlt hnot).2

/-- A room can be read from any of its messages in both directions: the pages hold what lies that
way, once, and say whether there is more. -/
theorem scroll_tiles (d : Store) (hrooms : Table.Keyed ChatRoom.id d.chatRooms)
    (hids : Table.Keyed ChatMessage.id d.chatMessages) (room : ChatRoom) (hroom : room ∈ d.chatRooms)
    (userId : Uuid) (hmember : userId = room.user1Id ∨ userId = room.user2Id) (start : ChatMessage)
    (hstart : start ∈ d.chatMessages) (hin : start.roomId = room.id) (limit : Nat)
    (hlimit : 1 ≤ limit) (direction : ChatPageDirection) (n : Nat)
    (hn : d.chatMessages.length / limit < n) :
    let pages := scroll d room.id userId limit direction n start.id
    (∃ last, pages.getLast? = some last ∧ last.hasMore = false) ∧
      (∀ i, i ∈ pages.flatMap (·.items) ↔ ∃ m ∈ d.chatMessages, m.roomId = room.id ∧
        onward direction (messageKey start) (messageKey m) ∧ i = messageItem m) ∧
      (pages.flatMap (·.items)).Nodup ∧
      (direction = .before → (pages.flatMap (·.items)).Pairwise Newer) ∧
      (direction = .after → (pages.reverse.flatMap (·.items)).Pairwise Newer) ∧
      ∀ p ∈ pages, p.items.Pairwise Newer ∧
        ∃ c ∈ d.chatMessages, c.roomId = room.id ∧ c.id = p.cursor ∧
          (p.hasMore = true ↔ ∃ m ∈ d.chatMessages, m.roomId = room.id ∧
            onward direction (messageKey c) (messageKey m) ∧ messageItem m ∉ p.items) := by
  intro pages
  have hr := readPage_reads d hids room.id userId limit direction
  have hkeys := roomItems_nodup hids room.id
  have hmem := isMember_of_mem hrooms hroom hmember
  have hkey := cursorKey_of_mem hids hstart hin
  have hsome : ∀ m ∈ d.chatMessages, m.roomId = room.id →
      (readPage d room.id userId limit direction () m.id).isSome = true := by
    intro m hm hmroom
    rw [readPage_eq, if_pos hmem, cursorKey_of_mem hids hm hmroom]
    rfl
  have hnext : ∀ i ∈ roomItems d room.id,
      (readPage d room.id userId limit direction () i.id).isSome = true := by
    intro i hi
    obtain ⟨m, hm, rfl⟩ := List.mem_map.mp hi
    obtain ⟨hm, hmroom⟩ := List.mem_filter.mp hm
    exact hsome m hm (beq_iff_eq.mp hmroom)
  have hlen : (beyond (onward direction) itemKey (cursorKey d room.id start.id)
      (roomItems d room.id)).length ≤ d.chatMessages.length := by
    refine (List.length_filter_le _ _).trans ?_
    rw [roomItems, List.length_map]
    exact List.length_filter_le _ _
  obtain ⟨hret, hend, -⟩ := walk_replicate (s := ()) (m := n) hr hlimit hkeys
    (hsome start hstart hin) hnext ((Nat.div_le_div_right hlen).trans_lt hn)
  generalize hv : walk (·.id) (readPage d room.id userId limit direction) start.id
    (List.replicate n ()) = visits at hret hend
  have hpages : pages = visits.map fun v =>
      { cursor := v.cursor, items := oriented direction v.items, hasMore := v.hasMore } :=
    hv ▸ scroll_eq d room.id userId limit direction n start.id
  have hitems : pages.flatMap (·.items) = visits.flatMap fun v => oriented direction v.items := by
    rw [hpages, List.flatMap_map]
  have hperm : (pages.flatMap (·.items)).Perm (returned visits) := by
    rw [hitems]
    exact List.Perm.flatMap_left visits fun v _ => oriented_perm direction v.items
  have hpair : (returned visits).Pairwise fun a b => onward direction (itemKey a) (itemKey b) := by
    rw [hret]
    exact orderBy_pairwise (hkeys.sublist (List.filter_sublist.map _))
  refine ⟨?_, fun i => ?_, ?_, ?_, ?_, ?_⟩
  · obtain ⟨v, hlast, hmore⟩ := hend
    rw [hpages, List.getLast?_map, hlast]
    exact ⟨_, rfl, hmore⟩
  · rw [hperm.mem_iff, hret, mem_orderBy, hkey]
    exact mem_beyond_roomItems
  · refine hperm.nodup_iff.mpr (hpair.imp ?_)
    rintro a _ h rfl
    exact irrefl_of (onward direction) _ h
  · rintro rfl
    rw [hitems]
    exact hpair
  · rintro rfl
    have hrev : pages.reverse.flatMap (·.items) = (returned visits).reverse := by
      rw [hpages, ← List.map_reverse, List.flatMap_map, returned, List.reverse_flatMap]
      rfl
    rw [hrev]
    exact List.pairwise_reverse.mpr hpair
  · intro p hp
    rw [hpages] at hp
    obtain ⟨v, hmv, rfl⟩ := List.mem_map.mp hp
    rw [← hv] at hmv
    exact readPage_spec hids (page_of_mem_walk hmv).2

def chat : Store where
  chatRooms := [{ id := 30, user1Id := 1, user2Id := 2, createdAt := 0, updatedAt := 0 }]
  chatMessages := [(40, 1), (41, 2), (42, 2), (43, 3)].map fun (id, time) => {
    id := id, roomId := 30, senderId := 1, content := "멍", isRead := false, createdAt := time }

theorem scroll_tiles_chat :
    let pages := scroll chat 30 1 1 .after 5 40
    (∃ last, pages.getLast? = some last ∧ last.hasMore = false) ∧
      (pages.reverse.flatMap (·.items)).Pairwise Newer := by
  obtain ⟨hend, -, -, -, hafter, -⟩ := scroll_tiles chat (by decide) (by decide)
    { id := 30, user1Id := 1, user2Id := 2, createdAt := 0, updatedAt := 0 } (by decide) 1 (by decide)
    { id := 40, roomId := 30, senderId := 1, content := "멍", isRead := false, createdAt := 1 }
    (by decide) rfl 1 (by decide) .after 5 (by decide)
  exact ⟨hend, hafter rfl⟩

end ChatService

end PuppyTalk
