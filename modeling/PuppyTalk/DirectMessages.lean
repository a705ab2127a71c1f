import Mathlib.Data.Sym.Sym2
import PuppyTalk.ProgramRules
import PuppyTalk.TransactionOutcome

namespace PuppyTalk.Backend.DirectMessages

open Txn
open Backend.ChatService

def Has (d : Store) (roomId : Uuid) (pair : Uuid × Uuid) : Prop :=
  ∃ r, Tables.chatRooms.get d pair = some r ∧ r.id = roomId

/-- The pair had the room at the start or after one of the commits. -/
def Named (first : Store) (log : List Commit) (roomId : Uuid) (pair : Uuid × Uuid) : Prop :=
  Has first roomId pair ∨ ∃ c ∈ log, Has c.db roomId pair

def Present (d : Store) (userId : Uuid) : Prop := (Tables.users.get d userId).isSome = true

def MayDm (d : Store) (userId peerId : Uuid) : Prop :=
  getStatusAndBlockBetween d userId peerId = some (.active, false)

/-- The transaction has made its permission check, and every one it made let the message through. -/
structure Checked (first : Store) (log : List Commit) (userId peerId : Uuid)
    (past : List (Statement × Nat)) : Prop where
  other : peerId ≠ userId
  made : ∃ roomId n, (.getStatusAndBlockBetween roomId, n) ∈ past
  passed : ∀ roomId n, (.getStatusAndBlockBetween roomId, n) ∈ past →
    n ≤ log.length ∧ MayDm (dbAt first log n) userId peerId

/-- A commit of `send_dm_from_ws` has stored the message in the room of its two users. -/
def Sent (first : Store) (log : List Commit) (m : ChatMessage) : Prop :=
  ∃ c ∈ log, ∃ socket payload roomId retries now,
    c.req = .sendDm socket payload roomId m.id retries now ∧
    m.senderId = socket.userId ∧ m.content = payload.content ∧
    Named first log m.roomId (normalizeDmUserIds socket.userId payload.peerUserId) ∧
    Checked first log socket.userId payload.peerUserId c.past

theorem Named.append (h : Named first log roomId pair) (l : List Commit) :
    Named first (log ++ l) roomId pair :=
  h.imp_right fun ⟨c, hc, hr⟩ => ⟨c, List.mem_append_left l hc, hr⟩

theorem named_snoc (h : Named first (log ++ [c]) roomId pair) :
    Named first log roomId pair ∨ Has c.db roomId pair := by
  rcases h with h | ⟨c', hc, hr⟩
  · exact .inl (.inl h)
  · rcases List.mem_append.mp hc with hc | hc
    · exact .inl (.inr ⟨c', hc, hr⟩)
    · cases List.mem_singleton.mp hc
      exact .inr hr

theorem Checked.append (h : Checked first log userId peerId past) (l : List Commit) :
    Checked first (log ++ l) userId peerId past := by
  refine ⟨h.other, h.made, fun roomId n hn => ?_⟩
  obtain ⟨hle, hmay⟩ := h.passed roomId n hn
  refine ⟨Nat.le_trans hle (by simp), ?_⟩
  rwa [dbAt_append first l hle]

theorem Sent.append (h : Sent first log m) (l : List Commit) : Sent first (log ++ l) m := by
  obtain ⟨c, hc, socket, payload, roomId, retries, now, hreq, hsender, hcontent, hroom, hcheck⟩ := h
  exact ⟨c, List.mem_append_left l hc, socket, payload, roomId, retries, now, hreq, hsender, hcontent,
    hroom.append l, hcheck.append l⟩

theorem Has.unique (h : Has d roomId pair) (h' : Has d roomId' pair) : roomId = roomId' := by
  obtain ⟨r, hr, rfl⟩ := h
  obtain ⟨r', hr', rfl⟩ := h'
  rw [hr] at hr'
  cases hr'
  rfl

theorem Has.ne_none (h : Has d roomId pair) : Tables.chatRooms.get d pair ≠ none := by
  obtain ⟨r, hr, _⟩ := h
  rw [hr]
  exact Option.some_ne_none r

structure Inv (first : Store) (w : World) : Prop where
  db : w.db = dbAt first w.log w.log.length
  seen : ∀ r p, Has w.db r p → Named first w.log r p
  /-- A room goes only with one of its users. -/
  rooms : ∀ r p, Named first w.log r p → p.1 < p.2 ∧ (Has w.db r p ∨
    Tables.chatRooms.get w.db p = none ∧ ¬ (Present w.db p.1 ∧ Present w.db p.2))
  one : ∀ r r' p, Named first w.log r p → Named first w.log r' p → r = r'
  own : ∀ r p p', Named first w.log r p → Named first w.log r p' → p = p'
  caches : ∀ s : Socket, ∀ e ∈ w.ext.roomCache s,
    Named first w.log e.2 (normalizeDmUserIds s.userId e.1)
  messages : ∀ m ∈ w.db.chatMessages, m ∈ first.chatMessages ∨ Sent first w.log m

/-- What a commit does to rooms and accounts: a room goes with one of its users, and a new one has
users that are there and an id of its own that no room has had. -/
structure Moves (first : Store) (log : List Commit) (d d' : Store) : Prop where
  users : ∀ u, Present d' u → Present d u
  old : ∀ r p, Has d r p → Has d' r p ∨
    Tables.chatRooms.get d' p = none ∧ ¬ (Present d' p.1 ∧ Present d' p.2)
  new : ∀ r p, Has d' r p → Has d r p ∨ Tables.chatRooms.get d p = none ∧ p.1 < p.2 ∧
    (Present d p.1 ∧ Present d p.2) ∧ ∀ p', ¬ Named first log r p' ∧ (Has d' r p' → p' = p)

variable {first : Store} {w : World} {q : Request} {c : Known}

theorem Inv.not_named (h : Inv first w) (hnone : Tables.chatRooms.get w.db p = none)
    (husers : Present w.db p.1 ∧ Present w.db p.2) (r : Uuid) : ¬ Named first w.log r p := by
  intro hr
  rcases (h.rooms r p hr).2 with hhas | ⟨_, hgone⟩
  · exact hhas.ne_none hnone
  · exact hgone husers

theorem Inv.commit (h : Inv first w) (hm : Moves first w.log w.db d)
    (hmsg : ∀ m ∈ d.chatMessages, m ∈ w.db.chatMessages ∨
      Sent first (w.commit q note past d).log m) : Inv first (w.commit q note past d) where
  db := (dbAt_commit first w.log ⟨q, note, past, d⟩).symm
  seen r p hr := .inr ⟨_, List.mem_append_right _ (List.mem_singleton_self _), hr⟩
  rooms r p hr := by
    rcases named_snoc hr with hr | hr
    · obtain ⟨hlt, hhas | ⟨hnone, hgone⟩⟩ := h.rooms r p hr
      · exact ⟨hlt, hm.old r p hhas⟩
      · have hgone' : ¬ (Present d p.1 ∧ Present d p.2) :=
          fun hp => hgone (hp.imp (hm.users _) (hm.users _))
        refine ⟨hlt, .inr ⟨?_, hgone'⟩⟩
        cases hd : Tables.chatRooms.get d p with
        | none => exact hd
        | some room =>
          rcases hm.new room.id p ⟨room, hd, rfl⟩ with hhas | ⟨_, _, hp, _⟩
          · exact absurd hnone hhas.ne_none
          · exact absurd hp hgone
    · rcases hm.new r p hr with hhas | ⟨_, hlt, _⟩
      · exact ⟨(h.rooms r p (h.seen r p hhas)).1, .inl hr⟩
      · exact ⟨hlt, .inl hr⟩
  one r r' p hr hr' := by
    rcases named_snoc hr with hr | hr <;> rcases named_snoc hr' with hr' | hr'
    · exact h.one r r' p hr hr'
    · rcases hm.new r' p hr' with hhas | ⟨hnone, _, hp, _⟩
      · exact h.one r r' p hr (h.seen r' p hhas)
      · exact absurd hr (h.not_named hnone hp r)
    · rcases hm.new r p hr with hhas | ⟨hnone, _, hp, _⟩
      · exact h.one r r' p (h.seen r p hhas) hr'
      · exact absurd hr' (h.not_named hnone hp r')
    · exact hr.unique hr'
  own r p p' hr hr' := by
    have hnew : ∀ p p', Named first w.log r p → Has d r p' → p = p' := by
      intro p p' hr hr'
      rcases hm.new r p' hr' with hhas | ⟨_, _, _, hfresh⟩
      · exact h.own r p p' hr (h.seen r p' hhas)
      · exact absurd hr (hfresh p).1
    rcases named_snoc hr with hr | hr <;> rcases named_snoc hr' with hr' | hr'
    · exact h.own r p p' hr hr'
    · exact hnew p p' hr hr'
    · exact (hnew p' p hr' hr).symm
    · rcases hm.new r p' hr' with hhas | ⟨_, _, _, hfresh⟩
      · exact (hnew p' p (h.seen r p' hhas) hr).symm
      · exact (hfresh p).2 hr
  caches s e he := (h.caches s e he).append _
  messages m hmem := by
    rcases hmsg m hmem with hmem | hsent
    · exact (h.messages m hmem).imp_right fun hs => hs.append _
    · exact .inr hsent

theorem Inv.call (h : Inv first w) {f : Outside → Outside}
    (hf : ∀ s : Socket, ∀ e ∈ (f w.ext).roomCache s, e ∈ w.ext.roomCache s ∨
      Named first w.log e.2 (normalizeDmUserIds s.userId e.1)) : Inv first (w.call f) :=
  { h with caches := fun s e he => (hf s e he).elim (h.caches s e) id }

def Chats : Request → Prop
  | .resolveDirectRoom .. | .sendDm .. | .disconnect _ | .toggleBlock .. | .setUserStatus ..
  | .deleteUser .. | .purge .. => True
  | _ => False

def drawn : Request → Option Uuid
  | .resolveDirectRoom _ _ roomId _ _ => some roomId
  | .sendDm _ _ roomId _ _ _ => some roomId
  | _ => none

/-- The room that a socket has in its cache is there when the permission check lets a message of an
existing sender through. -/
def CacheOk (q : Request) (name : Statement) (d : Store) : Prop :=
  ∀ socket payload roomId messageId retries now r,
    q = .sendDm socket payload roomId messageId retries now → name = .getStatusAndBlockBetween (some r) →
    MayDm d socket.userId payload.peerUserId → Present d socket.userId →
    Has d r (normalizeDmUserIds socket.userId payload.peerUserId)

def spec (first : Store) : Spec where
  starts := Chats
  inv := Inv first
  change w w' := (∃ l, w'.log = w.log ++ l) ∧ ∀ u, Present w'.db u → Present w.db u
  reads _ _ _ := True
  adm q w _ := ∀ r, drawn q = some r → ∀ p, ¬ Named first w.log r p
  may _ _ _ _ := True
  ends q name d _ _ := CacheOk q name d
  raised _ _ _ _ := True
  returned _ _ _ := True

def Other : Statement → Prop
  | .getStatusAndBlockBetween _ => False
  | _ => True

theorem ends_other (h : Other name) (snap : Store) (locked : List Row) (d : Store) :
    (spec first).ends q name snap locked d := by
  rintro _ _ _ _ _ _ _ _ rfl
  exact h.elim

theorem Checked.only (h : Checked first log userId peerId past) (hpast : ∀ x ∈ past, x ∈ past')
    (honly : ∀ x ∈ past', x ∈ past ∨ Other x.1) : Checked first log userId peerId past' := by
  refine ⟨h.other, ?_, fun roomId n hn => ?_⟩
  · obtain ⟨roomId, n, hn⟩ := h.made
    exact ⟨roomId, n, hpast _ hn⟩
  · rcases honly _ hn with hn | hother
    · exact h.passed roomId n hn
    · exact hother.elim

theorem stable_named : (spec first).Stable q past held fun w => Named first w.log r p := by
  rintro w w' _ _ ⟨⟨l, hl⟩, _⟩ _ _ h
  rw [hl]
  exact h.append l

theorem stable_checked :
    (spec first).Stable q past held fun w => Checked first w.log userId peerId past' := by
  rintro w w' _ _ ⟨⟨l, hl⟩, _⟩ _ _ h
  rw [hl]
  exact h.append l

theorem stable_absent (P : Uuid → Prop) :
    (spec first).Stable q past held fun w => ∀ u, P u → ¬ Present w.db u :=
  fun _ _ _ _ hch _ _ h u hu hp => h u hu (hch.2 u hp)

theorem commits_of_moves (h : ∀ w, (spec first).Here c w →
      (spec first).adm q w (w.commit q none c.past (c.redo w.db)) →
      Moves first w.log w.db (c.redo w.db) ∧ ∀ m ∈ (c.redo w.db).chatMessages, m ∈ w.db.chatMessages) :
    Commits (spec first) q c := by
  intro w hw hadm
  obtain ⟨hm, hmsg⟩ := h w hw hadm
  exact ⟨hw.good.inv.commit hm fun m hmem => .inl (hmsg m hmem), ⟨_, rfl⟩, hm.users⟩

/-- Statements that have nothing to do with rooms and accounts, but may take messages away. -/
structure Keeps (d d' : Store) : Prop where
  rooms : d'.chatRooms = d.chatRooms
  users : ∀ u, Present d' u ↔ Present d u
  messages : ∀ m ∈ d'.chatMessages, m ∈ d.chatMessages

theorem Keeps.refl (d : Store) : Keeps d d := ⟨rfl, fun _ => .rfl, fun _ h => h⟩

theorem Keeps.trans (d₁ d₂ d₃ : Store) (h : Keeps d₁ d₂) (h' : Keeps d₂ d₃) : Keeps d₁ d₃ :=
  ⟨h'.rooms.trans h.rooms, fun u => (h'.users u).trans (h.users u),
    fun m hm => h.messages m (h'.messages m hm)⟩

theorem get_rooms (h : d'.chatRooms = d.chatRooms) (p : Uuid × Uuid) :
    Tables.chatRooms.get d' p = Tables.chatRooms.get d p := by
  show Table.row _ d'.chatRooms p = _
  rw [h]
  rfl

theorem present_congr (h : d'.users = d.users) (u : Uuid) :
    (Tables.users.get d' u).isSome = (Tables.users.get d u).isSome := by
  show (Table.row _ d'.users u).isSome = _
  rw [h]
  rfl

theorem Keeps.has (h : Keeps d d') : Has d' r p ↔ Has d r p := by
  unfold Has
  rw [get_rooms h.rooms]

theorem Keeps.moves (h : Keeps d d') : Moves first log d d' :=
  ⟨fun u => (h.users u).mp, fun _ _ hr => .inl (h.has.mpr hr), fun _ _ hr => .inl (h.has.mp hr)⟩

theorem wp_aside {x : TxM β} {K : β → Known → Prop} (hx : x.Steps Other Keeps)
    (hc : (spec first).Kept q c) (hK : ∀ a c', (spec first).Framed q c Other Keeps c' → K a c') :
    (spec first).wp q x K c :=
  Spec.wp_steps hx Keeps.refl Keeps.trans (fun _ hn => ends_other hn)
    (fun _ _ _ => trivial) hc hK

theorem framed_moves {N : Statement → Prop} {R : Store → Store → Prop} {c₀ : Known}
    (h : (spec first).Framed q c₀ N R c) (hredo : c₀.redo = id) (d : Store) : R d (c.redo d) := by
  have hmoves := h.moves d
  rwa [hredo] at hmoves

theorem meets_aside {x : TxM β} (hx : Transacts Other Keeps x) :
    (spec first).wp q (once x) ((spec first).Finished q) begun := by
  apply wp_once_steps hx Keeps.refl Keeps.trans (fun _ hn => ends_other hn)
    (fun _ _ _ => trivial) (fun _ _ => trivial) kept_begun
  intro c hc
  exact commits_of_moves fun w _ _ => ⟨(hc.moves w.db).moves, (hc.moves w.db).messages⟩

theorem apart_keeps {κ : Type} [DecidableEq κ] {T : TableOf Store Row α κ}
    (h : ∀ l d, (T.put l d).chatRooms = d.chatRooms ∧ (T.put l d).users = d.users ∧
      (T.put l d).chatMessages = d.chatMessages) : Apart T Keeps := by
  intro l d
  obtain ⟨hr, hu, hm⟩ := h l d
  refine ⟨hr, fun u => ?_, fun m hmem => hm ▸ hmem⟩
  rw [Present, present_congr hu, Present]

theorem keeps_updateUsers {sel : Store → User → Bool} {conds : User → Bool}
    {values : Store → User → User} {ofKey : Bool}
    (hkey : ∀ d u, Tables.users.key (values d u) = Tables.users.key u)
    (snap : Store) (locked : List Row) (d : Store) :
    Keeps d ((Tables.users.update sel conds values ofKey hkey).write snap locked d) := by
  refine ⟨rfl, fun u => ?_, fun _ h => h⟩
  unfold Present
  rw [TableOf.get_update, Option.isSome_map]

theorem meets_toggleBlock (cfg : Config) (blockerId targetUserId : Uuid) (now : Timestamp) :
    MeetsAt (spec first) cfg (.toggleBlock blockerId targetUserId now) := by
  have hblocks : Apart Tables.userBlocks Keeps := apart_keeps fun _ _ => ⟨rfl, rfl, rfl⟩
  show Spec.wp _ _ (once (UserService.toggleBlockUser ..)) _ _
  unfold UserService.toggleBlockUser
  split
  · exact fun _ _ => trivial
  · refine meets_aside ⟨_, rfl, (steps_query trivial _).bind fun blocked => ?_⟩
    cases blocked with
    | true => exact (steps_deleteRows trivial hblocks _).map _
    | false =>
      apply Prog.Steps.map
      apply steps_insertRow Keeps.refl trivial hblocks
      apply (steps_references Keeps.refl trivial _ _).bind
      intro _
      exact steps_references Keeps.refl trivial _ _

theorem meets_setUserStatus (cfg : Config) (userId : Uuid) (status : UserStatus) (now : Timestamp) :
    MeetsAt (spec first) cfg (.setUserStatus userId status now) := by
  refine meets_aside ⟨_, rfl, (steps_query trivial _).bind fun found => ?_⟩
  cases found with
  | none => trivial
  | some user =>
    dsimp only
    split
    · trivial
    · apply Prog.Steps.map
      apply Prog.Steps.map
      exact steps_updateOneReturning trivial (fun _ => keeps_updateUsers _) _

theorem meets_deleteUser (cfg : Config) (userId : Uuid) (now : Timestamp) :
    MeetsAt (spec first) cfg (.deleteUser userId now) := by
  refine meets_aside ⟨_, rfl, (steps_query trivial _).bind fun found => ?_⟩
  cases found with
  | none => trivial
  | some user =>
    apply Prog.Steps.bind
    · apply (steps_query trivial _).bind
      intro row
      cases row with
      | none => trivial
      | some row => exact ⟨trivial, keeps_updateUsers _, fun _ _ _ => trivial⟩
    · intro deleted
      cases deleted <;> trivial

theorem present_of_mayDm (h : MayDm d userId peerId) : Present d peerId := by
  obtain ⟨u, hu, _⟩ := Option.map_eq_some_iff.mp h
  have hid : u.id = peerId := by
    have := List.find?_some hu
    simp only [Bool.and_eq_true, beq_iff_eq] at this
    exact this.1
  unfold Present
  rw [← TableOf.any_key_eq]
  exact List.any_eq_true.mpr ⟨u, List.mem_of_find?_eq_some hu, decide_eq_true hid⟩

theorem present_pair (ha : Present d a) (hb : Present d b) :
    Present d (normalizeDmUserIds a b).1 ∧ Present d (normalizeDmUserIds a b).2 := by
  unfold normalizeDmUserIds
  split
  · exact ⟨ha, hb⟩
  · exact ⟨hb, ha⟩

theorem normalizeDmUserIds_lt (h : b ≠ a) :
    (normalizeDmUserIds a b).1 < (normalizeDmUserIds a b).2 := by
  unfold normalizeDmUserIds
  split
  · assumption
  · exact Nat.lt_of_le_of_ne (Nat.not_lt.mp ‹_›) h

/-- A cached room belongs to the history of its pair, so it is there while both users are. -/
theorem Inv.cacheOk (h : Inv first w) {socket : Socket} {payload : ChatMessageSend}
    (hr : ∀ r, cached = some r →
      Named first w.log r (normalizeDmUserIds socket.userId payload.peerUserId)) :
    CacheOk (.sendDm socket payload roomId messageId retries now)
      (.getStatusAndBlockBetween cached) w.db := by
  rintro _ _ _ _ _ _ r ⟨⟩ ⟨⟩ hmay hsender
  rcases (h.rooms _ _ (hr r rfl)).2 with hhas | ⟨_, hgone⟩
  · exact hhas
  · exact absurd (present_pair hsender (present_of_mayDm hmay)) hgone

theorem wp_assertCanDm {K : Unit → Known → Prop} {cached : Option Uuid}
    (hc : (spec first).Kept q c) (hredo : c.redo = id) (hpast : ∀ x ∈ c.past, Other x.1)
    (hok : ∀ w, (spec first).Here c w → CacheOk q (.getStatusAndBlockBetween cached) w.db)
    (hK : ∀ n c', (spec first).After q c (.getStatusAndBlockBetween cached) n id
      (fun w => Checked first w.log userId peerId ((.getStatusAndBlockBetween cached, n) :: c.past))
      c' → K () c') :
    (spec first).wp q (assertCanDm userId peerId cached) K c := by
  obtain ⟨past, held, redo, fact⟩ := c
  cases hredo
  unfold assertCanDm
  split
  · exact fun _ _ => trivial
  · rename_i hne
    rw [Spec.wp_bind]
    intro w hw _ _
    have ha : (spec first).After q ⟨past, held, id, fact⟩ (.getStatusAndBlockBetween cached)
        w.log.length id (fun w' => MayDm w.db userId peerId → Checked first w'.log userId peerId
          ((.getStatusAndBlockBetween cached, w.log.length) :: past)) _ :=
      .of_kept hc (fun _ h => h) fun _ _ _ _ => .imp fun _ => stable_checked
    have hnow : MayDm w.db userId peerId → Checked first w.log userId peerId
        ((.getStatusAndBlockBetween cached, w.log.length) :: past) := by
      refine fun hmay => ⟨hne, ⟨cached, _, List.mem_cons_self⟩, fun roomId n hn => ?_⟩
      rcases List.mem_cons.mp hn with he | hn
      · cases he
        exact ⟨Nat.le_refl _, hw.good.inv.db ▸ hmay⟩
      · exact (hpast _ hn).elim
    refine ⟨hok w hw, _, ⟨⟨hw.fact, hnow⟩, ha.kept.now⟩, ?_⟩
    show Spec.wp _ q (pure (getStatusAndBlockBetween w.db userId peerId)) _ _
    rw [Spec.wp_pure]
    cases hget : getStatusAndBlockBetween w.db userId peerId with
    | none => exact fun _ _ => trivial
    | some found =>
      obtain ⟨status, blocked⟩ := found
      dsimp only
      split
      · exact fun _ _ => trivial
      · rename_i hactive
        cases blocked with
        | true => exact fun _ _ => trivial
        | false =>
          have hmay : MayDm w.db userId peerId := by
            rw [MayDm, hget, not_not.mp hactive]
          exact hK _ _ { ha with fact := fun w' hw' => (ha.fact w' hw').imp_right fun h => h hmay }

def Beside (d d' : Store) : Prop := d'.users = d.users ∧ d'.chatMessages = d.chatMessages

/-- The pair has the room after an upsert: it had it before, or the room is new. -/
structure Opened (roomId : Uuid) (pair : Uuid × Uuid) (r : Uuid) (d d' : Store) : Prop where
  others : ∀ p, p ≠ pair → Tables.chatRooms.get d' p = Tables.chatRooms.get d p
  has : Has d' r pair
  before : Has d r pair ∨ Tables.chatRooms.get d pair = none ∧ r = roomId ∧
    Present d pair.1 ∧ Present d pair.2

theorem Opened.moves (h : Opened roomId pair opened d d') (husers : d'.users = d.users)
    (hlt : pair.1 < pair.2) (hseen : ∀ r p, Has d r p → Named first log r p)
    (hfresh : ∀ p, ¬ Named first log roomId p) : Moves first log d d' := by
  have hpresent : ∀ u, Present d' u ↔ Present d u := by
    intro u
    rw [Present, present_congr husers, Present]
  have hother : ∀ r p, p ≠ pair → (Has d' r p ↔ Has d r p) := by
    intro r p hp
    unfold Has
    rw [h.others p hp]
  refine ⟨fun u => (hpresent u).mp, fun r p hr => .inl ?_, fun r p hr => ?_⟩
  · by_cases hp : p = pair
    · subst hp
      rcases h.before with hhas | ⟨hnone, _⟩
      · rw [hr.unique hhas]
        exact h.has
      · exact absurd hnone hr.ne_none
    · exact (hother r p hp).mpr hr
  · by_cases hp : p = pair
    · subst hp
      have hid : r = opened := hr.unique h.has
      subst hid
      rcases h.before with hhas | ⟨hnone, rfl, hpres⟩
      · exact .inl hhas
      · refine .inr ⟨hnone, hlt, hpres, fun p' => ⟨hfresh p', fun hr' => ?_⟩⟩
        by_contra hne
        exact hfresh p' (hseen _ p' ((hother _ p' hne).mp hr'))
    · exact .inl ((hother r p hp).mp hr)

theorem Beside.trans (d₁ d₂ d₃ : Store) (h : Beside d₁ d₂) (h' : Beside d₂ d₃) : Beside d₁ d₃ :=
  ⟨h'.1.trans h.1, h'.2.trans h.2⟩

theorem beside_addRoom (room : ChatRoom) (d : Store) : Beside d (Tables.chatRooms.add room d) := by
  unfold TableOf.add
  split
  · exact ⟨rfl, rfl⟩
  · exact ⟨rfl, rfl⟩

theorem opened_add (room : ChatRoom) (hnone : Tables.chatRooms.get d room.key = none)
    (h₁ : Present d room.user1Id) (h₂ : Present d room.user2Id) :
    Opened room.id room.key room.id d (Tables.chatRooms.add room d) := by
  refine ⟨fun p hp => ?_, ⟨room, ?_, rfl⟩, .inr ⟨hnone, rfl, h₁, h₂⟩⟩
  · rw [TableOf.get_add]
    exact if_neg hp
  · rw [TableOf.get_add]
    exact (if_pos rfl).trans (by rw [hnone]; rfl)

theorem opened_modify {values : ChatRoom → ChatRoom} (hkey : ∀ r, (values r).key = r.key)
    (hid : ∀ r, (values r).id = r.id) (hroom : Tables.chatRooms.get d pair = some room)
    (roomId : Uuid) : Opened roomId pair room.id d (Tables.chatRooms.modify pair values d) := by
  refine ⟨fun p hp => ?_, ⟨values room, ?_, hid room⟩, .inl ⟨room, hroom, rfl⟩⟩
  · rw [TableOf.get_modify hkey]
    simp [hp]
  · rw [TableOf.get_modify hkey, hroom]
    simp

theorem wp_upsertRoom {K : Uuid → Known → Prop} {c₀ : Known} (retries : Nat) (hredo : c.redo = id)
    (hframe : (spec first).Framed q c₀ Other Beside c)
    (hK : ∀ r c', (spec first).Framed q c₀ Other Beside c' →
      (∀ w, c'.fact w →
        Opened roomId (normalizeDmUserIds userId peerId) r w.db (c'.redo w.db)) → K r c') :
    (spec first).wp q (upsertRoom roomId userId peerId now retries) K c := by
  have hrow : ∀ (cond : Option ChatRoom → Bool) (c : Known), (spec first).Kept q c → c.redo = id →
      (spec first).OneRow q .upsertRoom c Tables.chatRooms (normalizeDmUserIds userId peerId) cond
        fun _ => True := by
    intro cond c hc hredo
    exact ⟨hc, fun d => by rw [hredo]; rfl, .true rfl, fun _ _ _ => trivial,
      fun _ _ _ _ _ _ _ => ends_other (show Other .upsertRoom from trivial) _ _ _⟩
  induction retries generalizing c with
  | zero =>
    intro w _ _ hok
    cases hok
  | succ retries ih =>
    unfold upsertRoom
    rw [Spec.wp_bind]
    apply wp_insertIgnore (hrow _ c hframe.kept hredo)
    · intro _ c₁ _ _ h₁
      have hbeside : ∀ d, Beside d (c₁.redo d) := by
        intro d
        rw [h₁.redo, hredo]
        exact beside_addRoom _ d
      rw [Spec.wp_bind]
      apply wp_references (fun _ _ _ => trivial) (ends_other trivial) (fun _ => beq_iff_eq) h₁.kept
        fun d => present_congr (hbeside d).1 _
      intro _ c₂ _ h₂
      apply wp_references (fun _ _ _ => trivial) (ends_other trivial) (fun _ => beq_iff_eq) h₂.kept
        fun d => by rw [h₂.redo]; exact present_congr (hbeside d).1 _
      intro _ c₃ _ h₃
      refine hK roomId c₃ (hframe.trans Beside.trans ?_) fun w hw => ?_
      · apply (h₁.framed trivial ?_).trans Beside.trans
        · apply (h₂.framed trivial ?_).trans Beside.trans
          · exact h₃.framed trivial fun _ => ⟨rfl, rfl⟩
          · exact fun _ => ⟨rfl, rfl⟩
        · exact fun d => beside_addRoom _ _
      · obtain ⟨hw₂, hpresent₂⟩ := h₃.fact w hw
        obtain ⟨hw₁, hpresent₁⟩ := h₂.fact w hw₂
        rw [h₃.redo, h₂.redo, h₁.redo, hredo]
        exact opened_add _ (h₁.fact w hw₁).2 hpresent₁ hpresent₂
    · intro _ c₁ _ h₁
      have hframe₁ : (spec first).Framed q c₀ Other Beside c₁ :=
        hframe.trans Beside.trans (h₁.framed trivial fun _ => ⟨rfl, rfl⟩)
      have hredo₁ : c₁.redo = id := h₁.redo.trans hredo
      show Spec.wp _ q (updateOneReturning .upsertRoom _ _ _ _ _ >>= _) K c₁
      rw [Spec.wp_bind]
      apply wp_updateOneReturning (fun r h => of_decide_eq_true h) (hrow _ c₁ h₁.kept hredo₁)
      · intro _ _ room c₂ _ _ _ _ _ h₂
        refine hK room.id c₂ (hframe₁.trans Beside.trans (h₂.framed trivial fun _ => ⟨rfl, rfl⟩)) ?_
        intro w hw
        rw [h₂.redo, hredo₁]
        apply opened_modify _ _ (h₂.fact w hw).2
        · exact fun _ => rfl
        · exact fun _ => rfl
      · intro _ _ c₂ _ _ _ h₂
        exact ih (h₂.redo.trans hredo₁)
          (hframe₁.trans Beside.trans (h₂.framed trivial fun _ => ⟨rfl, rfl⟩))

theorem meets_resolveDirectRoom (cfg : Config) (userId peerId roomId : Uuid) (retries : Nat)
    (now : Timestamp) :
    MeetsAt (spec first) cfg (.resolveDirectRoom userId peerId roomId retries now) := by
  apply wp_once_transaction fun _ _ => trivial
  rw [Spec.wp_bind]
  apply wp_assertCanDm kept_begun rfl (List.forall_mem_nil _)
  · rintro _ _ _ _ _ _ _ _ _ ⟨⟩
  · intro n c₁ h₁
    apply wp_upsertRoom retries h₁.redo (.refl (fun _ => ⟨rfl, rfl⟩) h₁.kept)
    intro r c₂ hframe hopened
    apply commits_of_moves
    intro w hw hadm
    have hchecked := (h₁.fact w (hframe.fact w hw.fact)).2
    have hbeside := framed_moves hframe h₁.redo w.db
    refine ⟨(hopened w hw.fact).moves hbeside.1 (normalizeDmUserIds_lt hchecked.other)
      hw.good.inv.seen (hadm roomId rfl), fun m hm => ?_⟩
    rwa [hbeside.2] at hm

theorem wp_roomReference {K : Unit → Known → Prop} (hc : (spec first).Kept q c)
    (hrooms : ∀ d, (c.redo d).chatRooms = d.chatRooms)
    (hK : ∀ n p c', (spec first).After q c .foreignKey n c.redo (fun w => Named first w.log r p ∧
      (Tables.chatRooms.get w.db p).isSome = true) c' → K () c') :
    (spec first).wp q (references Tables.chatRooms (·.id == r)) K c := by
  apply Spec.wp_exec
  intro w hw _
  refine ⟨c.fact, fun x w' => ∃ p, x = Tables.chatRooms.row p ∧ Named first w'.log r p ∧
    (Tables.chatRooms.get w'.db p).isSome = true, fun _ _ => True, ?_, ?_⟩
  · refine ⟨⟨hw.fact, hc.stable _⟩, ?_, fun _ => .const True, ?_, fun _ _ _ _ _ => trivial⟩
    · rintro _ w₁ w₂ hg hg' hch hmay hag ⟨p, rfl, hnamed, hsome⟩
      exact ⟨p, rfl, stable_named w₁ w₂ hg hg' hch hmay hag hnamed,
        Spec.Stable.has (S := spec first) List.mem_cons_self true w₁ w₂ hg hg' hch hmay hag hsome⟩
    · intro x _ w' hw' hkeep
      obtain ⟨room, hroom, hcond⟩ := List.any_eq_true.mp hkeep
      simp only [Bool.and_eq_true, decide_eq_true_eq, beq_iff_eq] at hcond
      have hmem : room ∈ w'.db.chatRooms := hrooms w'.db ▸ hroom
      have hget : Tables.chatRooms.get w'.db room.key = some room :=
        (Tables.chatRooms.get_eq_some hw'.good.valid).mpr ⟨hmem, rfl⟩
      exact ⟨room.key, hcond.1.symm, hw'.good.inv.seen r _ ⟨room, hget, hcond.2⟩, by rw [hget]; rfl⟩
  · intro locked w' hw' hl _
    refine ⟨ends_other (show Other .foreignKey from trivial) _ _ _, ?_⟩
    cases locked with
    | nil => exact ⟨fun _ => True, ⟨trivial, .const True⟩, fun _ _ => trivial⟩
    | cons x locked =>
      obtain ⟨_, p, rfl, hnow⟩ := hl x List.mem_cons_self
      have ha : (spec first).After q c .foreignKey w.log.length c.redo (fun w => Named first w.log r p ∧
          (Tables.chatRooms.get w.db p).isSome = true) _ :=
        .of_kept hc (fun y hy => List.mem_append_right
          ((Tables.chatRooms.lockRows (·.id == r) .keyShare).locks (_ :: locked)) hy) fun _ _ _ hh =>
            .and stable_named (.has (hh _ (List.mem_append_left _ List.mem_cons_self)) true)
      exact ⟨_, ⟨⟨hw'.fact, hnow⟩, ha.kept.now⟩, hK _ p _ ha⟩

structure Stored (first : Store) (roomId : Uuid) (m : ChatMessage) (peerId : Uuid) (c : Known) :
    Prop where
  checked : ∀ w, c.fact w → Checked first w.log m.senderId peerId c.past
  opened : ∀ w, (spec first).Here c w →
    Opened roomId (normalizeDmUserIds m.senderId peerId) m.roomId w.db (c.redo w.db)
  users : ∀ d, (c.redo d).users = d.users
  messages : ∀ d, ∀ m' ∈ (c.redo d).chatMessages, m' ∈ d.chatMessages ∨ m' = m

theorem addMessage_parts (m : ChatMessage) (d : Store) :
    (Tables.chatMessages.add m d).chatRooms = d.chatRooms ∧
      (Tables.chatMessages.add m d).users = d.users ∧
      ∀ m' ∈ (Tables.chatMessages.add m d).chatMessages, m' ∈ d.chatMessages ∨ m' = m := by
  unfold TableOf.add
  split
  · exact ⟨rfl, rfl, fun _ h => .inl h⟩
  · exact ⟨rfl, rfl, fun _ h => (List.mem_append.mp h).imp_right List.mem_singleton.mp⟩

theorem Opened.of_rooms (h : Opened roomId pair r d d') (hr : d''.chatRooms = d'.chatRooms) :
    Opened roomId pair r d d'' := by
  refine ⟨fun p hp => (get_rooms hr p).trans (h.others p hp), ?_, h.before⟩
  unfold Has
  rw [get_rooms hr]
  exact h.has

theorem stored_of_added {c₀ c₁ c₂ : Known} (hc : (spec first).Framed q c₀ Other Beside c)
    (hredo : c₀.redo = id) (hchecked : ∀ w, c₀.fact w → Checked first w.log m.senderId peerId c₀.past)
    (h₁ : (spec first).Framed q c Other (fun _ _ => True) c₁)
    (hadd : ∀ d, c₁.redo d = Tables.chatMessages.add m (c.redo d))
    (h₂ : (spec first).Framed q c₁ Other Eq c₂)
    (hopened : ∀ w, (spec first).Here c₂ w →
      Opened roomId (normalizeDmUserIds m.senderId peerId) m.roomId w.db (c.redo w.db)) :
    Stored first roomId m peerId c₂ := by
  have hbeside := framed_moves hc hredo
  have hparts := fun d => addMessage_parts m (c.redo d)
  have hredo₂ : ∀ d, c₂.redo d = Tables.chatMessages.add m (c.redo d) :=
    fun d => (h₂.moves d).symm.trans (hadd d)
  refine ⟨fun w hw => ?_, fun w hw => ?_, fun d => ?_, fun d m' hm => ?_⟩
  · have hfact := hc.fact w (h₁.fact w (h₂.fact w hw))
    exact (((hchecked w hfact).only hc.past hc.only).only h₁.past h₁.only).only h₂.past h₂.only
  · rw [hredo₂]
    exact (hopened w hw).of_rooms (hparts w.db).1
  · rw [hredo₂, (hparts d).2.1, (hbeside d).1]
  · rw [hredo₂] at hm
    rw [← (hbeside d).2]
    exact (hparts d).2.2 m' hm

/-- A message goes to a room that has been opened, or to one of the pair's history that the check of
the foreign key still finds. -/
theorem wp_insertMessage {K : Unit → Known → Prop} {c₀ : Known}
    (hc : (spec first).Framed q c₀ Other Beside c) (hredo : c₀.redo = id)
    (hchecked : ∀ w, c₀.fact w → Checked first w.log senderId peerId c₀.past)
    (hroom : (∀ w, c.fact w → Opened roomId (normalizeDmUserIds senderId peerId) r w.db (c.redo w.db)) ∨
      c.redo = id ∧ ∀ w, c.fact w → Named first w.log r (normalizeDmUserIds senderId peerId))
    (hK : ∀ c', Stored first roomId ⟨messageId, r, senderId, content, false, now⟩ peerId c' →
      K () c') :
    (spec first).wp q (insertMessage messageId r senderId content now) K c := by
  have hbeside := framed_moves hc hredo
  have hrow : (spec first).OneRow q .insertMessage c Tables.chatMessages messageId
      (fun o => !o.isSome) fun _ => True := by
    refine ⟨hc.kept, fun d => ?_, .true rfl, fun _ _ _ => trivial,
      fun _ _ _ _ _ _ _ => ends_other (show Other .insertMessage from trivial) _ _ _⟩
    show Table.row _ (c.redo d).chatMessages _ = _
    rw [(hbeside d).2]
    rfl
  apply wp_insertRow (fun _ _ _ => trivial) hrow
  intro _ c₁ _ _ h₁
  have hframe₁ : (spec first).Framed q c Other (fun _ _ => True) c₁ := h₁.framed trivial fun _ => trivial
  have hend : ∀ c₂, (spec first).Framed q c₁ Other Eq c₂ →
      (∀ w, (spec first).Here c₂ w →
        Opened roomId (normalizeDmUserIds senderId peerId) r w.db (c.redo w.db)) → K () c₂ :=
    fun c₂ h₂ hopened => hK c₂ (stored_of_added hc hredo hchecked hframe₁
      (fun d => by rw [h₁.redo]; rfl) h₂ hopened)
  have heq : ∀ d₁ d₂ d₃ : Store, d₁ = d₂ → d₂ = d₃ → d₁ = d₃ := fun _ _ _ h h' => h.trans h'
  have hsteps : ∀ {α κ : Type} [DecidableEq κ] (T : TableOf Store Row α κ) (parent : α → Bool),
      (references T parent).Steps Other Eq :=
    fun T parent => steps_references (fun _ => rfl) trivial T parent
  rcases hroom with hopened | ⟨hid, hnamed⟩
  · apply Spec.wp_steps ((hsteps _ _).bind fun _ => hsteps _ _) (fun _ => rfl) heq
      (fun _ hn => ends_other hn) (fun _ _ _ => trivial) h₁.kept
    exact fun _ c₂ h₂ => hend c₂ h₂ fun w hw =>
      hopened w (hframe₁.fact w (h₂.fact w hw.fact))
  · rw [Spec.wp_bind]
    apply wp_roomReference h₁.kept
    · intro d
      rw [h₁.redo, hid]
      exact (addMessage_parts _ d).1
    · intro _ p c₂ h₂
      apply Spec.wp_steps (hsteps _ _) (fun _ => rfl) heq (fun _ hn => ends_other hn)
        (fun _ _ _ => trivial) h₂.kept
      intro _ c₃ h₃
      refine hend c₃ ((h₂.framed trivial fun _ => rfl).trans heq h₃) fun w hw => ?_
      obtain ⟨hfact, hp, hsome⟩ := h₂.fact w (h₃.fact w hw.fact)
      have hpair := hnamed w (hframe₁.fact w hfact)
      have hinv : Inv first w := hw.good.inv
      cases hinv.own r _ _ hp hpair
      obtain ⟨room, hget⟩ := Option.isSome_iff_exists.mp hsome
      have hid' : room.id = r := hinv.one _ _ _ (hinv.seen _ _ ⟨room, hget, rfl⟩) hpair
      rw [hid]
      exact ⟨fun _ _ => rfl, ⟨room, hget, hid'⟩, .inl ⟨room, hget, hid'⟩⟩

theorem wp_updateCache {socket : Socket} {g : List (Uuid × Uuid) → List (Uuid × Uuid)}
    {k : Outside → TxM β} {K : β → Known → Prop}
    (hg : ∀ w, c.fact w → ∀ e ∈ g (w.ext.roomCache socket), e ∈ w.ext.roomCache socket ∨
      Named first w.log e.2 (normalizeDmUserIds socket.userId e.1))
    (hk : ∀ x, (spec first).wp q (k x) K { c with fact := fun _ => True }) :
    (spec first).wp q (.call (fun x => x.updateCache socket g) k) K c := by
  intro w hw
  refine ⟨hw.good.inv.call fun s e he => ?_, ⟨⟨[], (List.append_nil _).symm⟩, fun _ h => h⟩,
    fun _ => True, ⟨trivial, .const True⟩, hk _⟩
  change e ∈ Function.update w.ext.roomCache socket (g (w.ext.roomCache socket)) s at he
  by_cases hs : s = socket
  · subst hs
    rw [Function.update_self] at he
    exact hg w hw.fact e he
  · rw [Function.update_of_ne hs] at he
    exact .inl he

theorem mem_cacheRoom (h : e ∈ cacheRoom cache peerId r) : e ∈ cache ∨ e = (peerId, r) := by
  unfold cacheRoom at h
  split at h
  · obtain ⟨e', he, rfl⟩ := List.mem_map.mp h
    split
    · exact .inr rfl
    · exact .inl he
  · exact (List.mem_append.mp h).imp_right List.mem_singleton.mp

theorem finished (c : Known) : (spec first).Finished q none c := by
  refine ⟨?_, fun _ _ => trivial⟩
  rintro _ ⟨⟩

theorem meets_disconnect (cfg : Config) (socket : Socket) :
    MeetsAt (spec first) cfg (.disconnect socket) := by
  apply wp_updateCache (fun _ _ e he => absurd he List.not_mem_nil)
  exact fun _ => finished _

theorem wp_afterSend {socket : Socket} {cached : Option Uuid}
    (hr : ∀ w, c.fact w → Named first w.log r (normalizeDmUserIds socket.userId peerId)) :
    (spec first).wp q
      ((if cached = none then
          .call (fun x => x.updateCache socket fun cache => cacheRoom cache peerId r) fun _ =>
            .call (fun x => x.updateCache socket evictRooms) fun _ => .pure ()
        else .call (fun x => x.updateCache socket evictRooms) fun _ => .pure ()) >>=
        fun _ => .pure none) ((spec first).Finished q) c := by
  have hevict : ∀ c : Known, (spec first).wp q (.call (fun x => x.updateCache socket evictRooms)
      fun _ => .pure none) ((spec first).Finished q) c := fun c =>
    wp_updateCache (fun _ _ _ he => .inl (List.mem_of_mem_drop he)) fun _ => finished _
  split
  · apply wp_updateCache _ fun _ => hevict _
    intro w hw e he
    rcases mem_cacheRoom he with he | rfl
    · exact .inl he
    · exact .inr (hr w hw)
  · exact hevict c

theorem wp_send {socket : Socket} {payload : ChatMessageSend} {cached : Option Uuid}
    {rest : Uuid → TxM (Option Request)}
    (hq : q = .sendDm socket payload roomId messageId retries now)
    (hrest : ∀ r c, (∀ w, c.fact w →
        Named first w.log r (normalizeDmUserIds socket.userId payload.peerUserId)) →
      (spec first).wp q (rest r) ((spec first).Finished q) c) :
    (spec first).wp q
      (transaction (assertCanDm socket.userId payload.peerUserId cached >>= fun _ =>
        roomOf cached roomId socket.userId payload.peerUserId retries now >>= fun r =>
          insertMessage messageId r socket.userId payload.content now >>= fun _ => pure r) >>= rest)
      ((spec first).Finished q)
      { begun with
        fact := fun w => ∀ r, cached = some r →
          Named first w.log r (normalizeDmUserIds socket.userId payload.peerUserId) } := by
  have hcommit : ∀ r c, Stored first roomId ⟨messageId, r, socket.userId, payload.content, false, now⟩
      payload.peerUserId c →
      (spec first).wp q (.commit none (.pure r) >>= rest) ((spec first).Finished q) c := by
    intro r c h w hw hadm
    have hinv : Inv first w := hw.good.inv
    have hchecked := h.checked w hw.fact
    have hopened := h.opened w hw
    have hmoves := hopened.moves (h.users w.db) (normalizeDmUserIds_lt hchecked.other) hinv.seen
      (hadm roomId (by rw [hq]; rfl))
    have hinv' : Inv first (w.commit q none c.past (c.redo w.db)) := by
      refine hinv.commit hmoves fun m hm => (h.messages w.db m hm).imp_right ?_
      rintro rfl
      refine ⟨_, List.mem_append_right _ (List.mem_singleton_self _), socket, payload, roomId, retries,
        now, hq, rfl, rfl, ?_, hchecked.append _⟩
      exact .inr ⟨_, List.mem_append_right _ (List.mem_singleton_self _), hopened.has⟩
    exact ⟨hinv', ⟨⟨_, rfl⟩, hmoves.users⟩, fun w' => Named first w'.log r _,
      ⟨hinv'.seen _ _ hopened.has, stable_named⟩, hrest r _ fun _ h => h⟩
  unfold transaction
  rw [Spec.wp_bind, Spec.wp_bind, Spec.wp_bind]
  apply wp_assertCanDm (fun _ _ _ _ => .all fun _ => .imp fun _ => stable_named) rfl
    (List.forall_mem_nil _)
  · intro w hw
    subst hq
    exact Inv.cacheOk hw.good.inv hw.fact
  · intro n c₁ h₁
    have hchecked : ∀ w, c₁.fact w →
        Checked first w.log socket.userId payload.peerUserId c₁.past := by
      intro w hw
      rw [h₁.past]
      exact (h₁.fact w hw).2
    have hrefl : (spec first).Framed q c₁ Other Beside c₁ := .refl (fun _ => ⟨rfl, rfl⟩) h₁.kept
    rw [Spec.wp_bind]
    cases cached with
    | some r =>
      rw [roomOf, Spec.wp_pure, Spec.wp_bind]
      apply wp_insertMessage hrefl h₁.redo hchecked
        (.inr ⟨h₁.redo, fun w hw => (h₁.fact w hw).1 r rfl⟩)
      exact hcommit r
    | none =>
      apply wp_upsertRoom retries h₁.redo hrefl
      intro r c₂ hframe hopened
      rw [Spec.wp_bind]
      apply wp_insertMessage hframe h₁.redo hchecked (.inl hopened)
      exact hcommit r

theorem meets_sendDm (cfg : Config) (socket : Socket) (payload : ChatMessageSend)
    (roomId messageId : Uuid) (retries : Nat) (now : Timestamp) :
    MeetsAt (spec first) cfg (.sendDm socket payload roomId messageId retries now) := by
  intro w hw
  refine ⟨hw.good.inv.call fun _ _ he => .inl he, ⟨⟨[], (List.append_nil _).symm⟩, fun _ h => h⟩,
    fun w' => ∀ r, cachedRoom (w.ext.roomCache socket) payload.peerUserId = some r →
      Named first w'.log r (normalizeDmUserIds socket.userId payload.peerUserId),
    ⟨fun r hr => ?_, .all fun r => .imp fun _ => stable_named⟩, ?_⟩
  · obtain ⟨e, he, rfl⟩ := Option.map_eq_some_iff.mp hr
    have hpeer : e.1 = payload.peerUserId := by simpa using List.find?_some he
    rw [← hpeer]
    exact hw.good.inv.caches socket e (List.mem_of_find?_eq_some he)
  · show Spec.wp _ _ ((transaction _ >>= _) >>= _) _ _
    rw [Prog.bind_assoc]
    exact wp_send rfl fun r c hr => wp_afterSend hr

theorem get_delete {κ : Type} [DecidableEq κ] (T : TableOf Store Row α κ) (conds : α → Bool)
    (snap d : Store) (locked : List Row) (k : κ) :
    T.get ((T.delete conds).write snap locked d) k =
      if T.row k ∈ locked then none else T.get d k := by
  unfold TableOf.delete TableOf.get
  rw [T.rows_put]
  split
  · rename_i hl
    refine List.find?_eq_none.mpr fun a ha hk => ?_
    have hfree := of_decide_eq_false (Table.mem_delete.mp ha).2
    rw [TableOf.rowOf, of_decide_eq_true hk] at hfree
    exact hfree hl
  · rename_i hl
    refine Table.row_delete_of_false fun a _ hk => decide_eq_false ?_
    rwa [TableOf.rowOf, hk]

structure Emptied (first : Store) (q : Request) (ids : List Uuid) (c : Known) : Prop where
  kept : (spec first).Kept q c
  users : ∀ d u, Present (c.redo d) u → Present d u
  gone : ∀ w, c.fact w → ∀ u ∈ ids, ¬ Present (c.redo w.db) u
  rooms : ∀ d p, Tables.chatRooms.get (c.redo d) p = Tables.chatRooms.get d p ∨
    Tables.chatRooms.get (c.redo d) p = none ∧ (p.1 ∈ ids ∨ p.2 ∈ ids)
  messages : ∀ d, ∀ m ∈ (c.redo d).chatMessages, m ∈ d.chatMessages

theorem Emptied.commits (h : Emptied first q ids c) : Commits (spec first) q c := by
  apply commits_of_moves
  intro w hw _
  refine ⟨⟨h.users w.db, fun r p hr => ?_, fun r p hr => .inl ?_⟩, h.messages w.db⟩
  · rcases h.rooms w.db p with heq | ⟨hnone, hid⟩
    · unfold Has at hr ⊢
      exact .inl (heq ▸ hr)
    · refine .inr ⟨hnone, fun hp => ?_⟩
      rcases hid with hid | hid
      · exact h.gone w hw.fact _ hid hp.1
      · exact h.gone w hw.fact _ hid hp.2
  · rcases h.rooms w.db p with heq | ⟨hnone, _⟩
    · unfold Has at hr ⊢
      exact heq ▸ hr
    · exact absurd hnone hr.ne_none

theorem Emptied.aside {x : TxM β} {f : β → TxM γ} {K : γ → Known → Prop} (h : Emptied first q ids c)
    (hx : x.Steps Other Keeps) (hf : ∀ a c', Emptied first q ids c' → (spec first).wp q (f a) K c') :
    (spec first).wp q (x >>= f) K c := by
  rw [Spec.wp_bind]
  apply wp_aside hx h.kept
  intro a c' hc'
  have hkeeps := hc'.moves
  refine hf a c' ⟨hc'.kept, fun d u hu => h.users d u (((hkeeps d).users u).mp hu),
    fun w hw u hu hp => h.gone w (hc'.fact w hw) u hu (((hkeeps w.db).users u).mp hp),
    fun d p => ?_, fun d m hm => h.messages d m ((hkeeps d).messages m hm)⟩
  rw [get_rooms (hkeeps d).rooms]
  exact h.rooms d p

/-- An account that the purge selects is locked or has gone, and it does not come back. -/
theorem wp_deleteUsers {K : Nat → Known → Prop} (hc : (spec first).Kept q c)
    (hkeeps : ∀ d, Keeps d (c.redo d)) (hK : ∀ m c', Emptied first q ids c' → K m c') :
    (spec first).wp q (deleteRows .purgeUsersByIds Tables.users fun u => ids.contains u.id) K c := by
  have hrow : ∀ w u, (spec first).Here c w → u ∈ ids → Present w.db u →
      ∃ a ∈ Tables.users.rows (c.redo w.db), a.id = u ∧ ids.contains a.id = true := by
    intro w u hw hu hp
    obtain ⟨a, ha⟩ := Option.isSome_iff_exists.mp (((hkeeps w.db).users u).mpr hp)
    obtain ⟨hmem, hid⟩ := (Tables.users.get_eq_some hw.view).mp ha
    have hid : a.id = u := hid
    exact ⟨a, hmem, hid, by simpa [hid] using hu⟩
  apply Spec.wp_many (T := Tables.users) (p := fun u => ids.contains u.id) (fun _ => rfl)
    (fun _ _ => rfl) hc (fun w w' => ∀ u, ¬ Present w.db u → ¬ Present w'.db u) (fun _ _ _ h => h)
    (fun w _ _ _ _ _ => stable_absent fun u => ¬ Present w.db u)
    (fun _ _ => True) (fun _ _ => .const True) (fun _ _ _ _ => trivial)
    (fun i w => ∀ u, u = i ∧ u ∈ ids → ¬ Present w.db u)
    (fun i _ _ _ _ _ => stable_absent fun u => u = i ∧ u ∈ ids)
  · rintro _ w hw hno u ⟨rfl, hu⟩ hp
    obtain ⟨a, hmem, hid, hsel⟩ := hrow w u hw hu hp
    rw [hno a ((Tables.users.get_eq_some hw.view).mpr ⟨hmem, hid⟩)] at hsel
    cases hsel
  · intro w w' locked hw _ hB _ _ hcov
    refine ⟨ends_other (show Other .purgeUsersByIds from trivial) _ _ _,
      fun w' => ∀ u, u ∈ ids ∧ Row.user u ∉ locked → ¬ Present w'.db u, ?_,
      fun _ _ _ _ => stable_absent fun u => u ∈ ids ∧ Row.user u ∉ locked, fun c' ha => ?_⟩
    · rintro u ⟨hu, hl⟩ hp
      by_cases hold : Present w.db u
      · obtain ⟨a, hmem, rfl, hsel⟩ := hrow w u hw hu hold
        rcases hcov a hmem hsel with hlock | hN
        · exact hl hlock
        · exact hN _ ⟨rfl, hu⟩ hp
      · exact hB u hold hp
    · have hpresent : ∀ d u, Present (c'.redo d) u → Row.user u ∉ locked ∧ Present d u := by
        intro d u hp
        rw [ha.redo, Present, Function.comp_apply, get_delete] at hp
        split at hp
        · cases hp
        · rename_i hl
          exact ⟨hl, ((hkeeps d).users u).mp hp⟩
      refine hK _ c' ⟨ha.kept, fun d u hp => (hpresent d u hp).2, fun w hw u hu hp => ?_,
        fun d p => .inl ?_, fun d m hm => ?_⟩
      · obtain ⟨hl, hp⟩ := hpresent w.db u hp
        exact (ha.fact w hw).2 u ⟨hu, hl⟩ hp
      · rw [ha.redo]
        exact get_rooms (hkeeps d).rooms p
      · rw [ha.redo] at hm
        exact (hkeeps d).messages m hm

theorem steps_deleteMessages (conds : ChatMessage → Bool) :
    (deleteRows .cascade Tables.chatMessages conds).Steps Other Keeps :=
  ⟨trivial, fun _ _ _ => ⟨rfl, fun _ => .rfl, fun _ hm => (Table.mem_delete.mp hm).1⟩,
    fun _ _ _ => trivial⟩

theorem wp_purgeRooms {K : Unit → Known → Prop} (h : Emptied first q ids c)
    (hK : ∀ c', Emptied first q ids c' → K () c') :
    (spec first).wp q (UsersRepository.purgeRooms ids) K c := by
  apply Spec.wp_any h.kept (ends_other (show Other .cascade from trivial))
  intro w w' locked c₁ _ _ hlocked h₁
  have hids : ∀ p, Tables.chatRooms.row p ∈ locked → p.1 ∈ ids ∨ p.2 ∈ ids := by
    intro p hp
    obtain ⟨r, hr, hrow⟩ := List.mem_map.mp (hlocked _ hp)
    have hkey : r.key = p := Tables.chatRooms.row_inj hrow
    subst hkey
    simpa [ChatRoom.key] using (List.mem_filter.mp hr).2
  have hempty : Emptied first q ids c₁ := by
    refine ⟨h₁.kept, fun d => ?_, fun w hw => ?_, fun d p => ?_, fun d => ?_⟩
    · rw [h₁.redo]
      exact h.users d
    · rw [h₁.redo]
      exact h.gone w (h₁.fact w hw).1
    · rw [h₁.redo, Function.comp_apply, get_delete]
      split
      · rename_i hl
        exact .inr ⟨rfl, hids p hl⟩
      · exact h.rooms d p
    · rw [h₁.redo]
      exact h.messages d
  exact hempty.aside (steps_deleteMessages _) fun _ => hK

theorem meets_purge (cfg : Config) (job : UserService.PurgeJob) (chunk : Nat) :
    MeetsAt (spec first) cfg (.purge job chunk) := by
  have hdecrement : ∀ t ids, (decrementCounterByLinkOwner t ids).Steps Other Keeps := by
    intro t ids
    cases t <;> exact ⟨trivial, fun _ _ _ => ⟨rfl, fun _ => .rfl, fun _ h => h⟩, fun _ _ _ => trivial⟩
  apply wp_purge cfg (fun _ _ => trivial) trivial
    (fun d => ends_other (show Other .selectPurgeableUserIds from trivial) d [] d) (fun _ _ => True)
    (fun _ _ _ => trivial) (fun _ _ _ _ => .true rfl)
  · intro n w c _ h
    apply commits_of_moves
    intro w _ _
    rw [h.redo]
    exact ⟨(Keeps.refl _).moves, fun _ hm => hm⟩
  · intro n w c _ _ h
    apply wp_aside (hdecrement .post _) h.kept
    intro _ c₁ h₁
    apply wp_aside (hdecrement .comment _) h₁.kept
    intro _ c₂ h₂
    rw [UsersRepository.purgeUsersByIds, Spec.wp_bind]
    apply wp_deleteUsers h₂.kept
    · exact framed_moves (h₁.trans Keeps.trans h₂) h.redo
    intro _ c₃ h₃
    apply h₃.aside
    · exact steps_purgeOwned _ trivial (apart_keeps fun _ _ => ⟨rfl, rfl, rfl⟩)
        (apart_keeps fun _ _ => ⟨rfl, rfl, rfl⟩)
    intro _ c₄ h₄
    apply h₄.aside
    · exact steps_forgetOwners _ trivial (apart_keeps fun _ _ => ⟨rfl, rfl, rfl⟩)
        (Apart.untouched (apart_keeps fun _ _ => ⟨rfl, rfl, rfl⟩))
        (Apart.untouched (apart_keeps fun _ _ => ⟨rfl, rfl, rfl⟩))
    intro _ c₅ h₅
    apply h₅.aside (steps_deleteRows trivial (apart_keeps fun _ _ => ⟨rfl, rfl, rfl⟩) _)
    intro _ c₆ h₆
    apply h₆.aside (steps_deleteRows trivial (apart_keeps fun _ _ => ⟨rfl, rfl, rfl⟩) _)
    intro _ c₇ h₇
    apply h₇.aside (steps_deleteRows trivial (apart_keeps fun _ _ => ⟨rfl, rfl, rfl⟩) _)
    intro _ c₈ h₈
    apply h₈.aside (steps_purgeNotifications _ trivial (apart_keeps fun _ _ => ⟨rfl, rfl, rfl⟩))
    intro _ c₉ h₉
    rw [Spec.wp_bind]
    apply wp_purgeRooms h₉
    intro c₁₀ h₁₀
    apply h₁₀.aside (steps_deleteMessages _)
    exact fun _ _ h => h.commits

theorem meets (cfg : Config) : (spec first).Meets (program cfg) := by
  intro q hq
  cases q with
  | resolveDirectRoom userId peerId roomId retries now =>
    exact meets_resolveDirectRoom cfg userId peerId roomId retries now
  | sendDm socket payload roomId messageId retries now =>
    exact meets_sendDm cfg socket payload roomId messageId retries now
  | disconnect socket => exact meets_disconnect cfg socket
  | toggleBlock blockerId targetUserId now => exact meets_toggleBlock cfg blockerId targetUserId now
  | setUserStatus userId status now => exact meets_setUserStatus cfg userId status now
  | deleteUser userId now => exact meets_deleteUser cfg userId now
  | purge job chunk => exact meets_purge cfg job chunk
  | _ => exact hq.elim

structure Consistent (first : Store) : Prop where
  valid : first.Valid
  ordered : ∀ r ∈ first.chatRooms, r.user1Id < r.user2Id
  ids : (first.chatRooms.map (·.id)).Nodup

theorem inv_first {ext : Outside} (h : Consistent first) (hext : ∀ s, ext.roomCache s = []) :
    Inv first { db := first, ext := ext, log := [] } := by
  have hnamed : ∀ {r p}, Named first [] r p → Has first r p := by
    intro r p hr
    exact hr.resolve_right fun ⟨c, hc, _⟩ => List.not_mem_nil hc
  have hroom : ∀ {r p}, Has first r p → ∃ room ∈ first.chatRooms, room.id = r ∧ room.key = p := by
    rintro r p ⟨room, hget, hid⟩
    exact ⟨room, Table.row_mem hget, hid, Tables.chatRooms.get_key hget⟩
  refine ⟨rfl, fun _ _ hr => .inl hr, fun r p hr => ⟨?_, .inl (hnamed hr)⟩,
    fun _ _ _ hr hr' => (hnamed hr).unique (hnamed hr'), fun r p p' hr hr' => ?_, fun s e he => ?_,
    fun _ hm => .inl hm⟩
  · obtain ⟨room, hmem, _, rfl⟩ := hroom (hnamed hr)
    exact h.ordered room hmem
  · obtain ⟨room, hmem, rfl, rfl⟩ := hroom (hnamed hr)
    obtain ⟨room', hmem', hid, rfl⟩ := hroom (hnamed hr')
    rw [List.inj_on_of_nodup_map h.ids hmem' hmem hid]
  · have he : e ∈ ext.roomCache s := he
    rw [hext] at he
    cases he

/-- Runs of these requests in which no room id is drawn twice. -/
def Permitted (first : Store) (s : State) : Label Row Request → Prop
  | .begin _ q => Chats q
  | .run i => ∀ tx note k, s.txs i = some tx → tx.prog = .commit note k →
    ∀ r, drawn tx.req = some r → ∀ p, ¬ Named first s.world.log r p
  | _ => True

theorem admits_of_permitted (h : Permitted first s a) : (spec first).Admits s a := by
  cases a with
  | begin i q => exact h
  | run i =>
    exact fun tx htx => ⟨fun _ _ _ => trivial,
      fun note k hprog => ⟨h tx note k htx hprog, fun _ _ _ _ => trivial⟩, fun _ _ _ _ _ _ _ => trivial⟩
  | lock => trivial
  | abort => trivial

def CacheHits (s : State) : Label Row Request → Prop
  | .run i => ∀ tx name ok k, s.txs i = some tx → tx.prog = .select name ok k →
    ok (tx.redo s.world.db) = true → CacheOk tx.req name (tx.redo s.world.db)
  | _ => True

section Runs

variable (cfg : Config) (hfirst : Consistent first) {ext : Outside}
  (hext : ∀ s, ext.roomCache s = []) {run : List (Label Row Request)}
  (hrun : Along (step cfg) (Permitted first) (State.start first ext) run) {s : State}
  (hs : exec (step cfg) (State.start first ext) run = some s)

include hfirst hext in
theorem good_first : (spec first).Good { db := first, ext := ext, log := [] } :=
  ⟨inv_first hfirst hext, hfirst.valid⟩

include hfirst hext hrun hs

theorem good_run : (spec first).Good s.world :=
  (Spec.sound (meets cfg) (good_first hfirst hext) (hrun.mono fun _ _ => admits_of_permitted) hs).good

/-- For every interleaving there is one room for two users, every new message has been let through
and is in the only room that its users have ever had, and a room that comes from a cache is there. -/
theorem directMessages_oneRoom :
    (∀ r ∈ s.world.db.chatRooms, ∀ r' ∈ s.world.db.chatRooms,
      s(r.user1Id, r.user2Id) = s(r'.user1Id, r'.user2Id) → r = r') ∧
    (∀ m ∈ s.world.db.chatMessages, m ∈ first.chatMessages ∨ Sent first s.world.log m) ∧
    (∀ pair r r', Named first s.world.log r pair → Named first s.world.log r' pair → r = r') ∧
    Along (step cfg) CacheHits (State.start first ext) run := by
  have hgood := good_run cfg hfirst hext hrun hs
  have hinv : Inv first s.world := hgood.inv
  refine ⟨fun r hr r' hr' hpair => ?_, hinv.messages, fun p r r' => hinv.one r r' p, ?_⟩
  · have hget : ∀ r ∈ s.world.db.chatRooms, Tables.chatRooms.get s.world.db r.key = some r :=
      fun r hr => (Tables.chatRooms.get_eq_some hgood.valid).mpr ⟨hr, rfl⟩
    have hlt : ∀ r ∈ s.world.db.chatRooms, r.user1Id < r.user2Id :=
      fun r hr => (hinv.rooms r.id r.key (hinv.seen _ _ ⟨r, hget r hr, rfl⟩)).1
    have hkey : r.key = r'.key := by
      rcases Sym2.eq_iff.mp hpair with ⟨h₁, h₂⟩ | ⟨h₁, h₂⟩
      · exact Prod.ext h₁ h₂
      · have hlt' := hlt r hr
        rw [h₁, h₂] at hlt'
        exact absurd (hlt r' hr') (Nat.lt_asymm hlt')
    exact Option.some.inj ((hget r hr).symm.trans (hkey ▸ hget r' hr'))
  · have hadmits := hrun.mono fun _ _ => admits_of_permitted
    apply (Spec.ends_along (meets cfg) (good_first hfirst hext) hadmits).mono
    intro s a ha
    cases a with
    | run i => exact fun tx name ok k htx => (ha tx htx).1 name ok k
    | begin => trivial
    | lock => trivial
    | abort => trivial

/-- A room is never lost or handed on: as long as both users are there it is there with its id, and
no other pair ever gets it. -/
theorem directRooms_lasting (hroom : Named first s.world.log r pair) :
    (Present s.world.db pair.1 → Present s.world.db pair.2 → Has s.world.db r pair) ∧
      ∀ pair', Named first s.world.log r pair' → pair' = pair := by
  have hinv : Inv first s.world := (good_run cfg hfirst hext hrun hs).inv
  refine ⟨fun h₁ h₂ => ?_, fun pair' h => hinv.own r pair' pair h hroom⟩
  exact (hinv.rooms r pair hroom).2.resolve_right fun h => h.2 ⟨h₁, h₂⟩

end Runs

/-- Two messages over one socket: the first opens the room, the second has it from the cache. -/
def dmRun : List (Label Row Request) :=
  let send (roomId messageId : Uuid) : Request := .sendDm ⟨1, 0⟩ ⟨2, "hi"⟩ roomId messageId 1 7
  let stored (messageId : Uuid) : List (Label Row Request) :=
    Sample.stmt 0 [.chatMessage messageId] ++ Sample.stmt 0 [.chatRoom (1, 2)] ++
      Sample.stmt 0 [.user 1]
  [.begin 0 (send 40 60), .run 0, .run 0] ++ Sample.stmt 0 [.chatRoom (1, 2)] ++
    Sample.stmt 0 [.user 1] ++ Sample.stmt 0 [.user 2] ++ stored 60 ++ [.run 0, .run 0, .run 0, .run 0] ++
    [.begin 0 (send 41 61), .run 0, .run 0] ++ stored 61 ++ [.run 0, .run 0, .run 0]

theorem permitted_dmRun : Along (step Sample.config) (Permitted Sample.store)
    (State.start Sample.store Sample.outside) dmRun := by
  refine .cons trivial rfl ?_
  iterate 20
    refine .cons (by first | exact trivial | rintro tx note k ⟨⟩ ⟨⟩) rfl ?_
  refine .cons ?_ rfl ?_
  · rintro tx note k ⟨⟩ ⟨⟩ r ⟨⟩ p (⟨_, ⟨⟩, _⟩ | ⟨_, ⟨⟩, _⟩)
  iterate 15
    refine .cons (by first | exact trivial | rintro tx note k ⟨⟩ ⟨⟩) rfl ?_
  refine .cons ?_ rfl ?_
  · rintro tx note k ⟨⟩ ⟨⟩ r ⟨⟩ p (⟨_, ⟨⟩, _⟩ | ⟨c, hc, room, hget, hid⟩)
    cases List.mem_singleton.mp hc
    have hroom := List.mem_singleton.mp (Table.row_mem hget)
    rw [hroom] at hid
    exact absurd hid (by decide)
  iterate 2
    refine .cons (by first | exact trivial | rintro tx note k ⟨⟩ ⟨⟩) rfl ?_
  trivial

theorem consistent_store : Consistent Sample.store :=
  ⟨Sample.store_valid, List.forall_mem_nil _, List.nodup_nil⟩

theorem directMessages_oneRoom_dmRun :
    ∃ s, exec (step Sample.config) (State.start Sample.store Sample.outside) dmRun = some s ∧
      s.world.db.chatMessages.map (·.roomId) = [40, 40] ∧
      ∀ m ∈ s.world.db.chatMessages, Sent Sample.store s.world.log m := by
  obtain ⟨s, hs, hrooms⟩ : ∃ s, exec (step Sample.config) (State.start Sample.store Sample.outside)
      dmRun = some s ∧ s.world.db.chatMessages.map (·.roomId) = [40, 40] := ⟨_, rfl, rfl⟩
  have hok := directMessages_oneRoom Sample.config consistent_store (fun _ => rfl) permitted_dmRun hs
  exact ⟨s, hs, hrooms, fun m hm => (hok.2.1 m hm).resolve_left List.not_mem_nil⟩

theorem directRooms_lasting_dmRun :
    ∃ s, exec (step Sample.config) (State.start Sample.store Sample.outside) dmRun = some s ∧
      Has s.world.db 40 (1, 2) := by
  obtain ⟨s, hs, hroom, h₁, h₂⟩ : ∃ s,
      exec (step Sample.config) (State.start Sample.store Sample.outside) dmRun = some s ∧
        Named Sample.store s.world.log 40 (1, 2) ∧ Present s.world.db 1 ∧ Present s.world.db 2 :=
    ⟨_, rfl, .inr ⟨_, List.mem_cons_self, _, rfl, rfl⟩, rfl, rfl⟩
  exact ⟨s, hs, (directRooms_lasting Sample.config consistent_store (fun _ => rfl) permitted_dmRun hs
    hroom).1 h₁ h₂⟩

end PuppyTalk.Backend.DirectMessages
