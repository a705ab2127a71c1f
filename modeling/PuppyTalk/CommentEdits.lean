import PuppyTalk.CommentLikes
import PuppyTalk.Moderation
import PuppyTalk.Run

namespace PuppyTalk

def CommentsRepository.updateComment (db : Db) (postId commentId : Uuid) (content : String)
    (now : Timestamp) : Bool × Db :=
  let (row, db) := db.updateComments
    (fun c => c.id == commentId && c.postId == postId && c.deletedAt.isNone)
    (fun c => { c with content := content, updatedAt := now }) (·.id)
  (row.isSome, db)

def CommentService.updateComment (db : Db) (postId commentId : Uuid) (content : String)
    (now : Timestamp) : Except ApiException Unit × Db :=
  db.begin fun db =>
    match CommentsRepository.updateComment db postId commentId content now with
    | (true, db) => .ok ((), db)
    | (false, _) => .error .commentNotFound

namespace CommentEdits

open Table

inductive Op where
  | create (postId userId : Uuid) (content : String) (parentId : Option Uuid)
      (commentId notificationId : Uuid)
  | update (postId commentId : Uuid) (content : String)
  | like (commentId userId notificationId : Uuid)
  | unlike (commentId userId : Uuid)
  | report (reporterId commentId : Uuid) (reason : ReportReason) (reportId : Uuid)
  | moderate (call : AdminService.Call) (commentId : Uuid)
  | delete (postId commentId : Uuid)

/-- The database after an operation; `threshold` is `REPORT_BLIND_THRESHOLD`. -/
def Op.run (threshold : Int) (db : Db) (now : Timestamp) : Op → Db
  | .create postId userId content parentId commentId notificationId =>
    (CommentService.createComment db postId userId content parentId commentId notificationId now).2
  | .update postId commentId content =>
    (CommentService.updateComment db postId commentId content now).2
  | .like commentId userId notificationId =>
    (LikeService.likeComment db commentId userId notificationId now).2
  | .unlike commentId userId => (LikeService.unlikeComment db commentId userId).2
  | .report reporterId commentId reason reportId =>
    (ReportService.submitReport threshold db reporterId .comment commentId reason reportId now).2
  | .moderate call commentId => (call.run db .comment commentId now).2
  | .delete postId commentId => (CommentService.deleteComment db postId commentId now).2

structure State where
  db : Db
  clock : Timestamp

def Op.fresh (db : Db) : Op → Bool
  | .create _ _ _ _ commentId _ => db.comments.all fun c => c.id != commentId
  | _ => true

def step (threshold : Int) (s : State) (a : Op × Timestamp) : Option State :=
  if s.clock < a.2 ∧ a.1.fresh s.db = true then
    some { db := a.1.run threshold s.db a.2, clock := a.2 }
  else none

/-- A successful `update_comment` on the comment. -/
def Edits (commentId : Uuid) (s : State) (a : Op × Timestamp) : Prop :=
  ∃ postId content, a.1 = .update postId commentId content ∧
    (CommentService.updateComment s.db postId commentId content a.2).1 = .ok ()

def moderates (threshold : Int) (c : Comment) : Op → Bool
  | .moderate .blind commentId => c.id == commentId && c.deletedAt.isNone && !c.isBlinded
  | .moderate .unblind commentId => c.id == commentId && c.deletedAt.isNone && c.isBlinded
  | .moderate .resetReports commentId => c.id == commentId && c.deletedAt.isNone
  | .report _ commentId _ _ =>
    c.id == commentId && c.deletedAt.isNone && c.authorId.isSome &&
      decide (threshold ≤ c.reportCount + 1) && !c.isBlinded
  | _ => false

def Moderates (threshold : Int) (commentId : Uuid) (s : State) (a : Op × Timestamp) : Prop :=
  ∃ c, row Comment.id s.db.comments commentId = some c ∧ moderates threshold c a.1 = true

def edits (c : Comment) : Op → Bool
  | .update postId commentId _ => c.id == commentId && c.postId == postId && c.deletedAt.isNone
  | _ => false

structure Stamped (now : Timestamp) (touched : Bool) (c c' : Comment) : Prop where
  id : c'.id = c.id
  createdAt : c'.createdAt = c.createdAt
  updatedAt : c'.updatedAt = if touched then now else c.updatedAt

def Rewritten (now : Timestamp) (touched : Comment → Bool) (cs cs' : List Comment) : Prop :=
  ∃ g, cs' = cs.map g ∧ ∀ c ∈ cs, Stamped now (touched c) c (g c)

theorem Stamped.rfl : Stamped now false c c := ⟨Eq.refl _, Eq.refl _, Eq.refl _⟩

section Statements

variable {db : Db} {now : Timestamp} {cs : List Comment} {touched : Comment → Bool}

theorem Rewritten.same (h : ∀ c ∈ cs, touched c = false) : Rewritten now touched cs cs := by
  refine ⟨id, (List.map_id cs).symm, fun c hc => ?_⟩
  rw [h c hc]
  exact .rfl

theorem Rewritten.update {p : Comment → Bool} {f : Comment → Comment}
    (h : ∀ c ∈ cs, Stamped now (touched c) c (if p c then f c else c)) :
    Rewritten now touched cs (Table.update p f cs) :=
  ⟨_, Eq.refl _, h⟩

theorem Rewritten.updates {p q : Comment → Bool} {f g : Comment → Comment}
    (h : ∀ c ∈ cs, Stamped now (touched c) c
      (let c := if p c then f c else c
       if q c then g c else c)) :
    Rewritten now touched cs (Table.update q g (Table.update p f cs)) :=
  ⟨_, List.map_map, h⟩

theorem updateComment_snd (db : Db) (postId commentId : Uuid) (content : String)
    (now : Timestamp) :
    (CommentService.updateComment db postId commentId content now).2 =
      (CommentsRepository.updateComment db postId commentId content now).2 := by
  cases h : CommentsRepository.updateComment db postId commentId content now with
  | mk found db' =>
    cases found with
    | true => simp only [CommentService.updateComment, Db.begin, h]
    | false =>
      have hkeep : (CommentsRepository.updateComment db postId commentId content now).2 = db :=
        Db.updateComments_none (congrArg Prod.fst h)
      simp only [CommentService.updateComment, Db.begin, h]
      rw [← hkeep, h]

theorem rewritten_updateComment (db : Db) (postId commentId : Uuid) (content : String)
    (now : Timestamp) :
    Rewritten now (fun c => c.id == commentId && c.postId == postId && c.deletedAt.isNone)
      db.comments (CommentService.updateComment db postId commentId content now).2.comments := by
  rw [updateComment_snd]
  refine .update fun c _ => ?_
  cases c.id == commentId && c.postId == postId && c.deletedAt.isNone with
  | true => exact ⟨rfl, rfl, rfl⟩
  | false => exact .rfl

theorem rewritten_updateLikeCount (db : Db) (commentId : Uuid) (f : Int → Int) (now : Timestamp) :
    Rewritten now (fun _ => false) db.comments
      (CommentsRepository.updateLikeCount db commentId f).2.comments := by
  refine .update fun c _ => ?_
  cases c.id == commentId with
  | true => exact ⟨rfl, rfl, rfl⟩
  | false => exact .rfl

theorem notifyAuthor_comments (db : Db) :
    (LikeService.notifyAuthor db notificationId author kind userId postId commentId now).comments =
      db.comments := by
  cases author with
  | none => rfl
  | some author =>
    rw [LikeService.notifyAuthor]
    split <;> rfl

theorem rewritten_likeComment (db : Db) (commentId userId notificationId : Uuid)
    (now : Timestamp) :
    Rewritten now (fun _ => false) db.comments
      (LikeService.likeComment db commentId userId notificationId now).2.comments := by
  have hsame : Rewritten now (fun _ => false) db.comments db.comments := .same fun _ _ => rfl
  rw [LikeService.likeComment]
  cases hmeta : CommentsRepository.getVisibleCommentMeta db commentId (some userId) with
  | none =>
    simp only [Db.begin, hmeta]
    exact hsame
  | some c =>
    cases hliked : CommentLikesRepository.liked db commentId userId with
    | true =>
      simp only [Db.begin, hmeta, CommentLikesRepository.create, hliked, if_true]
      exact hsame
    | false =>
      simp only [Db.begin, hmeta, CommentLikesRepository.create, hliked, Bool.false_eq_true,
        if_false, notifyAuthor_comments]
      exact rewritten_updateLikeCount _ commentId _ now

theorem rewritten_unlikeComment (db : Db) (commentId userId : Uuid) (now : Timestamp) :
    Rewritten now (fun _ => false) db.comments
      (LikeService.unlikeComment db commentId userId).2.comments := by
  have hsame : Rewritten now (fun _ => false) db.comments db.comments := .same fun _ _ => rfl
  rw [LikeService.unlikeComment]
  cases hmeta : CommentsRepository.getCommentMeta db commentId with
  | none =>
    simp only [Db.begin, hmeta]
    exact hsame
  | some c =>
    simp only [Db.begin, hmeta]
    cases c.deletedAt.isSome with
    | true => exact hsame
    | false =>
      simp only [CommentLikesRepository.delete]
      cases CommentLikesRepository.liked db commentId userId with
      | true =>
        exact rewritten_updateLikeCount (CommentLikesRepository.delete db commentId userId).2
          commentId (fun n => max (n - 1) 0) now
      | false => exact hsame

theorem rewritten_blind (db : Db) (commentId : Uuid) (now : Timestamp) :
    Rewritten now (fun c => c.id == commentId && c.deletedAt.isNone && !c.isBlinded) db.comments
      (CommentModeration.setBlinded db commentId now).2.comments := by
  rw [CommentModeration.setBlinded, CommentModeration.afterTransition_comments]
  refine .update fun c _ => ?_
  cases c.id == commentId && c.deletedAt.isNone && !c.isBlinded with
  | true => exact ⟨rfl, rfl, rfl⟩
  | false => exact .rfl

theorem rewritten_unblind (db : Db) (commentId : Uuid) (now : Timestamp) :
    Rewritten now (fun c => c.id == commentId && c.deletedAt.isNone && c.isBlinded) db.comments
      (CommentModeration.unblind db commentId now).2.comments := by
  rw [CommentModeration.unblind, CommentModeration.afterTransition_comments]
  refine .update fun c _ => ?_
  cases c.id == commentId && c.deletedAt.isNone && c.isBlinded with
  | true => exact ⟨rfl, rfl, rfl⟩
  | false => exact .rfl

theorem rewritten_resetReports (db : Db) (commentId : Uuid) (now : Timestamp) :
    Rewritten now (fun c => c.id == commentId && c.deletedAt.isNone) db.comments
      (CommentModeration.resetReports db commentId now).2.comments := by
  have hcomments : (CommentModeration.resetReports db commentId now).2.comments =
      Table.update (fun c => c.id == commentId && c.deletedAt.isNone)
        (fun c => { c with reportCount := 0, updatedAt := now })
        (CommentModeration.unblind db commentId now).2.comments := rfl
  rw [hcomments, CommentModeration.unblind, CommentModeration.afterTransition_comments]
  refine .updates fun c _ => ?_
  cases hlive : c.id == commentId && c.deletedAt.isNone with
  | false => simpa [hlive] using Stamped.rfl
  | true =>
    cases hblind : c.isBlinded with
    | true => simpa [hlive] using ⟨rfl, rfl, rfl⟩
    | false => simpa [hlive] using ⟨rfl, rfl, rfl⟩

theorem rewritten_deleteComment (db : Db) (postId commentId : Uuid) (now : Timestamp) :
    Rewritten now (fun _ => false) db.comments
      (CommentService.deleteComment db postId commentId now).2.comments := by
  have hsame : Rewritten now (fun _ => false) db.comments db.comments := .same fun _ _ => rfl
  have hupdate : Rewritten now (fun _ => false) db.comments
      (CommentsRepository.deleteComment db postId commentId now).2.comments := by
    refine .update fun c _ => ?_
    cases c.id == commentId && c.postId == postId && c.deletedAt.isNone with
    | true => exact ⟨rfl, rfl, rfl⟩
    | false => exact .rfl
  rw [CommentService.deleteComment]
  cases h : CommentsRepository.deleteComment db postId commentId now with
  | mk deletedFrom db' =>
    rw [h] at hupdate
    cases deletedFrom with
    | some postId =>
      simp only [Db.begin, h]
      exact hupdate
    | none =>
      simp only [Db.begin, h]
      cases CommentsRepository.getCommentMeta db' commentId with
      | none => exact hsame
      | some c =>
        dsimp only
        by_cases hgone : c.postId ≠ postId ∨ c.deletedAt = none
        · rw [if_pos hgone]
          exact hsame
        · rw [if_neg hgone]
          exact hupdate

theorem rewritten_submitReport (hids : Keyed Comment.id db.comments) (threshold : Int)
    (reporterId commentId : Uuid) (reason : ReportReason) (reportId : Uuid) :
    Rewritten now (fun c => c.id == commentId && c.deletedAt.isNone && c.authorId.isSome &&
        decide (threshold ≤ c.reportCount + 1) && !c.isBlinded) db.comments
      (ReportService.submitReport threshold db reporterId .comment commentId reason reportId
        now).2.comments := by
  let reported (c : Comment) : Bool := c.id == commentId && c.deletedAt.isNone && c.authorId.isSome
  obtain ⟨count, db', hinc⟩ : ∃ count db', CommentsRepository.incrementReportCount db commentId =
    (count, db') := ⟨_, _, rfl⟩
  have hcount : (db.comments.find? reported).map (fun c => c.reportCount + 1) = count :=
    congrArg Prod.fst hinc
  have hcomments : Table.update reported (fun c => { c with reportCount := c.reportCount + 1 })
      db.comments = db'.comments := congrArg (fun r => r.2.comments) hinc
  rw [ReportService.submitReport, Db.begin, moderationTarget]
  cases hfind : db.comments.find? reported with
  | none =>
    rw [hfind] at hcount
    simp only [hinc, ← hcount, Option.map_none]
    refine .same fun c hc => ?_
    have hnot : reported c = false := Bool.eq_false_iff.mpr (List.find?_eq_none.mp hfind c hc)
    simp only [reported] at hnot
    rw [hnot, Bool.false_and, Bool.false_and]
  | some c₀ =>
    have hr₀ : reported c₀ = true := List.find?_some hfind
    have hid₀ : c₀.id = commentId := by
      simp only [reported, Bool.and_eq_true, beq_iff_eq] at hr₀
      exact hr₀.1.1
    -- the row that was found is the only one with the id
    have hcases : ∀ c ∈ db.comments, c = c₀ ∨ (c.id == commentId) = false := by
      intro c hc
      by_cases hid : c.id = commentId
      · exact .inl (hids.eq hc (List.mem_of_find?_eq_some hfind) (hid.trans hid₀.symm))
      · exact .inr (beq_eq_false_iff_ne.mpr hid)
    rw [hfind] at hcount
    simp only [hinc, ← hcount, Option.map_some]
    by_cases hthreshold : threshold ≤ c₀.reportCount + 1
    · simp only [if_pos hthreshold, CommentModeration.setBlinded,
        CommentModeration.afterTransition_comments]
      show Rewritten now _ db.comments (Table.update _ _ db'.comments)
      rw [← hcomments]
      refine .updates fun c hc => ?_
      rcases hcases c hc with rfl | hid
      · simp only [reported, Bool.and_eq_true] at hr₀
        obtain ⟨⟨hid, hlive⟩, hauthor⟩ := hr₀
        cases hblind : c.isBlinded with
        | true => simpa [reported, hid, hlive, hauthor, hblind] using ⟨rfl, rfl, rfl⟩
        | false =>
          simpa [reported, hid, hlive, hauthor, hblind, hthreshold] using ⟨rfl, rfl, rfl⟩
      · simpa [reported, hid] using Stamped.rfl
    · simp only [if_neg hthreshold]
      show Rewritten now _ db.comments db'.comments
      rw [← hcomments]
      refine .update fun c hc => ?_
      rcases hcases c hc with rfl | hid
      · simpa [hr₀, hthreshold] using ⟨rfl, rfl, rfl⟩
      · simpa [reported, hid] using Stamped.rfl

end Statements

def touches (threshold : Int) (op : Op) (c : Comment) : Bool := edits c op || moderates threshold c op

theorem createComment_comments (db : Db) (postId userId : Uuid) (content : String)
    (parentId : Option Uuid) (commentId notificationId : Uuid) (now : Timestamp) :
    (CommentService.createComment db postId userId content parentId commentId notificationId
        now).2.comments = db.comments ∨
      ∃ n : Comment, n.id = commentId ∧ n.createdAt = now ∧ n.updatedAt = now ∧
        (CommentService.createComment db postId userId content parentId commentId notificationId
          now).2.comments = db.comments ++ [n] := by
  rw [CommentService.createComment]
  cases hpost : PostsRepository.getVisiblePostAuthor db postId (some userId) with
  | none =>
    left
    simp only [Db.begin, hpost]
  | some author =>
    simp only [Db.begin, hpost]
    split
    next a db' hok =>
      refine .inr ⟨{
        id := commentId, postId := postId, authorId := some userId, parentId := parentId,
        content := content, likeCount := 0, reportCount := 0, isBlinded := false,
        createdAt := now, updatedAt := now, deletedAt := none }, rfl, rfl, rfl, ?_⟩
      split at hok
      · cases author with
        | none =>
          cases hok
          rfl
        | some author =>
          dsimp only at hok
          split at hok
          · cases hok
            rfl
          · cases hok
            rfl
      · cases hok
    next => exact .inl rfl

theorem run_cases {db : Db} (hids : Keyed Comment.id db.comments) (threshold : Int) (op : Op)
    (hfresh : op.fresh db = true) (now : Timestamp) :
    Rewritten now (touches threshold op) db.comments (op.run threshold db now).comments ∨
      ∃ n : Comment, n.createdAt = now ∧ n.updatedAt = now ∧ (∀ c ∈ db.comments, c.id ≠ n.id) ∧
        (∀ c, touches threshold op c = false) ∧
        (op.run threshold db now).comments = db.comments ++ [n] := by
  cases op with
  | create postId userId content parentId commentId notificationId =>
    rcases createComment_comments db postId userId content parentId commentId notificationId now
      with hsame | ⟨n, hid, hcreated, hupdated, happend⟩
    · left
      show Rewritten now _ db.comments (CommentService.createComment _ _ _ _ _ _ _ _).2.comments
      rw [hsame]
      exact .same fun _ _ => rfl
    · refine .inr ⟨n, hcreated, hupdated, fun c hc => ?_, fun _ => rfl, happend⟩
      rw [hid]
      exact bne_iff_ne.mp (List.all_eq_true.mp hfresh c hc)
  | update postId commentId content =>
    have htouches : touches threshold (.update postId commentId content) =
        fun c => c.id == commentId && c.postId == postId && c.deletedAt.isNone :=
      funext fun c => Bool.or_false _
    rw [htouches]
    exact .inl (rewritten_updateComment db postId commentId content now)
  | like commentId userId notificationId =>
    exact .inl (rewritten_likeComment db commentId userId notificationId now)
  | unlike commentId userId => exact .inl (rewritten_unlikeComment db commentId userId now)
  | report reporterId commentId reason reportId =>
    exact .inl (rewritten_submitReport hids threshold reporterId commentId reason reportId)
  | moderate call commentId =>
    left
    cases call with
    | blind =>
      show Rewritten now _ db.comments (AdminService.orNotFound _ _).2.comments
      rw [AdminService.orNotFound_snd]
      exact rewritten_blind db commentId now
    | unblind =>
      show Rewritten now _ db.comments (AdminService.orNotFound _ _).2.comments
      rw [AdminService.orNotFound_snd]
      exact rewritten_unblind db commentId now
    | resetReports =>
      show Rewritten now _ db.comments (AdminService.orNotFound _ _).2.comments
      rw [AdminService.orNotFound_snd]
      exact rewritten_resetReports _ commentId now
  | delete postId commentId => exact .inl (rewritten_deleteComment db postId commentId now)

section Runs

variable {cs cs' : List Comment} {touched : Comment → Bool} {commentId : Uuid} {c c' : Comment}

theorem Rewritten.keyed (hids : Keyed Comment.id cs) (h : Rewritten now touched cs cs') :
    Keyed Comment.id cs' := by
  obtain ⟨g, rfl, hg⟩ := h
  have hsame : cs.map (Comment.id ∘ g) = cs.map Comment.id :=
    List.map_congr_left fun c hc => (hg c hc).id
  unfold Keyed
  rw [List.map_map, hsame]
  exact hids

theorem Rewritten.row (hids : Keyed Comment.id cs) (h : Rewritten now touched cs cs')
    (hc : Table.row Comment.id cs commentId = some c) :
    ∃ c', Table.row Comment.id cs' commentId = some c' ∧ Stamped now (touched c) c c' := by
  have hkeyed := h.keyed hids
  obtain ⟨g, rfl, hg⟩ := h
  have hmem := row_mem hc
  refine ⟨g c, ?_, hg c hmem⟩
  have hid : (g c).id = commentId := (hg c hmem).id.trans (row_key hc)
  exact hid ▸ hkeyed.row_eq (List.mem_map_of_mem hmem)

theorem Rewritten.row_of (hids : Keyed Comment.id cs) (h : Rewritten now touched cs cs')
    (hc : Table.row Comment.id cs' commentId = some c') :
    ∃ c, Table.row Comment.id cs commentId = some c ∧ Stamped now (touched c) c c' := by
  obtain ⟨g, rfl, hg⟩ := h
  obtain ⟨c, hmem, rfl⟩ := List.mem_map.mp (row_mem hc)
  have hid : c.id = commentId := (hg c hmem).id.symm.trans (row_key hc)
  exact ⟨c, hid ▸ hids.row_eq hmem, hg c hmem⟩

theorem row_append_cases (hids : Keyed Comment.id cs) {n : Comment}
    (hc : Table.row Comment.id (cs ++ [n]) commentId = some c) :
    Table.row Comment.id cs commentId = some c ∨ c = n := by
  rcases List.mem_append.mp (row_mem hc) with hmem | hmem
  · exact .inl (row_key hc ▸ hids.row_eq hmem)
  · exact .inr (List.mem_singleton.mp hmem)

structure Ordered (commentId : Uuid) (s : State) : Prop where
  ids : Keyed Comment.id s.db.comments
  times : ∀ c, Table.row Comment.id s.db.comments commentId = some c →
    c.createdAt ≤ c.updatedAt ∧ c.updatedAt ≤ s.clock

theorem step_eq (h : step threshold s a = some t) :
    s.clock < a.2 ∧ a.1.fresh s.db = true ∧
      t = { db := a.1.run threshold s.db a.2, clock := a.2 } := by
  unfold step at h
  split at h
  next hen =>
    cases h
    exact ⟨hen.1, hen.2, rfl⟩
  next => cases h

theorem Ordered.step (hs : Ordered commentId s) (h : step threshold s a = some t) :
    Ordered commentId t := by
  obtain ⟨hclock, hfresh, rfl⟩ := step_eq h
  rcases run_cases hs.ids threshold a.1 hfresh a.2 with hrew | ⟨n, hcreated, hupdated, hne, -, happ⟩
  · refine ⟨hrew.keyed hs.ids, fun c' hc' => ?_⟩
    obtain ⟨c, hc, hstamp⟩ := hrew.row_of hs.ids hc'
    obtain ⟨hle, hbound⟩ := hs.times c hc
    rw [hstamp.createdAt, hstamp.updatedAt]
    cases touches threshold a.1 c with
    | true => exact ⟨(hle.trans_lt (hbound.trans_lt hclock)).le, le_rfl⟩
    | false => exact ⟨hle, (hbound.trans_lt hclock).le⟩
  · refine ⟨happ ▸ hs.ids.append hne, fun c hc => ?_⟩
    rcases row_append_cases hs.ids (happ ▸ hc) with hc | rfl
    · obtain ⟨hle, hbound⟩ := hs.times c hc
      exact ⟨hle, (hbound.trans_lt hclock).le⟩
    · rw [hcreated, hupdated]
      exact ⟨le_rfl, le_rfl⟩

def Marked (commentId : Uuid) (s : State) : Prop :=
  ∃ c, Table.row Comment.id s.db.comments commentId = some c ∧ c.createdAt < c.updatedAt

theorem marked_step_touches (hs : Ordered commentId s) (h : step threshold s a = some t) :
    Marked commentId t ↔ Marked commentId s ∨
      ∃ c, Table.row Comment.id s.db.comments commentId = some c ∧
        touches threshold a.1 c = true := by
  obtain ⟨hclock, hfresh, rfl⟩ := step_eq h
  rcases run_cases hs.ids threshold a.1 hfresh a.2 with
    hrew | ⟨n, hcreated, hupdated, hne, hquiet, happ⟩
  · constructor
    · rintro ⟨c', hc', hlt⟩
      obtain ⟨c, hc, hstamp⟩ := hrew.row_of hs.ids hc'
      cases htouch : touches threshold a.1 c with
      | true => exact .inr ⟨c, hc, htouch⟩
      | false =>
        rw [hstamp.createdAt, hstamp.updatedAt, htouch] at hlt
        exact .inl ⟨c, hc, hlt⟩
    · intro hor
      obtain ⟨c, hc, hlt⟩ : ∃ c, Table.row Comment.id s.db.comments commentId = some c ∧
          (c.createdAt < c.updatedAt ∨ touches threshold a.1 c = true) := by
        rcases hor with ⟨c, hc, hlt⟩ | ⟨c, hc, htouch⟩
        · exact ⟨c, hc, .inl hlt⟩
        · exact ⟨c, hc, .inr htouch⟩
      obtain ⟨c', hc', hstamp⟩ := hrew.row hs.ids hc
      obtain ⟨hle, hbound⟩ := hs.times c hc
      refine ⟨c', hc', ?_⟩
      rw [hstamp.createdAt, hstamp.updatedAt]
      cases htouch : touches threshold a.1 c with
      | true => exact hle.trans_lt (hbound.trans_lt hclock)
      | false => exact hlt.resolve_right (Bool.eq_false_iff.mp htouch)
  · constructor
    · rintro ⟨c, hc, hlt⟩
      rcases row_append_cases hs.ids (happ ▸ hc) with hc | rfl
      · exact .inl ⟨c, hc, hlt⟩
      · rw [hcreated, hupdated] at hlt
        exact absurd hlt (lt_irrefl _)
    · rintro (⟨c, hc, hlt⟩ | ⟨c, -, htouch⟩)
      · refine ⟨c, ?_, hlt⟩
        show Table.row Comment.id (a.1.run threshold s.db a.2).comments commentId = some c
        rw [happ, row_append_of_mem (row_mem hc) (row_key hc), hc]
      · exact Bool.noConfusion ((hquiet c).symm.trans htouch)

theorem updateComment_ok (db : Db) (postId commentId : Uuid) (content : String)
    (now : Timestamp) :
    (CommentService.updateComment db postId commentId content now).1 = .ok () ↔
      ∃ c ∈ db.comments, (c.id == commentId && c.postId == postId && c.deletedAt.isNone) = true := by
  have hfst : (CommentsRepository.updateComment db postId commentId content now).1 =
      db.comments.any fun c => c.id == commentId && c.postId == postId && c.deletedAt.isNone := by
    simp only [CommentsRepository.updateComment, Db.updateComments, updateReturning,
      Option.isSome_map]
    exact List.isSome_find?
  rw [← List.any_eq_true, ← hfst, CommentService.updateComment, Db.begin]
  cases h : CommentsRepository.updateComment db postId commentId content now with
  | mk found db' =>
    cases found with
    | true => exact iff_of_true rfl rfl
    | false => exact iff_of_false (by rintro ⟨⟩) (by rintro ⟨⟩)

theorem edits_iff (hids : Keyed Comment.id s.db.comments) (commentId : Uuid)
    (a : Op × Timestamp) :
    (∃ c, Table.row Comment.id s.db.comments commentId = some c ∧ edits c a.1 = true) ↔
      Edits commentId s a := by
  constructor
  · rintro ⟨c, hc, hedit⟩
    cases hop : a.1 with
    | update postId id content =>
      rw [hop] at hedit
      have hid : c.id = id := by
        simp only [edits, Bool.and_eq_true, beq_iff_eq] at hedit
        exact hedit.1.1
      have hsame : id = commentId := hid.symm.trans (row_key hc)
      exact ⟨postId, content, hsame ▸ hop,
        (updateComment_ok _ _ _ _ _).mpr ⟨c, row_mem hc, hsame ▸ hedit⟩⟩
    | _ =>
      rw [hop] at hedit
      cases hedit
  · rintro ⟨postId, content, hop, hok⟩
    obtain ⟨c, hmem, hcond⟩ := (updateComment_ok _ _ _ _ _).mp hok
    have hid : c.id = commentId := by
      simp only [Bool.and_eq_true, beq_iff_eq] at hcond
      exact hcond.1.1
    exact ⟨c, hid ▸ hids.row_eq hmem, hop ▸ hcond⟩

theorem marked_step (hs : Ordered commentId s) (h : step threshold s a = some t) :
    Marked commentId t ↔
      Marked commentId s ∨ Edits commentId s a ∨ Moderates threshold commentId s a := by
  rw [marked_step_touches hs h, ← edits_iff hs.ids, Moderates, ← exists_or]
  refine or_congr_right (exists_congr fun c => ?_)
  rw [← and_or_left, touches, Bool.or_eq_true]

theorem marked_exec (hs : Ordered commentId s) (h : exec (step threshold) s as = some t) :
    Marked commentId t ↔ Marked commentId s ∨
      Sometime (step threshold) (Edits commentId) s as ∨
      Sometime (step threshold) (Moderates threshold commentId) s as := by
  rw [← sometime_or]
  induction as generalizing s with
  | nil =>
    cases h
    exact (or_iff_left id).symm
  | cons a as ih =>
    obtain ⟨u, hu, he⟩ := exec_cons_some h
    rw [ih (hs.step hu) he, marked_step hs hu, sometime_cons hu, or_assoc]

/-- A comment that is created and then worked on is marked as edited just for its edits, unless it
is blinded, unblinded or reset without being edited. -/
theorem isEdited_iff (threshold : Int) (s t : State) (ops : List (Op × Timestamp))
    (h : exec (step threshold) s ops = some t) (hids : Keyed Comment.id s.db.comments)
    (c : Comment) (hnew : ∀ c' ∈ s.db.comments, c'.id ≠ c.id) (hc : c ∈ t.db.comments)
    (likedIds : List Uuid) :
    ((CommentService.commentToResponse c likedIds).isEdited = true ↔
        Sometime (step threshold) (Edits c.id) s ops) ↔
      (Sometime (step threshold) (Moderates threshold c.id) s ops →
        Sometime (step threshold) (Edits c.id) s ops) := by
  have hnone : Table.row Comment.id s.db.comments c.id = none :=
    List.find?_eq_none.mpr fun c' hc' he => hnew c' hc' (of_decide_eq_true he)
  have hs : Ordered c.id s := by
    refine ⟨hids, fun c' hc' => ?_⟩
    rw [hnone] at hc'
    cases hc'
  have ht : Ordered c.id t := exec_invariant' (fun hi hstep => hi.step hstep) hs h
  have hrow := ht.ids.row_eq hc
  have hmarked : (CommentService.commentToResponse c likedIds).isEdited = true ↔
      Marked c.id t := by
    simp only [CommentService.commentToResponse, decide_eq_true_iff, Marked, hrow,
      Option.some.injEq, exists_eq_left']
  have hunmarked : ¬ Marked c.id s := by
    rintro ⟨c', hc', -⟩
    rw [hnone] at hc'
    cases hc'
  rw [hmarked, marked_exec hs h, or_iff_right hunmarked]
  exact or_iff_left_iff_imp

end Runs

section Sample

def board : State where
  db := { posts := CommentService.thread.posts }
  clock := 0

def written : Op × Timestamp := (.create 10 2 "멍멍" none 20 50, 1)

/-- A comment that was blinded and unblinded is marked as edited, and nobody has edited it. -/
theorem isEdited_diverges :
    let ops : List (Op × Timestamp) :=
      [written, (.moderate .blind 20, 2), (.moderate .unblind 20, 3)]
    ∃ t c, exec (step 5) board ops = some t ∧ t.db.comments = [c] ∧ c.id = 20 ∧
      (CommentService.commentToResponse c []).isEdited = true ∧
      ¬ Sometime (step 5) (Edits 20) board ops := by
  refine ⟨_, _, rfl, rfl, rfl, rfl, ?_⟩
  simp only [Sometime, not_or, not_exists, not_and, written, Edits]
  refine ⟨?_, fun _ _ => ⟨?_, fun _ _ => ⟨?_, fun _ _ => id⟩⟩⟩
  · rintro _ _ ⟨⟩
  · rintro _ _ ⟨⟩
  · rintro _ _ ⟨⟩

/-- A comment that is edited and then reported and liked. -/
theorem isEdited_iff_board :
    let ops : List (Op × Timestamp) :=
      [written, (.update 10 20 "왈왈", 2), (.report 3 20 .spam 60, 3), (.like 20 3 51, 4)]
    ∃ t c, exec (step 5) board ops = some t ∧ c ∈ t.db.comments ∧ c.id = 20 ∧
      ((CommentService.commentToResponse c []).isEdited = true ↔
        Sometime (step 5) (Edits 20) board ops) := by
  intro ops
  refine ⟨_, _, rfl, List.mem_cons_self, rfl, ?_⟩
  refine (isEdited_iff 5 board _ ops rfl (by decide) _ (by decide) List.mem_cons_self []).mpr ?_
  intro _
  exact .inr ⟨_, rfl, .inl ⟨10, "왈왈", rfl, rfl⟩⟩

end Sample

end CommentEdits

end PuppyTalk
