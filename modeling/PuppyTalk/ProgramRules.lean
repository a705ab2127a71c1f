import PuppyTalk.Backend

namespace PuppyTalk.Backend

open Txn

variable {names : Statement → Prop} {R : Store → Store → Prop}

section Steps

variable {κ : Type} [DecidableEq κ] {T : TableOf Store Row α κ}

def Apart (T : TableOf Store Row α κ) (R : Store → Store → Prop) : Prop :=
  ∀ l d, R d (T.put l d)

def Untouched (T : TableOf Store Row α κ) (R : Store → Store → Prop) (values : α → α)
    (hkey : ∀ a, T.key (values a) = T.key a) : Prop :=
  ∀ conds snap locked d, R d
    ((T.update (fun _ => conds) conds (fun _ => values) false fun _ => hkey).write snap locked d)

theorem Apart.untouched (h : Apart T R) {values : α → α}
    {hkey : ∀ a, T.key (values a) = T.key a} : Untouched T R values hkey :=
  fun _ _ _ d => h _ d

theorem steps_query (hn : names n) (f : Store → β) : (query n f).Steps names R :=
  ⟨hn, fun _ => trivial⟩

theorem steps_updateOneReturning (hn : names name) {conds : α → Bool} {values : α → α}
    {hkey : ∀ a, T.key (values a) = T.key a} (h : Untouched T R values hkey)
    (returning : α → β) :
    (updateOneReturning name T conds values hkey returning).Steps names R :=
  ⟨hn, h conds, fun _ _ _ => trivial⟩

theorem steps_updateRows (hn : names name) {conds : α → Bool} {values : α → α}
    {hkey : ∀ a, T.key (values a) = T.key a} (h : Untouched T R values hkey) :
    (updateRows name T conds values hkey).Steps names R :=
  ⟨hn, h conds, fun _ _ _ => trivial⟩

theorem steps_deleteRows (hn : names name) (h : Apart T R) (conds : α → Bool) :
    (deleteRows name T conds).Steps names R :=
  ⟨hn, fun _ _ d => h _ d, fun _ _ _ => trivial⟩

theorem steps_insertRow_write (hn : names name) {a : α} {parents : TxM Unit}
    (hw : ∀ snap locked d, R d ((T.insert a [] fun _ _ => false).write snap locked d))
    (hp : parents.Steps names R) : (insertRow name T a parents).Steps names R := by
  refine ⟨hn, hw, fun _ _ locked => ?_⟩
  dsimp only
  split
  · trivial
  · exact hp

theorem steps_insertIgnore_write (hn : names name) {a : α} {parents : TxM Unit}
    (hw : ∀ snap locked d, R d ((T.insert a [] fun _ _ => false).write snap locked d))
    (hp : parents.Steps names R) : (insertIgnore name T a parents).Steps names R := by
  refine ⟨hn, hw, fun _ _ locked => ?_⟩
  dsimp only
  split
  · trivial
  · exact hp.bind fun _ => trivial

theorem steps_resolveForLike (hp : names .getVisiblePostAuthor) (hc : names .getVisibleCommentMeta)
    (t : TargetType) (targetId userId : Uuid) :
    ((likeTarget t).resolveForLike targetId userId).Steps names R := by
  cases t with
  | post =>
    apply (steps_query hp _).bind
    intro author
    cases author <;> trivial
  | comment =>
    apply (steps_query hc _).bind
    intro found
    cases found <;> trivial

theorem steps_ensureUnlikeable (hp : names .postIsVisible) (hc : names .getCommentMeta)
    (t : TargetType) (targetId : Uuid) :
    ((likeTarget t).ensureUnlikeable targetId).Steps names R := by
  cases t with
  | post =>
    apply (steps_query hp _).bind
    intro visible
    cases visible <;> trivial
  | comment =>
    apply (steps_query hc _).bind
    intro found
    cases found with
    | none => trivial
    | some found =>
      dsimp only
      split <;> trivial

theorem steps_checkParent (hn : names .getCommentMeta) (postId : Uuid) (parentId : Option Uuid) :
    (CommentService.checkParent postId parentId).Steps names R := by
  cases parentId with
  | none => trivial
  | some parentId =>
    apply (steps_query hn _).bind
    intro parent
    split <;> trivial

section Refl

variable (hrefl : ∀ d, R d d)

include hrefl

theorem steps_references (hn : names .foreignKey) (T : TableOf Store Row α κ) (parent : α → Bool) :
    (references T parent).Steps names R := by
  refine ⟨hn, fun _ _ _ => hrefl _, fun _ _ locked => ?_⟩
  dsimp only
  split <;> trivial

theorem steps_referencesIfSome (hn : names .foreignKey) (T : TableOf Store Row α κ)
    (parent : Uuid → α → Bool) (id : Option Uuid) :
    (referencesIfSome T parent id).Steps names R := by
  cases id with
  | none => trivial
  | some id => exact steps_references hrefl hn T _

theorem steps_insertRow (hn : names name) (h : Apart T R) (a : α) {parents : TxM Unit}
    (hp : parents.Steps names R) : (insertRow name T a parents).Steps names R :=
  steps_insertRow_write hn (fun _ _ _ => TableOf.insert_rel hrefl h ..) hp

theorem steps_insertIgnore (hn : names name) (h : Apart T R) (a : α) {parents : TxM Unit}
    (hp : parents.Steps names R) : (insertIgnore name T a parents).Steps names R :=
  steps_insertIgnore_write hn (fun _ _ _ => TableOf.insert_rel hrefl h ..) hp

theorem steps_notifyAuthor (hn : names .insertNotification) (hf : names .foreignKey)
    (h : Apart Tables.notifications R) (notificationId : Uuid) (authorId : Option Uuid)
    (kind : NotificationKind) (actorId : Uuid) (postId commentId : Option Uuid) (now : Timestamp) :
    (notifyAuthor notificationId authorId kind actorId postId commentId now).Steps names R := by
  unfold notifyAuthor
  split
  · trivial
  · split
    · trivial
    · apply steps_insertRow hrefl hn h
      apply (steps_references hrefl hf _ _).bind
      intro _
      apply (steps_references hrefl hf _ _).bind
      intro _
      apply (steps_referencesIfSome hrefl hf _ _ _).bind
      intro _
      exact steps_referencesIfSome hrefl hf _ _ _

end Refl

section Purge

open Backend.UsersRepository

variable (userIds : List Uuid) (hn : names .cascade)

include hn

theorem steps_purgeOwned (hb : Apart Tables.userBlocks R) (hd : Apart Tables.dogProfiles R) :
    (purgeOwned userIds).Steps names R := by
  apply (steps_deleteRows hn hb _).bind
  intro _
  exact (steps_deleteRows hn hd _).map _

theorem steps_forgetOwners (hi : Apart Tables.images R)
    (hp : Untouched Tables.posts R (fun p => { p with userId := setNull userIds p.userId })
      fun _ => rfl)
    (hc : Untouched Tables.comments R
      (fun c => { c with authorId := setNull userIds c.authorId }) fun _ => rfl) :
    (forgetOwners userIds).Steps names R := by
  apply (steps_updateRows hn hi.untouched).bind
  intro _
  apply (steps_updateRows hn hp).bind
  intro _
  exact steps_updateRows hn hc

theorem steps_purgeNotifications (h : Apart Tables.notifications R) :
    (purgeNotifications userIds).Steps names R := by
  apply (steps_deleteRows hn h _).bind
  intro _
  exact steps_updateRows hn h.untouched

theorem steps_purgeRooms (hr : Apart Tables.chatRooms R) (hm : Apart Tables.chatMessages R) :
    (purgeRooms userIds).Steps names R :=
  ⟨hn, fun _ _ d => hr _ d, fun _ _ _ => (steps_deleteRows hn hm _).map _⟩

end Purge

section Edit

open Backend.PostService Backend.PostsRepository

theorem steps_validateRefs (hrefl : ∀ d, R d d) (hn : names .assertImagesAttachable)
    (categoryId : Option Nat) (categoryExists : Bool) (imageIds : Option (List Uuid)) :
    (validateRefs categoryId categoryExists imageIds).Steps names R := by
  unfold validateRefs
  split
  · trivial
  · unfold assertImagesAttachable
    split
    · trivial
    · refine ⟨hn, fun _ _ _ => hrefl _, fun _ _ locked => ?_⟩
      dsimp only
      split <;> trivial

theorem steps_insertHashtags (hrefl : ∀ d, R d d) (hn : names .insertHashtag)
    (h : Apart Tables.hashtags R) (hashtagNames : List String) :
    (insertHashtags hashtagNames).Steps names R := by
  induction hashtagNames with
  | nil => trivial
  | cons name hashtagNames ih =>
    refine Prog.Steps.bind (steps_insertIgnore hrefl hn h _ ?_) fun _ => ih
    trivial

theorem steps_insertPostHashtags (hrefl : ∀ d, R d d) (hn : names .insertPostHashtag)
    (hf : names .foreignKey) (h : Apart Tables.postHashtags R) (postId : Uuid)
    (hashtagNames : List String) : (insertPostHashtags postId hashtagNames).Steps names R := by
  induction hashtagNames with
  | nil => trivial
  | cons name hashtagNames ih =>
    refine Prog.Steps.bind (steps_insertIgnore hrefl hn h _ ?_) fun _ => ih
    apply (steps_references hrefl hf _ _).bind
    intro _
    exact steps_references hrefl hf _ _

theorem steps_syncHashtagsIfSome (hrefl : ∀ d, R d d)
    (hn : names .deletePostHashtags ∧ names .insertHashtag ∧ names .selectHashtags ∧
      names .insertPostHashtag ∧ names .foreignKey)
    (hh : Apart Tables.hashtags R) (hl : Apart Tables.postHashtags R) (postId : Uuid)
    (hashtagNames : Option (List String)) :
    (syncHashtagsIfSome postId hashtagNames).Steps names R := by
  cases hashtagNames with
  | none => trivial
  | some hashtagNames =>
    apply (steps_deleteRows hn.1 hl _).bind
    intro _
    split
    · trivial
    · apply (steps_insertHashtags hrefl hn.2.1 hh _).bind
      intro _
      apply (steps_query hn.2.2.1 _).bind
      intro hashtagIds
      exact steps_insertPostHashtags hrefl hn.2.2.2.1 hn.2.2.2.2 hl postId hashtagIds

theorem steps_syncPostImages (hs : names .selectPostImages) (hd : names .deletePostImage)
    (h : Apart Tables.postImages R) (postId : Uuid) (imageIds : Option (List Uuid)) :
    (syncPostImages postId imageIds).Steps names R := by
  cases imageIds with
  | none => trivial
  | some imageIds =>
    apply (steps_query hs _).bind
    intro oldImageIds
    dsimp only
    split
    · trivial
    · exact (steps_deleteRows hd h _).map _

theorem steps_updatePostFields (hrefl : ∀ d, R d d) (hn : ∀ name, names name)
    (hh : Apart Tables.hashtags R) (hl : Apart Tables.postHashtags R)
    (hi : ∀ conds, (deleteRows .deletePostImage Tables.postImages conds).Steps names R)
    (postId : Uuid) (data : PostUpdateRequest) (hashtagNames : Option (List String))
    (now : Timestamp) : (updatePostFields postId data hashtagNames now).Steps names R := by
  unfold updatePostFields
  split
  · trivial
  · apply (steps_query (hn _) _).bind
    intro found
    cases found with
    | none => trivial
    | some post =>
      dsimp only
      split
      · trivial
      · apply (steps_syncHashtagsIfSome hrefl ⟨hn _, hn _, hn _, hn _, hn _⟩ hh hl postId _).bind
        intro _
        apply Prog.Steps.map
        cases data.imageIds with
        | none => trivial
        | some imageIds =>
          apply (steps_query (hn _) _).bind
          intro oldImageIds
          dsimp only
          split
          · trivial
          · exact (hi _).map _

theorem steps_flushPost (hn : names .flushPost) {e : Pending}
    (h : Untouched Tables.posts R e.write fun _ => rfl) : (flushPost e).Steps names R := by
  unfold flushPost
  split
  · refine ⟨hn, h _, fun _ _ locked => ?_⟩
    dsimp only
    split <;> trivial
  · trivial

theorem steps_insertPostImages (hrefl : ∀ d, R d d) (hn : names .insertPostImage)
    (hf : names .foreignKey) (h : Apart Tables.postImages R) (postId : Uuid)
    (rowIds : Uuid → Uuid) (now : Timestamp) (imageIds : List Uuid) :
    (insertPostImages postId rowIds now imageIds).Steps names R := by
  induction imageIds with
  | nil => trivial
  | cons imageId imageIds ih =>
    refine Prog.Steps.bind (steps_insertRow hrefl hn h _ ?_) fun _ => ih
    apply (steps_references hrefl hf _ _).bind
    intro _
    exact steps_references hrefl hf _ _

end Edit

def Transacts (names : Statement → Prop) (R : Store → Store → Prop) (service : TxM β) : Prop :=
  ∃ block, service = transaction block ∧ block.Steps names R

theorem transacts_deleteComment (postId commentId : Uuid) {now : Timestamp}
    (hn : names .deleteComment ∧ names .decrementCommentCount ∧ names .getCommentMeta)
    (hcomments : Untouched Tables.comments R (fun c => { c with deletedAt := some now })
      fun _ => rfl)
    (hposts : Untouched Tables.posts R
      (fun p => { p with commentCount := max (p.commentCount - 1) 0, updatedAt := now })
      fun _ => rfl) :
    Transacts names R (CommentService.deleteComment postId commentId now) := by
  refine ⟨_, rfl, ?_⟩
  apply Prog.Steps.bind
  · exact (steps_updateOneReturning hn.1 hcomments _).map _
  · intro found
    cases found with
    | some deletedFrom =>
      apply Prog.Steps.map
      apply Prog.Steps.tryExcept
      exact (steps_updateOneReturning hn.2.1 hposts _).map _
    | none =>
      apply (steps_query hn.2.2 _).bind
      intro found
      cases found with
      | none => trivial
      | some c =>
        dsimp only
        split <;> trivial

theorem transacts_like (hrefl : ∀ d, R d d) (hn : ∀ name, names name) {t : TargetType}
    {targetId userId : Uuid} (notificationId : Uuid) {now : Timestamp}
    (hlink : ∀ snap locked d, R d (((likeTarget t).links.insert ((likeTarget t).link targetId userId now)
      [] fun _ _ => false).write snap locked d))
    (hcount : ((likeTarget t).incrementLikeCount targetId now).Steps names R)
    (h : Apart Tables.notifications R) :
    Transacts names R (LikeService.like (likeTarget t) targetId userId notificationId now) := by
  refine ⟨_, rfl, (steps_resolveForLike (hn _) (hn _) t targetId userId).bind fun notify => ?_⟩
  apply Prog.Steps.tryExcept
  apply Prog.Steps.bind
  · apply steps_insertIgnore_write (hn _) hlink
    apply Prog.Steps.bind
    · cases t with
      | post => exact steps_references hrefl (hn _) _ _
      | comment => exact steps_references hrefl (hn _) _ _
    · exact fun _ => steps_references hrefl (hn _) _ _
  · intro inserted
    cases inserted with
    | false => exact (steps_query (hn _) _).map _
    | true =>
      apply hcount.bind
      intro likeCount
      apply Prog.Steps.map
      exact steps_notifyAuthor hrefl (hn _) (hn _) h _ _ _ _ _ _ _

theorem transacts_createComment (hrefl : ∀ d, R d d) (hn : ∀ name, names name) {postId : Uuid}
    (userId : Uuid) (content : String) (parentId : Option Uuid) (commentId notificationId : Uuid)
    {now : Timestamp}
    (hcomment : ∀ c : Comment, c.postId = postId → ∀ snap locked d,
      R d ((Tables.comments.insert c [] fun _ _ => false).write snap locked d))
    (hposts : Untouched Tables.posts R
      (fun p => { p with commentCount := p.commentCount + 1, updatedAt := now }) fun _ => rfl)
    (h : Apart Tables.notifications R) : Transacts names R
      (CommentService.createComment postId userId content parentId commentId notificationId now) := by
  refine ⟨_, rfl, (steps_query (hn _) _).bind fun author => ?_⟩
  cases author with
  | none => trivial
  | some postAuthorId =>
    apply (steps_checkParent (hn _) postId parentId).bind
    intro _
    apply Prog.Steps.bind
    · apply steps_insertRow_write (hn _) (hcomment _ rfl)
      apply (steps_references hrefl (hn _) _ _).bind
      intro _
      apply (steps_references hrefl (hn _) _ _).bind
      intro _
      exact steps_referencesIfSome hrefl (hn _) _ _ _
    · intro _
      apply Prog.Steps.bind
      · apply Prog.Steps.tryExcept
        exact (steps_updateOneReturning (hn _) hposts _).map _
      · intro _
        exact steps_notifyAuthor hrefl (hn _) (hn _) h _ _ _ _ _ _ _

theorem steps_transition (hn : ∀ name, names name) {conds : Comment → Bool}
    {values : Comment → Comment} {hkey : ∀ c, (values c).id = c.id} {returning : Comment → Uuid}
    {now : Timestamp} (hcomments : Untouched Tables.comments R values hkey)
    (hposts : ∀ count : Int, Untouched Tables.posts R
      (fun p => { p with commentCount := max 0 count, updatedAt := now }) fun _ => rfl)
    (name : Statement) (commentId : Uuid) :
    (updateOneReturning name Tables.comments conds values hkey returning >>=
      CommentModeration.afterTransition commentId now).Steps names R := by
  apply (steps_updateOneReturning (hn _) hcomments _).bind
  intro found
  cases found with
  | none => exact (steps_query (hn _) _).map _
  | some postId =>
    apply Prog.Steps.map
    apply (steps_query (hn _) _).bind
    intro count
    apply Prog.Steps.map
    exact (steps_updateOneReturning (hn _) (hposts _) _).map _

end Steps

theorem returns_once {P : Request → Prop} (x : TxM β) :
    (once x).Returns fun next => ∀ q, next = some q → P q :=
  Prog.Returns.bind (Prog.returns_true x) fun _ _ _ h => nomatch h

abbrev begun : Known where
  past := []
  held := []
  redo := id
  fact _ := True

theorem kept_begun {S : Spec} : S.Kept q begun := .true rfl

abbrev MeetsAt (S : Spec) (cfg : Config) (q : Request) : Prop :=
  S.wp q (program cfg q) (S.Finished q) begun

/-! The rules hold whatever the requests are. -/

abbrev WorldOf (Q : Type) := Txn.World Store Outside Q Statement (Option Nat)

abbrev SpecOf (Q : Type) := Txn.Spec Store Row Outside Failure Statement (Option Nat) Q

abbrev KnownOf (Q : Type) := Txn.Known Store Row Outside Statement (Option Nat) Q

section Rules

variable {κ : Type} [DecidableEq κ] {T : TableOf Store Row α κ}
variable {Q : Type} {S : SpecOf Q} {q : Q} {c : KnownOf Q} {K : β → KnownOf Q → Prop}

theorem wp_query {f : Store → β} (hends : ∀ d, S.ends q name d [] d) (hc : S.Kept q c)
    (hK : ∀ w c', S.Here c w → S.After q c name w.log.length c.redo (fun _ => True) c' →
      K (f (c.redo w.db)) c') :
    S.wp q (query name f) K c :=
  Spec.wp_select hends hc fun w c' hw _ ha => hK w c' hw ha

theorem find_locked {values : α → α} (hkey : ∀ a, T.key (values a) = T.key a) {locked : List Row}
    (hl : ∀ r, r ∈ locked ↔ r = T.row i) {d : Store} (hv : T.get d i = some v) :
    ((T.rows (T.modify i values d)).find? fun a => decide (T.rowOf a ∈ locked)) =
      some (values v) := by
  simp only [TableOf.mem_locked hl]
  have hget := TableOf.get_modify hkey i d i
  rw [hv, Option.map_some, if_pos rfl] at hget
  exact hget

theorem wp_updateOneReturning {conds : α → Bool} {values : α → α}
    {hkey : ∀ a, T.key (values a) = T.key a} {returning : α → γ} {K : Option γ → KnownOf Q → Prop}
    (hcond : ∀ a, conds a = true → T.key a = i)
    (h : S.OneRow q name c T i (fun o => (o.map conds).getD false) N)
    (hlock : ∀ w w' v c', S.Here c w → S.Here c w' → conds v = true → T.get w'.db i = some v →
      (T.row i, LockMode.noKeyUpdate) ∈ c'.held →
      S.After q c name w.log.length (T.modify i values ∘ c.redo) (fun w => T.get w.db i = some v) c' →
      K (some (returning (values v))) c')
    (hskip : ∀ w w' c', S.Here c w → S.Here c w' → N w' →
      S.After q c name w.log.length c.redo N c' → K none c') :
    S.wp q (updateOneReturning name T conds values hkey returning) K c := by
  apply Spec.wp_one (TableOf.acts_update (fun _ => hkey) hcond) (fun _ => rfl) (by decide)
    (fun snap _ hl => TableOf.write_update hkey hl snap)
    (fun snap => TableOf.write_update_nil (fun _ => hkey) snap) h
  · intro w w' locked v c' hw hw' hl hv hg hmem ha
    cases v with
    | none => cases hv
    | some v =>
      have hret := find_locked hkey hl ((h.get w'.db).trans hg)
      show K _ _
      rw [hret]
      exact hlock w w' v c' hw hw' hv hg hmem ha
  · intro w w' c' hw hw' hN ha
    have hnone : ((T.rows (c.redo w'.db)).find? fun a => decide (T.rowOf a ∈ ([] : List Row))) =
        none := by simp
    show K _ _
    rw [hnone]
    exact hskip w w' c' hw hw' hN ha

theorem wp_updateOneUnless {conds : α → Bool} {values : α → α}
    {hkey : ∀ a, T.key (values a) = T.key a} {returning : α → γ} {K : Option γ → KnownOf Q → Prop}
    (hcond : ∀ a, conds a = true → T.key a = i) (hc : S.Kept q c) (N : WorldOf Q → Prop)
    (hNk : S.Kept q { c with fact := N })
    (hN : ∀ w, S.Here c w → (∀ a, T.get (c.redo w.db) i = some a → conds a = false) → N w)
    (hends : ∀ snap locked d, S.ends q name snap locked d)
    (hK : ∀ n snap locked c' r, (∀ r ∈ locked, r = T.row i) →
      S.After q c name n
        ((T.update (fun _ => conds) conds (fun _ => values) false fun _ => hkey).write snap locked ∘
          c.redo) (fun w => T.row i ∈ locked ∨ N w) c' → K r c') :
    S.wp q (updateOneReturning name T conds values hkey returning) K c := by
  apply Spec.wp_unless (TableOf.acts_update (fun _ => hkey) hcond) hc N hNk _ hends
  · exact fun w w' locked c' _ _ honly ha => hK _ _ locked c' _ honly ha
  · intro w hw hcond'
    apply hN w hw
    intro a ha
    rw [ha] at hcond'
    exact hcond'

theorem wp_deleteOne {conds : α → Bool} {K : Nat → KnownOf Q → Prop}
    (hcond : ∀ a, conds a = true → T.key a = i)
    (h : S.OneRow q name c T i (fun o => (o.map conds).getD false) N)
    (hlock : ∀ w w' v n c', S.Here c w → S.Here c w' → conds v = true → T.get w'.db i = some v →
      (T.row i, LockMode.update) ∈ c'.held → 0 < n →
      S.After q c name w.log.length (T.remove (fun a => decide (T.key a = i)) ∘ c.redo)
        (fun w => T.get w.db i = some v) c' → K n c')
    (hskip : ∀ w w' c', S.Here c w → S.Here c w' → N w' →
      S.After q c name w.log.length c.redo N c' → K 0 c') :
    S.wp q (deleteRows name T conds) K c := by
  apply Spec.wp_one (TableOf.acts_delete hcond) (fun _ => rfl) (by decide)
    (fun snap _ hl => TableOf.write_delete hl snap) (fun snap => TableOf.write_delete_nil conds snap) h
  · intro w w' locked v c' hw hw' hl hv hg hmem ha
    cases v with
    | none => cases hv
    | some v =>
      exact hlock w w' v locked.length c' hw hw' hv hg hmem
        (List.length_pos_of_mem ((hl _).mpr rfl)) ha
  · exact hskip

theorem isEmpty_locked {locked : List Row} {r : Row} (hl : ∀ x, x ∈ locked ↔ x = r) :
    locked.isEmpty = false :=
  List.isEmpty_eq_false_iff_exists_mem.mpr ⟨r, (hl r).mpr rfl⟩

theorem wp_insertIgnore {a : α} {parents : TxM Unit} {K : Bool → KnownOf Q → Prop}
    (h : S.OneRow q name c T (T.key a) (fun o => !o.isSome) N)
    (hlock : ∀ w c', S.Here c w → (T.rowOf a, LockMode.update) ∈ c'.held →
      S.After q c name w.log.length (T.add a ∘ c.redo) (fun w => T.get w.db (T.key a) = none) c' →
      S.wp q parents (fun _ c => K true c) c')
    (hskip : ∀ w c', S.Here c w → S.After q c name w.log.length c.redo N c' → K false c') :
    S.wp q (insertIgnore name T a parents) K c := by
  apply Spec.wp_one (TableOf.acts_insert rfl) (fun _ => rfl) (by decide)
    (fun snap _ hl => TableOf.write_insert hl snap)
    (fun snap => TableOf.write_insert_nil a [] _ snap) h
  · intro w w' locked v c' hw _ hl hv _ hmem ha
    cases v with
    | some v => cases hv
    | none =>
      simp only [isEmpty_locked hl]
      rw [if_neg (by decide), Spec.wp_bind]
      exact hlock w c' hw hmem ha
  · intro w w' c' hw _ _ ha
    exact hskip w c' hw ha

/-- An insert of which `N` remains if the request has seen a row under the key. The request may have
written such rows itself. -/
theorem wp_insertIgnore_or {a : α} {parents : TxM Unit} {K : Bool → KnownOf Q → Prop}
    (hc : S.Kept q c) (hends : ∀ snap locked d, S.ends q name snap locked d) (N : WorldOf Q → Prop)
    (hNk : S.Kept q { c with fact := N })
    (hN : ∀ w, S.Here c w → (T.get (c.redo w.db) (T.key a)).isSome = true → N w)
    (hadd : ∀ n c', S.After q c name n (T.add a ∘ c.redo) (fun _ => True) c' →
      S.wp q parents (fun _ c => K true c) c')
    (hskip : ∀ n c', S.After q c name n c.redo N c' → K false c') :
    S.wp q (insertIgnore name T a parents) K c := by
  apply Spec.wp_unless (TableOf.acts_insert rfl) hc N hNk _ hends
  · intro w w' locked c' _ _ honly ha
    by_cases hmem : T.row (T.key a) ∈ locked
    · have hiff : ∀ r, r ∈ locked ↔ r = T.rowOf a := fun r => ⟨honly r, fun he => he ▸ hmem⟩
      rw [TableOf.write_insert hiff] at ha
      simp only [isEmpty_locked hiff]
      rw [if_neg (by decide), Spec.wp_bind]
      exact hadd _ c' { ha with fact := fun w hw => ⟨(ha.fact w hw).1, trivial⟩ }
    · have hnil : locked = [] := by
        apply List.eq_nil_iff_forall_not_mem.mpr
        intro r hr
        exact hmem (honly r hr ▸ hr)
      subst hnil
      rw [TableOf.write_insert_nil] at ha
      exact hskip _ c' { ha with
        fact := fun w hw => ⟨(ha.fact w hw).1, (ha.fact w hw).2.resolve_left hmem⟩ }
  · intro w hw hcond
    exact hN w hw (Bool.not_eq_eq_eq_not.mp hcond)

theorem wp_insertRow {a : α} {parents : TxM Unit} {K : Unit → KnownOf Q → Prop}
    (hraise : ∀ past e log, S.raised q past e log)
    (h : S.OneRow q name c T (T.key a) (fun o => !o.isSome) N)
    (hlock : ∀ w c', S.Here c w → (T.rowOf a, LockMode.update) ∈ c'.held →
      S.After q c name w.log.length (T.add a ∘ c.redo) (fun w => T.get w.db (T.key a) = none) c' →
      S.wp q parents K c') :
    S.wp q (insertRow name T a parents) K c := by
  apply Spec.wp_one (TableOf.acts_insert rfl) (fun _ => rfl) (by decide)
    (fun snap _ hl => TableOf.write_insert hl snap)
    (fun snap => TableOf.write_insert_nil a [] _ snap) h
  · intro w w' locked v c' hw _ hl hv _ hmem ha
    cases v with
    | some v => cases hv
    | none =>
      simp only [isEmpty_locked hl]
      exact hlock w c' hw hmem ha
  · intro w w' c' hw _ _ _ w _
    exact hraise _ _ w.log

theorem wp_references {p : α → Bool} {K : Unit → KnownOf Q → Prop}
    (hraise : ∀ past e log, S.raised q past e log)
    (hends : ∀ snap locked d, S.ends q .foreignKey snap locked d)
    (hp : ∀ a, p a = true ↔ T.key a = i) (hc : S.Kept q c)
    (hget : ∀ d, (T.get (c.redo d) i).isSome = (T.get d i).isSome)
    (hK : ∀ w c', S.Here c w → S.After q c .foreignKey w.log.length c.redo
      (fun w => (T.get w.db i).isSome = true) c' → K () c') :
    S.wp q (references T p) K c := by
  apply Spec.wp_reference hp hc hget hends
  · intro w w' locked c' hw _ hl ha
    simp only [List.isEmpty_iff, hl, if_false]
    exact hK w c' hw ha
  · intro w w' c' _ _ _ w _
    exact hraise _ _ w.log

section Edit

open Backend.PostsRepository

variable {K : Nat → KnownOf Q → Prop} {e : Pending}

/-- The flush of a post whose row still has the version that was read. Otherwise `N` remains, and
the session gives up. -/
theorem wp_flushPost (hdirty : e.dirty = true)
    (h : S.OneRow q .flushPost c Tables.posts e.post.id
      (fun o => (o.map fun p => p.id == e.post.id && p.version == e.post.version).getD false) N)
    (hstale : ∀ w n c', S.After q c .flushPost n c.redo N c' → S.Here c' w →
      S.raised q c'.past .staleData w.log)
    (hK : ∀ n v c', v.version = e.post.version →
      (Tables.posts.row e.post.id, LockMode.noKeyUpdate) ∈ c'.held →
      S.After q c .flushPost n (Tables.posts.modify e.post.id e.write ∘ c.redo)
        (fun w => Tables.posts.get w.db e.post.id = some v) c' → K (e.post.version + 1) c') :
    S.wp q (flushPost e) K c := by
  have hid : ∀ p : Post, Tables.posts.key (e.write p) = Tables.posts.key p := fun _ => rfl
  have hcond : ∀ p : Post, (p.id == e.post.id && p.version == e.post.version) = true →
      Tables.posts.key p = e.post.id := by
    intro p hp
    simp only [Bool.and_eq_true, beq_iff_eq] at hp
    exact hp.1
  rw [flushPost, if_pos hdirty]
  apply Spec.wp_one (TableOf.acts_update (fun _ => hid) hcond) (fun _ => rfl) (by decide)
    (fun snap _ hl => TableOf.write_update hid hl snap)
    (fun snap => TableOf.write_update_nil (fun _ => hid) snap) h
  · intro w w' locked v c' _ _ hl hv _ hmem ha
    cases v with
    | none => cases hv
    | some v =>
      simp only [isEmpty_locked hl]
      rw [if_neg (by decide)]
      have hversion : v.version = e.post.version := by
        simp only [Option.map_some, Option.getD_some, Bool.and_eq_true, beq_iff_eq] at hv
        exact hv.2
      exact hK w.log.length v c' hversion hmem ha
  · intro w w' c' _ _ _ ha w₁ hw₁
    exact hstale w₁ w.log.length c' ha hw₁

end Edit

end Rules

section Requests

variable {S : Spec} {q : Request} {c : Known}

def Commits (S : Spec) (q : Request) (c : Known) : Prop :=
  ∀ w, S.Here c w → S.adm q w (w.commit q none c.past (c.redo w.db)) →
    S.inv (w.commit q none c.past (c.redo w.db)) ∧ S.change w (w.commit q none c.past (c.redo w.db))

theorem wp_once_transaction {block : TxM β} (hret : ∀ past log, S.returned q past log)
    (h : S.wp q block (fun _ c => Commits S q c) c) :
    S.wp q (once (transaction block)) (S.Finished q) c := by
  unfold once transaction
  rw [Spec.wp_bind, Spec.wp_bind]
  apply Spec.wp_mono h
  intro _ c hc
  apply Spec.wp_commit hc
  exact And.intro (fun _ hn => nomatch hn) fun w _ => hret _ w.log

theorem wp_once_answer {block : TxM β} {answer : β → TxM Unit}
    (hans : ∀ a, answer a = .pure () ∨ ∃ e, answer a = .raise e)
    (hraise : ∀ past e log, S.raised q past e log) (hret : ∀ past log, S.returned q past log)
    (h : S.wp q block (fun _ c => Commits S q c) c) :
    S.wp q (once (transaction block >>= answer)) (S.Finished q) c := by
  unfold once transaction
  rw [Spec.wp_bind, Spec.wp_bind, Spec.wp_bind]
  apply Spec.wp_mono h
  intro a c hc
  apply Spec.wp_commit hc
  rcases hans a with he | ⟨e, he⟩
  · show S.wp q (answer a) _ _
    rw [he]
    exact And.intro (fun _ hn => nomatch hn) fun w _ => hret _ w.log
  · show S.wp q (answer a) _ _
    rw [he]
    exact fun w _ => hraise _ e w.log

theorem orNotFound_cases (target : ModerationTarget) (ok : Bool) :
    AdminService.orNotFound target ok = .pure () ∨
      ∃ e, AdminService.orNotFound target ok = .raise e := by
  cases ok with
  | true => exact .inl rfl
  | false => exact .inr ⟨_, rfl⟩

theorem wp_once_steps {service : TxM β} (hx : Transacts names R service)
    (hrefl : ∀ d, R d d) (htrans : ∀ d₁ d₂ d₃, R d₁ d₂ → R d₂ d₃ → R d₁ d₃)
    (hends : ∀ name, names name → ∀ snap locked d, S.ends q name snap locked d)
    (hraise : ∀ past e log, S.raised q past e log) (hret : ∀ past log, S.returned q past log)
    (hc : S.Kept q c) (hK : ∀ c', S.Framed q c names R c' → Commits S q c') :
    S.wp q (once service) (S.Finished q) c := by
  obtain ⟨block, rfl, hblock⟩ := hx
  apply wp_once_transaction hret
  exact Spec.wp_steps hblock hrefl htrans hends hraise hc fun _ => hK

theorem wp_purge (cfg : Config) {job : UserService.PurgeJob} {chunk : Nat}
    (hret : ∀ past log, S.returned (.purge job chunk) past log)
    (hnext : S.starts (.purge job (chunk + 1)))
    (hends : ∀ d, S.ends (.purge job chunk) .selectPurgeableUserIds d [] d)
    (B : World → World → Prop)
    (hB : ∀ w, S.Here begun w → S.reads (.purge job chunk) .selectPurgeableUserIds w → B w w)
    (hBk : ∀ w n held redo, S.Kept (.purge job chunk)
      { past := [(.selectPurgeableUserIds, n)], held := held, redo := redo, fact := B w })
    (hidle : ∀ n w c, job.targetIds chunk = [] →
      S.After (.purge job chunk) begun .selectPurgeableUserIds n id (B w) c →
      Commits S (.purge job chunk) c)
    (hbody : ∀ n w c, job.targetIds chunk ≠ [] →
      UsersRepository.purgeableAnswer job.olderThanDays (job.now chunk) (job.targetIds chunk) w.db =
        true →
      S.After (.purge job chunk) begun .selectPurgeableUserIds n id (B w) c →
      S.wp (.purge job chunk) (decrementCounterByLinkOwner .post (job.targetIds chunk))
        (fun _ c => S.wp (.purge job chunk)
          (decrementCounterByLinkOwner .comment (job.targetIds chunk))
          (fun _ c => S.wp (.purge job chunk) (UsersRepository.purgeUsersByIds (job.targetIds chunk))
            (fun _ c => Commits S (.purge job chunk) c) c) c) c) :
    MeetsAt S cfg (.purge job chunk) := by
  show S.wp _ (UserService.purgeChunk job chunk >>= _) _ _
  rw [Spec.wp_bind]
  apply Spec.wp_select_fact hends kept_begun B hB hBk
  intro w c _ hok ha
  by_cases hids : job.targetIds chunk = []
  · rw [if_pos hids]
    apply Spec.wp_commit (hidle _ w c hids ha)
    exact And.intro (fun _ hn => nomatch hn) fun w _ => hret _ w.log
  · rw [if_neg hids, Spec.wp_bind]
    apply Spec.wp_mono (hbody _ w c hids hok ha)
    intro _ c hc
    rw [Spec.wp_bind]
    apply Spec.wp_mono hc
    intro _ c hc
    rw [Spec.wp_bind]
    apply Spec.wp_mono hc
    intro _ c hc
    apply Spec.wp_commit hc
    refine And.intro (fun q' hn => ?_) fun w _ => hret _ w.log
    cases hn
    exact hnext

end Requests

end PuppyTalk.Backend
