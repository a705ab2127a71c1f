import PuppyTalk.HashtagRules

namespace PuppyTalk.Backend.PostEdits

open Txn
open Backend.PostsRepository Backend.PostService

def imagesOf (postId : Uuid) (d : Store) : Finset Uuid :=
  ((d.postImages.filter (·.postId == postId)).map (·.imageId)).toFinset

structure Content where
  version : Nat
  title : String
  content : String
  categoryId : Option Nat
  hashtags : Finset String
  imageIds : Finset Uuid
  deriving DecidableEq

def contentOf (postId : Uuid) (d : Store) : Option Content :=
  (Tables.posts.get d postId).map fun p =>
    { version := p.version
      title := p.title
      content := p.content
      categoryId := p.categoryId
      hashtags := hashtagsOf postId d
      imageIds := imagesOf postId d }

def Content.edit (lower : String → String) (c : Content) (data : PostUpdateRequest) : Content where
  version := c.version + 1
  title := data.title.getD c.title
  content := data.content.getD c.content
  categoryId := data.categoryId.or c.categoryId
  hashtags := (data.hashtags.map fun raw => (normalizeHashtags lower raw).toFinset).getD c.hashtags
  imageIds := (data.imageIds.map List.toFinset).getD c.imageIds

def editOf (postId : Uuid) : Request → Option PostUpdateRequest
  | .updatePost id data .. => if id = postId then some data else none
  | _ => none

section Store

variable {postId : Uuid} {d d' : Store}

theorem mem_imagesOf : i ∈ imagesOf postId d ↔
    ∃ a ∈ d.postImages, a.postId = postId ∧ a.imageId = i := by
  simp only [imagesOf, List.mem_toFinset, List.mem_map, List.mem_filter, beq_iff_eq, and_assoc]

theorem mem_imagesOf_get (hd : d.Valid) : i ∈ imagesOf postId d ↔
    ∃ a, Tables.postImages.get d i = some a ∧ a.postId = postId := by
  rw [mem_imagesOf]
  constructor
  · rintro ⟨a, ha, hpost, hi⟩
    exact ⟨a, (Tables.postImages.get_eq_some hd).mpr ⟨ha, hi⟩, hpost⟩
  · rintro ⟨a, ha, hpost⟩
    obtain ⟨hmem, hi⟩ := (Tables.postImages.get_eq_some hd).mp ha
    exact ⟨a, hmem, hpost, hi⟩

theorem contentOf_congr (hp : Tables.posts.get d' postId = Tables.posts.get d postId)
    (hh : hashtagsOf postId d' = hashtagsOf postId d) (hi : imagesOf postId d' = imagesOf postId d) :
    contentOf postId d' = contentOf postId d := by
  rw [contentOf, hp, hh, hi]
  rfl

theorem contentOf_some {c : Content} (h : contentOf postId d = some c) :
    ∃ p, Tables.posts.get d postId = some p ∧ c.version = p.version ∧ c.title = p.title ∧
      c.content = p.content ∧ c.categoryId = p.categoryId ∧ c.hashtags = hashtagsOf postId d ∧
      c.imageIds = imagesOf postId d := by
  obtain ⟨p, hp, rfl⟩ := Option.map_eq_some_iff.mp h
  exact ⟨p, hp, rfl, rfl, rfl, rfl, rfl, rfl⟩

theorem hashtagsOf_of_content {c : Content} (h : contentOf postId d = some c) :
    hashtagsOf postId d = c.hashtags := by
  obtain ⟨p, -, rfl⟩ := Option.map_eq_some_iff.mp h
  rfl

theorem contentOf_of_retags {id : Uuid} (h : Retags postId d d') (hne : id ≠ postId) :
    contentOf id d' = contentOf id d := by
  apply contentOf_congr
  · exact congrArg (fun l => Table.row Post.id l id) h.posts
  · rw [hashtagsOf, h.links id hne]
    rfl
  · rw [imagesOf, h.postImages]
    rfl

end Store

structure Effect (lower : String → String) (q : Request) (d d' : Store) : Prop where
  edited : ∀ postId data, editOf postId q = some data → ∃ old, contentOf postId d = some old ∧
    contentOf postId d' = some (old.edit lower data) ∧ ∀ v, data.version = some v → v = old.version
  others : ∀ postId, editOf postId q = none → contentOf postId d' = contentOf postId d
  names : ∀ name, HasName name d → HasName name d'

def Works : Request → Prop
  | .updatePost .. | .like .. | .unlike .. | .createComment .. | .deleteComment ..
  | .incrementView .. | .flushViewCounts .. | .submitReport .. => True
  | _ => False

/-- The clock of an edit differs from the `updated_at` that it reads. -/
def Ticks (q : Request) (name : Statement) (d : Store) : Prop :=
  ∀ postId data categoryExists rowIds now, q = .updatePost postId data categoryExists rowIds now →
    name = .selectPost → ∀ p, Tables.posts.get d postId = some p → p.updatedAt ≠ now

def spec (lower : String → String) (first : Store) : Spec where
  starts := Works
  inv w := History (fun c d => Effect lower c.req d c.db) first w.log w.db
  change := World.Committed fun c d => Effect lower c.req d c.db
  reads q name w := Ticks q name w.db
  adm _ _ _ := True
  may _ _ _ _ := True
  ends _ _ _ _ _ := True
  raised _ _ _ _ := True
  returned _ _ _ := True

variable {lower : String → String} {first : Store} {q : Request} {c c' : Known}

def Since (postId : Uuid) (old : Content) (d : Store) : Prop :=
  ∃ cur, contentOf postId d = some cur ∧ (cur = old ∨ old.version < cur.version)

def Overtaken (postId : Uuid) (old : Content) (d : Store) : Prop :=
  ∃ cur, contentOf postId d = some cur ∧ old.version < cur.version

theorem Since.overtaken (h : Since postId old d) (hne : contentOf postId d ≠ some old) :
    Overtaken postId old d := by
  obtain ⟨cur, hcur, rfl | hlt⟩ := h
  · exact absurd hcur hne
  · exact ⟨cur, hcur, hlt⟩

theorem Overtaken.ne (h : Overtaken postId old d) : contentOf postId d ≠ some old := by
  obtain ⟨cur, hcur, hlt⟩ := h
  intro he
  cases hcur.symm.trans he
  exact Nat.lt_irrefl _ hlt

theorem Since.effect_cases (h : Since postId old d) (he : Effect lower q d d') :
    contentOf postId d' = contentOf postId d ∨ Overtaken postId old d' := by
  obtain ⟨cur, hcur, hor⟩ := h
  cases hedit : editOf postId q with
  | none => exact .inl (he.others postId hedit)
  | some data =>
    obtain ⟨old', hold', hnew, _⟩ := he.edited postId data hedit
    cases hcur.symm.trans hold'
    refine .inr ⟨_, hnew, ?_⟩
    rcases hor with rfl | hlt
    · exact Nat.lt_succ_self _
    · exact Nat.lt_succ_of_lt hlt

theorem Overtaken.since (h : Overtaken postId old d) : Since postId old d := by
  obtain ⟨cur, hcur, hlt⟩ := h
  exact ⟨cur, hcur, .inr hlt⟩

theorem Overtaken.effect (h : Overtaken postId old d) (he : Effect lower q d d') :
    Overtaken postId old d' := by
  rcases h.since.effect_cases he with hsame | hover
  · rw [Overtaken, hsame]
    exact h
  · exact hover

theorem Since.effect (h : Since postId old d) (he : Effect lower q d d') : Since postId old d' := by
  rcases h.effect_cases he with hsame | hover
  · rw [Since, hsame]
    exact h
  · exact hover.since

theorem stable_of_effect {P : Store → Prop} (h : ∀ q d d', Effect lower q d d' → P d → P d') :
    (spec lower first).Stable q past held fun w => P w.db := by
  rintro w w' - - ⟨c, rfl, he⟩ - - hw
  exact h c.req _ _ he hw

theorem kept_of_effect {P : Store → Prop} (h : ∀ q d d', Effect lower q d d' → P d → P d')
    (hc : c.fact = fun w => P w.db) : (spec lower first).Kept q c := by
  intro past held _ _
  rw [hc]
  exact stable_of_effect h

section Counters

structure Keeps (d d' : Store) : Prop where
  content : ∀ postId, contentOf postId d' = contentOf postId d
  names : ∀ name, HasName name d → HasName name d'

theorem Keeps.refl (d : Store) : Keeps d d := ⟨fun _ => rfl, fun _ h => h⟩

theorem Keeps.trans (h : Keeps d d') (h' : Keeps d' d'') : Keeps d d'' :=
  ⟨fun id => (h'.content id).trans (h.content id), fun name hd => h'.names name (h.names name hd)⟩

theorem untouched_posts {values : Post → Post} {hkey : ∀ p, (values p).id = p.id}
    (hv : ∀ p, (values p).version = p.version ∧ (values p).title = p.title ∧
      (values p).content = p.content ∧ (values p).categoryId = p.categoryId) :
    Untouched Tables.posts Keeps values hkey := by
  intro conds snap locked d
  refine ⟨fun id => ?_, fun _ h => h⟩
  have hget := TableOf.get_update (T := Tables.posts) (s := fun _ => conds) (p := conds)
    (b := false) (fun _ => hkey) snap locked d id
  rw [contentOf, hget, Option.map_map]
  refine congrArg (Option.map · _) (funext fun p => ?_)
  dsimp only [Function.comp_apply]
  split
  · obtain ⟨h₁, h₂, h₃, h₄⟩ := hv p
    rw [h₁, h₂, h₃, h₄]
    rfl
  · rfl

theorem apart_comments : Apart Tables.comments Keeps := fun _ _ => ⟨fun _ => rfl, fun _ h => h⟩

theorem apart_notifications : Apart Tables.notifications Keeps :=
  fun _ _ => ⟨fun _ => rfl, fun _ h => h⟩

theorem effect_of_keeps (hq : ∀ postId, editOf postId q = none) (h : Keeps d d') :
    Effect lower q d d' := by
  refine ⟨fun postId data hedit => ?_, fun postId _ => h.content postId, h.names⟩
  rw [hq postId] at hedit
  cases hedit

theorem wp_once_keeps {service : TxM β} (hq : ∀ postId, editOf postId q = none)
    (hx : Transacts (fun _ => True) Keeps service) :
    (spec lower first).wp q (once service) ((spec lower first).Finished q) begun := by
  refine wp_once_steps hx Keeps.refl (fun _ _ _ h h' => h.trans h')
    (fun _ _ _ _ _ => trivial) (fun _ _ _ => trivial) (fun _ _ => trivial) kept_begun ?_
  intro c' hf w hw _
  have heffect : Effect lower q w.db (c'.redo w.db) := effect_of_keeps hq (hf.moves w.db)
  exact ⟨.snoc hw.good.inv heffect, ⟨q, none, c'.past, c'.redo w.db⟩, rfl, heffect⟩

theorem steps_update {κ : Type} [DecidableEq κ] {T : TableOf Store Row α κ} {conds : α → Bool}
    {values : α → α} {hkey : ∀ a, T.key (values a) = T.key a} (h : Untouched T Keeps values hkey)
    (returning : α → β) :
    (updateOneReturning name T conds values hkey returning).Steps (fun _ => True) Keeps :=
  steps_updateOneReturning trivial h returning

theorem steps_updateLikeCount (t : TargetType) (name : Statement) (targetId : Uuid) (f : Int → Int)
    (now : Timestamp) :
    ((likeTarget t).updateLikeCount name targetId f now).Steps (fun _ => True) Keeps := by
  apply Prog.Steps.map
  apply steps_update
  cases t with
  | post => exact untouched_posts fun _ => ⟨rfl, rfl, rfl, rfl⟩
  | comment => exact apart_comments.untouched

theorem apart_links (t : TargetType) : Apart (likeTarget t).links Keeps := by
  cases t with
  | post => exact fun _ _ => ⟨fun _ => rfl, fun _ h => h⟩
  | comment => exact fun _ _ => ⟨fun _ => rfl, fun _ h => h⟩

theorem meets_like (cfg : Config) (t : TargetType) (targetId userId notificationId : Uuid)
    (now : Timestamp) :
    MeetsAt (spec lower first) cfg (.like t targetId userId notificationId now) := by
  apply wp_once_keeps fun _ => rfl
  apply transacts_like Keeps.refl fun _ => trivial
  · exact fun _ _ _ => TableOf.insert_rel Keeps.refl (apart_links t) ..
  · exact steps_updateLikeCount t _ _ _ now
  · exact apart_notifications

theorem meets_unlike (cfg : Config) (t : TargetType) (targetId userId : Uuid) (now : Timestamp) :
    MeetsAt (spec lower first) cfg (.unlike t targetId userId now) := by
  refine wp_once_keeps (fun _ => rfl) ⟨_, rfl, ?_⟩
  apply (steps_ensureUnlikeable trivial trivial t targetId).bind
  intro _
  apply Prog.Steps.tryExcept
  apply ((steps_deleteRows trivial (apart_links t) _).map _).bind
  intro deleted
  cases deleted with
  | false => exact steps_query trivial _
  | true => exact steps_updateLikeCount t .decrementLikeCount targetId (fun n => max (n - 1) 0) now

theorem meets_createComment (cfg : Config) (postId userId : Uuid) (content : String)
    (parentId : Option Uuid) (commentId notificationId : Uuid) (now : Timestamp) :
    MeetsAt (spec lower first) cfg
      (.createComment postId userId content parentId commentId notificationId now) := by
  apply wp_once_keeps fun _ => rfl
  apply transacts_createComment Keeps.refl fun _ => trivial
  · exact fun _ _ _ _ _ => TableOf.insert_rel Keeps.refl apart_comments ..
  · exact untouched_posts fun _ => ⟨rfl, rfl, rfl, rfl⟩
  · exact apart_notifications

theorem meets_deleteComment (cfg : Config) (postId commentId : Uuid) (now : Timestamp) :
    MeetsAt (spec lower first) cfg (.deleteComment postId commentId now) := by
  apply wp_once_keeps fun _ => rfl
  exact transacts_deleteComment postId commentId ⟨trivial, trivial, trivial⟩ apart_comments.untouched
    (untouched_posts fun _ => ⟨rfl, rfl, rfl, rfl⟩)

theorem steps_incrementViewCount (postId : Uuid) (delta : Int) (now : Timestamp) :
    (incrementViewCount postId delta now).Steps (fun _ => True) Keeps := by
  unfold incrementViewCount
  split
  · trivial
  · apply Prog.Steps.map
    apply steps_update
    exact untouched_posts fun _ => ⟨rfl, rfl, rfl, rfl⟩

theorem meets_incrementView (cfg : Config) (postId : Uuid) (now : Timestamp) :
    MeetsAt (spec lower first) cfg (.incrementView postId now) := by
  refine wp_once_keeps (fun _ => rfl) ⟨_, rfl, ?_⟩
  apply Prog.Steps.map
  apply Prog.Steps.tryExcept
  exact steps_incrementViewCount postId 1 now

theorem meets_flushViewCounts (cfg : Config) (fields : List (Uuid × Int)) (now : Timestamp) :
    MeetsAt (spec lower first) cfg (.flushViewCounts fields now) := by
  refine wp_once_keeps (fun _ => rfl) ⟨_, rfl, ?_⟩
  induction fields with
  | nil => trivial
  | cons field fields ih =>
    show (if 0 < field.2 then _ else _ : TxM Unit).Steps _ _
    split
    · exact (steps_incrementViewCount field.1 field.2 now).bind fun _ => ih
    · exact ih

theorem steps_setBlinded (t : TargetType) (targetId : Uuid) (now : Timestamp) :
    ((moderationTarget t).setBlinded targetId now).Steps (fun _ => True) Keeps := by
  cases t with
  | post =>
    apply Prog.Steps.map
    apply steps_update
    exact untouched_posts fun _ => ⟨rfl, rfl, rfl, rfl⟩
  | comment =>
    exact steps_transition (fun _ => trivial) apart_comments.untouched
      (fun _ => untouched_posts fun _ => ⟨rfl, rfl, rfl, rfl⟩) _ targetId

theorem meets_submitReport (cfg : Config) (reporterId : Uuid) (t : TargetType) (targetId : Uuid)
    (reason : ReportReason) (reportId : Uuid) (now : Timestamp) :
    MeetsAt (spec lower first) cfg (.submitReport reporterId t targetId reason reportId now) := by
  refine wp_once_keeps (fun _ => rfl) ⟨_, rfl, ?_⟩
  apply Prog.Steps.bind
  · cases t with
    | post =>
      apply steps_update
      exact untouched_posts fun _ => ⟨rfl, rfl, rfl, rfl⟩
    | comment => exact steps_update apart_comments.untouched _
  · intro newCount
    cases newCount with
    | none => trivial
    | some newCount =>
      apply Prog.Steps.bind
      · apply steps_insertRow Keeps.refl trivial fun _ _ => ⟨fun _ => rfl, fun _ h => h⟩
        exact steps_references Keeps.refl trivial _ _
      · intro _
        split
        · exact (steps_setBlinded t targetId now).map _
        · trivial

end Counters

section Images

variable {postId : Uuid}

theorem imagesOf_deleteImages {id : Uuid} {conds : PostImage → Bool} {locked : List Row}
    {d d₀ : Store} (hd : d₀.Valid) (hsame : d.postImages = d₀.postImages)
    (hconds : ∀ a, conds a = true → a.postId = postId)
    (hlocked : Tables.postImages.Locked conds locked d₀) (hne : id ≠ postId) (snap : Store) :
    imagesOf id ((Tables.postImages.delete conds).write snap locked d) = imagesOf id d := by
  ext i
  rw [mem_imagesOf, mem_imagesOf]
  show (∃ a ∈ d.postImages.filter (fun a => !decide (Row.postImage a.imageId ∈ locked)), _) ↔ _
  constructor
  · rintro ⟨a, ha, hpost, hi⟩
    exact ⟨a, List.mem_of_mem_filter ha, hpost, hi⟩
  · rintro ⟨a, ha, hpost, hi⟩
    refine ⟨a, List.mem_filter.mpr ⟨ha, ?_⟩, hpost, hi⟩
    have hnot : Row.postImage a.imageId ∉ locked := by
      intro hr
      obtain ⟨b, hb, hcond⟩ := hlocked a.imageId hr
      have hget := (Tables.postImages.get_eq_some hd).mpr ⟨hsame ▸ ha, rfl⟩
      cases hb.symm.trans hget
      exact hne (hpost.symm.trans (hconds a hcond))
    exact congrArg (fun b => !b) (decide_eq_false hnot)

theorem mem_deleteImages {conds : PostImage → Bool} {locked : List Row} {snap d : Store} :
    i ∈ imagesOf postId ((Tables.postImages.delete conds).write snap locked d) ↔
      i ∈ imagesOf postId d ∧ Row.postImage i ∉ locked := by
  rw [mem_imagesOf, mem_imagesOf]
  show (∃ a ∈ d.postImages.filter (fun a => !decide (Row.postImage a.imageId ∈ locked)), _) ↔ _
  constructor
  · rintro ⟨a, ha, hpost, rfl⟩
    obtain ⟨hmem, hkeep⟩ := List.mem_filter.mp ha
    exact ⟨⟨a, hmem, hpost, rfl⟩, by simpa using hkeep⟩
  · rintro ⟨⟨a, ha, hpost, rfl⟩, hnot⟩
    refine ⟨a, List.mem_filter.mpr ⟨ha, ?_⟩, hpost, rfl⟩
    exact congrArg (fun b => !b) (decide_eq_false hnot)

theorem get_deleteImages {conds : PostImage → Bool} {locked : List Row}
    (hnot : Row.postImage i ∉ locked) (snap d : Store) :
    Tables.postImages.get ((Tables.postImages.delete conds).write snap locked d) i =
      Tables.postImages.get d i := by
  refine Table.row_delete_of_false fun a _ hk => ?_
  have hrow : Tables.postImages.rowOf a = Row.postImage i := congrArg Row.postImage hk
  rw [hrow]
  exact decide_eq_false hnot

theorem posts_addImage (a : PostImage) (d : Store) : (Tables.postImages.add a d).posts = d.posts := by
  unfold TableOf.add
  split <;> rfl

theorem hashtagsOf_addImage (a : PostImage) (d : Store) (postId : Uuid) :
    hashtagsOf postId (Tables.postImages.add a d) = hashtagsOf postId d := by
  unfold TableOf.add
  split <;> rfl

theorem hasName_addImage (a : PostImage) (h : HasName name d) :
    HasName name (Tables.postImages.add a d) := by
  unfold TableOf.add
  split <;> exact h

theorem imagesOf_addImage {a : PostImage} {d : Store}
    (h : Tables.postImages.get d a.imageId = none) :
    imagesOf a.postId (Tables.postImages.add a d) = insert a.imageId (imagesOf a.postId d) := by
  rw [TableOf.add_of_none h]
  ext i
  rw [mem_imagesOf, Finset.mem_insert, mem_imagesOf]
  show (∃ b ∈ d.postImages ++ [a], _) ↔ _
  constructor
  · rintro ⟨b, hb, hpost, rfl⟩
    rcases List.mem_append.mp hb with hb | hb
    · exact .inr ⟨b, hb, hpost, rfl⟩
    · exact .inl (congrArg PostImage.imageId (List.mem_singleton.mp hb))
  · rintro (rfl | ⟨b, hb, hpost, rfl⟩)
    · exact ⟨a, List.mem_append_right _ List.mem_cons_self, rfl, rfl⟩
    · exact ⟨b, List.mem_append_left _ hb, hpost, rfl⟩

theorem imagesOf_addImage_of_ne {id : Uuid} {a : PostImage} (hne : id ≠ a.postId) (d : Store) :
    imagesOf id (Tables.postImages.add a d) = imagesOf id d := by
  unfold TableOf.add
  split
  · rfl
  · ext i
    rw [mem_imagesOf, mem_imagesOf]
    show (∃ b ∈ d.postImages ++ [a], _) ↔ _
    constructor
    · rintro ⟨b, hb, hpost, hi⟩
      rcases List.mem_append.mp hb with hb | hb
      · exact ⟨b, hb, hpost, hi⟩
      · rw [List.mem_singleton.mp hb] at hpost
        exact absurd hpost.symm hne
    · rintro ⟨b, hb, hpost, hi⟩
      exact ⟨b, List.mem_append_left _ hb, hpost, hi⟩

end Images

section Flush

variable {postId : Uuid} {old : Content}

theorem changed_getD [DecidableEq α] (a : α) (new : Option α) : (changed a new).getD a = new.getD a := by
  cases new with
  | none => rfl
  | some b =>
    by_cases hb : b = a
    · simp [changed, Option.filter, hb]
    · simp [changed, Option.filter, hb]

theorem contentOf_edited {data : PostUpdateRequest} {post v : Post} {e : Pending} {d d' : Store}
    {redo redo₀ : Store → Store} (hredo : redo = Tables.posts.modify postId e.write ∘ redo₀)
    (hredo₀ : (redo₀ d).posts = d.posts) (hposts : d'.posts = (redo d).posts)
    (hpost : old.version = post.version ∧ old.title = post.title ∧ old.content = post.content ∧
      old.categoryId = post.categoryId)
    (he : e.post = post ∧ e.title = changed post.title data.title ∧
      e.content = changed post.content data.content ∧
      e.categoryId = data.categoryId.filter fun c => some c ≠ post.categoryId)
    (hcur : contentOf postId d = some old) (hv : Tables.posts.get d postId = some v)
    (htags : hashtagsOf postId d' = (old.edit lower data).hashtags)
    (himages : imagesOf postId d' = (old.edit lower data).imageIds) :
    contentOf postId d' = some (old.edit lower data) := by
  have hget : Tables.posts.get d' postId = some (e.write v) := by
    have hmod := TableOf.get_modify (T := Tables.posts) (f := e.write) (fun _ => rfl) postId
      (redo₀ d) postId
    have hv₀ : Tables.posts.get (redo₀ d) postId = some v :=
      (congrArg (fun t => Table.row Post.id t postId) hredo₀).trans hv
    rw [hv₀, Option.map_some, if_pos rfl] at hmod
    rw [hredo] at hposts
    exact (congrArg (fun t => Table.row Post.id t postId) hposts).trans hmod
  obtain ⟨p, hp, hversion, htitle, hcontent, hcategory, -, -⟩ := contentOf_some hcur
  cases hv.symm.trans hp
  obtain ⟨hpv, hpt, hpc, hpk⟩ := hpost
  obtain ⟨rfl, het, hec, hek⟩ := he
  rw [contentOf, hget, Option.map_some, htags, himages]
  have hcategory' : e.categoryId.or old.categoryId = data.categoryId.or old.categoryId := by
    rw [hek, hpk]
    cases hdata : data.categoryId with
    | none => rfl
    | some k =>
      by_cases hk : some k = e.post.categoryId
      · simp [Option.filter, hk]
      · simp [Option.filter, hk]
  simp only [Content.edit, Pending.write, het, hec, hcategory', ← hpt, ← hpc, ← htitle, ← hcontent,
    ← hcategory, ← hpv, changed_getD]

theorem contentOf_modify {id : Uuid} (hne : id ≠ postId) (e : Pending) (d : Store) :
    contentOf id (Tables.posts.modify postId e.write d) = contentOf id d := by
  refine contentOf_congr ?_ rfl rfl
  rw [TableOf.get_modify (T := Tables.posts) (f := e.write) fun _ => rfl]
  simp [hne]

theorem Since.current (h : Since postId old d) (hrow : Tables.posts.get d postId = some v)
    (hv : v.version = old.version) : contentOf postId d = some old := by
  obtain ⟨cur, hcur, rfl | hlt⟩ := h
  · exact hcur
  · obtain ⟨p, hp, hversion, -⟩ := contentOf_some hcur
    cases hrow.symm.trans hp
    omega

theorem effect_of_edit {d d' : Store} {data : PostUpdateRequest} {categoryExists : Bool}
    {rowIds : Uuid → Uuid} {now : Timestamp} (hcur : contentOf postId d = some old)
    (hnew : contentOf postId d' = some (old.edit lower data))
    (hversion : data.version.any (· != old.version) = false)
    (hothers : ∀ id, id ≠ postId → contentOf id d' = contentOf id d)
    (hnames : ∀ name, HasName name d → HasName name d') :
    Effect lower (.updatePost postId data categoryExists rowIds now) d d' := by
  refine ⟨fun id data' hedit => ?_, fun id hedit => hothers id fun he => ?_, hnames⟩
  · simp only [editOf] at hedit
    split at hedit
    next he =>
      cases hedit
      subst he
      refine ⟨old, hcur, hnew, fun v hv => ?_⟩
      rw [hv] at hversion
      simpa using hversion
    next => cases hedit
  · rw [he, editOf, if_pos rfl] at hedit
    cases hedit

end Flush

structure Reading where
  lower : String → String
  first : Store
  req : Request
  postId : Uuid
  old : Content

namespace Reading

abbrev spec (E : Reading) : Spec := PostEdits.spec E.lower E.first

/-- What is known on the way of the edit: other posts look as they are, and as long as no edit has
overtaken this one, it sees these sets. -/
structure Editing (E : Reading) (c : Known) (tags : Finset String) (images : Finset Uuid) : Prop where
  kept : E.spec.Kept E.req c
  since : ∀ w, E.spec.Good w → c.fact w → Since E.postId E.old w.db
  others : ∀ w, E.spec.Good w → c.fact w → ∀ id, id ≠ E.postId →
    contentOf id (c.redo w.db) = contentOf id w.db
  names : ∀ d name, HasName name d → HasName name (c.redo d)
  sees : ∀ w, E.spec.Good w → c.fact w → contentOf E.postId w.db = some E.old →
    hashtagsOf E.postId (c.redo w.db) = tags ∧ imagesOf E.postId (c.redo w.db) = images

variable {E : Reading} {tags tags' : Finset String} {images images' : Finset Uuid}

theorem Editing.after {f : Store → Store} {fact : World → Prop} (h : E.Editing c tags images)
    (ha : E.spec.After E.req c name n (f ∘ c.redo) fact c')
    (hothers : ∀ w, E.spec.Good w → fact w → ∀ id, id ≠ E.postId →
      contentOf id (f (c.redo w.db)) = contentOf id (c.redo w.db))
    (hnames : ∀ d name, HasName name d → HasName name (f d))
    (hsees : ∀ w, E.spec.Good w → c.fact w → fact w → contentOf E.postId w.db = some E.old →
      imagesOf E.postId (c.redo w.db) = images →
      hashtagsOf E.postId (f (c.redo w.db)) = hashtagsOf E.postId (c.redo w.db) ∧
        imagesOf E.postId (f (c.redo w.db)) = images') : E.Editing c' tags images' where
  kept := ha.kept
  since w hg hf := h.since w hg (ha.fact w hf).1
  others w hg hf id hne := by
    obtain ⟨hc, hfact⟩ := ha.fact w hf
    rw [ha.redo]
    exact (hothers w hg hfact id hne).trans (h.others w hg hc id hne)
  names d name hd := by
    rw [ha.redo]
    exact hnames _ name (h.names d name hd)
  sees w hg hf hcur := by
    obtain ⟨hc, hfact⟩ := ha.fact w hf
    obtain ⟨htags, himages⟩ := h.sees w hg hc hcur
    rw [ha.redo]
    exact (hsees w hg hc hfact hcur himages).imp_left fun hsame => hsame.trans htags

theorem wp_still {x : TxM β} {K : β → Known → Prop} (hx : x.Steps (fun _ => True) Eq)
    (hc : (PostEdits.spec lower first).Kept q c)
    (hK : ∀ a c', (PostEdits.spec lower first).Framed q c (fun _ => True) Eq c' → K a c') :
    (PostEdits.spec lower first).wp q x K c :=
  Spec.wp_steps hx (fun _ => rfl) (fun _ _ _ h h' => h.trans h') (fun _ _ _ _ _ => trivial)
    (fun _ _ _ => trivial) hc hK

theorem Editing.still (h : E.Editing c tags images)
    (hf : E.spec.Framed E.req c (fun _ => True) Eq c') : E.Editing c' tags images where
  kept := hf.kept
  since w hg hw := h.since w hg (hf.fact w hw)
  others w hg hw := by
    rw [← hf.moves]
    exact h.others w hg (hf.fact w hw)
  names d := by
    rw [← hf.moves]
    exact h.names d
  sees w hg hw := by
    rw [← hf.moves]
    exact h.sees w hg (hf.fact w hw)

theorem Editing.current_or (h : E.Editing c tags images) (hw : E.spec.Here c w) :
    contentOf E.postId w.db = some E.old ∨ Overtaken E.postId E.old w.db := by
  by_cases hcur : contentOf E.postId w.db = some E.old
  · exact .inl hcur
  · exact .inr ((h.since w hw.good hw.fact).overtaken hcur)

theorem kept_overtaken (p : Prop) (hc : c.fact = fun w => p ∨ Overtaken E.postId E.old w.db) :
    E.spec.Kept E.req c :=
  kept_of_effect (P := fun d => p ∨ Overtaken E.postId E.old d)
    (fun _ _ _ he h => h.imp_right fun h => h.effect he) hc

def guard (E : Reading) : Guard E.spec E.req E.postId where
  own w := Since E.postId E.old w.db
  lost w := Overtaken E.postId E.old w.db
  locks := []
  stable past held _ φ := by
    apply stable_of_effect (P := fun d => Since E.postId E.old d ∧
      (Overtaken E.postId E.old d ∨ φ (hashtagsOf E.postId d)))
    rintro q d d' he ⟨hsince, h⟩
    refine ⟨hsince.effect he, ?_⟩
    rcases hsince.effect_cases he with hsame | hover
    · obtain ⟨cur, hcur, -⟩ := hsince
      have htags : hashtagsOf E.postId d' = hashtagsOf E.postId d :=
        (hashtagsOf_of_content (hsame.trans hcur)).trans (hashtagsOf_of_content hcur).symm
      rw [htags]
      exact h.imp_left fun hover => hover.effect he
    · exact .inl hover
  names past held name := stable_of_effect (P := HasName name) fun _ _ _ he => he.names name
  ends _ _ _ _ := trivial
  raised _ _ _ := trivial

theorem wp_syncHashtagsIfSome {K : Unit → Known → Prop} {names : Option (List String)}
    (hnodup : ∀ l, names = some l → l.Nodup) (h : E.Editing c E.old.hashtags images)
    (hredo : ∀ d, c.redo d = d)
    (hK : ∀ c', E.Editing c' ((names.map List.toFinset).getD E.old.hashtags) images →
      (∀ d, Retags E.postId d (c'.redo d)) → K () c') :
    E.spec.wp E.req (syncHashtagsIfSome E.postId names) K c := by
  cases names with
  | none =>
    apply hK c h
    intro d
    rw [hredo]
    exact .refl _ d
  | some names =>
    have howned : E.guard.Owned c := by
      refine ⟨h.kept, fun l hl => absurd hl List.not_mem_nil, h.since, fun d => ?_, fun d => ?_⟩
      · rw [hredo]
      · rw [hredo]
    refine E.guard.wp_syncPostHashtags (hnodup names rfl) howned fun c' h' => ?_
    have hmoves (d : Store) : Retags E.postId d (c'.redo d) := by
      have hd := h'.framed.moves d
      rw [hredo] at hd
      exact hd
    refine hK c' ⟨h'.framed.kept, fun w hg hw => h.since w hg (h'.framed.fact w hw),
      fun w _ _ id hne => contentOf_of_retags (hmoves w.db) hne, fun d => (hmoves d).names,
      fun w hg hw hcur => ⟨?_, ?_⟩⟩ hmoves
    · exact (h'.sees w hg hw).resolve_left fun hover => hover.ne hcur
    · have himages := (h.sees w hg (h'.framed.fact w hw) hcur).2
      rw [hredo] at himages
      rw [imagesOf, (hmoves w.db).postImages]
      exact himages

theorem wp_deleteImages {K : Nat → Known → Prop} {oldImageIds toRemove : List Uuid}
    (h : E.Editing c tags E.old.imageIds)
    (hredo : ∀ d, (c.redo d).postImages = d.postImages)
    (hread : ∀ w, E.spec.Good w → c.fact w → contentOf E.postId w.db = some E.old →
      oldImageIds.toFinset = E.old.imageIds)
    (hsub : ∀ i ∈ toRemove, i ∈ oldImageIds)
    (hK : ∀ n c', E.Editing c' tags
        (oldImageIds.toFinset.filter fun i => i ∉ toRemove) →
      (∀ d, (c'.redo d).posts = (c.redo d).posts) →
      (∀ d i, i ∉ toRemove → Tables.postImages.get (c'.redo d) i = Tables.postImages.get d i) →
      K n c') :
    E.spec.wp E.req (deleteRows .deletePostImage Tables.postImages fun pi =>
      pi.postId == E.postId && toRemove.contains pi.imageId) K c := by
  have hlink : ∀ w, E.spec.Here c w → contentOf E.postId w.db = some E.old →
      ∀ i ∈ toRemove, ∃ a, Tables.postImages.get w.db i = some a ∧
        (a.postId == E.postId && toRemove.contains a.imageId) = true := by
    intro w hw hcur i hi
    obtain ⟨p, -, -, -, -, -, -, himages⟩ := contentOf_some hcur
    have hmem : i ∈ imagesOf E.postId w.db := by
      rw [← himages, ← hread w hw.good hw.fact hcur, List.mem_toFinset]
      exact hsub i hi
    obtain ⟨a, ha, hpost⟩ := (mem_imagesOf_get hw.good.valid).mp hmem
    have hkey : a.imageId = i := Tables.postImages.get_key ha
    exact ⟨a, ha, by simpa [hpost, hkey] using hi⟩
  refine Spec.wp_rows (T := Tables.postImages)
    (p := fun pi => pi.postId == E.postId && toRemove.contains pi.imageId)
    (fun _ => rfl) (fun _ _ => rfl) (fun _ => show LockMode.update ≠ .keyShare by decide) hredo h.kept
    (fun w w' => contentOf E.postId w.db = some E.old ∨ Overtaken E.postId E.old w'.db)
    (fun w hw => h.current_or hw) (fun w _ => kept_overtaken _ rfl)
    (fun i w => i ∉ toRemove ∨ Overtaken E.postId E.old w.db) (fun i _ => kept_overtaken _ rfl) ?_ ?_
  · intro i w hw hnone
    refine (h.current_or hw).imp_left fun hcur hi => ?_
    obtain ⟨a, ha, hcond⟩ := hlink w hw hcur i hi
    rw [hnone a ha] at hcond
    cases hcond
  · intro w w' locked hw hw' hB hsel hlocked hcov
    have hrow : ∀ i, Row.postImage i ∈ locked → i ∈ toRemove := by
      intro i hi
      obtain ⟨a, -, hcond, he⟩ := hsel _ hi
      have hkey : i = a.imageId := Row.postImage.inj he
      rw [hkey]
      simpa using (Bool.and_eq_true_iff.mp hcond).2
    refine ⟨trivial, fun v => Tables.postImages.Locked
      (fun pi => pi.postId == E.postId && toRemove.contains pi.imageId) locked v.db ∧
      ((∀ i ∈ toRemove, Row.postImage i ∈ locked) ∨ Overtaken E.postId E.old v.db),
      ⟨hlocked, ?_⟩, ?_, fun c' ha => ?_⟩
    · by_cases hover : Overtaken E.postId E.old w'.db
      · exact .inr hover
      · refine .inl fun i hi => ?_
        obtain ⟨a, ha, hcond⟩ := hlink w hw (hB.resolve_right hover) i hi
        obtain ⟨hmem, hkey⟩ := (Tables.postImages.get_eq_some hw.good.valid).mp ha
        have hrowOf : Tables.postImages.rowOf a = Row.postImage i := congrArg Row.postImage hkey
        rcases hcov a hmem hcond with hl | hk | hk
        · exact hrowOf ▸ hl
        · exact absurd hi (hkey ▸ hk)
        · exact absurd hk hover
    · intro past held hp hh
      apply Spec.Stable.and
      · exact Spec.Stable.of_locked (fun _ => show LockMode.update ≠ .keyShare by decide)
          fun l hl => hh l (List.mem_append_left _ hl)
      · exact stable_of_effect (P := fun d => _ ∨ Overtaken E.postId E.old d)
          fun _ _ _ he hor => hor.imp_right fun hover => hover.effect he
    · refine hK _ c' (h.after ha (fun v hg hfact id hne => ?_) (fun _ _ h => h) ?_) ?_ ?_
      · refine contentOf_congr rfl rfl (imagesOf_deleteImages hg.valid (hredo v.db) ?_ hfact.1 hne _)
        exact fun a ha => beq_iff_eq.mp (Bool.and_eq_true_iff.mp ha).1
      · intro v hg hf hfact hcur himages
        refine ⟨rfl, ?_⟩
        ext i
        rw [mem_deleteImages, himages, ← hread v hg hf hcur, Finset.mem_filter]
        have hall := hfact.2.resolve_right fun hover => hover.ne hcur
        exact and_congr_right fun _ => not_congr ⟨hrow i, hall i⟩
      · intro d
        rw [ha.redo]
        rfl
      · intro d i hi
        rw [ha.redo, Function.comp_apply, get_deleteImages fun hr => hi (hrow i hr)]
        exact congrArg (fun t => Table.row PostImage.imageId t i) (hredo d)

structure ImagesSynced (E : Reading) (tags : Finset String) (target : Finset Uuid) (c : Known)
    (toAdd : List Uuid) : Prop where
  images : ∃ kept, E.Editing c tags kept ∧ kept ∪ toAdd.toFinset = target
  nodup : toAdd.Nodup
  fresh : ∀ d, ∀ i ∈ toAdd, Tables.postImages.get (c.redo d) i = Tables.postImages.get d i

theorem wp_syncPostImages {K : List Uuid → Known → Prop} {imageIds : Option (List Uuid)}
    (h : E.Editing c tags E.old.imageIds)
    (hredo : ∀ d, (c.redo d).postImages = d.postImages)
    (hK : ∀ toAdd c', E.ImagesSynced tags
        ((imageIds.map List.toFinset).getD E.old.imageIds) c' toAdd →
      (∀ d, (c'.redo d).posts = (c.redo d).posts) → K toAdd c') :
    E.spec.wp E.req (syncPostImages E.postId imageIds) K c := by
  cases imageIds with
  | none =>
    refine hK [] c ⟨⟨_, h, ?_⟩, List.nodup_nil, fun _ i hi => ?_⟩ fun _ => rfl
    · rw [List.toFinset_nil, Finset.union_empty]
      rfl
    · exact absurd hi List.not_mem_nil
  | some imageIds =>
    rw [syncPostImages, Spec.wp_bind]
    refine Spec.wp_select_fact (fun _ => trivial) h.kept
      (fun w w' => contentOf E.postId w.db = some E.old ∨ Overtaken E.postId E.old w'.db)
      (fun w hw _ => h.current_or hw) (fun w n held redo => kept_overtaken _ rfl)
      fun w c₁ hw _ ha₁ => ?_
    refine Eq.mpr (Spec.wp_pure _ _ _) ?_
    dsimp only
    rw [hredo]
    have h₁ : E.Editing c₁ tags E.old.imageIds :=
      h.after (f := id) ha₁ (fun _ _ _ _ _ => rfl) (fun _ _ h => h)
        fun _ _ _ _ _ himages => ⟨rfl, himages⟩
    generalize hold : (w.db.postImages.filter (·.postId == E.postId)).map (·.imageId) = oldImageIds
    have hread : ∀ w', E.spec.Good w' → c₁.fact w' → contentOf E.postId w'.db = some E.old →
        oldImageIds.toFinset = E.old.imageIds := by
      intro w' _ hf hcur
      have hthen := (ha₁.fact w' hf).2.resolve_right fun hover => hover.ne hcur
      obtain ⟨p, -, -, -, -, -, -, himages⟩ := contentOf_some hthen
      rw [himages, ← hold]
      rfl
    have hredo₁ : ∀ d, (c₁.redo d).postImages = d.postImages := by
      intro d
      rw [ha₁.redo]
      exact hredo d
    have htarget : (oldImageIds.toFinset.filter fun i =>
          i ∉ oldImageIds.filter fun i => !imageIds.contains i) ∪
        (imageIds.dedup.filter fun i => !oldImageIds.contains i).toFinset = imageIds.toFinset := by
      ext i
      simp only [Finset.mem_union, Finset.mem_filter, List.mem_toFinset, List.mem_filter,
        List.mem_dedup, Bool.not_eq_true', List.contains_eq_mem, decide_eq_false_iff_not]
      tauto
    have hnodup : (imageIds.dedup.filter fun i => !oldImageIds.contains i).Nodup :=
      (List.nodup_dedup _).filter _
    have hfresh : ∀ i ∈ imageIds.dedup.filter (fun i => !oldImageIds.contains i),
        i ∉ oldImageIds := by
      intro i hi
      simpa using (List.mem_filter.mp hi).2
    split
    next hnil =>
      rw [hnil] at htarget
      apply hK
      · refine ⟨⟨_, { h₁ with sees := fun w' hg hf hcur => ?_ }, htarget⟩, hnodup, fun d i _ => ?_⟩
        · obtain ⟨htags, himages⟩ := h₁.sees w' hg hf hcur
          refine ⟨htags, ?_⟩
          rw [himages, ← hread w' hg hf hcur]
          simp
        · exact congrArg (fun t => Table.row PostImage.imageId t i) (hredo₁ d)
      · intro d
        rw [ha₁.redo]
    next =>
      rw [Spec.wp_bind]
      refine wp_deleteImages h₁ hredo₁ hread (fun i hi => List.mem_of_mem_filter hi)
        fun _ c₂ h₂ hposts hget => hK _ c₂ ⟨⟨_, h₂, htarget⟩, hnodup, fun d i hi => ?_⟩ fun d => ?_
      · exact hget d i fun hmem => hfresh i hi (List.mem_of_mem_filter hmem)
      · rw [hposts, ha₁.redo]

theorem wp_insertPostImages {K : Unit → Known → Prop} {rowIds : Uuid → Uuid} {now : Timestamp}
    {images : Finset Uuid} (imageIds : List Uuid) (hnodup : imageIds.Nodup)
    (h : E.Editing c tags images)
    (hfresh : ∀ d, ∀ i ∈ imageIds, Tables.postImages.get (c.redo d) i = Tables.postImages.get d i)
    (hK : ∀ c', E.Editing c' tags (images ∪ imageIds.toFinset) →
      (∀ w, c'.fact w → c.fact w) → (∀ d, (c'.redo d).posts = (c.redo d).posts) → K () c') :
    E.spec.wp E.req (insertPostImages E.postId rowIds now imageIds) K c := by
  induction imageIds generalizing c images with
  | nil =>
    refine hK c ?_ (fun _ h => h) fun _ => rfl
    rw [List.toFinset_nil, Finset.union_empty]
    exact h
  | cons imageId imageIds ih =>
    obtain ⟨himage, hnodup⟩ := List.nodup_cons.mp hnodup
    have hunion : images ∪ (imageId :: imageIds).toFinset =
        insert imageId images ∪ imageIds.toFinset := by
      ext i
      simp only [Finset.mem_union, List.mem_toFinset, List.mem_cons, Finset.mem_insert]
      tauto
    rw [hunion] at hK
    rw [insertPostImages, Spec.wp_bind]
    refine wp_insertRow (N := fun _ => True) (fun _ _ _ => trivial) ?_ fun w c₁ _ _ ha => ?_
    · exact ⟨h.kept, fun d => hfresh d imageId List.mem_cons_self, .true rfl,
        fun _ _ _ => trivial, fun _ _ _ _ _ _ _ => trivial⟩
    have h₁ : E.Editing c₁ tags (insert imageId images) := by
      refine h.after ha (fun w _ _ id hne => ?_) (fun d n => hasName_addImage _)
        fun w _ _ hnone _ himages => ⟨hashtagsOf_addImage _ _ _, ?_⟩
      · apply contentOf_congr _ (hashtagsOf_addImage _ _ _) (imagesOf_addImage_of_ne hne _)
        exact congrArg (fun t => Table.row Post.id t id) (posts_addImage _ _)
      · have hfree := (hfresh w.db imageId List.mem_cons_self).trans hnone
        have hadd := imagesOf_addImage (a := ⟨rowIds imageId, E.postId, imageId, now⟩) hfree
        exact hadd.trans (congrArg (insert imageId) himages)
    have hparents : (references Tables.posts (·.id == E.postId) >>= fun _ =>
        references Tables.images (·.id == imageId)).Steps (fun _ => True) Eq :=
      (steps_references (fun _ => rfl) trivial _ _).bind fun _ =>
        steps_references (fun _ => rfl) trivial _ _
    refine wp_still hparents h₁.kept fun _ c₂ hf => ?_
    refine ih hnodup (h₁.still hf) (fun d i hi => ?_) fun c' h' hfact hposts => ?_
    · have hne : i ≠ Tables.postImages.key ⟨rowIds imageId, E.postId, imageId, now⟩ :=
        fun he => himage ((show i = imageId from he) ▸ hi)
      rw [← hf.moves, ha.redo, Function.comp_apply, TableOf.get_add, if_neg hne]
      exact hfresh d i (List.mem_cons_of_mem _ hi)
    · refine hK c' h' (fun w hw => (ha.fact w (hf.fact w (hfact w hw))).1) fun d => ?_
      rw [hposts, ← hf.moves, ha.redo]
      exact posts_addImage _ _

end Reading

theorem meets_updatePost (cfg : Config) (first : Store) (postId : Uuid) (data : PostUpdateRequest)
    (categoryExists : Bool) (rowIds : Uuid → Uuid) (now : Timestamp) :
    MeetsAt (spec cfg.lower first) cfg (.updatePost postId data categoryExists rowIds now) := by
  show (spec cfg.lower first).wp _ (once (PostService.updatePost ..)) _ _
  rw [once, Spec.wp_bind, PostService.updatePost, Spec.wp_bind]
  refine Reading.wp_still (steps_validateRefs (fun _ => rfl) trivial _ _ _) kept_begun fun _ c₁ h₁ => ?_
  have hredo₁ (d : Store) : c₁.redo d = d := (h₁.moves d).symm
  rw [Spec.wp_bind]
  apply Spec.wp_tryExcept fun _ _ _ => trivial
  rw [updatePostFields]
  split
  · exact fun _ _ => trivial
  rw [Spec.wp_bind]
  refine Spec.wp_select_reads (fun _ => trivial) h₁.kept
    (fun w w' => ∀ old, contentOf postId w.db = some old → Since postId old w'.db)
    (fun w _ _ old hold => ⟨old, hold, .inl rfl⟩) ?_ fun w c₂ hw hticks _ ha₂ => ?_
  · intro w n held redo
    exact kept_of_effect (P := fun d => ∀ old, contentOf postId w.db = some old → Since postId old d)
      (fun _ _ _ he h old hold => (h old hold).effect he) rfl
  rw [hredo₁]
  refine Eq.mpr (Spec.wp_pure _ _ _) ?_
  split
  next => exact fun _ _ => trivial
  next post hfind =>
    have hid := List.find?_some hfind
    simp only [Bool.and_eq_true, beq_iff_eq] at hid
    have hget : Tables.posts.get w.db postId = some post :=
      (Tables.posts.get_eq_some hw.good.valid).mpr ⟨List.mem_of_find?_eq_some hfind, hid.1.1⟩
    obtain ⟨old, hold⟩ : ∃ old, contentOf postId w.db = some old := by
      rw [contentOf, hget]
      exact ⟨_, rfl⟩
    obtain ⟨p, hp, hpv, hpt, hpc, hpk, htags, himages⟩ := contentOf_some hold
    cases hget.symm.trans hp
    have hredo₂ (d : Store) : c₂.redo d = d := by rw [ha₂.redo, hredo₁]
    let E : Reading :=
      ⟨cfg.lower, first, .updatePost postId data categoryExists rowIds now, postId, old⟩
    have h₂ : E.Editing c₂ old.hashtags old.imageIds := by
      refine ⟨ha₂.kept, fun w' _ hf => (ha₂.fact w' hf).2 old hold, fun w' _ _ id _ => ?_,
        fun d name h => ?_, fun w' _ _ hcur => ?_⟩
      · rw [hredo₂]
      · rw [hredo₂]
        exact h
      · rw [hredo₂]
        obtain ⟨_, -, -, -, -, -, htags', himages'⟩ := contentOf_some hcur
        exact ⟨htags'.symm, himages'.symm⟩
    split
    · exact fun _ _ => trivial
    next hcurrent =>
    have hversion : data.version.any (· != old.version) = false := by
      rw [hpv]
      exact Bool.eq_false_iff.mpr hcurrent
    rw [Spec.wp_bind]
    refine Reading.wp_syncHashtagsIfSome (E := E) (nodup_names cfg.lower data.hashtags) h₂ hredo₂
      fun c₃ h₃ hretags => ?_
    rw [Spec.wp_bind]
    refine Reading.wp_syncPostImages h₃ (fun d => (hretags d).postImages) fun toAdd c₄ h₄ hposts₄ => ?_
    rw [Spec.wp_pure]
    dsimp only
    rw [Spec.wp_bind]
    have hposts₄ (d : Store) : (c₄.redo d).posts = d.posts := (hposts₄ d).trans (hretags d).posts
    have hnow : post.updatedAt ≠ now := hticks postId data categoryExists rowIds now rfl rfl post hget
    obtain ⟨kept, hkept, htarget⟩ := h₄.images
    apply wp_flushPost (N := fun _ => True)
    · simp [Pending.dirty, changed, Option.filter, hnow.symm]
    · refine ⟨hkept.kept, fun d => ?_, .true rfl, fun _ _ _ => trivial, fun _ _ _ _ _ _ _ => trivial⟩
      exact congrArg (fun t => Table.row Post.id t _) (hposts₄ d)
    · exact fun _ _ _ _ _ => trivial
    · intro n v c₅ hv _ ha₅
      have hpostId : post.id = postId := hid.1.1
      dsimp only at hv ha₅ ⊢
      rw [hpostId] at ha₅
      have h₅ : E.Editing c₅ _ kept :=
        hkept.after ha₅ (fun w _ _ id hne => contentOf_modify hne _ _)
          (fun _ _ h => h) fun _ _ _ _ _ himages => ⟨rfl, himages⟩
      rw [Spec.wp_bind]
      refine Reading.wp_insertPostImages toAdd h₄.nodup h₅ (fun d i hi => ?_) fun c₆ h₆ hfact₆ hposts₆ => ?_
      · rw [ha₅.redo]
        exact h₄.fresh d i hi
      rw [htarget] at h₆
      apply Spec.wp_commit
      · intro w hw _
        have hrow : Tables.posts.get w.db postId = some v := (ha₅.fact w (hfact₆ w hw.fact)).2
        have hcur := (h₆.since w hw.good hw.fact).current hrow (hv.trans hpv.symm)
        obtain ⟨htags₆, himages₆⟩ := h₆.sees w hw.good hw.fact hcur
        have heffect : Effect cfg.lower (.updatePost postId data categoryExists rowIds now) w.db
            (c₆.redo w.db) := by
          refine effect_of_edit hcur ?_ hversion (h₆.others w hw.good hw.fact) (h₆.names w.db)
          refine contentOf_edited ha₅.redo (hposts₄ w.db) (hposts₆ w.db) ⟨hpv, hpt, hpc, hpk⟩
            ⟨rfl, rfl, rfl, rfl⟩ hcur hrow ?_ himages₆
          rw [htags₆, Option.map_map]
          rfl
        exact ⟨.snoc hw.good.inv heffect, ⟨_, _, c₆.past, c₆.redo w.db⟩, rfl, heffect⟩
      · refine And.intro (fun _ hn => ?_) fun _ _ => trivial
        cases hn

theorem meets (cfg : Config) (first : Store) : (spec cfg.lower first).Meets (program cfg) := by
  intro q hq
  cases q with
  | updatePost postId data categoryExists rowIds now =>
    exact meets_updatePost cfg first postId data categoryExists rowIds now
  | like t targetId userId notificationId now => exact meets_like cfg t _ _ _ _
  | unlike t targetId userId now => exact meets_unlike cfg t _ _ _
  | createComment postId userId content parentId commentId notificationId now =>
    exact meets_createComment cfg _ _ _ _ _ _ _
  | deleteComment postId commentId now => exact meets_deleteComment cfg _ _ _
  | incrementView postId now => exact meets_incrementView cfg _ _
  | flushViewCounts fields now => exact meets_flushViewCounts cfg _ _
  | submitReport reporterId t targetId reason reportId now =>
    exact meets_submitReport cfg _ t _ _ _ _
  | _ => exact hq.elim

def Permitted (s : State) : Label Row Request → Prop
  | .begin _ q => Works q
  | .run i => ∀ tx, s.txs i = some tx → ∀ name, tx.prog.next = some name →
    Ticks tx.req name s.world.db
  | _ => True

theorem admits_of_permitted (h : Permitted s a) : (spec lower first).Admits s a := by
  cases a with
  | begin i q => exact h
  | run i =>
    intro tx htx
    refine ⟨fun name hn _ => h tx htx name hn, fun note k _ => ⟨trivial, ?_⟩, ?_⟩
    · exact fun _ _ _ _ => trivial
    · exact fun _ _ _ _ _ _ _ => trivial
  | lock i r => trivial
  | abort i => trivial

section History

variable {postId : Uuid} {log : List Commit}

def editsOf (postId : Uuid) (log : List Commit) : List (PostUpdateRequest × Option Nat) :=
  log.filterMap fun c => (editOf postId c.req).map fun data =>
    (data, (contentOf postId c.db).map (·.version))

def replay (lower : String → String) (start : Content)
    (edits : List (PostUpdateRequest × Option Nat)) : Content :=
  edits.foldl (fun c e => c.edit lower e.1) start

theorem editsOf_append (log : List Commit) (c : Commit) :
    editsOf postId (log ++ [c]) = editsOf postId log ++
      ((editOf postId c.req).map fun data => (data, (contentOf postId c.db).map (·.version))).toList := by
  rw [editsOf, List.filterMap_append]
  cases h : editOf postId c.req with
  | none => simp [editsOf, h]
  | some data => simp [editsOf, h]

theorem replay_append (lower : String → String) (start : Content)
    (edits : List (PostUpdateRequest × Option Nat)) (e : PostUpdateRequest × Option Nat) :
    replay lower start (edits ++ [e]) = (replay lower start edits).edit lower e.1 := by
  rw [replay, List.foldl_append]
  rfl

theorem version_replay (lower : String → String) (start : Content)
    (edits : List (PostUpdateRequest × Option Nat)) :
    (replay lower start edits).version = start.version + edits.length := by
  induction edits generalizing start with
  | nil => rfl
  | cons e edits ih =>
    rw [replay, List.foldl_cons, ← replay, ih, List.length_cons]
    show start.version + 1 + edits.length = _
    omega

/-- The post is what its committed edits make of it in the order of their versions. -/
structure Serial (lower : String → String) (postId : Uuid) (start : Content) (log : List Commit)
    (d : Store) : Prop where
  content : contentOf postId d = some (replay lower start (editsOf postId log))
  versions : (editsOf postId log).map Prod.snd =
    (List.range' (start.version + 1) (editsOf postId log).length).map some
  expected : ∀ e ∈ editsOf postId log, ∀ v, e.1.version = some v → e.2 = some (v + 1)

theorem Serial.snoc {start : Content} {c : Commit} (h : Serial lower postId start log d)
    (he : Effect lower c.req d c.db) : Serial lower postId start (log ++ [c]) c.db := by
  have happend : editsOf postId (log ++ [c]) = editsOf postId log ++ _ := editsOf_append log c
  cases hedit : editOf postId c.req with
  | none =>
    rw [hedit, Option.map_none, Option.toList_none, List.append_nil] at happend
    refine ⟨?_, ?_, ?_⟩
    · rw [he.others postId hedit, happend]
      exact h.content
    · rw [happend]
      exact h.versions
    · rw [happend]
      exact h.expected
  | some data =>
    obtain ⟨old, hold, hnew, hversion⟩ := he.edited postId data hedit
    cases h.content.symm.trans hold
    rw [hedit, Option.map_some, hnew, Option.map_some, Option.toList_some] at happend
    have hlast : ((replay lower start (editsOf postId log)).edit lower data).version =
        start.version + 1 + (editsOf postId log).length := by
      show (replay lower start (editsOf postId log)).version + 1 = _
      rw [version_replay]
      omega
    refine ⟨?_, ?_, ?_⟩
    · rw [happend, hnew, replay_append]
    · rw [happend, List.map_append, h.versions, List.length_append, List.length_singleton,
        List.range'_concat, List.map_append, List.map_singleton, List.map_singleton, hlast, Nat.one_mul]
    · intro e hmem v hv
      rw [happend] at hmem
      rcases List.mem_append.mp hmem with hmem | hmem
      · exact h.expected e hmem v hv
      · rw [List.mem_singleton.mp hmem] at hv ⊢
        rw [hversion v hv]
        rfl

theorem serial_of_history {start : Content} (hstart : contentOf postId first = some start)
    (h : History (fun c d => Effect lower c.req d c.db) first log d) :
    Serial lower postId start log d := by
  induction h with
  | nil => exact ⟨hstart, rfl, fun _ hmem => absurd hmem List.not_mem_nil⟩
  | snoc _ he ih => exact ih.snoc he

theorem Serial.expected_le_one {start : Content} (h : Serial lower postId start log d) (v : Nat) :
    (editsOf postId log).countP (fun e => decide (e.1.version = some v)) ≤ 1 := by
  have hnodup : ((editsOf postId log).map Prod.snd).Nodup := by
    rw [h.versions]
    exact (List.nodup_range' (h := by decide)).map (Option.some_injective _)
  calc (editsOf postId log).countP (fun e => decide (e.1.version = some v))
      ≤ (editsOf postId log).countP (fun e => e.2 == some (v + 1)) := by
        apply List.countP_mono_left
        intro e he hv
        exact beq_iff_eq.mpr (h.expected e he v (of_decide_eq_true hv))
    _ = ((editsOf postId log).map Prod.snd).count (some (v + 1)) := by
        rw [List.count, List.countP_map]
        rfl
    _ ≤ 1 := List.nodup_iff_count_le_one.mp hnodup _

end History

/-- The committed edits of a post take effect one after another, in the order of the versions they
leave; of those that expect the same version at most one commits. -/
theorem edits_serializable (cfg : Config) {first : Store} (hfirst : first.Valid) (postId : Uuid)
    {start : Content} (hstart : contentOf postId first = some start) {ext : Outside}
    {run : List (Label Row Request)} {s : State}
    (hrun : Along (step cfg) Permitted (State.start first ext) run)
    (hs : exec (step cfg) (State.start first ext) run = some s) :
    (editsOf postId s.world.log).map Prod.snd =
        (List.range' (start.version + 1) (editsOf postId s.world.log).length).map some ∧
      contentOf postId s.world.db =
        some (replay cfg.lower start (editsOf postId s.world.log)) ∧
      (replay cfg.lower start (editsOf postId s.world.log)).version =
        start.version + (editsOf postId s.world.log).length ∧
      ∀ v, (editsOf postId s.world.log).countP (fun e => decide (e.1.version = some v)) ≤ 1 := by
  have hgood : (spec cfg.lower first).Good { db := first, ext := ext, log := [] } :=
    ⟨.nil, hfirst⟩
  have hsound := Spec.sound (meets cfg first) hgood (hrun.mono fun s a h => admits_of_permitted h) hs
  have hserial : Serial cfg.lower postId start s.world.log s.world.db :=
    serial_of_history hstart hsound.good.inv
  exact ⟨hserial.versions, hserial.content, version_replay _ _ _, hserial.expected_le_one⟩

section Run

open Sample

def titleEdit : PostUpdateRequest where
  title := some "walk"
  content := none
  imageIds := none
  categoryId := none
  hashtags := none
  version := some 1

/-- An edit of the post, and a flush of views that commits between its reading and its own flush. -/
def viewedEdit : List (Label Row Request) :=
  [.begin 0 (.updatePost 10 titleEdit true id 5), .run 0, .begin 1 (.flushViewCounts [(10, 3)] 6)] ++
    stmt 1 [.post 10] ++ [.run 1, .run 1] ++ stmt 0 [.post 10] ++ [.run 0, .run 0]

theorem permitted_of_next {s : State} {i : Nat}
    (h : ∀ tx, s.txs i = some tx → tx.prog.next ≠ some .selectPost) : Permitted s (.run i) := by
  intro tx htx name hname postId data categoryExists rowIds now _ hselect
  exact absurd (hselect ▸ hname) (h tx htx)

theorem permitted_viewedEdit :
    Along (step config) Permitted (State.start store outside) viewedEdit := by
  refine .cons trivial rfl (.cons ?_ rfl (.cons trivial rfl ?_))
  · rintro tx ⟨⟩ name ⟨⟩ postId data categoryExists rowIds now ⟨⟩ - p ⟨⟩
    decide
  · refine .cons ?_ rfl (.cons trivial rfl (.cons ?_ rfl (.cons ?_ rfl (.cons ?_ rfl
      (.cons ?_ rfl (.cons trivial rfl (.cons ?_ rfl (.cons ?_ rfl (.cons ?_ rfl trivial)))))))))
    all_goals
      apply permitted_of_next
      rintro tx ⟨⟩ ⟨⟩

def plain (version : Nat) (title : String) : Content where
  version := version
  title := title
  content := ""
  categoryId := none
  hashtags := ∅
  imageIds := ∅

theorem edits_serializable_viewedEdit :
    ∃ s, exec (step config) (State.start store outside) viewedEdit = some s ∧
      editsOf 10 s.world.log = [(titleEdit, some 2)] ∧
      contentOf 10 s.world.db = some (plain 2 "walk") := by
  obtain ⟨s, hs, hedits⟩ : ∃ s,
      exec (step config) (State.start store outside) viewedEdit = some s ∧
        editsOf 10 s.world.log = [(titleEdit, some 2)] := ⟨_, rfl, rfl⟩
  have hstart : contentOf 10 store = some (plain 1 "") := rfl
  have hserial := edits_serializable config store_valid 10 hstart permitted_viewedEdit hs
  refine ⟨s, hs, hedits, ?_⟩
  rw [hserial.2.1, hedits]
  rfl

end Run

end PuppyTalk.Backend.PostEdits
