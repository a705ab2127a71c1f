import PuppyTalk.ProgramRules

namespace PuppyTalk.Backend.PostDeletion

open Txn

def openOn (postId : Uuid) (c : Comment) : Bool := c.postId == postId && c.deletedAt.isNone

structure Bare (postId : Uuid) (d : Store) : Prop where
  images : ∀ i ∈ d.postImages, i.postId ≠ postId
  likes : ∀ l ∈ d.postLikes, l.postId ≠ postId
  comments : ∀ c ∈ d.comments, c.postId = postId → c.deletedAt ≠ none

instance (postId : Uuid) (d : Store) : Decidable (Bare postId d) :=
  decidable_of_iff ((∀ i ∈ d.postImages, i.postId ≠ postId) ∧ (∀ l ∈ d.postLikes, l.postId ≠ postId) ∧
      ∀ c ∈ d.comments, c.postId = postId → c.deletedAt ≠ none)
    ⟨fun h => ⟨h.1, h.2.1, h.2.2⟩, fun h => ⟨h.images, h.likes, h.comments⟩⟩

def Complete (postId : Uuid) (d : Store) : Prop :=
  ∀ p ∈ d.posts, p.id = postId → p.deletedAt ≠ none → Bare postId d

instance (postId : Uuid) (d : Store) : Decidable (Complete postId d) := by
  unfold Complete
  infer_instance

def Deleted (postId : Uuid) (d : Store) : Prop :=
  ∃ p, Tables.posts.get d postId = some p ∧ p.deletedAt ≠ none

theorem complete_iff {d : Store} (hd : d.Valid) :
    (Deleted postId d → Bare postId d) ↔ Complete postId d := by
  apply Iff.intro
  · rintro h p hp rfl hdel
    exact h ⟨p, (Tables.posts.get_eq_some hd).mpr ⟨hp, rfl⟩, hdel⟩
  · rintro h ⟨p, hget, hdel⟩
    obtain ⟨hp, hid⟩ := (Tables.posts.get_eq_some hd).mp hget
    exact h p hp hid hdel

structure Shrinks (postId : Uuid) (d d' : Store) : Prop where
  images : Tables.postImages.Shrinks (·.postId == postId) d d'
  likes : Tables.postLikes.Shrinks (·.postId == postId) d d'
  comments : Tables.comments.Shrinks (openOn postId) d d'

theorem Shrinks.of_tables {d d' : Store} (hi : d'.postImages = d.postImages)
    (hl : d'.postLikes = d.postLikes) (hc : d'.comments = d.comments) : Shrinks postId d d' :=
  ⟨.of_eq hi _, .of_eq hl _, .of_eq hc _⟩

theorem Shrinks.trans (h : Shrinks postId d d') (h' : Shrinks postId d' d'') :
    Shrinks postId d d'' :=
  ⟨h.images.trans h'.images, h.likes.trans h'.likes, h.comments.trans h'.comments⟩

theorem Bare.shrinks (h : Bare postId d) (hs : Shrinks postId d d') : Bare postId d' := by
  refine ⟨fun i hi hpost => ?_, fun l hl hpost => ?_, fun c hc hpost hopen => ?_⟩
  · obtain ⟨i', hi', _, hp⟩ := hs.images i hi (beq_iff_eq.mpr hpost)
    exact h.images i' hi' (beq_iff_eq.mp hp)
  · obtain ⟨l', hl', _, hp⟩ := hs.likes l hl (beq_iff_eq.mpr hpost)
    exact h.likes l' hl' (beq_iff_eq.mp hp)
  · obtain ⟨c', hc', _, hp⟩ := hs.comments c hc (by simp [openOn, hpost, hopen])
    simp only [openOn, Bool.and_eq_true, beq_iff_eq, Option.isNone_iff_eq_none] at hp
    exact h.comments c' hc' hp.1 hp.2

structure Aside (postId : Uuid) (d d' : Store) : Prop where
  shrinks : Shrinks postId d d'
  deleted : Deleted postId d' → Deleted postId d

theorem Aside.refl (postId : Uuid) (d : Store) : Aside postId d d :=
  ⟨.of_tables rfl rfl rfl, id⟩

theorem Aside.trans (h : Aside postId d d') (h' : Aside postId d' d'') : Aside postId d d'' :=
  ⟨h.shrinks.trans h'.shrinks, fun hd => h.deleted (h'.deleted hd)⟩

section Writes

variable {postId : Uuid}

theorem apart_aside {κ : Type} [DecidableEq κ] {T : TableOf Store Row α κ}
    (h : ∀ l d, (T.put l d).posts = d.posts ∧ (T.put l d).postImages = d.postImages ∧
      (T.put l d).postLikes = d.postLikes ∧ (T.put l d).comments = d.comments) :
    Apart T (Aside postId) := by
  intro l d
  obtain ⟨hp, hi, hl, hc⟩ := h l d
  refine ⟨.of_tables hi hl hc, ?_⟩
  rintro ⟨p, hget, hdel⟩
  have hsame : Tables.posts.get (T.put l d) postId = Tables.posts.get d postId :=
    congrArg (fun t => Table.row Post.id t postId) hp
  exact ⟨p, hsame.symm.trans hget, hdel⟩

theorem aside_putImages {l : List PostImage} {d : Store}
    (h : ∀ i ∈ l, i.postId = postId → i ∈ d.postImages) :
    Aside postId d (Tables.postImages.put l d) :=
  ⟨⟨.of_subset fun i hi hp => h i hi (beq_iff_eq.mp hp), .of_eq rfl _, .of_eq rfl _⟩, id⟩

theorem aside_putLikes {l : List PostLike} {d : Store}
    (h : ∀ k ∈ l, k.postId = postId → k ∈ d.postLikes) :
    Aside postId d (Tables.postLikes.put l d) :=
  ⟨⟨.of_eq rfl _, .of_subset fun k hk hp => h k hk (beq_iff_eq.mp hp), .of_eq rfl _⟩, id⟩

theorem aside_putComments {l : List Comment} {d : Store}
    (h : ∀ c ∈ l, openOn postId c = true →
      ∃ c' ∈ d.comments, c'.id = c.id ∧ openOn postId c' = true) :
    Aside postId d (Tables.comments.put l d) :=
  ⟨⟨.of_eq rfl _, .of_eq rfl _, h⟩, id⟩

theorem steps_deleteImages (name : Statement) (conds : PostImage → Bool) :
    (deleteRows name Tables.postImages conds).Steps (fun _ => True) (Aside postId) := by
  refine ⟨trivial, fun snap locked d => ?_, fun _ _ _ => trivial⟩
  exact aside_putImages fun i hi _ => (Table.mem_delete.mp hi).1

theorem steps_deleteLikes (name : Statement) (conds : PostLike → Bool) :
    (deleteRows name Tables.postLikes conds).Steps (fun _ => True) (Aside postId) := by
  refine ⟨trivial, fun snap locked d => ?_, fun _ _ _ => trivial⟩
  exact aside_putLikes fun l hl _ => (Table.mem_delete.mp hl).1

theorem untouched_comments {values : Comment → Comment} {hkey : ∀ c, (values c).id = c.id}
    (h : ∀ c, openOn postId (values c) = true → openOn postId c = true) :
    Untouched Tables.comments (Aside postId) values hkey := by
  intro conds snap locked d
  apply aside_putComments
  intro c' hc' hopen
  obtain ⟨c, hc, rfl⟩ := Table.mem_update.mp hc'
  have hid := Table.key_update (p := fun a => decide (Tables.comments.rowOf a ∈ locked)) hkey c
  refine ⟨c, hc, hid.symm, ?_⟩
  split at hopen
  · exact h c hopen
  · exact hopen

theorem untouched_posts {values : Post → Post} {hkey : ∀ p, (values p).id = p.id}
    (h : ∀ p, (values p).deletedAt = p.deletedAt) :
    Untouched Tables.posts (Aside postId) values hkey := by
  intro conds snap locked d
  refine ⟨.of_tables rfl rfl rfl, ?_⟩
  rintro ⟨p', hget', hdel⟩
  have hget := TableOf.get_update (T := Tables.posts) (s := fun _ => conds) (p := conds) (b := false)
    (fun _ => hkey) snap locked d postId
  obtain ⟨p, hp, rfl⟩ := Option.map_eq_some_iff.mp (hget.symm.trans hget')
  refine ⟨p, hp, ?_⟩
  split at hdel
  · rw [h p] at hdel
    exact hdel
  · exact hdel

theorem aside_addImage {i : PostImage} (hi : i.postId ≠ postId) (index : List Row)
    (taken : Store → Row → Bool) (snap : Store) (locked : List Row) (d : Store) :
    Aside postId d ((Tables.postImages.insert i index taken).write snap locked d) := by
  show Aside postId d (if _ then _ else _)
  split
  · apply aside_putImages
    intro x hx hpost
    rcases List.mem_append.mp hx with hx | hx
    · exact hx
    · rw [List.mem_singleton.mp hx] at hpost
      exact absurd hpost hi
  · exact .refl postId d

theorem aside_addLike {l : PostLike} (hl : l.postId ≠ postId) (index : List Row)
    (taken : Store → Row → Bool) (snap : Store) (locked : List Row) (d : Store) :
    Aside postId d ((Tables.postLikes.insert l index taken).write snap locked d) := by
  show Aside postId d (if _ then _ else _)
  split
  · apply aside_putLikes
    intro x hx hpost
    rcases List.mem_append.mp hx with hx | hx
    · exact hx
    · rw [List.mem_singleton.mp hx] at hpost
      exact absurd hpost hl
  · exact .refl postId d

theorem aside_addComment {c : Comment} (hc : c.postId ≠ postId) (index : List Row)
    (taken : Store → Row → Bool) (snap : Store) (locked : List Row) (d : Store) :
    Aside postId d ((Tables.comments.insert c index taken).write snap locked d) := by
  show Aside postId d (if _ then _ else _)
  split
  · apply aside_putComments
    intro x hx hopen
    rcases List.mem_append.mp hx with hx | hx
    · exact ⟨x, hx, rfl, hopen⟩
    · rw [List.mem_singleton.mp hx] at hopen
      simp [openOn, hc] at hopen
  · exact .refl postId d

end Writes

def Works : Request → Prop
  | .like .. => True
  | .createComment .. => True
  | .updatePost .. => True
  | .deletePost .. => True
  | _ => False

def On (postId : Uuid) : Request → Prop
  | .like .post i _ _ _ => i = postId
  | .createComment p .. => p = postId
  | .updatePost p .. => p = postId
  | _ => False

def Effect (postId : Uuid) (c : Commit) (d : Store) : Prop :=
  Tables.posts.get c.db postId = Tables.posts.get d postId → Shrinks postId d c.db

def Ticks (postId : Uuid) (q : Request) (name : Statement) (d : Store) : Prop :=
  ∀ data categoryExists rowIds now, q = .updatePost postId data categoryExists rowIds now →
    name = .selectPost → ∀ p, Tables.posts.get d postId = some p → p.updatedAt ≠ now

def spec (postId : Uuid) : Spec where
  starts := Works
  inv w := Deleted postId w.db → Bare postId w.db
  change := World.Committed (Effect postId)
  reads q name w := Ticks postId q name w.db
  adm q w _ := On postId q → ¬ Deleted postId w.db
  may _ _ _ _ := True
  ends _ _ _ _ _ := True
  raised _ _ _ _ := True
  returned _ _ _ := True

variable {postId : Uuid} {q : Request} {c : Known} {w : World}

structure Moves (postId : Uuid) (d d' : Store) : Prop where
  bare : Deleted postId d' → Bare postId d'
  effect : Tables.posts.get d' postId = Tables.posts.get d postId → Shrinks postId d d'

theorem wp_commit_moves {note : Option Nat} {k : TxM β} {K : β → Known → Prop}
    (h : ∀ w, (spec postId).Here c w → (On postId q → ¬ Deleted postId w.db) →
      Moves postId w.db (c.redo w.db))
    (hk : ∀ c', (spec postId).wp q k K c') : (spec postId).wp q (.commit note k) K c := by
  refine Spec.wp_commit (fun w hw hadm => ?_) (hk _)
  have hm := h w hw hadm
  exact ⟨hm.bare, ⟨q, note, c.past, c.redo w.db⟩, rfl, hm.effect⟩

theorem commits_of_moves
    (h : ∀ w, (spec postId).Here c w → (On postId q → ¬ Deleted postId w.db) →
      Moves postId w.db (c.redo w.db)) : Commits (spec postId) q c := by
  intro w hw hadm
  have hm := h w hw hadm
  exact ⟨hm.bare, ⟨q, none, c.past, c.redo w.db⟩, rfl, hm.effect⟩

theorem moves_of_aside (h : Deleted postId d → Bare postId d) (ha : Aside postId d d') :
    Moves postId d d' :=
  ⟨fun hd => (h (ha.deleted hd)).shrinks ha.shrinks, fun _ => ha.shrinks⟩

theorem moves_of_modify {d d' : Store} (values : Post → Post) (hid : ∀ p, (values p).id = p.id)
    (hdel : ∀ p, (values p).deletedAt = p.deletedAt) (hlive : ¬ Deleted postId d)
    (hget : Tables.posts.get d postId = some v) (hne : values v ≠ v)
    (hposts : d'.posts = (Tables.posts.modify postId values d).posts) : Moves postId d d' := by
  have hget' : Tables.posts.get d' postId = some (values v) := by
    have hmod := TableOf.get_modify (T := Tables.posts) hid postId d postId
    rw [hget, Option.map_some, if_pos rfl] at hmod
    exact (congrArg (fun t => Table.row Post.id t postId) hposts).trans hmod
  refine ⟨?_, fun hsame => ?_⟩
  · rintro ⟨p, hp, hdel'⟩
    cases hget'.symm.trans hp
    rw [hdel v] at hdel'
    exact absurd ⟨v, hget, hdel'⟩ hlive
  · rw [hget', hget] at hsame
    exact absurd (Option.some.inj hsame) hne

theorem wp_aside {V : Type} {x : TxM β} {K : β → Known → Prop} (part : Store → V)
    (hc : (spec postId).Kept q c) (hx : x.Within (fun _ => True) part)
    (hK : ∀ a c', (spec postId).Framed q c (fun _ => True) (SamePart part) c' → K a c') :
    (spec postId).wp q x K c :=
  Spec.wp_frame hx (fun _ _ _ _ _ => trivial) (fun _ _ _ => trivial) hc hK

theorem wp_quiet {x : TxM β} {K : β → Known → Prop}
    (hx : x.Steps (fun _ => True) (Aside postId)) (hc : (spec postId).Kept q c)
    (hK : ∀ a c', (spec postId).Framed q c (fun _ => True) (Aside postId) c' → K a c') :
    (spec postId).wp q x K c :=
  Spec.wp_steps hx (Aside.refl postId) (fun _ _ _ h h' => h.trans h') (fun _ _ _ _ _ => trivial)
    (fun _ _ _ => trivial) hc hK

theorem wp_once_aside {service : TxM β} (hx : Transacts (fun _ => True) (Aside postId) service) :
    (spec postId).wp q (once service) ((spec postId).Finished q) begun := by
  refine wp_once_steps hx (Aside.refl postId) (fun _ _ _ h h' => h.trans h')
    (fun _ _ _ _ _ => trivial) (fun _ _ _ => trivial) (fun _ _ => trivial) kept_begun ?_
  intro c' hf
  apply commits_of_moves
  exact fun w hw _ => moves_of_aside hw.good.inv (hf.moves w.db)

section Like

theorem meets_like_aside (cfg : Config) (t : TargetType) (i userId notificationId : Uuid)
    (now : Timestamp) (hi : t = .post → i ≠ postId) :
    MeetsAt (spec postId) cfg (.like t i userId notificationId now) := by
  apply wp_once_aside
  apply transacts_like (Aside.refl postId) fun _ => trivial
  · cases t with
    | post => exact aside_addLike (hi rfl) [] _
    | comment =>
      exact fun _ _ _ => TableOf.insert_rel (Aside.refl postId)
        (apart_aside fun _ _ => ⟨rfl, rfl, rfl, rfl⟩) ..
  · apply Prog.Steps.map
    apply steps_updateOneReturning trivial
    cases t with
    | post => exact untouched_posts fun _ => rfl
    | comment => exact untouched_comments fun _ h => h
  · exact apart_aside fun _ _ => ⟨rfl, rfl, rfl, rfl⟩

theorem posts_addLike (l : PostLike) (d : Store) : (Tables.postLikes.add l d).posts = d.posts := by
  unfold TableOf.add
  split <;> rfl

theorem meets_like_on (cfg : Config) (userId notificationId : Uuid) (now : Timestamp) :
    MeetsAt (spec postId) cfg (.like .post postId userId notificationId now) := by
  apply wp_once_transaction fun _ _ => trivial
  rw [Spec.wp_bind]
  refine wp_aside id kept_begun (steps_resolveForLike trivial trivial .post postId userId)
    fun notify c₁ h₁ => ?_
  have hredo₁ (d : Store) : c₁.redo d = d := h₁.redo d
  apply Spec.wp_tryExcept fun _ _ _ => trivial
  rw [Spec.wp_bind]
  apply wp_insertIgnore (N := fun _ => True)
  · refine ⟨h₁.kept, fun d => ?_, .true rfl, fun _ _ _ => trivial, fun _ _ _ _ _ _ _ => trivial⟩
    rw [hredo₁]
  · intro w c₂ _ _ h₂
    have hposts₂ (d : Store) : (c₂.redo d).posts = d.posts := by
      rw [h₂.redo, Function.comp_apply, hredo₁]
      exact posts_addLike _ d
    rw [Spec.wp_bind]
    refine wp_references (i := postId) (fun _ _ _ => trivial) (fun _ _ _ => trivial)
      (fun a => beq_iff_eq) h₂.kept ?_ fun w c₃ _ h₃ => ?_
    · exact fun d => congrArg (fun t => (Table.row Post.id t postId).isSome) (hposts₂ d)
    refine wp_aside id h₃.kept (steps_references (R := SamePart id) (fun _ => rfl) trivial _ _)
      fun _ c₄ h₄ => ?_
    have hposts₄ (d : Store) : (c₄.redo d).posts = d.posts := by
      have hredo : c₄.redo d = c₃.redo d := h₄.redo d
      rw [hredo, h₃.redo, hposts₂]
    show (spec postId).wp _ (_ >>= _) _ _
    rw [Spec.wp_bind]
    show (spec postId).wp _ (_ >>= _) _ _
    rw [Spec.wp_bind]
    apply wp_updateOneReturning (N := fun _ => False) (i := postId) fun a ha => of_decide_eq_true ha
    · refine ⟨h₄.kept, fun d => congrArg (fun t => Table.row Post.id t postId) (hposts₄ d),
        .false rfl, fun w hw hskip => ?_, fun _ _ _ _ _ _ _ => trivial⟩
      -- the foreign key of the like keeps the post in its table
      have hsome := (h₃.fact w (h₄.fact w hw.fact)).2
      obtain ⟨p, hp⟩ := Option.isSome_iff_exists.mp hsome
      have hcond : ((Tables.posts.get w.db postId).map fun a =>
          decide ((likeTarget .post).counters.key a = postId)).getD false = true := by
        rw [hp]
        exact decide_eq_true (Tables.posts.get_key hp)
      exact Bool.false_ne_true (hskip.symm.trans hcond)
    · intro w w' v c₅ _ _ _ _ _ h₅
      show (spec postId).wp _ (notifyAuthor .. >>= _) _ _
      rw [Spec.wp_bind]
      refine wp_aside (fun d => d.posts) h₅.kept ?_ fun _ c₆ h₆ => ?_
      · exact steps_notifyAuthor (R := SamePart fun d : Store => d.posts) (fun _ => rfl) trivial
          trivial (fun _ _ => rfl) _ _ _ _ _ _ _
      apply commits_of_moves
      intro w hw hlive
      apply moves_of_modify (fun p => { p with likeCount := p.likeCount + 1, updatedAt := now })
        (fun _ => rfl) (fun _ => rfl) (hlive rfl) (h₅.fact w (h₆.fact w hw.fact)).2
      · intro he
        have hcount := congrArg Post.likeCount he
        simp at hcount
      · have hsame : (c₆.redo w.db).posts = (c₅.redo w.db).posts := h₆.redo w.db
        rw [hsame, h₅.redo]
        show Table.update _ _ (c₄.redo w.db).posts = Table.update _ _ w.db.posts
        rw [hposts₄]
        rfl
    · exact fun w w' c' _ _ hN _ => hN.elim
  · intro w c₂ _ h₂
    rw [if_neg (by decide), Spec.wp_bind]
    refine wp_aside id h₂.kept (steps_query trivial _) fun _ c₃ h₃ => ?_
    apply commits_of_moves
    intro w hw _
    have hredo : c₃.redo w.db = w.db := by
      have hsame : c₃.redo w.db = c₂.redo w.db := h₃.redo w.db
      rw [hsame, h₂.redo, hredo₁]
    rw [hredo]
    exact moves_of_aside hw.good.inv (.refl postId w.db)

end Like

section Comment

theorem meets_createComment_aside (cfg : Config) (p userId : Uuid) (content : String)
    (parentId : Option Uuid) (commentId notificationId : Uuid) (now : Timestamp)
    (hp : p ≠ postId) :
    MeetsAt (spec postId) cfg
      (.createComment p userId content parentId commentId notificationId now) := by
  apply wp_once_aside
  apply transacts_createComment (Aside.refl postId) fun _ => trivial
  · exact fun c hc => aside_addComment (hc ▸ hp) [] _
  · exact untouched_posts fun _ => rfl
  · exact apart_aside fun _ _ => ⟨rfl, rfl, rfl, rfl⟩

theorem posts_addComment (a : Comment) (d : Store) :
    (Tables.comments.add a d).posts = d.posts := by
  unfold TableOf.add
  split <;> rfl

theorem meets_createComment_on (cfg : Config) (userId : Uuid) (content : String)
    (parentId : Option Uuid) (commentId notificationId : Uuid) (now : Timestamp) :
    MeetsAt (spec postId) cfg
      (.createComment postId userId content parentId commentId notificationId now) := by
  apply wp_once_transaction fun _ _ => trivial
  rw [Spec.wp_bind]
  refine wp_aside id kept_begun (steps_query trivial _) fun author c₁ h₁ => ?_
  cases author with
  | none => exact fun _ _ => trivial
  | some postAuthorId =>
    dsimp only
    rw [Spec.wp_bind]
    refine wp_aside id h₁.kept (steps_checkParent trivial postId parentId) fun _ c₂ h₂ => ?_
    have hredo₂ (d : Store) : c₂.redo d = d := (h₂.redo d).trans (h₁.redo d)
    rw [Spec.wp_bind]
    apply wp_insertRow (N := fun _ => True) fun _ _ _ => trivial
    · refine ⟨h₂.kept, fun d => ?_, .true rfl, fun _ _ _ => trivial, fun _ _ _ _ _ _ _ => trivial⟩
      rw [hredo₂]
    · intro w c₃ _ _ h₃
      have hposts₃ (d : Store) : (c₃.redo d).posts = d.posts := by
        rw [h₃.redo, Function.comp_apply, hredo₂]
        exact posts_addComment _ d
      rw [Spec.wp_bind]
      refine wp_references (i := postId) (fun _ _ _ => trivial) (fun _ _ _ => trivial)
        (fun a => beq_iff_eq) h₃.kept ?_ fun w c₄ _ h₄ => ?_
      · exact fun d => congrArg (fun t => (Table.row Post.id t postId).isSome) (hposts₃ d)
      refine wp_aside id h₄.kept ?_ fun _ c₅ h₅ => ?_
      · apply (steps_references (R := SamePart id) (fun _ => rfl) trivial _ _).bind
        intro _
        exact steps_referencesIfSome (R := SamePart id) (fun _ => rfl) trivial _ _ _
      have hposts₅ (d : Store) : (c₅.redo d).posts = d.posts := by
        have hredo : c₅.redo d = c₄.redo d := h₅.redo d
        rw [hredo, h₄.redo, hposts₃]
      rw [Spec.wp_bind]
      apply Spec.wp_tryExcept fun _ _ _ => trivial
      show (spec postId).wp _ (_ >>= _) _ _
      rw [Spec.wp_bind]
      apply wp_updateOneReturning (N := fun _ => False) (i := postId)
      · intro a ha
        have hid : a.id = postId := by simpa using ha
        exact hid
      · refine ⟨h₅.kept, fun d => congrArg (fun t => Table.row Post.id t postId) (hposts₅ d),
          .false rfl, fun w hw hskip => ?_, fun _ _ _ _ _ _ _ => trivial⟩
        obtain ⟨p, hp⟩ := Option.isSome_iff_exists.mp (h₄.fact w (h₅.fact w hw.fact)).2
        have hid : p.id = postId := Tables.posts.get_key hp
        rw [hp] at hskip
        simp [hid] at hskip
      · intro w w' v c₆ _ _ _ _ _ h₆
        show (spec postId).wp _ (notifyAuthor ..) _ _
        refine wp_aside (fun d => d.posts) h₆.kept ?_ fun _ c₇ h₇ => ?_
        · exact steps_notifyAuthor (R := SamePart fun d : Store => d.posts) (fun _ => rfl) trivial
            trivial (fun _ _ => rfl) _ _ _ _ _ _ _
        apply commits_of_moves
        intro w hw hlive
        apply moves_of_modify
          (fun p => { p with commentCount := p.commentCount + 1, updatedAt := now })
          (fun _ => rfl) (fun _ => rfl) (hlive rfl) (h₆.fact w (h₇.fact w hw.fact)).2
        · intro he
          have hcount := congrArg Post.commentCount he
          simp at hcount
        · have hsame : (c₇.redo w.db).posts = (c₆.redo w.db).posts := h₇.redo w.db
          rw [hsame, h₆.redo]
          show Table.update _ _ (c₅.redo w.db).posts = Table.update _ _ w.db.posts
          rw [hposts₅]
      · exact fun w w' c' _ _ hN _ => hN.elim

end Comment

section Edit

open Backend.PostsRepository

theorem steps_insertImages (rowIds : Uuid → Uuid) (now : Timestamp) (hp : p ≠ postId)
    (imageIds : List Uuid) :
    (insertPostImages p rowIds now imageIds).Steps (fun _ => True) (Aside postId) := by
  induction imageIds with
  | nil => trivial
  | cons imageId imageIds ih =>
    refine Prog.Steps.bind (steps_insertRow_write trivial ?_ ?_) fun _ => ih
    · exact aside_addImage hp [] _
    · apply (steps_references (Aside.refl postId) trivial _ _).bind
      intro _
      exact steps_references (Aside.refl postId) trivial _ _

theorem meets_updatePost_aside (cfg : Config) (p : Uuid) (data : PostUpdateRequest)
    (categoryExists : Bool) (rowIds : Uuid → Uuid) (now : Timestamp) (hp : p ≠ postId) :
    MeetsAt (spec postId) cfg (.updatePost p data categoryExists rowIds now) := by
  show (spec postId).wp _ (once (PostService.updatePost ..)) _ _
  rw [once, Spec.wp_bind, PostService.updatePost, Spec.wp_bind]
  refine wp_quiet (steps_validateRefs (Aside.refl postId) trivial _ _ _) kept_begun fun _ c₁ h₁ => ?_
  rw [Spec.wp_bind]
  have hfields : (updatePostFields p data (data.hashtags.map (normalizeHashtags cfg.lower))
      now).Steps (fun _ => True) (Aside postId) :=
    steps_updatePostFields (Aside.refl postId) (fun _ => trivial)
      (apart_aside fun _ _ => ⟨rfl, rfl, rfl, rfl⟩) (apart_aside fun _ _ => ⟨rfl, rfl, rfl, rfl⟩)
      (steps_deleteImages _) p data _ now
  refine wp_quiet (hfields.tryExcept _) h₁.kept fun e c₂ h₂ => ?_
  cases e with
  | none => exact fun _ _ => trivial
  | some e =>
    dsimp only
    rw [Spec.wp_bind]
    refine wp_quiet (steps_flushPost trivial (untouched_posts fun _ => rfl)) h₂.kept
      fun version c₃ h₃ => ?_
    rw [Spec.wp_bind]
    refine wp_quiet (steps_insertImages rowIds now hp e.toAdd) h₃.kept fun _ c₄ h₄ => ?_
    apply wp_commit_moves
    · intro w hw _
      apply moves_of_aside hw.good.inv
      exact ((h₁.moves w.db).trans (h₂.moves w.db)).trans ((h₃.moves w.db).trans (h₄.moves w.db))
    · intro c'
      refine And.intro (fun _ hn => ?_) fun w _ => trivial
      cases hn

theorem wp_write {K : Unit → Known → Prop} {e : Pending} {rowIds : Uuid → Uuid} {now : Timestamp}
    (hq : On postId q) (hc : (spec postId).Kept q c) (hposts : ∀ d, (c.redo d).posts = d.posts)
    (hdirty : e.dirty = true) (hid : e.post.id = postId)
    (hK : ∀ c', K () c') :
    (spec postId).wp q (flushPost e >>= fun version =>
      insertPostImages postId rowIds now e.toAdd >>= fun _ =>
        (.commit (some version) (.pure ()) : TxM Unit)) K c := by
  rw [Spec.wp_bind]
  apply wp_flushPost (N := fun _ => True) hdirty
  · exact ⟨hc, fun d => congrArg (fun t => Table.row Post.id t _) (hposts d), .true rfl,
      fun _ _ _ => trivial, fun _ _ _ _ _ _ _ => trivial⟩
  · exact fun _ _ _ _ _ => trivial
  · intro n v c₁ hversion _ h₁
    rw [Spec.wp_bind]
    refine wp_aside (fun d => d.posts) h₁.kept ?_ fun _ c₂ h₂ => ?_
    · exact steps_insertPostImages (R := SamePart fun d : Store => d.posts) (fun _ => rfl) trivial
        trivial (fun _ _ => rfl) _ _ _ _
    refine wp_commit_moves (fun w hw hlive => ?_) hK
    have hget := (h₁.fact w (h₂.fact w hw.fact)).2
    rw [hid] at hget
    have hsame : (c₂.redo w.db).posts = (c₁.redo w.db).posts := h₂.redo w.db
    apply moves_of_modify e.write (fun _ => rfl) (fun _ => rfl) (hlive hq) hget
    · intro he
      have hv : e.post.version + 1 = v.version := congrArg Post.version he
      rw [hversion] at hv
      exact absurd hv (Nat.succ_ne_self _)
    · rw [hsame, h₁.redo, hid]
      show Table.update _ _ (c.redo w.db).posts = Table.update _ _ w.db.posts
      rw [hposts]

theorem meets_updatePost_on (cfg : Config) (data : PostUpdateRequest) (categoryExists : Bool)
    (rowIds : Uuid → Uuid) (now : Timestamp) :
    MeetsAt (spec postId) cfg (.updatePost postId data categoryExists rowIds now) := by
  show (spec postId).wp _ (once (PostService.updatePost ..)) _ _
  rw [once, Spec.wp_bind, PostService.updatePost, Spec.wp_bind]
  refine wp_aside id kept_begun (steps_validateRefs (R := SamePart id) (fun _ => rfl) trivial _ _ _)
    fun _ c₁ h₁ => ?_
  have hredo₁ (d : Store) : c₁.redo d = d := h₁.redo d
  rw [Spec.wp_bind]
  apply Spec.wp_tryExcept fun _ _ _ => trivial
  rw [updatePostFields]
  split
  · exact fun _ _ => trivial
  rw [Spec.wp_bind]
  refine Spec.wp_select_reads (fun _ => trivial) h₁.kept (fun _ _ => True)
    (fun _ _ _ => trivial) (fun _ _ _ _ => .true rfl) fun w c₂ hw hticks _ h₂ => ?_
  rw [hredo₁]
  refine Eq.mpr (Spec.wp_pure _ _ _) ?_
  split
  next => exact fun _ _ => trivial
  next post hfind =>
    have hid := List.find?_some hfind
    simp only [Bool.and_eq_true, beq_iff_eq] at hid
    have hget : Tables.posts.get w.db postId = some post :=
      (Tables.posts.get_eq_some hw.good.valid).mpr ⟨List.mem_of_find?_eq_some hfind, hid.1.1⟩
    have htick : post.updatedAt ≠ now :=
      hticks data categoryExists rowIds now rfl rfl post hget
    split
    · exact fun _ _ => trivial
    have hredo₂ (d : Store) : c₂.redo d = d := by rw [h₂.redo, hredo₁]
    rw [Spec.wp_bind]
    refine wp_aside (fun d => d.posts) h₂.kept ?_ fun _ c₃ h₃ => ?_
    · exact steps_syncHashtagsIfSome (R := SamePart fun d : Store => d.posts) (fun _ => rfl)
        ⟨trivial, trivial, trivial, trivial, trivial⟩ (fun _ _ => rfl) (fun _ _ => rfl) _ _
    rw [Spec.wp_bind]
    refine wp_aside (fun d => d.posts) h₃.kept ?_ fun toAdd c₄ h₄ => ?_
    · exact steps_syncPostImages (R := SamePart fun d : Store => d.posts) trivial trivial
        (fun _ _ => rfl) _ _
    have hposts₄ (d : Store) : (c₄.redo d).posts = d.posts := by
      refine (h₄.redo d).trans ((h₃.redo d).trans ?_)
      rw [hredo₂]
    rw [Spec.wp_pure]
    refine wp_write rfl h₄.kept hposts₄ ?_ hid.1.1 ?_
    · simp [Pending.dirty, changed, htick.symm]
    · intro c'
      refine And.intro (fun _ hn => ?_) fun w _ => trivial
      cases hn

end Edit

section Delete

theorem shrinks_of_bare (h : Bare postId d') (d : Store) : Shrinks postId d d' := by
  refine ⟨fun i hi hp => ?_, fun l hl hp => ?_, fun c hc hp => ?_⟩
  · exact absurd (beq_iff_eq.mp hp) (h.images i hi)
  · exact absurd (beq_iff_eq.mp hp) (h.likes l hl)
  · simp only [openOn, Bool.and_eq_true, beq_iff_eq, Option.isNone_iff_eq_none] at hp
    exact absurd hp.2 (h.comments c hc hp.1)

theorem shrinks_of_locked {held : List (Row × LockMode)}
    (hmem : (Tables.posts.row postId, LockMode.noKeyUpdate) ∈ held) {w w' : World}
    (hch : (spec postId).change w w')
    (hag : ∀ h ∈ held, Rows.Agree h.2 h.1 w.db w'.db) : Shrinks postId w.db w'.db := by
  obtain ⟨c, rfl, he⟩ := hch
  apply he
  exact ((Tables.posts.same_row (hag _ hmem)).eq nofun).symm

structure Swept (postId : Uuid) (images likes comments : List Row) (d : Store) : Prop where
  images : ∀ i ∈ d.postImages, (i.postId == postId) = true → Tables.postImages.rowOf i ∈ images
  likes : ∀ l ∈ d.postLikes, (l.postId == postId) = true → Tables.postLikes.rowOf l ∈ likes
  comments : ∀ c ∈ d.comments, openOn postId c = true → Tables.comments.rowOf c ∈ comments

theorem bare_of_swept (now : Timestamp) {d d' : Store} {images likes comments : List Row}
    (h : Swept postId images likes comments d)
    (hi : d'.postImages = Table.delete (fun i => decide (Tables.postImages.rowOf i ∈ images)) d.postImages)
    (hl : d'.postLikes = Table.delete (fun l => decide (Tables.postLikes.rowOf l ∈ likes)) d.postLikes)
    (hc : d'.comments = Table.update (fun c => decide (Tables.comments.rowOf c ∈ comments))
      (fun c => { c with deletedAt := some now }) d.comments) : Bare postId d' := by
  refine ⟨fun i hmem hpost => ?_, fun l hmem hpost => ?_, fun c' hmem hpost hopen => ?_⟩
  · rw [hi, Table.mem_delete] at hmem
    exact of_decide_eq_false hmem.2 (h.images i hmem.1 (beq_iff_eq.mpr hpost))
  · rw [hl, Table.mem_delete] at hmem
    exact of_decide_eq_false hmem.2 (h.likes l hmem.1 (beq_iff_eq.mpr hpost))
  · rw [hc] at hmem
    obtain ⟨c, hcm, rfl⟩ := Table.mem_update.mp hmem
    split at hopen
    · cases hopen
    · rename_i hnot
      rw [if_neg hnot] at hpost
      exact hnot (decide_eq_true (h.comments c hcm (by simp [openOn, hpost, hopen])))

theorem meets_deletePost_on (cfg : Config) (now : Timestamp) :
    MeetsAt (spec postId) cfg (.deletePost postId now) := by
  apply wp_once_transaction fun _ _ => trivial
  rw [Spec.wp_bind]
  show (spec postId).wp _ (_ >>= _) _ _
  rw [Spec.wp_bind]
  apply wp_updateOneReturning (N := fun _ => True) (i := postId)
  · intro a ha
    simp only [Bool.and_eq_true, beq_iff_eq] at ha
    exact ha.1
  · exact ⟨kept_begun, fun _ => rfl, .true rfl, fun _ _ _ => trivial, fun _ _ _ _ _ _ _ => trivial⟩
  · intro w w' v c₁ _ _ _ _ hlock h₁
    show (spec postId).wp _ (deleteRows .. >>= _) _ _
    rw [Spec.wp_bind]
    apply Spec.wp_sweep (T := Tables.postImages) (p := fun i => i.postId == postId) (fun _ => rfl) fun _ _ => rfl
    · exact fun _ => nofun
    · intro d
      rw [h₁.redo]
      rfl
    · exact h₁.kept
    · exact fun _ _ _ => trivial
    · exact fun _ w w' _ _ hch _ hag => (shrinks_of_locked hlock hch hag).images
    intro w w' images c₂ _ _ h₂
    show (spec postId).wp _ (CommentsRepository.softDeleteByPost postId now >>= _) _ _
    rw [Spec.wp_bind]
    apply Spec.wp_sweep (T := Tables.comments) (p := openOn postId) (fun _ => rfl) fun _ _ => rfl
    · exact fun _ => nofun
    · intro d
      rw [h₂.redo, h₁.redo]
      rfl
    · exact h₂.kept
    · exact fun _ _ _ => trivial
    · exact fun _ w w' _ _ hch _ hag =>
        (shrinks_of_locked (h₂.held _ hlock) hch hag).comments
    intro w w' comments c₃ _ _ h₃
    show (spec postId).wp _ (deleteRows .. >>= _) _ _
    rw [Spec.wp_bind]
    apply Spec.wp_sweep (T := Tables.postLikes) (p := fun l => l.postId == postId) (fun _ => rfl) fun _ _ => rfl
    · exact fun _ => nofun
    · intro d
      rw [h₃.redo, h₂.redo, h₁.redo]
      rfl
    · exact h₃.kept
    · exact fun _ _ _ => trivial
    · exact fun _ w w' _ _ hch _ hag =>
        (shrinks_of_locked (h₃.held _ (h₂.held _ hlock)) hch hag).likes
    intro w w' likes c₄ _ _ h₄
    apply commits_of_moves
    intro w hw _
    obtain ⟨hf₃, hlikes⟩ := h₄.fact w hw.fact
    obtain ⟨hf₂, hcomments⟩ := h₃.fact w hf₃
    have himages := (h₂.fact w hf₂).2
    have hbare : Bare postId (c₄.redo w.db) := by
      apply bare_of_swept now ⟨himages, hlikes, hcomments⟩
      · rw [h₄.redo, h₃.redo, h₂.redo, h₁.redo]
        rfl
      · rw [h₄.redo, h₃.redo, h₂.redo, h₁.redo]
        rfl
      · rw [h₄.redo, h₃.redo, h₂.redo, h₁.redo]
        rfl
    exact ⟨fun _ => hbare, fun _ => shrinks_of_bare hbare w.db⟩
  · intro w w' c₁ _ _ _ _
    exact fun _ _ => trivial

theorem meets_deletePost_aside (cfg : Config) (p : Uuid) (now : Timestamp) (hp : p ≠ postId) :
    MeetsAt (spec postId) cfg (.deletePost p now) := by
  apply wp_once_transaction fun _ _ => trivial
  rw [Spec.wp_bind]
  show (spec postId).wp _ (_ >>= _) _ _
  rw [Spec.wp_bind]
  apply wp_updateOneReturning (N := fun _ => True) (i := p)
  · intro a ha
    simp only [Bool.and_eq_true, beq_iff_eq] at ha
    exact ha.1
  · exact ⟨kept_begun, fun _ => rfl, .true rfl, fun _ _ _ => trivial, fun _ _ _ _ _ _ _ => trivial⟩
  · intro w w' v c₁ _ _ _ _ _ h₁
    have haside₁ (d : Store) : Aside postId d (c₁.redo d) := by
      rw [h₁.redo]
      refine ⟨.of_tables rfl rfl rfl, ?_⟩
      rintro ⟨p', hp', hdel⟩
      have hget := TableOf.get_modify (T := Tables.posts)
        (f := fun p : Post => { p with deletedAt := some now, updatedAt := now }) (fun _ => rfl) p d postId
      obtain ⟨x, hx, rfl⟩ := Option.map_eq_some_iff.mp (hget.symm.trans hp')
      rw [if_neg (Ne.symm hp)] at hdel
      exact ⟨x, hx, hdel⟩
    show (spec postId).wp _ (deleteRows .. >>= _) _ _
    rw [Spec.wp_bind]
    refine wp_quiet (steps_deleteImages _ _) h₁.kept fun _ c₂ h₂ => ?_
    rw [Spec.wp_pure, if_pos rfl, Spec.wp_bind]
    refine wp_quiet ?_ h₂.kept fun _ c₃ h₃ => ?_
    · apply steps_updateRows trivial
      exact untouched_comments fun c h => by simp [openOn] at h
    rw [Spec.wp_bind]
    refine wp_quiet (steps_deleteLikes _ _) h₃.kept fun _ c₄ h₄ => ?_
    apply commits_of_moves
    intro w hw _
    apply moves_of_aside hw.good.inv
    exact ((haside₁ w.db).trans (h₂.moves w.db)).trans ((h₃.moves w.db).trans (h₄.moves w.db))
  · intro w w' c₁ _ _ _ _
    exact fun _ _ => trivial

end Delete

theorem meets (cfg : Config) (postId : Uuid) : (spec postId).Meets (program cfg) := by
  intro q hq
  cases q with
  | like t i userId notificationId now =>
    by_cases hi : t = .post ∧ i = postId
    · obtain ⟨rfl, rfl⟩ := hi
      exact meets_like_on cfg userId notificationId now
    · exact meets_like_aside cfg t i userId notificationId now fun ht he => hi ⟨ht, he⟩
  | createComment p userId content parentId commentId notificationId now =>
    by_cases hp : p = postId
    · subst hp
      exact meets_createComment_on cfg userId content parentId commentId notificationId now
    · exact meets_createComment_aside cfg p userId content parentId commentId notificationId now hp
  | updatePost p data categoryExists rowIds now =>
    by_cases hp : p = postId
    · subst hp
      exact meets_updatePost_on cfg data categoryExists rowIds now
    · exact meets_updatePost_aside cfg p data categoryExists rowIds now hp
  | deletePost p now =>
    by_cases hp : p = postId
    · subst hp
      exact meets_deletePost_on cfg now
    · exact meets_deletePost_aside cfg p now hp
  | _ => exact hq.elim

/-- A step of the runs: a like, a comment or an edit of the post commits only while the post is not
deleted, and the clock of an edit differs from the `updated_at` that it reads. -/
def Permitted (postId : Uuid) (s : State) : Label Row Request → Prop
  | .begin _ q => Works q
  | .run i => ∀ tx, s.txs i = some tx →
    (∀ name, tx.prog.next = some name → Ticks postId tx.req name s.world.db) ∧
    ∀ note k, tx.prog = .commit note k → On postId tx.req → ¬ Deleted postId s.world.db
  | _ => True

theorem admits_of_permitted (h : Permitted postId s a) : (spec postId).Admits s a := by
  cases a with
  | begin i q => exact h
  | run i =>
    intro tx htx
    obtain ⟨hticks, hlive⟩ := h tx htx
    refine ⟨fun name hn _ => hticks name hn, fun note k hp => ⟨hlive note k hp, ?_⟩, ?_⟩
    · exact fun _ _ _ _ => trivial
    · exact fun _ _ _ _ _ _ _ => trivial
  | lock i r => trivial
  | abort i => trivial

/-- A deleted post is bare after every commit of a permitted run. -/
theorem deletion_complete (cfg : Config) (postId : Uuid) {db : Store} {ext : Outside}
    {run : List (Label Row Request)} {s : State} (hdb : db.Valid) (hok : Complete postId db)
    (hrun : Along (step cfg) (Permitted postId) (State.start db ext) run)
    (hs : exec (step cfg) (State.start db ext) run = some s) : Complete postId s.world.db := by
  have hgood : (spec postId).Good { db := db, ext := ext, log := [] } :=
    ⟨(complete_iff hdb).mpr hok, hdb⟩
  have hadm : Along (step cfg) (spec postId).Admits (State.start db ext) run :=
    hrun.mono fun _ _ h => admits_of_permitted h
  have hsound := Spec.sound (meets cfg postId) hgood hadm hs
  exact (complete_iff hsound.good.valid).mp hsound.good.inv

section Runs

open Sample

def image (id : Uuid) : Image where
  id := id
  fileKey := ""
  fileUrl := ""
  contentType := none
  size := none
  uploaderId := some 1
  createdAt := 0
  deletedAt := none

def adorned : Store where
  users := [user 1, user 2]
  posts := [{ post 10 1 with likeCount := 1, commentCount := 1 }]
  images := [image 50, image 51]
  postImages := [{ id := 60, postId := 10, imageId := 50, createdAt := 0 }]
  postLikes := [{ postId := 10, userId := 1, createdAt := 0 }]
  comments := [{ id := 30, postId := 10, authorId := some 2, parentId := none, content := ""
                 likeCount := 0, reportCount := 0, isBlinded := false, createdAt := 0
                 updatedAt := 0, deletedAt := none }]

theorem adorned_valid : adorned.Valid := by
  constructor <;> decide

def deleteRun : List (Label Row Request) :=
  [.begin 0 (.deletePost 10 5)] ++ stmt 0 [.post 10] ++ stmt 0 [.postImage 50] ++
    stmt 0 [.comment 30] ++ stmt 0 [.postLike (10, 1)] ++ [.run 0, .run 0]

theorem deletion_complete_deleteRun :
    ∃ s, exec (step config) (State.start adorned outside) deleteRun = some s ∧
      s.world.log.length = 1 ∧ Complete 10 s.world.db := by
  obtain ⟨s, hs, hlog⟩ : ∃ s, exec (step config) (State.start adorned outside) deleteRun = some s ∧
      s.world.log.length = 1 := ⟨_, rfl, rfl⟩
  refine ⟨s, hs, hlog, deletion_complete config 10 adorned_valid (by decide) ?_ hs⟩
  apply (along_alone (P := fun q => q = .deletePost 10 5) (i := 0) _ _ _ _).mono
  · rintro s a ⟨hbegin, _, hreq⟩
    cases a with
    | begin i q =>
      rw [hbegin i q rfl]
      trivial
    | run i =>
      intro tx htx
      rw [hreq tx htx]
      refine ⟨?_, fun note k _ hon => hon.elim⟩
      intro name _ data categoryExists rowIds now hq
      cases hq
    | lock i r => trivial
    | abort i => trivial
  · rintro q rfl
    exact returns_once _
  · simp [deleteRun, stmt, Label.slot]

def likeRun : List (Label Row Request) :=
  [.begin 1 (.like .post 10 2 70 6), .run 1] ++ deleteRun ++ stmt 1 [.postLike (10, 2)] ++
    stmt 1 [.post 10] ++ stmt 1 [.user 2] ++ stmt 1 [.post 10] ++ stmt 1 [.notification 70] ++
    stmt 1 [.user 1] ++ stmt 1 [.user 2] ++ stmt 1 [.post 10] ++ [.run 1, .run 1]

def commentRun : List (Label Row Request) :=
  [.begin 1 (.createComment 10 2 "" none 31 70 6), .run 1] ++ deleteRun ++ stmt 1 [.comment 31] ++
    stmt 1 [.post 10] ++ stmt 1 [.user 2] ++ stmt 1 [.post 10] ++ stmt 1 [.notification 70] ++
    stmt 1 [.user 1] ++ stmt 1 [.user 2] ++ stmt 1 [.post 10] ++ stmt 1 [.comment 31] ++
    [.run 1, .run 1]

/-- An edit that adds an image and has read the post before its deletion; the deletion leaves the
version as it is. -/
def editRun : List (Label Row Request) :=
  [.begin 1 (.updatePost 10 { title := none, content := none, imageIds := some [50, 51]
                              categoryId := none, hashtags := none, version := none } true id 6)] ++
    stmt 1 [.image 50, .image 51] ++ [.run 1, .run 1] ++ deleteRun ++ stmt 1 [.post 10] ++
    stmt 1 [.postImage 51] ++ stmt 1 [.post 10] ++ stmt 1 [.image 51] ++ [.run 1, .run 1]

def LeavesRemains (run : List (Label Row Request)) : Prop :=
  ∃ s, exec (step config) (State.start adorned outside) run = some s ∧
    (∀ i, s.txs i = none) ∧ s.world.log.length = 2 ∧ ¬ Complete 10 s.world.db

theorem deletion_incomplete :
    LeavesRemains likeRun ∧ LeavesRemains commentRun ∧ LeavesRemains editRun := by
  have hidle {s : State} (h₀ : s.txs 0 = none) (h₁ : s.txs 1 = none)
      (h : ∀ i, s.txs (i + 2) = none) : ∀ i, s.txs i = none := by
    rintro (_ | _ | i)
    · exact h₀
    · exact h₁
    · exact h i
  refine ⟨?_, ?_, ?_⟩
  · exact ⟨_, rfl, hidle rfl rfl fun _ => rfl, rfl, by decide⟩
  · exact ⟨_, rfl, hidle rfl rfl fun _ => rfl, rfl, by decide⟩
  · exact ⟨_, rfl, hidle rfl rfl fun _ => rfl, rfl, by decide⟩

end Runs

end PuppyTalk.Backend.PostDeletion
