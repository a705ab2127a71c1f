import PuppyTalk.CommentTree
import PuppyTalk.ProgramRules

namespace PuppyTalk.Backend.ModeratedCount

open Txn

def onDisplay (postId : Uuid) (c : Comment) : Bool := c.postId == postId && c.alive

def displayed (postId : Uuid) (d : Store) : List Comment := d.comments.filter (onDisplay postId)

def AllRoots (postId : Uuid) (d : Store) : Prop :=
  ∀ c ∈ d.comments, c.postId = postId → c.parentId = none

instance (postId : Uuid) (d : Store) : Decidable (AllRoots postId d) := by
  unfold AllRoots
  infer_instance

def CountExact (postId : Uuid) (d : Store) : Prop :=
  ∀ p ∈ d.posts, p.id = postId → p.commentCount = d.comments.countP (onDisplay postId)

instance (postId : Uuid) (d : Store) : Decidable (CountExact postId d) := by
  unfold CountExact
  infer_instance

def counts (d : Store) (i : Uuid) : Option Int := (Tables.posts.get d i).map (·.commentCount)

def view (d : Store) : (Uuid → Option Int) × List Comment := (counts d, d.comments)

structure Exact (postId : Uuid) (d : Store) : Prop where
  roots : AllRoots postId d
  count : ∀ n, counts d postId = some n → n = d.comments.countP (onDisplay postId)

theorem exact_iff {d : Store} (hd : d.Valid) :
    Exact postId d ↔ AllRoots postId d ∧ CountExact postId d := by
  apply Iff.intro
  · intro h
    refine ⟨h.roots, ?_⟩
    rintro p hp rfl
    apply h.count
    exact congrArg (Option.map _) ((Tables.posts.get_eq_some hd).mpr ⟨hp, rfl⟩)
  · rintro ⟨hroots, hcount⟩
    refine ⟨hroots, fun n hn => ?_⟩
    obtain ⟨p, hp, rfl⟩ := Option.map_eq_some_iff.mp hn
    obtain ⟨hmem, hid⟩ := (Tables.posts.get_eq_some hd).mp hp
    exact hcount p hmem hid

theorem counts_congr (h : view d' = view d) (i : Uuid) : counts d' i = counts d i :=
  congrFun (congrArg Prod.fst h) i

theorem comments_congr (h : view d' = view d) : d'.comments = d.comments := congrArg Prod.snd h

theorem Exact.congr (h : Exact postId d) (hv : view d' = view d) : Exact postId d' := by
  refine ⟨?_, fun n hn => ?_⟩
  · unfold AllRoots
    rw [comments_congr hv]
    exact h.roots
  · rw [counts_congr hv] at hn
    rw [comments_congr hv]
    exact h.count n hn

theorem apart_view {κ : Type} [DecidableEq κ] {T : TableOf Store Row α κ}
    (h : ∀ l d, (T.put l d).posts = d.posts ∧ (T.put l d).comments = d.comments) :
    Apart T (SamePart view) := by
  intro l d
  obtain ⟨hp, hc⟩ := h l d
  show view _ = view d
  unfold view counts TableOf.get Tables.posts Store.table
  simp only [hp, hc]

theorem untouched_posts {values : Post → Post} {hkey : ∀ p, (values p).id = p.id}
    (h : ∀ p, (values p).commentCount = p.commentCount) :
    Untouched Tables.posts (SamePart view) values hkey := by
  intro conds snap locked d
  refine Prod.ext (funext fun i => ?_) rfl
  have hget := TableOf.get_update (T := Tables.posts) (s := fun _ => conds) (p := conds) (b := false)
    (fun _ => hkey) snap locked d i
  refine (congrArg (Option.map Post.commentCount) hget).trans ?_
  rw [Option.map_map]
  show Option.map _ _ = Option.map _ _
  congr 1
  funext p
  show (if _ then _ else _ : Post).commentCount = _
  split
  · exact h p
  · rfl

theorem counts_modify {values : Post → Post} (hid : ∀ p, (values p).id = p.id) {f : Int → Int}
    (hf : ∀ p, (values p).commentCount = f p.commentCount) (postId i : Uuid) (d : Store) :
    counts (Tables.posts.modify postId values d) i =
      (counts d i).map fun n => if i = postId then f n else n := by
  unfold counts
  rw [TableOf.get_modify (T := Tables.posts) hid, Option.map_map, Option.map_map]
  congr 1
  funext p
  by_cases hi : i = postId <;> simp [hi, hf]

section Comments

variable {values : Comment → Comment} {commentId : Uuid} {d : Store}

theorem AllRoots.modify (h : AllRoots postId d) (hv : KeepsPlace values) (commentId : Uuid) :
    AllRoots postId (Tables.comments.modify commentId values d) := by
  intro c' hc' hpost
  have hg := hv.ite fun c => decide (c.id = commentId)
  obtain ⟨c, hc, rfl⟩ := Table.mem_update.mp hc'
  exact (hg.parentId c).trans (h c hc ((hg.postId c).symm.trans hpost))

theorem count_modify (hd : d.Valid) (hc : Tables.comments.get d commentId = some c)
    (values : Comment → Comment) (p : Comment → Bool) :
    (Tables.comments.modify commentId values d).comments.countP p + (p c).toNat =
      d.comments.countP p + (p (values c)).toNat :=
  hd.comments.countP_update hc p values

theorem countVisibleForPost_roots (h : AllRoots postId d) :
    PuppyTalk.CommentsRepository.countVisibleForPost d.toDb postId =
      d.comments.countP (onDisplay postId) := by
  apply List.countP_congr
  intro c hc
  by_cases hp : c.postId = postId
  · rw [shown_root _ (h c hc hp)]
    rfl
  · simp [onDisplay, hp]

end Comments

def Moderates (postId : Uuid) : Request → Prop
  | .createComment p _ _ parentId _ _ _ => p = postId → parentId = none
  | .deleteComment .. => True
  | .blind .. => True
  | .unblind .. => True
  | _ => False

def Effect (c : Commit) (d : Store) : Prop := ∀ i, counts d i = none → counts c.db i = none

def spec (postId : Uuid) : Spec where
  starts := Moderates postId
  inv w := Exact postId w.db
  change := World.Committed Effect
  reads _ _ _ := True
  adm _ _ _ := True
  may _ past w w' := ∀ n, (.countVisibleForPost postId, n) ∈ past →
    displayed postId w'.db = displayed postId w.db
  ends _ _ _ _ _ := True
  raised _ _ _ _ := True
  returned _ _ _ := True

variable {postId : Uuid} {q : Request} {c : Known} {w : World}

theorem wp_aside {V : Type} {x : TxM β} {K : β → Known → Prop} (part : Store → V)
    (hc : (spec postId).Kept q c) (hx : x.Within (fun _ => True) part)
    (hK : ∀ a c', (spec postId).Framed q c (fun _ => True) (SamePart part) c' → K a c') :
    (spec postId).wp q x K c :=
  Spec.wp_frame hx (fun _ _ _ _ _ => trivial) (fun _ _ _ => trivial) hc hK

structure Moves (postId : Uuid) (d d' : Store) : Prop where
  exact : Exact postId d'
  posts : ∀ i, counts d i = none → counts d' i = none

theorem commits_of_moves
    (h : ∀ w, (spec postId).Here c w → Moves postId w.db (c.redo w.db)) :
    Commits (spec postId) q c := by
  intro w hw _
  have hm := h w hw
  exact ⟨hm.exact, ⟨q, none, c.past, c.redo w.db⟩, rfl, hm.posts⟩

theorem moves_of_view (h : Exact postId d) (hv : view d' = view d) : Moves postId d d' :=
  ⟨h.congr hv, fun i hi => (counts_congr hv i).trans hi⟩

theorem moves_of_count {d d' : Store} {f : Int → Int} (h : Exact postId d) (p : Uuid)
    (hroots : AllRoots postId d')
    (hcount : ∀ i, counts d' i = (counts d i).map fun n => if i = p then f n else n)
    (hother : p ≠ postId →
      d'.comments.countP (onDisplay postId) = d.comments.countP (onDisplay postId))
    (hsame : p = postId → ∀ n, counts d postId = some n →
      f n = d'.comments.countP (onDisplay postId)) :
    Moves postId d d' := by
  refine ⟨⟨hroots, fun n hn => ?_⟩, fun i hi => ?_⟩
  · rw [hcount] at hn
    obtain ⟨m, hm, rfl⟩ := Option.map_eq_some_iff.mp hn
    by_cases hp : p = postId
    · rw [if_pos hp.symm]
      exact hsame hp m hm
    · rw [if_neg (Ne.symm hp), hother hp]
      exact h.count m hm
  · rw [hcount, hi]
    rfl

structure Counted (p : Uuid) (f : Int → Int) (c c' : Known) : Prop where
  fact : ∀ w, c'.fact w → c.fact w
  counts : ∀ w, c'.fact w → ∀ i,
    counts (c'.redo w.db) i = (counts w.db i).map fun n => if i = p then f n else n
  comments : ∀ d, (c'.redo d).comments = (c.redo d).comments

theorem wp_count {K : Option β → Known → Prop} {conds : Post → Bool} {values : Post → Post}
    {hid : ∀ p, (values p).id = p.id} {returning : Post → β} {f : Int → Int}
    (name : Statement) (p : Uuid) (hcond : ∀ a, conds a = true ↔ a.id = p)
    (hf : ∀ a, (values a).commentCount = f a.commentCount) (hc : (spec postId).Kept q c)
    (hget : ∀ d i, Tables.posts.get (c.redo d) i = Tables.posts.get d i)
    (hK : ∀ r c', (spec postId).Kept q c' → Counted p f c c' → K r c') :
    (spec postId).wp q (updateOneReturning name Tables.posts conds values hid returning) K c := by
  have hcounts (d : Store) (i : Uuid) : counts (c.redo d) i = counts d i :=
    congrArg (Option.map _) (hget d i)
  apply wp_updateOneReturning (N := fun w => counts w.db p = none) fun a h => (hcond a).mp h
  · refine ⟨hc, fun d => hget d p, ?_, fun w _ hskip => ?_, fun _ _ _ _ _ _ _ => trivial⟩
    · rintro past held _ _ w w' _ _ ⟨c', rfl, he⟩ _ _ hnone
      exact he p hnone
    · cases hg : Tables.posts.get w.db p with
      | none => exact congrArg (Option.map _) hg
      | some a =>
        rw [hg] at hskip
        exact absurd ((hcond a).mpr (Tables.posts.get_key hg)) (Bool.eq_false_iff.mp hskip)
  · intro w w' v c' _ _ _ _ _ ha
    refine hK _ c' ha.kept ⟨fun w hw => (ha.fact w hw).1, fun w _ i => ?_, fun d => ?_⟩
    · rw [ha.redo, Function.comp_apply, counts_modify hid hf, hcounts]
    · rw [ha.redo]
      rfl
  · intro w w' c' _ _ _ ha
    refine hK _ c' ha.kept ⟨fun w hw => (ha.fact w hw).1, fun w hw i => ?_, fun d => by rw [ha.redo]⟩
    rw [ha.redo, hcounts]
    by_cases hi : i = p
    · rw [hi, (ha.fact w hw).2]
      rfl
    · simp [hi]

section Create

theorem get_posts_addComment (a : Comment) (d : Store) (i : Uuid) :
    Tables.posts.get (Tables.comments.add a d) i = Tables.posts.get d i := by
  unfold TableOf.add
  split <;> rfl

theorem moves_create {d d' : Store} {a : Comment} (h : Exact postId d) (halive : a.alive = true)
    (hroot : a.postId = postId → a.parentId = none)
    (hcount : ∀ i, counts d' i = (counts d i).map fun n => if i = a.postId then n + 1 else n)
    (hcomments : d'.comments = d.comments ++ [a]) : Moves postId d d' := by
  have hnow : d'.comments.countP (onDisplay postId) =
      d.comments.countP (onDisplay postId) + (onDisplay postId a).toNat := by
    rw [hcomments, List.countP_append, List.countP_singleton]
    cases onDisplay postId a <;> rfl
  apply moves_of_count h a.postId _ hcount
  · intro hne
    rw [hnow]
    simp [onDisplay, hne]
  · intro he n hn
    have hdisplay : onDisplay postId a = true := by simp [onDisplay, he, halive]
    rw [h.count n hn, hnow, hdisplay]
    rfl
  · intro c hc hpost
    rw [hcomments] at hc
    rcases List.mem_append.mp hc with hc | hc
    · exact h.roots c hc hpost
    · rw [List.mem_singleton.mp hc] at hpost ⊢
      exact hroot hpost

theorem meets_createComment (cfg : Config) (p userId : Uuid) (content : String)
    (parentId : Option Uuid) (commentId notificationId : Uuid) (now : Timestamp)
    (hroot : p = postId → parentId = none) :
    MeetsAt (spec postId) cfg
      (.createComment p userId content parentId commentId notificationId now) := by
  apply wp_once_transaction fun _ _ => trivial
  rw [Spec.wp_bind]
  refine wp_aside id kept_begun (steps_query trivial _) fun author c₁ h₁ => ?_
  cases author with
  | none => exact fun _ _ => trivial
  | some postAuthorId =>
    dsimp only
    rw [Spec.wp_bind]
    refine wp_aside id h₁.kept (steps_checkParent trivial p parentId) fun _ c₂ h₂ => ?_
    have hredo₂ (d : Store) : c₂.redo d = d := (h₂.redo d).trans (h₁.redo d)
    rw [Spec.wp_bind]
    apply wp_insertRow (N := fun _ => True) fun _ _ _ => trivial
    · refine ⟨h₂.kept, fun d => ?_, .true rfl, fun _ _ _ => trivial, fun _ _ _ _ _ _ _ => trivial⟩
      rw [hredo₂]
    · intro w c₃ _ _ h₃
      refine wp_aside id h₃.kept ?_ fun _ c₄ h₄ => ?_
      · apply (steps_references (R := SamePart id) (fun _ => rfl) trivial _ _).bind
        intro _
        apply (steps_references (R := SamePart id) (fun _ => rfl) trivial _ _).bind
        intro _
        exact steps_referencesIfSome (R := SamePart id) (fun _ => rfl) trivial _ _ _
      have hredo₄ (d : Store) : c₄.redo d = Tables.comments.add ⟨commentId, p, some userId, parentId,
          content, 0, 0, false, now, now, none⟩ d := by
        refine (h₄.redo d).trans ?_
        rw [h₃.redo]
        exact congrArg (Tables.comments.add _) (hredo₂ d)
      rw [Spec.wp_bind]
      apply Spec.wp_tryExcept fun _ _ _ => trivial
      show (spec postId).wp _ (_ >>= _) _ _
      rw [Spec.wp_bind]
      refine wp_count (f := fun n => n + 1) _ p (fun a => by simp) (fun _ => rfl) h₄.kept ?_ ?_
      · intro d i
        rw [hredo₄, get_posts_addComment]
      · intro _ c₅ hk₅ h₅
        show (spec postId).wp _ (notifyAuthor ..) _ _
        refine wp_aside view hk₅ ?_ fun _ c₆ h₆ => ?_
        · exact steps_notifyAuthor (R := SamePart view) (fun _ => rfl) trivial trivial
            (apart_view fun _ _ => ⟨rfl, rfl⟩) _ _ _ _ _ _ _
        apply commits_of_moves
        intro w hw
        have hw₅ := h₆.fact w hw.fact
        have hfree := (h₃.fact w (h₄.fact w (h₅.fact w hw₅))).2
        apply moves_create hw.good.inv (a := ⟨commentId, p, some userId, parentId, content, 0, 0,
          false, now, now, none⟩) rfl hroot
        · intro i
          rw [counts_congr (h₆.redo w.db), h₅.counts w hw₅]
        · rw [comments_congr (h₆.redo w.db), h₅.comments, hredo₄, TableOf.add_of_none hfree]
          rfl

end Create

section Transition

variable {values : Comment → Comment}

theorem moves_modify {d d' : Store} {v : Comment} {f : Int → Int} (h : Exact postId d)
    (hd : d.Valid) (hv : KeepsPlace values) (hget : Tables.comments.get d commentId = some v)
    (hcount : ∀ i, counts d' i = (counts d i).map fun n => if i = v.postId then f n else n)
    (hcomments : d'.comments = (Tables.comments.modify commentId values d).comments)
    (hf : v.postId = postId → ∀ n, counts d postId = some n →
      f n = d'.comments.countP (onDisplay postId)) : Moves postId d d' := by
  apply moves_of_count h v.postId _ hcount _ hf
  · unfold AllRoots
    rw [hcomments]
    exact h.roots.modify hv commentId
  · intro hne
    have hnow := count_modify hd hget values (onDisplay postId)
    have hother : (v.postId == postId) = false := beq_false_of_ne hne
    simpa [onDisplay, hv.postId, hother, ← hcomments] using hnow

theorem moves_hidden {d d' : Store} {v : Comment} (h : Exact postId d) (hd : d.Valid)
    (hv : KeepsPlace values) (hget : Tables.comments.get d commentId = some v)
    (hbefore : v.alive = false) (hafter : (values v).alive = false)
    (hview : view d' = view (Tables.comments.modify commentId values d)) : Moves postId d d' := by
  have hcounts (i : Uuid) : counts d' i = counts d i := counts_congr hview i
  apply moves_modify (f := id) h hd hv hget _ (comments_congr hview)
  · intro _ n hn
    have hnow := count_modify hd hget values (onDisplay postId)
    simp only [onDisplay, hbefore, hafter, Bool.and_false] at hnow
    rw [comments_congr hview]
    exact (h.count n hn).trans (congrArg Nat.cast hnow.symm)
  · intro i
    rw [hcounts]
    simp

theorem keepsPlace_delete (now : Timestamp) : KeepsPlace fun c => { c with deletedAt := some now } :=
  ⟨fun _ => rfl, fun _ => rfl, fun _ => rfl⟩

theorem meets_deleteComment (cfg : Config) (p commentId : Uuid) (now : Timestamp) :
    MeetsAt (spec postId) cfg (.deleteComment p commentId now) := by
  apply wp_once_transaction fun _ _ => trivial
  rw [Spec.wp_bind]
  show (spec postId).wp _ (_ >>= _) _ _
  rw [Spec.wp_bind]
  apply wp_updateOneReturning (N := fun _ => True) (i := commentId)
  · intro a ha
    simp only [Bool.and_eq_true, beq_iff_eq] at ha
    exact ha.1.1
  · exact ⟨kept_begun, fun _ => rfl, .true rfl, fun _ _ _ => trivial, fun _ _ _ _ _ _ _ => trivial⟩
  · intro w w' v c₁ _ _ hv _ _ h₁
    simp only [Bool.and_eq_true, beq_iff_eq] at hv
    have hredo₁ (d : Store) : c₁.redo d =
        Tables.comments.modify commentId (fun c => { c with deletedAt := some now }) d := by
      rw [h₁.redo]
      rfl
    cases hb : v.isBlinded with
    | true =>
      -- a blinded comment: the statement gives no post back, and the counter stays
      simp only [Option.join_some, if_true]
      rw [Spec.wp_pure, Spec.wp_bind]
      refine wp_aside id h₁.kept (steps_query trivial _) fun found c₂ h₂ => ?_
      have hcommit : Commits (spec postId) (.deleteComment p commentId now) c₂ := by
        apply commits_of_moves
        intro w hw
        have hget := (h₁.fact w (h₂.fact w hw.fact)).2
        have hredo : c₂.redo w.db = c₁.redo w.db := h₂.redo w.db
        apply moves_hidden hw.good.inv hw.good.valid (keepsPlace_delete now) hget
        · simp [Comment.alive, hb]
        · rfl
        · rw [hredo, hredo₁]
      cases found with
      | none => exact fun _ _ => trivial
      | some found =>
        dsimp only
        split
        · exact fun _ _ => trivial
        · exact hcommit
    | false =>
      simp only [Option.join_some, Bool.false_eq_true, if_false]
      rw [Spec.wp_pure, Spec.wp_bind]
      apply Spec.wp_tryExcept fun _ _ _ => trivial
      show (spec postId).wp _ (_ >>= _) _ _
      rw [Spec.wp_bind]
      refine wp_count (f := fun n => max (n - 1) 0) _ v.postId (fun a => by simp) (fun _ => rfl)
        h₁.kept ?_ ?_
      · intro d i
        rw [hredo₁]
        rfl
      · intro _ c₂ hk₂ h₂
        apply commits_of_moves
        intro w hw
        have hget := (h₁.fact w (h₂.fact w hw.fact)).2
        have hcomments := h₂.comments w.db
        rw [hredo₁] at hcomments
        apply moves_modify hw.good.inv hw.good.valid (keepsPlace_delete now) hget
          (h₂.counts w hw.fact) hcomments
        intro hpost n hn
        have hnow := count_modify hw.good.valid hget (fun c => { c with deletedAt := some now })
          (onDisplay postId)
        have hbefore : onDisplay postId v = true := by
          simp [onDisplay, hpost, Comment.alive, hb, hv.2]
        have hafter : onDisplay postId { v with deletedAt := some now } = false := by
          simp [onDisplay, Comment.alive]
        rw [hbefore, hafter, Bool.toNat_true, Bool.toNat_false] at hnow
        rw [hcomments, hw.good.inv.count n hn, ← Nat.add_zero (List.countP _ w.db.comments), ← hnow]
        omega
  · intro w w' c₁ _ _ _ h₁
    simp only [Option.join_none]
    rw [Spec.wp_pure, Spec.wp_bind]
    refine wp_aside id h₁.kept (steps_query trivial _) fun found c₂ h₂ => ?_
    have hcommit : Commits (spec postId) (.deleteComment p commentId now) c₂ := by
      apply commits_of_moves
      intro w hw
      apply moves_of_view hw.good.inv
      have hredo : c₂.redo w.db = c₁.redo w.db := h₂.redo w.db
      rw [hredo, h₁.redo]
      rfl
    cases found with
    | none => exact fun _ _ => trivial
    | some found =>
      dsimp only
      split
      · exact fun _ _ => trivial
      · exact hcommit

theorem count_displayed (postId : Uuid) (d : Store) :
    d.comments.countP (onDisplay postId) = (displayed postId d).length :=
  List.countP_eq_length_filter

theorem wp_transition {conds : Comment → Bool} {hkey : ∀ c, (values c).id = c.id}
    (name : Statement) (commentId : Uuid) (now : Timestamp)
    (hcond : ∀ c, conds c = true → c.id = commentId) (hv : KeepsPlace values) :
    (spec postId).wp q (updateOneReturning name Tables.comments conds values hkey (·.postId) >>=
      CommentModeration.afterTransition commentId now) (fun _ c => Commits (spec postId) q c)
      begun := by
  rw [Spec.wp_bind]
  apply wp_updateOneReturning (N := fun _ => True) hcond
  · exact ⟨kept_begun, fun _ => rfl, .true rfl, fun _ _ _ => trivial, fun _ _ _ _ _ _ _ => trivial⟩
  · intro w w' v c₁ _ _ _ _ _ h₁
    have hredo₁ (d : Store) : c₁.redo d = Tables.comments.modify commentId values d := by
      rw [h₁.redo]
      rfl
    show (spec postId).wp q (CommentModeration.resyncCount (values v).postId now >>= _) _ _
    rw [hv.postId, Spec.wp_bind]
    show (spec postId).wp q (query _ _ >>= _) _ _
    rw [Spec.wp_bind]
    -- from the recount on, what is on display stays as the recount found it
    apply Spec.wp_select_fact (fun _ => trivial) h₁.kept fun w₀ w =>
      v.postId = postId → displayed postId w.db = displayed postId w₀.db
    · exact fun _ _ _ _ => rfl
    · intro w₀ n held redo past held' hp _ w₁ w₂ _ _ _ hmay _ hsame hpost
      rw [hmay n (hp _ (by rw [hpost]; exact List.mem_cons_self))]
      exact hsame hpost
    intro w₀ c₂ hw₀ _ h₂
    show (spec postId).wp q (PostsRepository.setCommentCount v.postId _ now >>= _) _ _
    rw [Spec.wp_bind]
    show (spec postId).wp q (_ >>= _) _ _
    rw [Spec.wp_bind]
    have hredo₂ (d : Store) : c₂.redo d = Tables.comments.modify commentId values d := by
      rw [h₂.redo, hredo₁]
    refine wp_count (f := fun _ => max 0 _) _ v.postId (fun a => by simp) (fun _ => rfl) h₂.kept ?_ ?_
    · intro d i
      rw [hredo₂]
      rfl
    · intro _ c₃ _ h₃
      apply commits_of_moves
      intro w hw
      have hw₂ := h₂.fact w (h₃.fact w hw.fact)
      have hget := (h₁.fact w hw₂.1).2
      have hcomments := h₃.comments w.db
      rw [hredo₂] at hcomments
      apply moves_modify hw.good.inv hw.good.valid hv hget (h₃.counts w hw.fact) hcomments
      rintro hpost n -
      have hroots : AllRoots postId (Tables.comments.modify commentId values w₀.db) :=
        hw₀.good.inv.roots.modify hv commentId
      have hthen := count_modify hw₀.good.valid (h₁.fact w₀ hw₀.fact).2 values (onDisplay postId)
      have hnow := count_modify hw.good.valid hget values (onDisplay postId)
      rw [count_displayed _ w₀.db] at hthen
      rw [count_displayed _ w.db, hw₂.2 hpost] at hnow
      dsimp only
      rw [hredo₁, hpost, countVisibleForPost_roots hroots, hcomments]
      omega
  · intro w w' c₁ _ _ _ h₁
    show (spec postId).wp q (query _ _ >>= _) _ _
    rw [Spec.wp_bind]
    refine wp_aside id h₁.kept (steps_query trivial _) fun _ c₂ h₂ => ?_
    apply commits_of_moves
    intro w hw
    apply moves_of_view hw.good.inv
    have hredo : c₂.redo w.db = c₁.redo w.db := h₂.redo w.db
    rw [hredo, h₁.redo]
    rfl

theorem wp_moderatePost {conds : Post → Bool} {values : Post → Post}
    {hkey : ∀ p, (values p).id = p.id} (name : Statement)
    (h : ∀ p, (values p).commentCount = p.commentCount) :
    (spec postId).wp q (updateOneReturning name Tables.posts conds values hkey (·.id) >>= fun r =>
      pure r.isSome) (fun _ c => Commits (spec postId) q c) begun := by
  refine wp_aside view kept_begun ?_ fun _ c₁ h₁ => ?_
  · apply Prog.Steps.map
    apply steps_updateOneReturning
    · trivial
    · exact untouched_posts h
  · apply commits_of_moves
    exact fun w hw => moves_of_view hw.good.inv (h₁.redo w.db)

theorem meets_blind (cfg : Config) (t : TargetType) (i : Uuid) (now : Timestamp) :
    MeetsAt (spec postId) cfg (.blind t i now) := by
  apply wp_once_answer (orNotFound_cases _) (fun _ _ _ => trivial) fun _ _ => trivial
  cases t with
  | post =>
    apply wp_moderatePost
    exact fun _ => rfl
  | comment =>
    apply wp_transition
    · intro c hc
      simp only [Bool.and_eq_true, beq_iff_eq] at hc
      exact hc.1.1
    · exact ⟨fun _ => rfl, fun _ => rfl, fun _ => rfl⟩

theorem meets_unblind (cfg : Config) (t : TargetType) (i : Uuid) (now : Timestamp) :
    MeetsAt (spec postId) cfg (.unblind t i now) := by
  apply wp_once_answer (orNotFound_cases _) (fun _ _ _ => trivial) fun _ _ => trivial
  cases t with
  | post =>
    apply wp_moderatePost
    exact fun _ => rfl
  | comment =>
    apply wp_transition
    · intro c hc
      simp only [Bool.and_eq_true, beq_iff_eq] at hc
      exact hc.1.1
    · exact ⟨fun _ => rfl, fun _ => rfl, fun _ => rfl⟩

end Transition

theorem meets (cfg : Config) (postId : Uuid) : (spec postId).Meets (program cfg) := by
  intro q hq
  cases q with
  | createComment p userId content parentId commentId notificationId now =>
    exact meets_createComment cfg p userId content parentId commentId notificationId now hq
  | deleteComment p commentId now => exact meets_deleteComment cfg p commentId now
  | blind t i now => exact meets_blind cfg t i now
  | unblind t i now => exact meets_unblind cfg t i now
  | _ => exact hq.elim

/-- A step of the runs: from the recount of a moderation on, until the moderation is over, no other
request commits a change of what the post has on display. -/
def Permitted (postId : Uuid) (s : State) : Label Row Request → Prop
  | .begin _ q => Moderates postId q
  | .run i => ∀ tx note k, s.txs i = some tx → tx.prog = .commit note k →
    ∀ j tx' n, j ≠ i → s.txs j = some tx' → (.countVisibleForPost postId, n) ∈ tx'.past →
      displayed postId (tx.redo s.world.db) = displayed postId s.world.db
  | _ => True

theorem admits_of_permitted (h : Permitted postId s a) : (spec postId).Admits s a := by
  cases a with
  | begin i q => exact h
  | run i =>
    intro tx htx
    refine ⟨fun _ _ _ => trivial, fun note k hp => ⟨trivial, ?_⟩, fun f k hp => ?_⟩
    · intro j tx' hne htx' n hpast
      exact h tx note k htx hp j tx' n hne htx' hpast
    · exact fun j tx' _ _ n _ => rfl
  | lock i r => trivial
  | abort i => trivial

/-- The comment count of a post whose comments are roots is exact after every commit of a permitted
run. -/
theorem commentCount_exact (cfg : Config) (postId : Uuid) {db : Store} {ext : Outside}
    {run : List (Label Row Request)} {s : State} (hdb : db.Valid) (hroots : AllRoots postId db)
    (hok : CountExact postId db)
    (hrun : Along (step cfg) (Permitted postId) (State.start db ext) run)
    (hs : exec (step cfg) (State.start db ext) run = some s) : CountExact postId s.world.db := by
  have hgood : (spec postId).Good { db := db, ext := ext, log := [] } :=
    ⟨(exact_iff hdb).mpr ⟨hroots, hok⟩, hdb⟩
  have hadm : Along (step cfg) (spec postId).Admits (State.start db ext) run :=
    hrun.mono fun _ _ h => admits_of_permitted h
  have hsound := Spec.sound (meets cfg postId) hgood hadm hs
  exact ((exact_iff hsound.good.valid).mp hsound.good.inv).2

section Runs

open Sample

def commented : Store where
  users := [user 1, user 2]
  posts := [{ post 10 1 with commentCount := 1 }]
  comments := [{ id := 30, postId := 10, authorId := some 2, parentId := none, content := ""
                 likeCount := 0, reportCount := 0, isBlinded := false, createdAt := 0
                 updatedAt := 0, deletedAt := none }]

theorem commented_valid : commented.Valid := by
  constructor <;> decide

def blindRun : List (Label Row Request) :=
  [.begin 0 (.blind .comment 30 5)] ++ stmt 0 [.comment 30] ++ [.run 0] ++ stmt 0 [.post 10] ++
    [.run 0, .run 0]

theorem commentCount_exact_blindRun :
    ∃ s, exec (step config) (State.start commented outside) blindRun = some s ∧
      s.world.log.length = 1 ∧ CountExact 10 s.world.db := by
  obtain ⟨s, hs, hlog⟩ : ∃ s, exec (step config) (State.start commented outside) blindRun = some s ∧
      s.world.log.length = 1 := ⟨_, rfl, rfl⟩
  refine ⟨s, hs, hlog, commentCount_exact config 10 commented_valid (by decide) (by decide) ?_ hs⟩
  apply (along_alone (P := fun q => q = .blind .comment 30 5) (i := 0) _ _ _ _).mono
  · rintro s a ⟨hbegin, hnone, _⟩
    cases a with
    | begin i q =>
      rw [hbegin i q rfl]
      trivial
    | run i =>
      intro tx note k _ _ j tx' n hne htx'
      rw [hnone j hne] at htx'
      cases htx'
    | lock i r => trivial
    | abort i => trivial
  · rintro q rfl
    exact returns_once _
  · simp [blindRun, stmt, Label.slot]

/-- A comment is written and committed between the recount and the write of the count. -/
def lostRun : List (Label Row Request) :=
  [.begin 0 (.blind .comment 30 5)] ++ stmt 0 [.comment 30] ++ [.run 0] ++
    [.begin 1 (.createComment 10 1 "" none 31 40 6), .run 1] ++ stmt 1 [.comment 31] ++
    stmt 1 [.post 10] ++ stmt 1 [.user 1] ++ stmt 1 [.post 10] ++ [.run 1, .run 1] ++
    stmt 0 [.post 10] ++ [.run 0, .run 0]

theorem commentCount_diverges :
    AllRoots 10 commented ∧ CountExact 10 commented ∧
      ∃ s, exec (step config) (State.start commented outside) lostRun = some s ∧
        (∀ i, s.txs i = none) ∧ s.world.log.length = 2 ∧ AllRoots 10 s.world.db ∧
        ¬ CountExact 10 s.world.db := by
  refine ⟨by decide, by decide, _, rfl, ?_, rfl, by decide, by decide⟩
  rintro (_ | _ | _)
  · rfl
  · rfl
  · rfl

end Runs

end PuppyTalk.Backend.ModeratedCount
