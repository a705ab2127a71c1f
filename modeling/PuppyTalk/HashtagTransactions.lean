import PuppyTalk.HashtagRules

namespace PuppyTalk.Backend

open Txn

structure PostCreateRequest where
  title : String
  content : String
  imageIds : Option (List Uuid)
  categoryId : Option Nat
  hashtags : Option (List String)
  deriving DecidableEq, Repr

/-- `create_post` of the repository. The links of the images stay pending. -/
def PostsRepository.createPost (id userId : Uuid) (data : PostCreateRequest)
    (hashtagNames : Option (List String)) (now : Timestamp) : TxM (List Uuid) :=
  if data.imageIds.any fun ids => PuppyTalk.PostsRepository.postImagesMax < ids.length then
    raise (.invalidRequest PuppyTalk.PostsRepository.imageLimitMessage)
  else do
    insertRow .flushPost Tables.posts
      { id := id, userId := some userId, title := data.title, content := data.content
        categoryId := data.categoryId, viewCount := 0, likeCount := 0, commentCount := 0
        reportCount := 0, isBlinded := false, createdAt := now, updatedAt := now
        deletedAt := none, version := 1 } do
      references Tables.users (·.id == userId)
    syncHashtagsIfSome id hashtagNames
    pure (data.imageIds.getD [])

/-- `create_post` with the ids that its inserts draw. -/
def PostService.createPost (cfg : Config) (id userId : Uuid) (data : PostCreateRequest)
    (categoryExists : Bool) (rowIds : Uuid → Uuid) (now : Timestamp) : TxM Unit :=
  transaction do
    validateRefs data.categoryId categoryExists data.imageIds
    let hashtags := data.hashtags.map (normalizeHashtags cfg.lower)
    let toAdd ← PostsRepository.createPost id userId data hashtags now
    PostsRepository.insertPostImages id rowIds now toAdd

namespace HashtagSync

inductive Request where
  | createPost (postId userId : Uuid) (data : PostCreateRequest) (categoryExists : Bool)
      (rowIds : Uuid → Uuid) (now : Timestamp)
  | updatePost (postId : Uuid) (data : PostUpdateRequest) (categoryExists : Bool)
      (rowIds : Uuid → Uuid) (now : Timestamp)

namespace Request

def postId : Request → Uuid
  | createPost postId .. => postId
  | updatePost postId .. => postId

def hashtags : Request → Option (List String)
  | createPost _ _ data .. => data.hashtags
  | updatePost _ data .. => data.hashtags

def edits : Request → Bool
  | createPost .. => false
  | updatePost .. => true

end Request

def program (cfg : Config) : Request → TxM (Option Request)
  | .createPost postId userId data categoryExists rowIds now => do
    PostService.createPost cfg postId userId data categoryExists rowIds now
    pure none
  | .updatePost postId data categoryExists rowIds now => do
    PostService.updatePost cfg postId data categoryExists rowIds now
    pure none

abbrev State := Txn.State Store Row Outside Failure Statement (Option Nat) Request

abbrev step (cfg : Config) : State → Txn.Label Row Request → Option State := Txn.step (program cfg)

def NoOverlap (s : State) : Prop :=
  ∀ i j tx tx', i ≠ j → s.txs i = some tx → s.txs j = some tx' →
    tx.req.edits = true → tx'.req.edits = true → tx.req.postId ≠ tx'.req.postId

def links (postId : Uuid) (d : Store) : List PostHashtag := d.postHashtags.filter (·.postId == postId)

structure Grows (postId : Uuid) (d d' : Store) : Prop where
  posts : ∀ id, (Tables.posts.get d id).isSome = true → (Tables.posts.get d' id).isSome = true
  hashtags : ∀ name, (Tables.hashtags.get d name).isSome = true →
    (Tables.hashtags.get d' name).isSome = true
  links : ∀ id, id ≠ postId → links id d' = links id d

theorem Grows.refl (postId : Uuid) (d : Store) : Grows postId d d :=
  ⟨fun _ h => h, fun _ h => h, fun _ _ => rfl⟩

theorem Grows.trans (h : Grows postId d d') (h' : Grows postId d' d'') : Grows postId d d'' :=
  ⟨fun id hd => h'.posts id (h.posts id hd), fun name hd => h'.hashtags name (h.hashtags name hd),
    fun id hne => (h'.links id hne).trans (h.links id hne)⟩

structure Moves (q : Request) (d d' : Store) : Prop where
  before : (Tables.posts.get d q.postId).isSome = q.edits
  after : (Tables.posts.get d' q.postId).isSome = true
  grows : Grows q.postId d d'

theorem Moves.trans (h : Moves q d d') (h' : Grows q.postId d' d'') : Moves q d d'' :=
  ⟨h.before, h'.posts _ h.after, h.grows.trans h'⟩

def Stored (lower : String → String) (q : Request) (d : Store) : Prop :=
  ∀ raw, q.hashtags = some raw →
    (∀ name, (⟨q.postId, name⟩ : PostHashtag) ∈ d.postHashtags ↔
      name ∈ normalizeHashtags lower raw) ∧
    ∀ name ∈ normalizeHashtags lower raw, d.hashtags.countP (·.name = name) = 1

def spec (cfg : Config) : SpecOf Request where
  starts _ := True
  inv w := ∀ c ∈ w.log, c.db.Valid ∧ Stored cfg.lower c.req c.db
  change := World.Committed fun c d => Moves c.req d c.db
  reads _ _ _ := True
  adm _ _ _ := True
  may q _ w w' := ∀ c, w'.log = w.log ++ [c] →
    q.edits = true → c.req.edits = true → q.postId ≠ c.req.postId
  ends _ _ _ _ _ := True
  raised _ _ _ _ := True
  returned _ _ _ := True

section Stability

variable {cfg : Config} {q : Request}

def Holds (q : Request) (held : List (Row × LockMode)) : Prop :=
  q.edits = false → (Tables.posts.row q.postId, LockMode.update) ∈ held

theorem stable_links (hl : Holds q held) (φ : List PostHashtag → Prop) :
    (spec cfg).Stable q past held fun w =>
      (Tables.posts.get w.db q.postId).isSome = q.edits ∧ φ (links q.postId w.db) := by
  rintro w w' - - ⟨c, rfl, hm⟩ hmay hag ⟨hown, hφ⟩
  have hsame : q.edits = false →
      Tables.posts.get w.db q.postId = Tables.posts.get c.db q.postId :=
    fun he => (Tables.posts.same_row (hag _ (hl he))).eq nofun
  have hne : q.postId ≠ c.req.postId := by
    intro he
    have hedits : c.req.edits = q.edits := by rw [← hm.before, ← he, hown]
    cases hq : q.edits with
    | true => exact hmay c rfl hq (hedits.trans hq) he
    | false =>
      have hafter := hm.after
      rw [← he, ← hsame hq, hown, hq] at hafter
      cases hafter
  refine ⟨?_, (hm.grows.links _ hne).symm ▸ hφ⟩
  cases hq : q.edits with
  | true => exact hm.grows.posts _ (hown.trans hq)
  | false => rw [← hsame hq, hown, hq]

def guard (cfg : Config) (q : Request) : Guard (spec cfg) q q.postId where
  own w := (Tables.posts.get w.db q.postId).isSome = q.edits
  lost _ := False
  locks := if q.edits then [] else [(Tables.posts.row q.postId, LockMode.update)]
  stable past held hl φ := by
    have hholds : Holds q held := by
      intro he
      apply hl
      simp [he]
    simp only [false_or]
    exact stable_links hholds fun l => φ (l.map (·.hashtag)).toFinset
  names past held name := by
    rintro w w' - - ⟨c', rfl, hm⟩ - - h
    exact hm.grows.hashtags name h
  ends _ _ _ _ := trivial
  raised _ _ _ := trivial

end Stability

section Point

variable {cfg : Config} {q : Request} {c c' : KnownOf Request} {P P' : Store → Prop}

/-- What is known of a request on its way: it owns its post, and what it sees has `P`. -/
structure Point (cfg : Config) (q : Request) (c : KnownOf Request) (P : Store → Prop) : Prop where
  kept : (spec cfg).Kept q c
  holds : Holds q c.held
  moves : ∀ w, (spec cfg).Good w → c.fact w → Moves q w.db (c.redo w.db)
  view : ∀ w, (spec cfg).Good w → c.fact w → P (c.redo w.db)

theorem Point.mono (h : Point cfg q c P) (hP : ∀ d, P d → P' d) : Point cfg q c P' :=
  { h with view := fun w hg hf => hP _ (h.view w hg hf) }

theorem Point.after {f : Store → Store} {fact : WorldOf Request → Prop} (h : Point cfg q c P)
    (ha : (spec cfg).After q c name n (f ∘ c.redo) fact c') (hgrows : ∀ d, Grows q.postId d (f d))
    (hP : ∀ w, (spec cfg).Good w → fact w → c.fact w → P (c.redo w.db) → P' (f (c.redo w.db))) :
    Point cfg q c' P' where
  kept := ha.kept
  holds he := ha.held _ (h.holds he)
  moves w hg hf := by
    rw [ha.redo]
    exact (h.moves w hg (ha.fact w hf).1).trans (hgrows _)
  view w hg hf := by
    rw [ha.redo]
    obtain ⟨hc, hfact⟩ := ha.fact w hf
    exact hP w hg hfact hc (h.view w hg hc)

theorem Point.framed {R : Store → Store → Prop} (h : Point cfg q c P)
    (hf : (spec cfg).Framed q c names R c') (hgrows : ∀ d d', R d d' → Grows q.postId d d')
    (hP : ∀ d d', R d d' → P d → P d') : Point cfg q c' P where
  kept := hf.kept
  holds he := hf.held _ (h.holds he)
  moves w hg hw := (h.moves w hg (hf.fact w hw)).trans (hgrows _ _ (hf.moves _))
  view w hg hw := hP _ _ (hf.moves _) (h.view w hg (hf.fact w hw))

theorem wp_still {x : TxM β} {K : β → KnownOf Request → Prop} (hx : x.Steps (fun _ => True) Eq)
    (hc : (spec cfg).Kept q c)
    (hK : ∀ a c', (spec cfg).Framed q c (fun _ => True) Eq c' → K a c') : (spec cfg).wp q x K c :=
  Spec.wp_steps hx (fun _ => rfl) (fun _ _ _ h h' => h.trans h') (fun _ _ _ _ _ => trivial)
    (fun _ _ _ => trivial) hc hK

theorem Point.still (h : Point cfg q c P) (hf : (spec cfg).Framed q c names Eq c') :
    Point cfg q c' P :=
  h.framed hf (fun d _ he => he ▸ .refl q.postId d) fun _ _ he hd => he ▸ hd

theorem grows_of_retags (h : Retags postId d d') : Grows postId d d' where
  posts id hd := by
    show (Table.row Post.id d'.posts id).isSome = true
    rw [h.posts]
    exact hd
  hashtags := h.names
  links := h.links

theorem Point.owned (h : Point cfg q c P) (hlinks : ∀ d, (c.redo d).postHashtags = d.postHashtags)
    (hnames : ∀ d, (c.redo d).hashtags = d.hashtags) : (guard cfg q).Owned c where
  kept := h.kept
  held l hl := by
    cases he : q.edits with
    | true => simp [guard, he] at hl
    | false =>
      simp only [guard, he, Bool.false_eq_true, if_false, List.mem_singleton] at hl
      exact hl ▸ h.holds he
  own w hg hf := (h.moves w hg hf).before
  links := hlinks
  hashtags := hnames

end Point

section Programs

variable {cfg : Config} {q : Request} {c c' : KnownOf Request}

def Wanted (postId : Uuid) (names : Option (List String)) (d : Store) : Prop :=
  ∀ l, names = some l → hashtagsOf postId d = l.toFinset ∧ ∀ n ∈ l, HasName n d

theorem wp_syncHashtagsIfSome {K : Unit → KnownOf Request → Prop} {names : Option (List String)}
    (hnodup : ∀ l, names = some l → l.Nodup) (h : Point cfg q c fun _ => True)
    (hlinks : ∀ d, (c.redo d).postHashtags = d.postHashtags)
    (hnames : ∀ d, (c.redo d).hashtags = d.hashtags)
    (hK : ∀ c', Point cfg q c' (Wanted q.postId names) → K () c') :
    (spec cfg).wp q (PostsRepository.syncHashtagsIfSome q.postId names) K c := by
  cases names with
  | none => exact hK c (h.mono fun _ _ => nofun)
  | some names =>
    refine (guard cfg q).wp_syncPostHashtags (hnodup names rfl) (h.owned hlinks hnames)
      fun c' h' => hK c' ?_
    have hp := h.framed h'.framed (fun _ _ => grows_of_retags) fun _ _ _ h => h
    refine { hp with view := fun w hg hf l hl => ?_ }
    cases hl
    exact ⟨(h'.sees w hg hf).resolve_left id, h'.names w hg hf⟩

structure Rest (d d' : Store) : Prop where
  links : d'.postHashtags = d.postHashtags
  hashtags : d'.hashtags = d.hashtags
  posts : ∀ id, (Tables.posts.get d' id).isSome = (Tables.posts.get d id).isSome

theorem Rest.refl (d : Store) : Rest d d := ⟨rfl, rfl, fun _ => rfl⟩

theorem Rest.trans (h : Rest d d') (h' : Rest d' d'') : Rest d d'' :=
  ⟨h'.links.trans h.links, h'.hashtags.trans h.hashtags, fun id => (h'.posts id).trans (h.posts id)⟩

theorem Rest.grows (h : Rest d d') (postId : Uuid) : Grows postId d d' where
  posts id hd := (h.posts id).trans hd
  hashtags name hd := by
    show (Table.row Hashtag.name d'.hashtags name).isSome = true
    rw [h.hashtags]
    exact hd
  links id _ := by
    rw [HashtagSync.links, h.links]
    rfl

theorem Rest.wanted (h : Rest d d') (hd : Wanted postId names d) : Wanted postId names d' := by
  intro l hl
  obtain ⟨hlinks, hnames⟩ := hd l hl
  refine ⟨?_, fun n hn => (h.grows postId).hashtags n (hnames n hn)⟩
  rw [hashtagsOf, h.links]
  exact hlinks

theorem rest_postImages : Apart Tables.postImages Rest := fun _ _ => ⟨rfl, rfl, fun _ => rfl⟩

theorem rest_flushPost (e : PostsRepository.Pending) :
    Untouched Tables.posts Rest e.write fun _ => rfl := by
  intro conds snap locked d
  refine ⟨rfl, rfl, fun id => ?_⟩
  have hkey : ∀ (_ : Store) (p : Post), Tables.posts.key (e.write p) = Tables.posts.key p :=
    fun _ _ => rfl
  have hget := TableOf.get_update (T := Tables.posts) (s := fun _ => conds) (p := conds)
    (b := false) hkey snap locked d id
  exact (congrArg Option.isSome hget).trans Option.isSome_map

theorem wp_rest {x : TxM β} {K : β → KnownOf Request → Prop} {names : Option (List String)}
    (hx : x.Steps (fun _ => True) Rest) (h : Point cfg q c (Wanted q.postId names))
    (hK : ∀ a c', Point cfg q c' (Wanted q.postId names) → K a c') : (spec cfg).wp q x K c :=
  Spec.wp_steps hx Rest.refl (fun _ _ _ h h' => h.trans h') (fun _ _ _ _ _ => trivial)
    (fun _ _ _ => trivial) h.kept fun a c' hf =>
      hK a c' (h.framed hf (fun _ _ hr => hr.grows _) fun _ _ hr hd => hr.wanted hd)

theorem stored_of_wanted (hd : d.Valid)
    (h : Wanted q.postId (q.hashtags.map (normalizeHashtags lower)) d) : Stored lower q d := by
  intro raw hraw
  obtain ⟨hlinks, hnames⟩ := h _ (by rw [hraw]; rfl)
  refine ⟨fun name => ?_, fun name hn => ?_⟩
  · rw [← mem_hashtagsOf, hlinks, List.mem_toFinset]
  · obtain ⟨t, ht⟩ := Option.isSome_iff_exists.mp (hnames name hn)
    have hcount := hd.hashtags.countP_key (Table.row_mem ht)
    rw [show t.name = name from Table.row_key ht] at hcount
    exact hcount

theorem wp_commit_wanted {note : Option Nat} {k : TxM β} {K : β → KnownOf Request → Prop}
    (h : Point cfg q c (Wanted q.postId (q.hashtags.map (normalizeHashtags cfg.lower))))
    (hk : ∀ c', (spec cfg).wp q k K c') : (spec cfg).wp q (.commit note k) K c := by
  refine Spec.wp_commit (fun w hw _ => ⟨?_, ?_⟩) (hk _)
  · intro c' hc'
    rcases List.mem_append.mp hc' with hc' | hc'
    · exact hw.good.inv c' hc'
    · rw [List.mem_singleton.mp hc']
      exact ⟨hw.view, stored_of_wanted hw.view (h.view w hw.good hw.fact)⟩
  · exact ⟨⟨q, note, c.past, c.redo w.db⟩, rfl, h.moves w hw.good hw.fact⟩

abbrev unwritten (c : KnownOf Request) : Prop := ∀ d, c.redo d = d

theorem wp_validateRefs {K : Unit → KnownOf Request → Prop} (categoryId : Option Nat)
    (categoryExists : Bool) (imageIds : Option (List Uuid))
    (hK : ∀ c', (spec cfg).Kept q c' → unwritten c' → K () c') :
    (spec cfg).wp q (PostService.validateRefs categoryId categoryExists imageIds) K
      { past := [], held := [], redo := id, fact := fun _ => True } := by
  refine wp_still (steps_validateRefs (fun _ => rfl) trivial _ _ _) (.true rfl) fun _ c' hf => ?_
  exact hK c' hf.kept fun d => (hf.moves d).symm

theorem tags_addPost (p : Post) (d : Store) :
    (Tables.posts.add p d).postHashtags = d.postHashtags ∧
      (Tables.posts.add p d).hashtags = d.hashtags := by
  unfold TableOf.add
  split <;> exact ⟨rfl, rfl⟩

theorem moves_addPost (he : q.edits = false) (p : Post) (hid : p.id = q.postId)
    (hnone : Tables.posts.get d q.postId = none) : Moves q d (Tables.posts.add p d) := by
  refine ⟨by rw [hnone, he]; rfl, ?_, fun id h => ?_, fun name h => ?_, fun id _ => ?_⟩
  · rw [TableOf.get_add, if_pos (show q.postId = Tables.posts.key p from hid.symm),
      Option.isSome_or]
    exact Bool.or_true _
  · rw [TableOf.get_add]
    split
    · rw [Option.isSome_or, h]
      rfl
    · exact h
  · show (Table.row Hashtag.name (Tables.posts.add p d).hashtags name).isSome = true
    rw [(tags_addPost p d).2]
    exact h
  · rw [links, (tags_addPost p d).1]
    rfl

theorem meets_createPost (cfg : Config) (postId userId : Uuid) (data : PostCreateRequest)
    (categoryExists : Bool) (rowIds : Uuid → Uuid) (now : Timestamp) :
    (spec cfg).wp (.createPost postId userId data categoryExists rowIds now)
      (program cfg (.createPost postId userId data categoryExists rowIds now))
      ((spec cfg).Finished (.createPost postId userId data categoryExists rowIds now))
      { past := [], held := [], redo := id, fact := fun _ => True } := by
  rw [program, Spec.wp_bind, PostService.createPost, transaction, Spec.wp_bind, Spec.wp_bind]
  refine wp_validateRefs _ _ _ fun c₁ h₁ hredo₁ => ?_
  rw [Spec.wp_bind, PostsRepository.createPost]
  split
  · exact fun _ _ => trivial
  rw [Spec.wp_bind]
  refine wp_insertRow (N := fun _ => True) (fun _ _ _ => trivial) ?_ fun w c₂ _ hlock ha₂ => ?_
  · exact ⟨h₁, fun d => by rw [hredo₁], .true rfl, fun _ _ _ => trivial,
      fun _ _ _ _ _ _ _ => trivial⟩
  have h₂ : Point cfg (.createPost postId userId data categoryExists rowIds now) c₂
      fun _ => True := by
    refine ⟨ha₂.kept, fun _ => hlock, fun w _ hf => ?_, fun _ _ _ => trivial⟩
    rw [ha₂.redo, Function.comp_apply, hredo₁]
    exact moves_addPost rfl _ rfl (ha₂.fact w hf).2
  refine wp_still (steps_references (fun _ => rfl) trivial _ _) h₂.kept fun _ c₃ hf₃ => ?_
  have h₃ := h₂.still hf₃
  have htags : ∀ d, (c₃.redo d).postHashtags = d.postHashtags ∧
      (c₃.redo d).hashtags = d.hashtags := by
    intro d
    rw [← hf₃.moves d, ha₂.redo, Function.comp_apply, hredo₁]
    exact tags_addPost _ d
  rw [Spec.wp_bind]
  refine wp_syncHashtagsIfSome (nodup_names cfg.lower data.hashtags) h₃ (fun d => (htags d).1)
    (fun d => (htags d).2) fun c₄ h₄ => ?_
  rw [Spec.wp_pure]
  refine wp_rest (steps_insertPostImages Rest.refl trivial trivial rest_postImages _ _ _ _) h₄
    fun _ c₅ h₅ => ?_
  refine wp_commit_wanted h₅ fun c₆ => ⟨?_, fun _ _ => trivial⟩
  rintro _ ⟨⟩

theorem meets_updatePost (cfg : Config) (postId : Uuid) (data : PostUpdateRequest)
    (categoryExists : Bool) (rowIds : Uuid → Uuid) (now : Timestamp) :
    (spec cfg).wp (.updatePost postId data categoryExists rowIds now)
      (program cfg (.updatePost postId data categoryExists rowIds now))
      ((spec cfg).Finished (.updatePost postId data categoryExists rowIds now))
      { past := [], held := [], redo := id, fact := fun _ => True } := by
  rw [program, Spec.wp_bind, PostService.updatePost, Spec.wp_bind]
  refine wp_validateRefs _ _ _ fun c₁ h₁ hredo₁ => ?_
  rw [Spec.wp_bind]
  apply Spec.wp_tryExcept fun _ _ _ => trivial
  rw [PostsRepository.updatePostFields]
  split
  · exact fun _ _ => trivial
  rw [Spec.wp_bind]
  -- a post that was found stays
  refine Spec.wp_select_fact (fun _ => trivial) h₁
    (fun w w' => ∀ id, (Tables.posts.get w.db id).isSome = true →
      (Tables.posts.get w'.db id).isSome = true) (fun _ _ _ _ h => h) ?_ fun w c₂ hw _ ha₂ => ?_
  · rintro w n held redo past held' - - w₁ w₂ - - ⟨c', rfl, hm⟩ - - hf id hid
    exact hm.grows.posts id (hf id hid)
  rw [hredo₁]
  refine Eq.mpr (Spec.wp_pure _ _ _) ?_
  split
  next => exact fun _ _ => trivial
  next post hfind =>
    have hpost : (Tables.posts.get w.db postId).isSome = true := by
      have hid := List.find?_some hfind
      simp only [Bool.and_eq_true, beq_iff_eq] at hid
      exact Option.isSome_iff_exists.mpr ⟨post, (Tables.posts.get_eq_some hw.good.valid).mpr
        ⟨List.mem_of_find?_eq_some hfind, hid.1.1⟩⟩
    have hredo₂ : unwritten c₂ := fun d => by rw [ha₂.redo, hredo₁]
    have h₂ : Point cfg (.updatePost postId data categoryExists rowIds now) c₂ fun _ => True := by
      refine ⟨ha₂.kept, by rintro ⟨⟩, fun w' _ hf => ?_, fun _ _ _ => trivial⟩
      have hstays := (ha₂.fact w' hf).2 postId hpost
      rw [hredo₂]
      exact ⟨hstays, hstays, .refl postId w'.db⟩
    split
    · exact fun _ _ => trivial
    rw [Spec.wp_bind]
    refine wp_syncHashtagsIfSome (nodup_names cfg.lower data.hashtags) h₂
      (fun d => by rw [hredo₂]) (fun d => by rw [hredo₂]) fun c₃ h₃ => ?_
    rw [Spec.wp_bind]
    refine wp_rest (steps_syncPostImages trivial trivial rest_postImages _ _) h₃
      fun toAdd c₄ h₄ => ?_
    rw [Spec.wp_pure]
    dsimp only
    rw [Spec.wp_bind]
    refine wp_rest (steps_flushPost trivial (rest_flushPost _)) h₄ fun version c₅ h₅ => ?_
    rw [Spec.wp_bind]
    refine wp_rest (steps_insertPostImages Rest.refl trivial trivial rest_postImages _ _ _ _) h₅
      fun _ c₆ h₆ => ?_
    refine wp_commit_wanted h₆ fun c₇ => ⟨?_, fun _ _ => trivial⟩
    rintro _ ⟨⟩

theorem meets (cfg : Config) : (spec cfg).Meets (program cfg) := by
  intro q _
  cases q with
  | createPost postId userId data categoryExists rowIds now =>
    exact meets_createPost cfg postId userId data categoryExists rowIds now
  | updatePost postId data categoryExists rowIds now =>
    exact meets_updatePost cfg postId data categoryExists rowIds now

end Programs

section Runs

variable {cfg : Config} {s : State}

theorem admits_of_noOverlap (h : NoOverlap s) (a : Txn.Label Row Request) :
    (spec cfg).Admits s a := by
  cases a with
  | begin i q => trivial
  | run i =>
    intro tx htx
    refine ⟨fun _ _ _ => trivial, fun note k _ => ⟨trivial, ?_⟩, fun f k _ j tx' _ _ c' hc' => ?_⟩
    · intro j tx' hne htx' c' hc' he he'
      obtain rfl := List.singleton_inj.mp (List.append_cancel_left hc')
      exact h j i tx' tx hne htx' htx he he'
    · exact absurd (List.self_eq_append_right.mp hc') (List.cons_ne_nil _ _)
  | lock i r => trivial
  | abort i => trivial

end Runs

/-- What `_normalize_hashtags` returns. -/
structure Normalized (lower : String → String) (raw : List String) : Prop where
  nonempty : ∀ n ∈ normalizeHashtags lower raw, n ≠ ""
  distinct : (normalizeHashtags lower raw).Nodup
  short : ∀ n ∈ normalizeHashtags lower raw, n.toList.length ≤ 50
  allowed : ∀ n ∈ normalizeHashtags lower raw, ∀ c ∈ n.toList, hashtagAllowed c = true
  /-- The names are those of the list that are not empty, in order of their first occurrence. -/
  names : ∀ n, n ∈ normalizeHashtags lower raw ↔ n ≠ "" ∧ n ∈ raw.map (normalizeHashtag lower)
  ordered : (normalizeHashtags lower raw).Pairwise fun a b =>
    (raw.map (normalizeHashtag lower)).idxOf a < (raw.map (normalizeHashtag lower)).idxOf b
  idempotent : normalizeHashtags lower (normalizeHashtags lower raw) = normalizeHashtags lower raw

theorem normalized (hlower : Lowers lower) (raw : List String) : Normalized lower raw := by
  have hnames : ∀ n ∈ normalizeHashtags lower raw, ∃ v, normalizeHashtag lower v = n := by
    intro n hn
    obtain ⟨v, -, hv⟩ := List.mem_map.mp (mem_normalizeHashtags.mp hn).2
    exact ⟨v, hv⟩
  refine ⟨fun n hn => (mem_normalizeHashtags.mp hn).1, normalizeHashtags_nodup lower raw,
    fun n hn => ?_, fun n hn => ?_, fun n => mem_normalizeHashtags,
    normalizeHashtags_sorted lower raw, normalizeHashtags_idempotent hlower raw⟩
  · obtain ⟨v, rfl⟩ := hnames n hn
    exact normalizeHashtag_length lower v
  · obtain ⟨v, rfl⟩ := hnames n hn
    exact normalizeHashtag_allowed lower v

/-- Every transaction that commits leaves its post with the names of its list, and every name in one
row, whatever else is created or edited at the same time. -/
theorem hashtags_stored (cfg : Config) (hlower : Lowers cfg.lower) (db : Store) (hdb : db.Valid)
    (ext : Outside) (run : List (Txn.Label Row Request)) (s : State)
    (hapart : Along (step cfg) (fun s _ => NoOverlap s) (Txn.State.init db ext) run)
    (hrun : exec (step cfg) (Txn.State.init db ext) run = some s) :
    (∀ c ∈ s.world.log, Stored cfg.lower c.req c.db ∧
      ∀ t ∈ c.db.hashtags, c.db.hashtags.countP (·.name = t.name) = 1) ∧
    (∀ t ∈ s.world.db.hashtags, s.world.db.hashtags.countP (·.name = t.name) = 1) ∧
    ∀ raw, Normalized cfg.lower raw := by
  have hsound := Spec.sound (meets cfg) ⟨fun _ hc => absurd hc List.not_mem_nil, hdb⟩
    (hapart.mono fun s a h => admits_of_noOverlap h a) hrun
  refine ⟨fun c hc => ?_, fun t ht => hsound.good.valid.hashtags.countP_key ht,
    normalized hlower⟩
  obtain ⟨hvalid, hstored⟩ := hsound.good.inv c hc
  exact ⟨hstored, fun t ht => hvalid.hashtags.countP_key ht⟩

def tagEdit : Request :=
  .updatePost 10 { title := none, content := none, imageIds := none, categoryId := none
                   hashtags := some ["#dog", "dog", " cat"], version := none } true id 7

def stmt (rows : List Row) : List (Txn.Label Row Request) :=
  Label.run 0 :: (rows.map (Label.lock 0) ++ [Label.run 0])

def tagRun : List (Txn.Label Row Request) :=
  List.flatten [[.begin 0 tagEdit, .run 0], stmt [],
    stmt [.hashtag "dog"], stmt [.hashtag "cat"], [.run 0],
    stmt [.postHashtag (10, "dog")], stmt [.post 10], stmt [.hashtag "dog"],
    stmt [.postHashtag (10, "cat")], stmt [.post 10], stmt [.hashtag "cat"],
    stmt [.post 10], [.run 0, .run 0]]

theorem lowers_id : Lowers id where
  name _ _ := rfl
  mark c l _ := by simp only [id_eq, String.toList_ofList]

theorem noOverlap_tagRun (db : Store) (ext : Outside) :
    Along (step Sample.config) (fun s _ => NoOverlap s) (Txn.State.init db ext) tagRun := by
  apply (along_alone (P := fun q => q = tagEdit) (i := 0) db ext _ _).mono
  · rintro s a ⟨-, hnone, -⟩ i j tx tx' hne htx htx'
    have hi : i = a.slot := by
      by_contra h
      rw [hnone i h] at htx
      cases htx
    rw [hnone j (hi ▸ hne.symm)] at htx'
    cases htx'
  · rintro q rfl
    exact Prog.Returns.bind (Prog.returns_true _) fun _ _ => nofun
  · simp [tagRun, stmt, Label.slot]

theorem hashtags_stored_tagRun :
    ∃ s, exec (step Sample.config) (Txn.State.init Sample.store Sample.outside) tagRun = some s ∧
      s.world.log.length = 1 ∧ ∀ c ∈ s.world.log, Stored id c.req c.db := by
  have hlen : (exec (step Sample.config) (Txn.State.init Sample.store Sample.outside)
      tagRun).map (fun s => s.world.log.length) = some 1 := by decide +kernel
  obtain ⟨s, hs, hlen⟩ := Option.map_eq_some_iff.mp hlen
  refine ⟨s, hs, hlen, fun c hc => ?_⟩
  exact ((hashtags_stored Sample.config lowers_id Sample.store Sample.store_valid Sample.outside
    tagRun s (noOverlap_tagRun _ _) hs).1 c hc).1

end HashtagSync

end PuppyTalk.Backend
