import Mathlib.Data.Finset.Dedup
import Mathlib.Data.Finset.Insert
import PuppyTalk.Hashtags
import PuppyTalk.ProgramRules

namespace PuppyTalk.Backend

open Txn
open Backend.PostsRepository

def hashtagsOf (postId : Uuid) (d : Store) : Finset String :=
  ((d.postHashtags.filter (·.postId == postId)).map (·.hashtag)).toFinset

def HasName (name : String) (d : Store) : Prop := (Tables.hashtags.get d name).isSome = true

theorem mem_hashtagsOf {postId : Uuid} {d : Store} :
    name ∈ hashtagsOf postId d ↔ (⟨postId, name⟩ : PostHashtag) ∈ d.postHashtags := by
  simp only [hashtagsOf, List.mem_toFinset, List.mem_map, List.mem_filter, beq_iff_eq]
  constructor
  · rintro ⟨⟨id, n⟩, ⟨hmem, rfl⟩, rfl⟩
    exact hmem
  · exact fun hmem => ⟨_, ⟨hmem, rfl⟩, rfl⟩

structure Retags (postId : Uuid) (d d' : Store) : Prop where
  posts : d'.posts = d.posts
  postImages : d'.postImages = d.postImages
  names : ∀ name, HasName name d → HasName name d'
  links : ∀ id, id ≠ postId →
    d'.postHashtags.filter (·.postId == id) = d.postHashtags.filter (·.postId == id)

theorem Retags.refl (postId : Uuid) (d : Store) : Retags postId d d :=
  ⟨rfl, rfl, fun _ h => h, fun _ _ => rfl⟩

theorem Retags.trans (h : Retags postId d d') (h' : Retags postId d' d'') : Retags postId d d'' :=
  ⟨h'.posts.trans h.posts, h'.postImages.trans h.postImages,
    fun name hd => h'.names name (h.names name hd),
    fun id hne => (h'.links id hne).trans (h.links id hne)⟩

theorem hasName_addHashtag (t : Hashtag) (h : HasName name d) :
    HasName name (Tables.hashtags.add t d) := by
  rw [HasName, TableOf.get_add]
  split
  · rw [Option.isSome_or, h]
    rfl
  · exact h

theorem hasName_addHashtag_self (t : Hashtag) (d : Store) :
    HasName t.name (Tables.hashtags.add t d) := by
  rw [HasName, TableOf.get_add, if_pos (show t.name = Tables.hashtags.key t from rfl),
    Option.isSome_or]
  exact Bool.or_true _

theorem retags_addHashtag (postId : Uuid) (t : Hashtag) (d : Store) :
    Retags postId d (Tables.hashtags.add t d) := by
  have hparts : (Tables.hashtags.add t d).posts = d.posts ∧
      (Tables.hashtags.add t d).postImages = d.postImages ∧
      (Tables.hashtags.add t d).postHashtags = d.postHashtags := by
    unfold TableOf.add
    split <;> exact ⟨rfl, rfl, rfl⟩
  refine ⟨hparts.1, hparts.2.1, fun _ => hasName_addHashtag t, fun id _ => ?_⟩
  rw [hparts.2.2]

theorem hashtagsOf_addHashtag (t : Hashtag) (d : Store) (postId : Uuid) :
    hashtagsOf postId (Tables.hashtags.add t d) = hashtagsOf postId d := by
  unfold TableOf.add
  split <;> rfl

theorem retags_addLink (postId : Uuid) (name : String) (d : Store) :
    Retags postId d (Tables.postHashtags.add ⟨postId, name⟩ d) := by
  unfold TableOf.add
  split
  · exact .refl postId d
  · refine ⟨rfl, rfl, fun _ h => h, fun id hne => ?_⟩
    show (d.postHashtags ++ [PostHashtag.mk postId name]).filter (PostHashtag.postId · == id) = _
    simp [List.filter_append, hne.symm]

theorem hashtagsOf_addLink (postId : Uuid) (name : String) (d : Store) :
    hashtagsOf postId (Tables.postHashtags.add ⟨postId, name⟩ d) =
      insert name (hashtagsOf postId d) := by
  cases hget : Tables.postHashtags.get d (postId, name) with
  | none =>
    rw [TableOf.add_of_none hget]
    ext n
    rw [mem_hashtagsOf, Finset.mem_insert, mem_hashtagsOf]
    show _ ∈ d.postHashtags ++ [PostHashtag.mk postId name] ↔ _
    simp [or_comm]
  | some l =>
    have hsame : Tables.postHashtags.add ⟨postId, name⟩ d = d := by
      unfold TableOf.add
      rw [show Tables.postHashtags.get d (Tables.postHashtags.key ⟨postId, name⟩) = some l from hget]
      rfl
    obtain ⟨hid, hname⟩ := Prod.mk.inj (show (l.postId, l.hashtag) = (postId, name) from
      Tables.postHashtags.get_key hget)
    have hmem : (⟨postId, name⟩ : PostHashtag) ∈ d.postHashtags := by
      rw [← hid, ← hname]
      exact Table.row_mem hget
    rw [hsame, Finset.insert_eq_self.mpr (mem_hashtagsOf.mpr hmem)]

theorem retags_deleteLinks {locked : List Row}
    (hlocked : ∀ r ∈ locked, ∃ name, r = Row.postHashtag (postId, name)) (snap d : Store) :
    Retags postId d ((Tables.postHashtags.delete (·.postId == postId)).write snap locked d) := by
  refine ⟨rfl, rfl, fun _ h => h, fun id hne => ?_⟩
  show (d.postHashtags.filter fun l => !decide (Row.postHashtag l.key ∈ locked)).filter
    (·.postId == id) = _
  rw [List.filter_filter]
  refine List.filter_congr fun l _ => ?_
  cases hid : l.postId == id with
  | false => rfl
  | true =>
    have hnot : Row.postHashtag l.key ∉ locked := by
      intro hmem
      obtain ⟨name, hr⟩ := hlocked _ hmem
      have hpost : l.postId = postId := congrArg Prod.fst (Row.postHashtag.inj hr)
      exact hne ((beq_iff_eq.mp hid).symm.trans hpost)
    simp [hnot]

variable {Q : Type} {S : SpecOf Q} {q : Q} {postId : Uuid} {c c₀ c' : KnownOf Q}

/-- How a request has the hashtags of its post to itself: as long as it owns the post and holds the
locks nobody else writes them, unless it has lost the post for good. -/
structure Guard (S : SpecOf Q) (q : Q) (postId : Uuid) where
  own : WorldOf Q → Prop
  lost : WorldOf Q → Prop
  locks : List (Row × LockMode)
  stable : ∀ past held, (∀ l ∈ locks, l ∈ held) → ∀ φ : Finset String → Prop,
    S.Stable q past held fun w => own w ∧ (lost w ∨ φ (hashtagsOf postId w.db))
  names : ∀ past held name, S.Stable q past held fun w => HasName name w.db
  ends : ∀ name snap locked d, S.ends q name snap locked d
  raised : ∀ past e log, S.raised q past e log

structure Guard.Owned (G : Guard S q postId) (c : KnownOf Q) : Prop where
  kept : S.Kept q c
  held : ∀ l ∈ G.locks, l ∈ c.held
  own : ∀ w, S.Good w → c.fact w → G.own w
  links : ∀ d, (c.redo d).postHashtags = d.postHashtags
  hashtags : ∀ d, (c.redo d).hashtags = d.hashtags

structure Guard.Tagging (G : Guard S q postId) (c₀ c : KnownOf Q) (tags : Finset String)
    (named : List String) : Prop where
  framed : S.Framed q c₀ (fun _ => True) (Retags postId) c
  sees : ∀ w, S.Good w → c.fact w → G.lost w ∨ hashtagsOf postId (c.redo w.db) = tags
  names : ∀ w, S.Good w → c.fact w → ∀ n ∈ named, HasName n (c.redo w.db)

section Sync

variable {G : Guard S q postId} {tags tags' : Finset String} {named : List String}

theorem Guard.kept (G : Guard S q postId) (φ : Finset String → Prop)
    (hheld : ∀ l ∈ G.locks, l ∈ c.held)
    (hc : c.fact = fun w => G.own w ∧ (G.lost w ∨ φ (hashtagsOf postId w.db))) : S.Kept q c := by
  intro past held _ hh
  rw [hc]
  exact G.stable past held (fun l hl => hh l (hheld l hl)) φ

theorem Guard.Tagging.after {f : Store → Store} {fact : WorldOf Q → Prop}
    (h : G.Tagging c₀ c tags named) (ha : S.After q c name n (f ∘ c.redo) fact c')
    (hf : ∀ d, Retags postId d (f d))
    (hsees : ∀ w, fact w → hashtagsOf postId (c.redo w.db) = tags →
      G.lost w ∨ hashtagsOf postId (f (c.redo w.db)) = tags') : G.Tagging c₀ c' tags' named where
  framed := h.framed.trans (fun _ _ _ h h' => h.trans h') (ha.framed trivial fun d => hf _)
  sees w hg hw := by
    obtain ⟨hc, hfact⟩ := ha.fact w hw
    rw [ha.redo]
    exact (h.sees w hg hc).elim .inl (hsees w hfact)
  names w hg hw n hn := by
    rw [ha.redo]
    exact (hf _).names n (h.names w hg (ha.fact w hw).1 n hn)

theorem Guard.wp_still (G : Guard S q postId) {x : TxM β} {K : β → KnownOf Q → Prop}
    (hx : x.Steps (fun _ => True) Eq) (h : G.Tagging c₀ c tags named)
    (hK : ∀ a c', G.Tagging c₀ c' tags named → K a c') : S.wp q x K c := by
  refine Spec.wp_steps hx (fun _ => rfl) (fun _ _ _ h h' => h.trans h') (fun n _ => G.ends n) G.raised
    h.framed.kept fun a c' hf => hK a c' ⟨?_, fun w hg hw => ?_, fun w hg hw => ?_⟩
  · exact h.framed.trans (fun _ _ _ h h' => h.trans h')
      { hf with moves := fun d => hf.moves d ▸ .refl _ _ }
  · rw [← hf.moves]
    exact h.sees w hg (hf.fact w hw)
  · rw [← hf.moves]
    exact h.names w hg (hf.fact w hw)

theorem Guard.wp_deleteLinks {K : Nat → KnownOf Q → Prop} (h : G.Owned c)
    (hK : ∀ n c', G.Tagging c c' ∅ [] → (∀ d, (c'.redo d).hashtags = d.hashtags) → K n c') :
    S.wp q (deleteRows .deletePostHashtags Tables.postHashtags (·.postId == postId)) K c := by
  refine Spec.wp_rows (T := Tables.postHashtags) (p := fun l => l.postId == postId)
    (fun _ => rfl) (fun _ _ => rfl) (fun _ => show LockMode.update ≠ .keyShare by decide) h.links
    h.kept
    (fun w w' => G.own w' ∧ (G.lost w' ∨ hashtagsOf postId w'.db = hashtagsOf postId w.db))
    (fun w hw => ⟨h.own w hw.good hw.fact, .inr rfl⟩)
    (fun w _ => G.kept (· = hashtagsOf postId w.db) h.held rfl)
    (fun k w => G.own w ∧ (G.lost w ∨ (k.1 = postId → k.2 ∉ hashtagsOf postId w.db)))
    (fun k _ => G.kept (fun tags => k.1 = postId → k.2 ∉ tags) h.held rfl) ?_ ?_
  · intro k w hw hnone
    refine ⟨h.own w hw.good hw.fact, .inr fun hid hname => ?_⟩
    have hget := (Tables.postHashtags.get_eq_some hw.good.valid).mpr
      ⟨mem_hashtagsOf.mp hname, show (postId, k.2) = k from Prod.ext hid.symm rfl⟩
    have hfalse := hnone _ hget
    simp at hfalse
  · intro w w' locked hw _ hB hsel _ hcov
    have hlocked : ∀ r ∈ locked, ∃ name, r = Row.postHashtag (postId, name) := by
      intro r hr
      obtain ⟨l, -, hpost, rfl⟩ := hsel r hr
      exact ⟨l.hashtag, by rw [← beq_iff_eq.mp hpost]; rfl⟩
    refine ⟨G.ends _ _ _ _, fun v => G.own v ∧ (G.lost v ∨
      ∀ name ∈ hashtagsOf postId v.db, Row.postHashtag (postId, name) ∈ locked), ⟨hB.1, ?_⟩, ?_,
      fun c' ha => hK _ c' ⟨ha.framed trivial fun d => retags_deleteLinks hlocked _ _, ?_, ?_⟩ ?_⟩
    · by_cases hlost : G.lost w'
      · exact .inl hlost
      · refine .inr fun name hname => ?_
        have hsame := hB.2.resolve_left hlost
        rcases hcov _ (mem_hashtagsOf.mp (hsame ▸ hname)) (beq_self_eq_true _) with
          hl | ⟨-, hlost' | hgone⟩
        · exact hl
        · exact absurd hlost' hlost
        · exact absurd hname (hgone rfl)
    · exact G.kept (fun tags => ∀ name ∈ tags, Row.postHashtag (postId, name) ∈ locked)
        (fun l hl => List.mem_append_right _ (h.held l hl)) rfl
    · intro v _ hv
      refine (ha.fact v hv).2.2.imp_right fun hall => ?_
      rw [ha.redo]
      apply Finset.eq_empty_of_forall_notMem
      intro n hn
      rw [mem_hashtagsOf] at hn
      obtain ⟨hmem, hkeep⟩ : _ ∧ _ := List.mem_filter.mp hn
      have hl := hall n (mem_hashtagsOf.mpr (h.links v.db ▸ hmem))
      simp only [Bool.not_eq_true', decide_eq_false_iff_not] at hkeep
      exact hkeep hl
    · exact fun _ _ _ n hn => absurd hn List.not_mem_nil
    · intro d
      rw [ha.redo]
      exact h.hashtags d

theorem Guard.wp_insertHashtags {K : Unit → KnownOf Q → Prop} (names : List String)
    (hnodup : names.Nodup) (h₀ : G.Owned c₀) (h : G.Tagging c₀ c tags named)
    (hnew : ∀ d, ∀ n ∈ names, Tables.hashtags.get (c.redo d) n = Tables.hashtags.get d n)
    (hK : ∀ c', G.Tagging c₀ c' tags (named ++ names) → K () c') :
    S.wp q (insertHashtags names) K c := by
  induction names generalizing c named with
  | nil =>
    apply hK
    rw [List.append_nil]
    exact h
  | cons name names ih =>
    obtain ⟨hname, hnodup⟩ := List.nodup_cons.mp hnodup
    rw [List.append_cons] at hK
    rw [insertHashtags, Spec.wp_bind]
    apply wp_insertIgnore (N := fun w => HasName name w.db)
    · refine ⟨h.framed.kept, fun d => hnew d name List.mem_cons_self, fun past held _ _ => ?_,
        fun w _ hcond => ?_, fun _ _ _ _ _ _ _ => G.ends _ _ _ _⟩
      · exact G.names past held name
      · exact Bool.not_eq_eq_eq_not.mp hcond
    · intro w c' _ _ ha
      rw [Spec.wp_pure]
      have h' : G.Tagging c₀ c' tags named := by
        refine h.after ha (retags_addHashtag postId _) fun w _ htags => .inr ?_
        rw [hashtagsOf_addHashtag, htags]
      refine ih hnodup { h' with names := fun w hg hw n hn => ?_ } (fun d n hn => ?_) hK
      · rcases List.mem_append.mp hn with hn | hn
        · exact h'.names w hg hw n hn
        · rw [List.mem_singleton.mp hn, ha.redo]
          exact hasName_addHashtag_self _ _
      · have hne : n ≠ Tables.hashtags.key { name := name } :=
          fun he => hname ((show n = name from he) ▸ hn)
        rw [ha.redo, Function.comp_apply, TableOf.get_add, if_neg hne]
        exact hnew d n (List.mem_cons_of_mem _ hn)
    · intro w c' _ ha
      have h' : G.Tagging c₀ c' tags named :=
        h.after (f := id) ha (.refl postId) fun _ _ htags => .inr htags
      refine ih hnodup { h' with names := fun w hg hw n hn => ?_ } (fun d n hn => ?_) hK
      · rcases List.mem_append.mp hn with hn | hn
        · exact h'.names w hg hw n hn
        · have hN := (ha.fact w hw).2
          rw [List.mem_singleton.mp hn]
          refine (h'.framed.moves w.db).names name ?_
          rw [HasName, TableOf.get]
          show (Table.row Hashtag.name (c₀.redo w.db).hashtags name).isSome = true
          rw [h₀.hashtags]
          exact hN
      · rw [ha.redo]
        exact hnew d n (List.mem_cons_of_mem _ hn)

theorem Guard.wp_insertPostHashtags {K : Unit → KnownOf Q → Prop} (names : List String)
    (h₀ : G.Owned c₀) (h : G.Tagging c₀ c tags named)
    (hK : ∀ c', G.Tagging c₀ c' (tags ∪ names.toFinset) named → K () c') :
    S.wp q (insertPostHashtags postId names) K c := by
  induction names generalizing c tags with
  | nil =>
    apply hK c
    rw [List.toFinset_nil, Finset.union_empty]
    exact h
  | cons name names ih =>
    have hunion : tags ∪ (name :: names).toFinset = insert name tags ∪ names.toFinset := by
      ext n
      simp only [Finset.mem_union, List.mem_toFinset, List.mem_cons, Finset.mem_insert]
      tauto
    rw [hunion] at hK
    rw [insertPostHashtags, Spec.wp_bind]
    -- a link that is there already is one of this request, or the post is lost
    apply wp_insertIgnore_or h.framed.kept (G.ends _)
      (fun w => G.own w ∧ (G.lost w ∨ name ∈ tags))
    · exact G.kept (fun _ => name ∈ tags) (fun l hl => h.framed.held l (h₀.held l hl)) rfl
    · intro w hw hsome
      refine ⟨h₀.own w hw.good (h.framed.fact w hw.fact), (h.sees w hw.good hw.fact).imp_right ?_⟩
      intro htags
      obtain ⟨l, hl⟩ := Option.isSome_iff_exists.mp hsome
      obtain ⟨hid, hname⟩ := Prod.mk.inj (show (l.postId, l.hashtag) = (postId, name) from
        Tables.postHashtags.get_key hl)
      rw [← htags, mem_hashtagsOf, ← hid, ← hname]
      exact Table.row_mem hl
    · intro n c₁ ha
      have h₁ : G.Tagging c₀ c₁ (insert name tags) named := by
        refine h.after ha (retags_addLink postId name) fun w _ htags => .inr ?_
        rw [hashtagsOf_addLink, htags]
      have hparents : (references Tables.posts (·.id == postId) >>= fun _ =>
          references Tables.hashtags (·.name == name)).Steps (fun _ => True) Eq :=
        (steps_references (fun _ => rfl) trivial _ _).bind fun _ =>
          steps_references (fun _ => rfl) trivial _ _
      exact G.wp_still hparents h₁ fun _ c₂ h₂ => ih h₂ hK
    · intro n c₁ ha
      have h₁ : G.Tagging c₀ c₁ (insert name tags) named := by
        refine h.after (f := id) ha (.refl postId) fun w hN htags => hN.2.imp_right fun hmem => ?_
        exact htags.trans (Finset.insert_eq_self.mpr hmem).symm
      exact ih h₁ hK

theorem Guard.wp_syncPostHashtags {K : Unit → KnownOf Q → Prop} {names : List String}
    (hnodup : names.Nodup) (h : G.Owned c)
    (hK : ∀ c', G.Tagging c c' names.toFinset names → K () c') :
    S.wp q (syncPostHashtags postId names) K c := by
  rw [syncPostHashtags, Spec.wp_bind]
  refine G.wp_deleteLinks h fun _ c₁ h₁ hsame => ?_
  split
  next hnil =>
    subst hnil
    exact hK c₁ h₁
  next =>
    rw [Spec.wp_bind]
    refine G.wp_insertHashtags names hnodup h h₁ (fun d n _ => ?_) fun c₂ h₂ => ?_
    · exact congrArg (fun t => Table.row Hashtag.name t n) (hsame d)
    rw [Spec.wp_bind]
    refine wp_query (fun _ => G.ends _ _ _ _) h₂.framed.kept fun w c₃ hw ha => ?_
    -- whoever inserted a name, the query finds it
    have hfound : names.filter (fun n => (c₂.redo w.db).hashtags.any (·.name == n)) = names := by
      refine List.filter_eq_self.mpr fun n hn => ?_
      obtain ⟨t, ht⟩ := Option.isSome_iff_exists.mp (h₂.names w hw.good hw.fact n hn)
      exact List.any_eq_true.mpr ⟨t, Table.row_mem ht, beq_iff_eq.mpr (Table.row_key ht)⟩
    rw [hfound]
    have h₃ : G.Tagging c c₃ ∅ names :=
      h₂.after (f := id) ha (.refl postId) fun _ _ htags => .inr htags
    refine G.wp_insertPostHashtags names h h₃ fun c₄ h₄ => hK c₄ ?_
    rw [Finset.empty_union] at h₄
    exact h₄

end Sync

theorem nodup_names (lower : String → String) (raw : Option (List String)) :
    ∀ l, raw.map (normalizeHashtags lower) = some l → l.Nodup := by
  intro l hl
  obtain ⟨r, -, rfl⟩ := Option.map_eq_some_iff.mp hl
  exact normalizeHashtags_nodup lower r

end PuppyTalk.Backend
