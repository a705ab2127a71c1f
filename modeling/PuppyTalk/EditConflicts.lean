import PuppyTalk.ProgramRules
import PuppyTalk.TransactionOutcome

namespace PuppyTalk.Backend.EditConflicts

open Txn
open Backend.PostsRepository Backend.PostService

def readable (postId : Uuid) (d : Store) : Option Post :=
  d.posts.find? fun p => p.id == postId && p.deletedAt.isNone && !p.isBlinded

def IsConflict (e : Failure) : Prop := ∃ message, e = .api (.concurrentUpdate message)

/-- An edit that has read a post ends with a conflict exactly if the version it carries is another
one than it has read. -/
def Verdict (first : Store) (q : Request) (past : List (Statement × Nat)) (log : List Commit)
    (conflict : Prop) : Prop :=
  ∀ postId data categoryExists rowIds now, q = .updatePost postId data categoryExists rowIds now →
    ∀ n post, (.selectPost, n) ∈ past → readable postId (dbAt first log n) = some post →
      (conflict ↔ data.version.any (· != post.version) = true)

def spec (first : Store) : Spec where
  starts _ := True
  inv w := w.db = dbAt first w.log w.log.length
  change w w' := ∃ l, w'.log = w.log ++ l
  reads _ _ _ := True
  adm _ _ _ := True
  may _ _ _ _ := True
  ends _ _ _ _ _ := True
  raised q past e log := Verdict first q past log (IsConflict e)
  returned q past log := Verdict first q past log False

section Exceptions

/-- Neither a conflict nor what the `except` clause makes one. -/
structure Plain (e : Failure) : Prop where
  fresh : e ≠ .staleData
  quiet : ¬ IsConflict e

theorem plain_integrityError : Plain (.api .integrityError) :=
  ⟨by rintro ⟨⟩, by rintro ⟨_, ⟨⟩⟩⟩

theorem Plain.handled (h : Plain e) : ¬ IsConflict ((onStaleData e).getD e) := by
  have hnone : onStaleData e = none := by
    cases e with
    | staleData => exact absurd rfl h.fresh
    | api e => rfl
    | withMessage e m => rfl
    | selfDm => rfl
  rw [hnone]
  exact h.quiet

variable {κ : Type} [DecidableEq κ] {T : TableOf Store Row α κ}

theorem raises_references (parent : α → Bool) : (references T parent).Raises Plain := by
  intro _ _ locked
  dsimp only
  split
  · exact plain_integrityError
  · trivial

theorem raises_insertIgnore {a : α} {parents : TxM Unit} (h : parents.Raises Plain) :
    (insertIgnore name T a parents).Raises Plain := by
  intro _ _ locked
  dsimp only
  split
  · trivial
  · exact h.bind fun _ => trivial

theorem raises_insertRow {a : α} {parents : TxM Unit} (h : parents.Raises Plain) :
    (insertRow name T a parents).Raises Plain := by
  intro _ _ locked
  dsimp only
  split
  · exact plain_integrityError
  · exact h

theorem raises_insertHashtags (hashtagNames : List String) :
    (insertHashtags hashtagNames).Raises Plain := by
  induction hashtagNames with
  | nil => trivial
  | cons name hashtagNames ih =>
    refine Prog.Raises.bind (raises_insertIgnore ?_) fun _ => ih
    trivial

theorem raises_insertPostHashtags (postId : Uuid) (hashtagNames : List String) :
    (insertPostHashtags postId hashtagNames).Raises Plain := by
  induction hashtagNames with
  | nil => trivial
  | cons name hashtagNames ih =>
    refine Prog.Raises.bind (raises_insertIgnore ?_) fun _ => ih
    exact (raises_references _).bind fun _ => raises_references _

theorem raises_syncHashtags (postId : Uuid) (hashtagNames : Option (List String)) :
    (syncHashtagsIfSome postId hashtagNames).Raises Plain := by
  cases hashtagNames with
  | none => trivial
  | some hashtagNames =>
    refine Prog.Raises.bind (fun _ _ _ => trivial) fun _ => ?_
    split
    · trivial
    · refine (raises_insertHashtags hashtagNames).bind fun _ => ?_
      exact Prog.Raises.bind (fun _ => trivial) fun _ => raises_insertPostHashtags postId _

theorem raises_syncPostImages (postId : Uuid) (imageIds : Option (List Uuid)) :
    (syncPostImages postId imageIds).Raises Plain := by
  cases imageIds with
  | none => trivial
  | some imageIds =>
    refine Prog.Raises.bind (fun _ => trivial) fun oldImageIds => ?_
    dsimp only
    split
    · trivial
    · exact Prog.Raises.bind (fun _ _ _ => trivial) fun _ => trivial

theorem raises_insertPostImages (postId : Uuid) (rowIds : Uuid → Uuid) (now : Timestamp)
    (imageIds : List Uuid) : (insertPostImages postId rowIds now imageIds).Raises Plain := by
  induction imageIds with
  | nil => trivial
  | cons imageId imageIds ih =>
    refine Prog.Raises.bind (raises_insertRow ?_) fun _ => ih
    exact (raises_references _).bind fun _ => raises_references _

theorem raises_flushPost (e : Pending) : (flushPost e).Raises fun e => ¬ IsConflict e := by
  unfold flushPost
  split
  · intro _ _ locked
    dsimp only
    split
    · rintro ⟨_, ⟨⟩⟩
    · trivial
  · trivial

end Exceptions

section Edit

variable {first : Store} {postId : Uuid} {q : Request} {c c' : Known} {w : World}

theorem inv_commit (first : Store) (w : World) (q : Request) (note : Option Nat)
    (past : List (Statement × Nat)) (d : Store) : (spec first).inv (w.commit q note past d) :=
  (dbAt_commit first w.log ⟨q, note, past, d⟩).symm

def Other (name : Statement) : Prop := name ≠ .selectPost

/-- After `n` commits an edit of the post reads this. -/
def Found (first : Store) (postId : Uuid) (n : Nat) (seen : Option Post) (w : World) : Prop :=
  n ≤ w.log.length ∧ readable postId (dbAt first w.log n) = seen

theorem stable_found (seen : Option Post) :
    (spec first).Stable q past held (Found first postId n seen) := by
  rintro w w' _ _ ⟨l, hl⟩ _ _ ⟨hle, hread⟩
  rw [Found, hl]
  refine ⟨hle.trans (by simp), ?_⟩
  rwa [dbAt_append first l hle]

structure HasRead (first : Store) (postId : Uuid) (n : Nat) (seen : Option Post) (c : Known) :
    Prop where
  once : ∀ m, (.selectPost, m) ∈ c.past → m = n
  found : ∀ w, c.fact w → Found first postId n seen w

theorem HasRead.framed (h : HasRead first postId n seen c)
    (hf : (spec first).Framed q c Other rel c') : HasRead first postId n seen c' := by
  refine ⟨fun m hm => ?_, fun w hw => h.found w (hf.fact w hw)⟩
  exact (hf.only _ hm).elim (h.once m) fun ho => absurd rfl ho

theorem HasRead.verdict_none (h : HasRead first postId n none c) (hw : c.fact w)
    (conflict : Prop) :
    Verdict first (.updatePost postId data categoryExists rowIds now) c.past w.log conflict := by
  rintro _ _ _ _ _ ⟨⟩ m post hm hread
  rw [h.once m hm, (h.found w hw).2] at hread
  cases hread

theorem HasRead.verdict (h : HasRead first postId n (some post) c) (hw : c.fact w)
    (hiff : conflict ↔ data.version.any (· != post.version) = true) :
    Verdict first (.updatePost postId data categoryExists rowIds now) c.past w.log conflict := by
  rintro _ _ _ _ _ ⟨⟩ m post' hm hread
  rw [h.once m hm, (h.found w hw).2] at hread
  cases hread
  exact hiff

theorem verdict_unread (h : ∀ n, (.selectPost, n) ∉ past) (conflict : Prop) :
    Verdict first q past log conflict :=
  fun _ _ _ _ _ _ n _ hn _ => absurd hn (h n)

theorem wp_between {x : TxM β} {K : β → Known → Prop}
    (h : HasRead first postId n (some post) c)
    (hv : data.version.any (· != post.version) = false)
    (hx : x.Steps Other fun _ _ => True) (hr : x.Raises fun e => ¬ IsConflict e)
    (hc : (spec first).Kept (.updatePost postId data categoryExists rowIds now) c)
    (hK : ∀ a c', (spec first).Kept (.updatePost postId data categoryExists rowIds now) c' →
      HasRead first postId n (some post) c' → K a c') :
    (spec first).wp (.updatePost postId data categoryExists rowIds now) x K c := by
  apply Spec.wp_steps_raising hx hr (fun _ => trivial) (fun _ _ _ _ _ => trivial)
    (fun _ _ _ _ _ => trivial) _ hc
  · exact fun a c' hf => hK a c' hf.kept (h.framed hf)
  · intro e c' w he hf hw
    apply (h.framed hf).verdict hw.fact
    rw [hv]
    exact iff_of_false he (by simp)

theorem wp_commit_read {note : Option Nat} (h : HasRead first postId n (some post) c)
    (hv : data.version.any (· != post.version) = false) :
    (spec first).wp (.updatePost postId data categoryExists rowIds now)
      (.commit note (.pure none))
      ((spec first).Finished (.updatePost postId data categoryExists rowIds now)) c := by
  intro w hw _
  obtain ⟨hle, hread⟩ := h.found w hw.fact
  refine ⟨inv_commit first w _ _ _ _, ⟨_, rfl⟩, Found first postId n (some post),
    ⟨⟨?_, ?_⟩, stable_found _⟩, ?_, ?_⟩
  · exact hle.trans (by simp [World.commit])
  · rwa [World.commit, dbAt_append first _ hle]
  · exact fun _ _ => trivial
  · intro w' hw'
    have hafter : HasRead first postId n (some post)
        { past := c.past, held := [], redo := id, fact := Found first postId n (some post) } :=
      ⟨h.once, fun _ hw => hw⟩
    apply hafter.verdict hw'.fact
    rw [hv]
    exact iff_of_false id (by simp)

theorem meets_updatePost (cfg : Config) (first : Store) (postId : Uuid) (data : PostUpdateRequest)
    (categoryExists : Bool) (rowIds : Uuid → Uuid) (now : Timestamp) :
    MeetsAt (spec first) cfg (.updatePost postId data categoryExists rowIds now) := by
  have hother {name : Statement} (h : name ≠ .selectPost) : Other name := h
  show (spec first).wp _ (once (PostService.updatePost ..)) _ _
  rw [once, Spec.wp_bind, PostService.updatePost, Spec.wp_bind]
  apply Spec.wp_steps_raising
    (steps_validateRefs (R := SamePart id) (fun _ => rfl) (hother (by decide)) _ _ _)
    (Prog.raises_true _) (fun _ => rfl) (fun _ _ _ h h' => h'.trans h) (fun _ _ _ _ _ => trivial) _ kept_begun
  rotate_left
  · intro e c w _ hf _
    exact verdict_unread (fun n hn => (hf.only _ hn).elim (fun h => nomatch h) fun h => h rfl) _
  intro _ c₁ h₁
  have hredo₁ (d : Store) : c₁.redo d = d := h₁.redo d
  have hunread : ∀ n, (.selectPost, n) ∉ c₁.past :=
    fun n hn => (h₁.only _ hn).elim (fun h => nomatch h) fun h => h rfl
  rw [Spec.wp_bind, updatePostFields]
  split
  · exact fun w _ => verdict_unread hunread _
  rw [Prog.tryExcept_bind, Spec.wp_bind]
  show (spec first).wp _ (.select .selectPost _ _) _ _
  refine Spec.wp_select_fact (fun _ => trivial) h₁.kept
    (fun w => Found first postId w.log.length (readable postId w.db)) ?_ ?_ fun w c₂ hw _ h₂ => ?_
  · intro w hw _
    refine ⟨le_rfl, ?_⟩
    rw [← hw.good.inv]
  · exact fun w n held redo past held' _ _ => stable_found _
  have hread₂ : HasRead first postId w.log.length (readable postId w.db) c₂ := by
    refine ⟨fun m hm => ?_, fun w' hw' => (h₂.fact w' hw').2⟩
    rw [h₂.past] at hm
    rcases List.mem_cons.mp hm with he | hm
    · exact (Prod.mk.inj he).2
    · exact absurd hm (hunread m)
  rw [hredo₁]
  refine Eq.mpr (Spec.wp_pure _ _ _) ?_
  split
  next hfind =>
    have hnone : readable postId w.db = none := hfind
    rw [hnone] at hread₂
    exact fun w hw => hread₂.verdict_none hw.fact _
  next post hfind =>
    have hsome : readable postId w.db = some post := hfind
    rw [hsome] at hread₂
    split
    next hstale =>
      intro w hw
      apply hread₂.verdict hw.fact
      exact iff_of_true ⟨_, rfl⟩ hstale
    next hcurrent =>
      have hv : data.version.any (· != post.version) = false := Bool.eq_false_iff.mpr hcurrent
      rw [Prog.tryExcept_bind, Spec.wp_bind]
      apply wp_between hread₂ hv _ ((raises_syncHashtags _ _).tryExcept fun _ h => h.handled) h₂.kept
      · intro _ c₃ hk₃ hread₃
        rw [Prog.tryExcept_bind, Spec.wp_bind]
        apply wp_between hread₃ hv _ ((raises_syncPostImages _ _).tryExcept fun _ h => h.handled) hk₃
        · intro toAdd c₄ hk₄ hread₄
          show (spec first).wp _ (_ >>= _) _ _
          rw [Spec.wp_bind]
          apply wp_between hread₄ hv (steps_flushPost (hother (by decide)) fun _ _ _ _ => trivial)
            (raises_flushPost _) hk₄
          intro version c₅ hk₅ hread₅
          rw [Spec.wp_bind]
          apply wp_between hread₅ hv _ _ hk₅
          · exact fun _ c₆ _ hread₆ => wp_commit_read hread₆ hv
          · exact steps_insertPostImages (fun _ => trivial) (hother (by decide)) (hother (by decide))
              (fun _ _ => trivial) _ _ _ _
          · exact (raises_insertPostImages _ _ _ _).mono fun _ h => h.quiet
        · apply Prog.Steps.tryExcept
          exact steps_syncPostImages (hother (by decide)) (hother (by decide)) (fun _ _ => trivial) _ _
      · apply Prog.Steps.tryExcept
        exact steps_syncHashtagsIfSome (fun _ => trivial)
          ⟨hother (by decide), hother (by decide), hother (by decide), hother (by decide),
            hother (by decide)⟩ (fun _ _ => trivial) (fun _ _ => trivial) _ _

end Edit

theorem meets (cfg : Config) (first : Store) : (spec first).Meets (program cfg) := by
  intro q _
  by_cases hq : ∃ postId data categoryExists rowIds now,
      q = .updatePost postId data categoryExists rowIds now
  · obtain ⟨postId, data, categoryExists, rowIds, now, rfl⟩ := hq
    exact meets_updatePost cfg first postId data categoryExists rowIds now
  · have hverdict (past : List (Statement × Nat)) (log : List Commit) (conflict : Prop) :
        Verdict first q past log conflict :=
      fun _ _ _ _ _ he => absurd ⟨_, _, _, _, _, he⟩ hq
    apply Spec.wp_free
    · exact fun w note past d _ => ⟨inv_commit first w q note past d, _, rfl⟩
    · exact fun w f hi => ⟨hi, [], (List.append_nil _).symm⟩
    · exact fun _ _ _ _ => trivial
    · exact fun past e log => hverdict past log _
    · exact fun _ c => And.intro (fun _ _ => trivial) fun w _ => hverdict c.past w.log _
    · exact kept_begun

theorem admits (first : Store) (s : State) (a : Label Row Request) : (spec first).Admits s a := by
  cases a with
  | begin i q => trivial
  | run i => exact fun _ _ => ⟨fun _ _ _ => trivial,
      fun _ _ _ => ⟨trivial, fun _ _ _ _ => trivial⟩, fun _ _ _ _ _ _ _ => trivial⟩
  | lock i r => trivial
  | abort i => trivial

theorem ended_ok (cfg : Config) {first : Store} (hfirst : first.Valid)
    (hs : exec (step cfg) (State.start first ext) run = some s) :
    ∀ e ∈ s.ended, (spec first).EndedOk s.world.log e := by
  have hgood : (spec first).Good { db := first, ext := ext, log := [] } := ⟨rfl, hfirst⟩
  exact (Spec.sound (meets cfg first) hgood
    ((Along.trivial _ _ _).mono fun s a _ => admits first s a) hs).ended

theorem final_updatePost (cfg : Config) (postId : Uuid) (data : PostUpdateRequest)
    (categoryExists : Bool) (rowIds : Uuid → Uuid) (now : Timestamp) :
    (program cfg (.updatePost postId data categoryExists rowIds now)).Final := by
  show (once (PostService.updatePost ..)).Final
  rw [once, PostService.updatePost, Prog.bind_assoc]
  have hrefs : (validateRefs data.categoryId categoryExists data.imageIds).Steps (fun _ => True)
      fun _ _ => True := steps_validateRefs (fun _ => trivial) trivial _ _ _
  apply hrefs.final
  intro _
  rw [Prog.bind_assoc]
  have hfields : (updatePostFields postId data (data.hashtags.map (normalizeHashtags cfg.lower))
      now).Steps (fun _ => True) fun _ _ => True :=
    steps_updatePostFields (fun _ => trivial) (fun _ => trivial) (fun _ _ => trivial)
      (fun _ _ => trivial) (fun _ => ⟨trivial, fun _ _ _ => trivial, fun _ _ _ => trivial⟩) _ _ _ _
  apply (hfields.tryExcept _).final
  intro found
  cases found with
  | none => trivial
  | some e =>
    dsimp only
    rw [Prog.bind_assoc]
    have hflush : (flushPost e).Steps (fun _ => True) fun _ _ => True :=
      steps_flushPost trivial fun _ _ _ _ => trivial
    apply hflush.final
    intro version
    rw [Prog.bind_assoc]
    have himages : (insertPostImages postId rowIds now e.toAdd).Steps (fun _ => True)
        fun _ _ => True :=
      steps_insertPostImages (fun _ => trivial) trivial trivial (fun _ _ => trivial) _ _ _ _
    apply himages.final
    intro _
    exact ⟨none, rfl⟩

/-- A call of `update_post` in slot `i` that has come to its last step, the exception or the commit:
it has read the post after `n` commits, and another edit of the post has committed since. -/
structure Overtaken (cfg : Config) (first : Store) (ext : Outside) (i : Nat) (postId : Uuid)
    (data : PostUpdateRequest) (categoryExists : Bool) (rowIds : Uuid → Uuid) (now : Timestamp)
    (before during : List (Label Row Request)) (s₀ s : State)
    (tx : Tx Store Row Outside Failure Statement (Option Nat) Request) (n : Nat) (post : Post) :
    Prop where
  start : exec (step cfg) (State.start first ext) before = some s₀
  alone : ∀ a ∈ during, ∀ q, a ≠ .begin i q
  runs : exec (step cfg) s₀
    (.begin i (.updatePost postId data categoryExists rowIds now) :: during) = some s
  under : s.txs i = some tx
  last : (∃ e, tx.prog = .raise e) ∨ ∃ note k, tx.prog = .commit note k
  read : (.selectPost, n) ∈ tx.past
  found : readable postId (dbAt first s.world.log n) = some post
  other : ∃ c ∈ s.world.log.drop n, ∃ data' categoryExists' rowIds' now',
    c.req = .updatePost postId data' categoryExists' rowIds' now'

section Overtaken

variable {first : Store} {ext : Outside} {i : Nat} {data : PostUpdateRequest}
variable {before during : List (Label Row Request)} {s₀ s : State}
variable {tx : Tx Store Row Outside Failure Statement (Option Nat) Request} {post : Post}

theorem Overtaken.uncommitted
    (h : Overtaken cfg first ext i postId data categoryExists rowIds now before during s₀ s tx n post) :
    Along (step cfg) (Unchanged (program cfg) i) s₀
        (.begin i (.updatePost postId data categoryExists rowIds now) :: during) ∧
      Uncommitted i (.updatePost postId data categoryExists rowIds now) s := by
  have hreturns : (program cfg (.updatePost postId data categoryExists rowIds now)).Returns
      (· = none) := Prog.Returns.bind (Prog.returns_true _) fun _ _ => rfl
  rcases uncommitted_begin (final_updatePost ..) hreturns h.alone h.runs with hover | hun
  · have hpure := hover tx h.under
    rcases h.last with ⟨e, he⟩ | ⟨note, k, he⟩
    · rw [he] at hpure
      cases hpure
    · rw [he] at hpure
      cases hpure
  · exact hun

theorem Overtaken.lt
    (h : Overtaken cfg first ext i postId data categoryExists rowIds now before during s₀ s tx n post) :
    n < s.world.log.length := by
  obtain ⟨c, hc, _⟩ := h.other
  by_contra hlen
  rw [List.drop_of_length_le (Nat.le_of_not_lt hlen)] at hc
  exact absurd hc List.not_mem_nil

theorem Overtaken.ended (hfirst : first.Valid)
    (h : Overtaken cfg first ext i postId data categoryExists rowIds now before during s₀ s tx n post)
    {rest : List (Label Row Request)} (hs : exec (step cfg) s rest = some s') (hend : e ∈ s'.ended) :
    (spec first).EndedOk s'.world.log e := by
  have hall : exec (step cfg) (State.start first ext) (before ++
      ((.begin i (.updatePost postId data categoryExists rowIds now) :: during) ++ rest)) = some s' := by
    exact exec_trans h.start (exec_trans h.runs hs)
  exact ended_ok cfg hfirst hall e hend

end Overtaken

/-- A call that loses the race ends with a conflict, and changes nothing, exactly if it carries
another version than the one it has read. -/
theorem conflict_reported_iff (cfg : Config) {first : Store} (hfirst : first.Valid)
    (h : Overtaken cfg first ext i postId data categoryExists rowIds now before during s₀ s tx n post) :
    ((∃ e, tx.prog = .raise e ∧ IsConflict e) ∧
      Along (step cfg) (Unchanged (program cfg) i) s₀
        (.begin i (.updatePost postId data categoryExists rowIds now) :: during)) ↔
      data.version.any (· != post.version) = true := by
  obtain ⟨hsame, tx', htx', hreq, hfinal, hreturns⟩ := h.uncommitted
  cases h.under.symm.trans htx'
  rcases h.last with ⟨e, he⟩ | ⟨note, k, he⟩
  · have hrun : step cfg s (.run i) = some (s.close i tx (.raised e)) := by
      simp only [step, Txn.step, h.under, Option.bind_some, State.run, he]
    obtain ⟨_, hverdict⟩ := h.ended hfirst (exec_one hrun) List.mem_cons_self
    have hconflict : IsConflict e ↔ data.version.any (· != post.version) = true := by
      apply hverdict postId data categoryExists rowIds now hreq n post h.read
      simp only [State.close, List.take_length]
      exact h.found
    rw [← hconflict]
    constructor
    · rintro ⟨⟨e', he', hc⟩, _⟩
      cases he.symm.trans he'
      exact hc
    · exact fun hc => ⟨⟨e, he, hc⟩, hsame⟩
  · rw [he] at hfinal hreturns
    obtain ⟨a, rfl⟩ := hfinal
    cases hreturns
    obtain ⟨s₁, hs₁, htx₁, hlog₁⟩ : ∃ s₁, step cfg s (.run i) = some s₁ ∧
        s₁.txs i = some { tx with prog := .pure none, redo := id } ∧
        ∃ c, s₁.world.log = s.world.log ++ [c] := by
      simp only [step, Txn.step, h.under, Option.bind_some, State.run, he]
      exact ⟨_, rfl, State.setTx_self _ _ _, _, rfl⟩
    have hs₂ : step cfg s₁ (.run i) =
        some (s₁.close i { tx with prog := .pure none, redo := id } .returned) := by
      simp only [step, Txn.step, htx₁, Option.bind_some, State.run]
    obtain ⟨_, hverdict⟩ := h.ended hfirst (exec_trans (exec_one hs₁) (exec_one hs₂))
      List.mem_cons_self
    have hnot : False ↔ data.version.any (· != post.version) = true := by
      apply hverdict postId data categoryExists rowIds now hreq n post h.read
      obtain ⟨c, hc⟩ := hlog₁
      simp only [State.close, List.take_length, hc]
      rw [dbAt_append first [c] h.lt.le]
      exact h.found
    rw [← hnot]
    constructor
    · rintro ⟨⟨e', he', _⟩, _⟩
      cases he.symm.trans he'
    · exact False.elim

section Race

open Sample

def titleEdit (title : String) (version : Option Nat) : PostUpdateRequest where
  title := some title
  content := none
  imageIds := none
  categoryId := none
  hashtags := none
  version := version

def winner : List (Label Row Request) :=
  [.begin 0 (.updatePost 10 (titleEdit "first" none) true id 5), .run 0] ++ stmt 0 [.post 10] ++
    [.run 0, .run 0]

/-- The call carries a version that the post never had. -/
theorem conflict_reported_wrongVersion :
    ∃ s₀ s tx post, Overtaken config store outside 1 10 (titleEdit "second" (some 7)) true id 6 []
        (.run 1 :: winner) s₀ s tx 0 post ∧
      (∃ e, tx.prog = .raise e ∧ IsConflict e) ∧
      Along (step config) (Unchanged (program config) 1) s₀
        (.begin 1 (.updatePost 10 (titleEdit "second" (some 7)) true id 6) :: .run 1 :: winner) := by
  obtain ⟨s₀, s, tx, post, h, hv⟩ : ∃ s₀ s tx post,
      Overtaken config store outside 1 10 (titleEdit "second" (some 7)) true id 6 [] (.run 1 :: winner)
        s₀ s tx 0 post ∧ (some 7).any (· != post.version) = true := by
    refine ⟨_, _, _, post 10 1, ⟨rfl, ?_, rfl, rfl, .inl ⟨_, rfl⟩, ?_, rfl, ?_⟩, by decide⟩
    · simp [winner, stmt]
    · exact List.mem_cons_self
    · exact ⟨_, List.mem_cons_self, _, _, _, _, rfl⟩
  exact ⟨s₀, s, tx, post, h, (conflict_reported_iff config store_valid h).mpr hv⟩

/-- The call carries the version that it reads; the other edit commits before its flush. -/
theorem race_unreported :
    ∃ s₀ s tx post, Overtaken config store outside 1 10 (titleEdit "second" (some 1)) true id 6 []
        (.run 1 :: winner ++ [.run 1, .run 1]) s₀ s tx 0 post ∧
      tx.prog = .raise .staleData ∧ ¬ IsConflict .staleData ∧ Failure.statusCode .staleData = 500 := by
  refine ⟨_, _, _, post 10 1, ⟨rfl, ?_, rfl, rfl, .inl ⟨_, rfl⟩, ?_, rfl, ?_⟩, rfl, ?_, rfl⟩
  · simp [winner, stmt]
  · exact List.mem_cons_of_mem _ List.mem_cons_self
  · exact ⟨_, List.mem_cons_self, _, _, _, _, rfl⟩
  · rintro ⟨_, ⟨⟩⟩

end Race

end PuppyTalk.Backend.EditConflicts
