import PuppyTalk.PostIdempotency

namespace PuppyTalk.PostIdempotency

theorem resultRedisKey_ne_lockRedisKey (fp : String) : resultRedisKey fp ≠ lockRedisKey fp := by
  intro h
  unfold resultRedisKey lockRedisKey at h
  have hl := congrArg String.length h
  have hr : "idemp:post:create:res:".length = 22 := by decide
  have hk : "idemp:post:create:lock:".length = 23 := by decide
  rw [String.length_append, String.length_append, hr, hk] at hl
  omega

theorem resultKey_ne_lockKey (c : Scope) : c.resultKey ≠ c.lockKey :=
  resultRedisKey_ne_lockRedisKey c.fingerprint

theorem setPhase_phase (s : State) (t u : String) (p : Phase) :
    (s.setPhase t p).phase u = if u = t then p else s.phase u := by
  simp only [State.setPhase, Function.update_apply]

@[simp] theorem setPhase_redis (s : State) (t : String) (p : Phase) :
    (s.setPhase t p).redis = s.redis := rfl

@[simp] theorem setPhase_posts (s : State) (t : String) (p : Phase) :
    (s.setPhase t p).posts = s.posts := rfl

def Phase.HoldsLock : Phase → Prop
  | .creating _ | .finishing _ _ false | .failing _ => True
  | _ => False

def Names (s : State) (out : ApiResponse) : Prop := ∃ p, out.data = some p ∧ s.posts = [p]

def Phase.Sound (s : State) : Phase → Prop
  | .creating _ => s.posts = []
  | .finishing out _ _ | .replied (.created out) => Names s out
  | _ => True

structure Inv (c : Scope) (s : State) : Prop where
  lock : ∀ t, (s.phase t).HoldsLock → s.redis.get c.lockKey = some (.token t)
  result : ∀ v, s.redis.get c.resultKey = some v → ∃ out, v = .body out ∧ Names s out
  sound : ∀ t, (s.phase t).Sound s
  kept : s.posts ≠ [] → s.redis.get c.resultKey ≠ none ∨
    ∃ t out released, s.phase t = .finishing out false released

/-- A lock is acquired only on a lookup that is still current: when the lock is free, no result
has been stored since and nobody has released ahead of its store. -/
def LookupCurrent (c : Scope) (s : State) : Label → Prop
  | .setNx _ => s.redis.get c.lockKey = none →
      s.redis.get c.resultKey = none ∧ ∀ t out, s.phase t ≠ .finishing out false true
  | _ => True

theorem inv_init (c : Scope) : Inv c State.init where
  lock _ h := h.elim
  result _ h := by cases h
  sound _ := trivial
  kept h := absurd rfl h

theorem Inv.posts (h : Inv c s) : s.posts = [] ∨ ∃ p, s.posts = [p] := by
  by_cases hp : s.posts = []
  · exact .inl hp
  right
  rcases h.kept hp with hr | ⟨t, out, rel, ht⟩
  · obtain ⟨v, hv⟩ := Option.ne_none_iff_exists'.mp hr
    obtain ⟨out, _, p, _, hpost⟩ := h.result v hv
    exact ⟨p, hpost⟩
  · have hs := h.sound t
    rw [ht] at hs
    obtain ⟨p, _, hpost⟩ := hs
    exact ⟨p, hpost⟩

theorem Inv.move (h : Inv c s) (hl : p.HoldsLock → s.redis.get c.lockKey = some (.token t))
    (hp : p.Sound s) (hf : ∀ out rel, s.phase t ≠ .finishing out false rel) :
    Inv c (s.setPhase t p) where
  lock u hu := by
    rw [setPhase_phase] at hu
    split at hu
    · subst u; exact hl hu
    · exact h.lock u hu
  result := h.result
  sound u := by
    rw [setPhase_phase]
    split
    · exact hp
    · exact h.sound u
  kept hn := by
    refine (h.kept hn).imp_right ?_
    rintro ⟨u, out, rel, hu⟩
    refine ⟨u, out, rel, ?_⟩
    have hne : u ≠ t := by
      rintro rfl
      exact hf out rel hu
    rw [setPhase_phase, if_neg hne]
    exact hu

theorem request_some (h : request c s t rid raw = some s') :
    s.phase t = .idle ∧ s' = s.setPhase t (.lookup rid) := by
  unfold request at h
  split at h
  · split at h
    · exact ⟨‹_›, (Option.some.inj h).symm⟩
    · cases h
  · cases h

theorem get_some (h : get c s t = some s') : ∃ rid, s.phase t = .lookup rid ∧
    ((∃ body, s.redis.get c.resultKey = some (.body body) ∧
        s' = s.setPhase t (.replied (.created (mergeRequestIdIntoCachedBody body rid)))) ∨
      s' = s.setPhase t (.acquire rid)) := by
  unfold get at h
  split at h
  · rename_i rid hp
    refine ⟨rid, hp, ?_⟩
    split at h
    · rename_i body hb
      obtain ⟨v, hv, hb⟩ := Option.bind_eq_some_iff.mp hb
      cases v with
      | token => cases hb
      | body r =>
        cases hb
        exact .inl ⟨body, hv, (Option.some.inj h).symm⟩
    · exact .inr (Option.some.inj h).symm
  · cases h

theorem setNx_some (h : setNx c s t = some s') : ∃ rid, s.phase t = .acquire rid ∧
    ((s.redis.get c.lockKey = none ∧ s' =
        { s with redis := s.redis.set c.lockKey (.token t) }.setPhase t (.creating rid)) ∨
      s' = s.setPhase t (.replied (.raised (.concurrentUpdate idempConflictMessage)))) := by
  unfold setNx at h
  split at h
  · rename_i rid hp
    refine ⟨rid, hp, ?_⟩
    cases hl : s.redis.get c.lockKey with
    | none =>
      rw [KeyValue.setNx_free _ hl] at h
      exact .inl ⟨rfl, (Option.some.inj h).symm⟩
    | some w =>
      rw [KeyValue.setNx_held _ hl] at h
      exact .inr (Option.some.inj h).symm
  · cases h

theorem commit_some (h : commit s t p = some s') : ∃ rid, s.phase t = .creating rid ∧
    p ∉ s.posts ∧ s' = { s with posts := p :: s.posts }.setPhase t
      (.finishing (apiResponse rid p) false false) := by
  unfold commit at h
  split at h
  · split at h
    · cases h
    · exact ⟨_, ‹_›, ‹_›, (Option.some.inj h).symm⟩
  · cases h

theorem abort_some (h : abort s t e = some s') :
    ∃ rid, s.phase t = .creating rid ∧ s' = s.setPhase t (.failing e) := by
  unfold abort at h
  split at h
  · exact ⟨_, ‹_›, (Option.some.inj h).symm⟩
  · cases h

theorem store_some (h : store c s t = some s') : ∃ out rel,
    s.phase t = .finishing out false rel ∧
    s' = { s with redis := s.redis.set c.resultKey (.body out) }.setPhase t
      (.finishing out true rel) := by
  unfold store at h
  split at h
  · exact ⟨_, _, ‹_›, (Option.some.inj h).symm⟩
  · cases h

theorem release_some (h : release c s t = some s') : ∃ p, (s.phase t).HoldsLock ∧
    s' = { s with redis := s.redis.delIfEq c.lockKey (.token t) }.setPhase t p ∧
    ((∃ out st, s.phase t = .finishing out st false ∧ p = .finishing out st true) ∨
      ∃ e, s.phase t = .failing e ∧ p = .replied (.raised e)) := by
  unfold release at h
  split at h
  · rename_i out st hp
    exact ⟨_, hp ▸ trivial, (Option.some.inj h).symm, .inl ⟨out, st, hp, rfl⟩⟩
  · rename_i e hp
    exact ⟨_, hp ▸ trivial, (Option.some.inj h).symm, .inr ⟨e, hp, rfl⟩⟩
  · cases h

theorem reply_some (h : reply s t = some s') : ∃ out, s.phase t = .finishing out true true ∧
    s' = s.setPhase t (.replied (.created out)) := by
  unfold reply at h
  split at h
  · exact ⟨_, ‹_›, (Option.some.inj h).symm⟩
  · cases h

theorem Inv.get (h : Inv c s) (hs : get c s t = some s') : Inv c s' := by
  obtain ⟨rid, hp, ⟨body, hr, rfl⟩ | rfl⟩ := get_some hs
  · refine h.move (fun hf => hf.elim) ?_ (by simp [hp])
    obtain ⟨out, he, p, hd, hpost⟩ := h.result _ hr
    cases he
    exact ⟨p, hd, hpost⟩
  · exact h.move (fun hf => hf.elim) trivial (by simp [hp])

theorem Inv.setNx (h : Inv c s) (hc : LookupCurrent c s (.setNx t))
    (hs : setNx c s t = some s') : Inv c s' := by
  obtain ⟨rid, hp, ⟨hl, rfl⟩ | rfl⟩ := setNx_some hs
  · obtain ⟨hr, hf⟩ := hc hl
    have hfree (u : String) : ¬ (s.phase u).HoldsLock := by
      intro hu
      have := h.lock u hu
      rw [hl] at this
      cases this
    -- with the lock free nobody is between commit and release, so no post can exist yet
    have hposts : s.posts = [] := by
      by_contra hn
      rcases h.kept hn with hk | ⟨u, out, rel, hu⟩
      · exact hk hr
      · cases rel with
        | false => exact hfree u (hu ▸ trivial)
        | true => exact hf u out hu
    have hres := KeyValue.get_set_of_ne s.redis (.token t) (resultKey_ne_lockKey c)
    constructor
    · intro u hu
      rw [setPhase_phase] at hu
      split at hu
      · subst u
        exact KeyValue.get_set_self _ _ _
      · exact (hfree u hu).elim
    · intro v hv
      simp only [setPhase_redis, hres, hr] at hv
      cases hv
    · intro u
      rw [setPhase_phase]
      split
      · exact hposts
      · exact h.sound u
    · intro hn
      exact absurd hposts hn
  · exact h.move (fun hf => hf.elim) trivial (by simp [hp])

theorem Inv.commit (h : Inv c s) (hs : commit s t p = some s') : Inv c s' := by
  obtain ⟨rid, hp, -, rfl⟩ := commit_some hs
  have hposts : s.posts = [] := by
    have := h.sound t
    rwa [hp] at this
  have hlock : s.redis.get c.lockKey = some (.token t) := h.lock t (hp ▸ trivial)
  constructor
  · intro u hu
    rw [setPhase_phase] at hu
    split at hu
    · subst u; exact hlock
    · exact h.lock u hu
  · intro v hv
    obtain ⟨out, _, q, _, hq⟩ := h.result v hv
    rw [hposts] at hq
    cases hq
  · intro u
    rw [setPhase_phase]
    split
    · exact ⟨p, rfl, by simp [hposts]⟩
    · rename_i hne
      have hu := h.sound u
      have hno (out : ApiResponse) : ¬ Names s out := by
        rintro ⟨q, _, hq⟩
        rw [hposts] at hq
        cases hq
      cases hph : s.phase u with
      | creating rid' =>
        have := h.lock u (hph ▸ trivial)
        rw [hlock] at this
        cases this
        exact absurd rfl hne
      | finishing out st rel => exact (hno out (by rwa [hph] at hu)).elim
      | replied r =>
        cases r with
        | created out => exact (hno out (by rwa [hph] at hu)).elim
        | raised => trivial
      | idle => trivial
      | lookup => trivial
      | acquire => trivial
      | failing => trivial
  · intro _
    refine .inr ⟨t, apiResponse rid p, false, ?_⟩
    rw [setPhase_phase, if_pos rfl]

theorem Inv.store (h : Inv c s) (hs : store c s t = some s') : Inv c s' := by
  obtain ⟨out, rel, hp, rfl⟩ := store_some hs
  have hout : Names s out := by
    have := h.sound t
    rwa [hp] at this
  have hlk := KeyValue.get_set_of_ne s.redis (.body out) (resultKey_ne_lockKey c).symm
  constructor
  · intro u hu
    simp only [setPhase_redis, hlk]
    rw [setPhase_phase] at hu
    split at hu
    · subst u
      refine h.lock t ?_
      rw [hp]
      cases rel with
      | false => trivial
      | true => exact hu.elim
    · exact h.lock u hu
  · intro v hv
    simp only [setPhase_redis, KeyValue.get_set_self, Option.some.injEq] at hv
    exact ⟨out, hv.symm, hout⟩
  · intro u
    rw [setPhase_phase]
    split
    · exact hout
    · exact h.sound u
  · intro _
    left
    simp only [setPhase_redis, KeyValue.get_set_self, ne_eq, reduceCtorEq, not_false_eq_true]

theorem Inv.release (h : Inv c s) (hs : release c s t = some s') : Inv c s' := by
  obtain ⟨p, hlock, rfl, hp⟩ := release_some hs
  have hl := h.lock t hlock
  rw [KeyValue.delIfEq_eq hl]
  have hres := KeyValue.get_del_of_ne s.redis (resultKey_ne_lockKey c)
  have hsole (u : String) (hu : (s.phase u).HoldsLock) : u = t := by
    have := (h.lock u hu).symm.trans hl
    cases this
    rfl
  constructor
  · intro u hu
    rw [setPhase_phase] at hu
    split at hu
    · rcases hp with ⟨_, _, _, rfl⟩ | ⟨_, _, rfl⟩ <;> exact hu.elim
    · exact absurd (hsole u hu) ‹_›
  · intro v hv
    rw [setPhase_redis, hres] at hv
    exact h.result v hv
  · intro u
    rw [setPhase_phase]
    split
    · have hsound := h.sound t
      rcases hp with ⟨out, st, he, rfl⟩ | ⟨e, he, rfl⟩
      · rw [he] at hsound
        exact hsound
      · trivial
    · exact h.sound u
  · intro hn
    rw [setPhase_redis, hres]
    refine (h.kept hn).imp_right ?_
    rintro ⟨u, out, rel, hu⟩
    by_cases hut : u = t
    · subst u
      rcases hp with ⟨out', st, he, rfl⟩ | ⟨e, he, rfl⟩
      · cases he.symm.trans hu
        exact ⟨t, out, true, by rw [setPhase_phase, if_pos rfl]⟩
      · cases he.symm.trans hu
    · exact ⟨u, out, rel, by rw [setPhase_phase, if_neg hut]; exact hu⟩

theorem Inv.step (h : Inv c s) (hc : LookupCurrent c s a) (hs : step c s a = some s') :
    Inv c s' := by
  cases a with
  | request t rid raw =>
    obtain ⟨hp, rfl⟩ := request_some hs
    exact h.move (fun hf => hf.elim) trivial (by simp [hp])
  | get t => exact h.get hs
  | setNx t => exact h.setNx hc hs
  | commit t p => exact h.commit hs
  | abort t e =>
    obtain ⟨rid, hp, rfl⟩ := abort_some hs
    exact h.move (fun _ => h.lock t (hp ▸ trivial)) trivial (by simp [hp])
  | store t => exact h.store hs
  | release t => exact h.release hs
  | reply t =>
    obtain ⟨out, hp, rfl⟩ := reply_some hs
    have hout := h.sound t
    rw [hp] at hout
    exact h.move (fun hf => hf.elim) hout (by simp [hp])

/-- At most one post has been created, and every 201 response carries its id. -/
def AtMostOnce (s : State) : Prop :=
  s.posts.length ≤ 1 ∧ ∀ t out, s.phase t = .replied (.created out) → Names s out

theorem Inv.atMostOnce (h : Inv c s) : AtMostOnce s := by
  constructor
  · rcases h.posts with hp | ⟨p, hp⟩ <;> simp [hp]
  · intro t out ht
    have hs := h.sound t
    rwa [ht] at hs

/-- A lock taken on a stale lookup lets its request create a second post. -/
theorem Inv.second_post (h : Inv c s) (hn : ¬ LookupCurrent c s (.setNx t))
    (hs : PostIdempotency.step c s (.setNx t) = some s') :
    ∃ bs s'', exec (PostIdempotency.step c) s' bs = some s'' ∧ 1 < s''.posts.length := by
  simp only [LookupCurrent, Classical.not_imp, not_and_or, not_forall, not_not] at hn
  obtain ⟨hl, hn⟩ := hn
  have hposts : ∃ p, s.posts = [p] := by
    rcases hn with hr | ⟨u, out, hu⟩
    · obtain ⟨v, hv⟩ := Option.ne_none_iff_exists'.mp hr
      obtain ⟨out, _, p, _, hp⟩ := h.result v hv
      exact ⟨p, hp⟩
    · have hsound := h.sound u
      rw [hu] at hsound
      obtain ⟨p, _, hp⟩ := hsound
      exact ⟨p, hp⟩
  obtain ⟨p, hp⟩ := hposts
  obtain ⟨rid, hph, ⟨_, rfl⟩ | rfl⟩ := setNx_some hs
  · refine ⟨[.commit t (p + 1)], _, exec_one (t := ?_) ?_, ?_⟩
    · exact State.setPhase { s with
        redis := s.redis.set c.lockKey (.token t)
        posts := [p + 1, p] } t (.finishing (apiResponse rid (p + 1)) false false)
    · simp [PostIdempotency.step, PostIdempotency.commit, State.setPhase, hp]
    · simp
  · simp only [PostIdempotency.step, PostIdempotency.setNx, hph, KeyValue.setNx_free _ hl,
      Option.some.injEq] at hs
    have hpt := congrArg (fun s => s.phase t) hs
    simp [State.setPhase] at hpt

/-- Exactly when the hooks make `POST /posts` idempotent: in every run in which a free lock is
only taken on a current lookup, and after a step that takes it on a stale one a second post can
follow. -/
theorem create_post_at_most_once (c : Scope) :
    (∀ as s, Along (PostIdempotency.step c) (LookupCurrent c) State.init as →
      exec (PostIdempotency.step c) State.init as = some s → AtMostOnce s) ∧
    (∀ as s t s', Along (PostIdempotency.step c) (LookupCurrent c) State.init as →
      exec (PostIdempotency.step c) State.init as = some s → ¬ LookupCurrent c s (.setNx t) →
      PostIdempotency.step c s (.setNx t) = some s' →
      ∃ bs s'', exec (PostIdempotency.step c) s' bs = some s'' ∧ 1 < s''.posts.length) := by
  have hinv {as : List Label} {s : State}
      (ha : Along (PostIdempotency.step c) (LookupCurrent c) State.init as)
      (he : exec (PostIdempotency.step c) State.init as = some s) : Inv c s :=
    exec_invariant (fun hi hc hs => hi.step hc hs) (inv_init c) ha he
  constructor
  · intro as s ha he
    exact (hinv ha he).atMostOnce
  · intro as s t s' ha he hn hs
    exact (hinv ha he).second_post hn hs

def sampleScope : Scope where
  sha256Hex _ := "55e17617ef425f0388f8bacd630eeaf9a4424939080cd9b655a801e71acb7200"
  userId := "01920f3c-7d2e-7a51-9c3b-5e8f2a64d1b0"
  norm := "idem-key-0001"

/-- The first request looks the result up, a second one runs to its end, and only then the first
one takes the free lock. -/
def staleLookupRun : List Label :=
  [.request "tokA" "r1" (some "idem-key-0001"), .get "tokA",
   .request "tokB" "r2" (some "idem-key-0001"), .get "tokB", .setNx "tokB", .commit "tokB" 1,
   .store "tokB", .release "tokB", .reply "tokB",
   .setNx "tokA", .commit "tokA" 2, .store "tokA", .release "tokA", .reply "tokA"]

theorem create_post_twice : ¬ ∀ as s,
    exec (PostIdempotency.step sampleScope) State.init as = some s → AtMostOnce s := by
  intro h
  have hrun : ∃ s, exec (PostIdempotency.step sampleScope) State.init staleLookupRun = some s ∧
      s.posts = [2, 1] := by
    refine ⟨_, rfl, ?_⟩
    rfl
  obtain ⟨s, he, hp⟩ := hrun
  have hl := (h staleLookupRun s he).1
  rw [hp] at hl
  exact absurd hl (by decide)

end PuppyTalk.PostIdempotency
