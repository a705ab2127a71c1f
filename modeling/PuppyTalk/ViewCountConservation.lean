import PuppyTalk.ViewCount

namespace PuppyTalk.ViewCount

open Table

def Flush.outstanding (q : Uuid) (f : Flush) : Int :=
  match f.phase with
  | .merging rest => rest.count q
  | _ => if f.committed then 0 else f.drain.count q

def FlushPhase.isMerging : FlushPhase → Bool
  | .merging _ => true
  | _ => false

def Flush.uncommitted (q : Uuid) (f : Flush) : Int := if f.committed then 0 else f.drain.count q

theorem Flush.outstanding_eq {f : Flush} (h : f.phase.isMerging = false) (q : Uuid) :
    f.outstanding q = f.uncommitted q := by
  obtain ⟨phase, drain, committed⟩ := f
  cases phase with
  | merging => cases h
  | _ => rfl

def State.pending (s : State) (q : Uuid) : Int :=
  s.buffer.count q + (s.flushes.map (Flush.outstanding q)).sum

def FlushPhase.Ok (f : Flush) : FlushPhase → Prop
  | .acquire | .rename | .deleteEmpty => f.drain = [] ∧ f.committed = false
  | .hgetall | .mergeRead => f.committed = false
  | .transaction fields => fields = f.drain ∧ f.committed = false
  | .merging rest => (∀ e ∈ rest, 0 ≤ e.2) ∧ f.committed = false
  | .deleteDrain => f.committed = true
  | .release _ | .done _ => True

structure FlushOk (f : Flush) : Prop where
  nonneg : ∀ e ∈ f.drain, 0 ≤ e.2
  phase : f.phase.Ok f

structure Conserved (s : State) : Prop where
  keyed : Keyed Post.id s.db.posts
  conserved : ∀ p ∈ s.db.posts, p.deletedAt = none → p.viewCount + s.pending p.id = s.counted p.id
  absent : ∀ q, postExists s.db q = false → s.pending q = 0 ∧ s.counted q = 0
  nonneg : ∀ e ∈ s.buffer, 0 ≤ e.2
  flushes : ∀ f ∈ s.flushes, FlushOk f
  viewing : ∀ v q, s.viewers v = .count q → postExists s.db q = true

theorem FlushOk.outstanding_nonneg (h : FlushOk f) (q : Uuid) : 0 ≤ f.outstanding q := by
  have hdrain := RedisHash.count_nonneg h.nonneg q
  have hphase := h.phase
  simp only [Flush.outstanding]
  split
  · rename_i rest hp
    rw [hp] at hphase
    exact RedisHash.count_nonneg hphase.1 q
  · split
    · exact Int.le_refl 0
    · exact hdrain

theorem Conserved.outstanding_le (h : Conserved s) (hf : f ∈ s.flushes) (q : Uuid) :
    f.outstanding q ≤ s.pending q := by
  have hnonneg : ∀ n ∈ s.flushes.map (Flush.outstanding q), 0 ≤ n := by
    intro n hn
    obtain ⟨g, hg, rfl⟩ := List.mem_map.mp hn
    exact (h.flushes g hg).outstanding_nonneg q
  have hsum := List.single_le_sum hnonneg _ (List.mem_map_of_mem hf)
  have hbuffer := RedisHash.count_nonneg h.nonneg q
  simp only [State.pending]
  omega

theorem Conserved.move (h : Conserved s) (hdb : s'.db = s.db) (hc : s'.counted = s.counted)
    (hp : ∀ q, s'.pending q = s.pending q) (hn : ∀ e ∈ s'.buffer, 0 ≤ e.2)
    (hf : ∀ f ∈ s'.flushes, FlushOk f)
    (hv : ∀ v q, s'.viewers v = .count q → postExists s.db q = true) : Conserved s' := by
  refine ⟨hdb ▸ h.keyed, ?_, ?_, hn, hf, hdb ▸ hv⟩
  · intro p hm halive
    rw [hp, hc]
    exact h.conserved p (hdb ▸ hm) halive
  · intro q hq
    rw [hp, hc]
    exact h.absent q (hdb ▸ hq)

theorem pending_setFlush {s : State} (hf : s.flushes[i]? = some f) (f' : Flush) (q : Uuid) :
    (s.setFlush i f').pending q = s.pending q - f.outstanding q + f'.outstanding q := by
  simp only [State.pending, State.setFlush, sum_map_set (Flush.outstanding q) hf f']
  omega

theorem mem_setFlush {s : State} (hg : g ∈ (s.setFlush i f').flushes) : g = f' ∨ g ∈ s.flushes :=
  (List.mem_or_eq_of_mem_set hg).symm

theorem Conserved.exchange (h : Conserved s) (hf : s.flushes[i]? = some f) (hok : FlushOk f')
    (hn : ∀ e ∈ b, 0 ≤ e.2)
    (ho : ∀ q, RedisHash.count q b + f'.outstanding q = s.buffer.count q + f.outstanding q)
    (lock : Option Nat) : Conserved ({ s with buffer := b, lock := lock }.setFlush i f') := by
  apply h.move (by rfl) (by rfl)
  · intro q
    rw [pending_setFlush (s := { s with buffer := b, lock := lock }) hf]
    have hq := ho q
    simp only [State.pending]
    omega
  · exact hn
  · intro g hg
    rcases mem_setFlush hg with rfl | hg
    · exact hok
    · exact h.flushes g hg
  · exact h.viewing

theorem Conserved.setFlush (h : Conserved s) (hf : s.flushes[i]? = some f) (hok : FlushOk f')
    (ho : ∀ q, f'.outstanding q = f.outstanding q) (lock : Option Nat) :
    Conserved ({ s with lock := lock }.setFlush i f') := by
  apply h.exchange hf hok h.nonneg _ lock
  intro q
  rw [ho]

theorem Conserved.setPhase {f : Flush} {ph : FlushPhase} (h : Conserved s)
    (hf : s.flushes[i]? = some f) (hm : f.phase.isMerging = false) (hm' : ph.isMerging = false) (hok : ph.Ok f)
    (lock : Option Nat) : Conserved ({ s with lock := lock }.setFlush i { f with phase := ph }) := by
  have hnonneg := (h.flushes f (List.mem_of_getElem? hf)).nonneg
  apply h.setFlush hf _ _ lock
  · apply FlushOk.mk
    · exact hnonneg
    · obtain ⟨phase, drain, committed⟩ := f
      cases ph <;> exact hok
  · intro q
    rw [Flush.outstanding_eq hm]
    exact Flush.outstanding_eq (f := { f with phase := ph }) hm' q

theorem Conserved.rename (h : Conserved s) (hf : s.flushes[i]? = some f) (hp : f.phase = .rename)
    (r : Reply) : Conserved (rename s i f r) := by
  have hphase := (h.flushes f (List.mem_of_getElem? hf)).phase
  simp only [hp, FlushPhase.Ok] at hphase
  obtain ⟨hdrain, hcom⟩ := hphase
  simp only [ViewCount.rename]
  split
  · apply h.exchange hf _ _ _ s.lock
    · apply FlushOk.mk
      · exact h.nonneg
      · dsimp only
        split <;> exact hcom
    · exact fun e he => by cases he
    · intro q
      rw [Flush.outstanding_eq (by dsimp only; split <;> rfl), Flush.outstanding_eq (by rw [hp]; rfl)]
      simp [Flush.uncommitted, hcom, hdrain]
  · apply h.setPhase hf (by rw [hp]; rfl) _ _ s.lock
    · split <;> rfl
    · split
      · exact hcom
      · trivial

theorem Conserved.runFlush (h : Conserved s) (hf : s.flushes[i]? = some f)
    (hs : runFlush s i f r = some s') : Conserved s' := by
  have hok := h.flushes f (List.mem_of_getElem? hf)
  have hphase := hok.phase
  simp only [ViewCount.runFlush] at hs
  cases hp : f.phase with
  | acquire =>
    simp only [hp] at hs hphase
    cases hs
    apply h.setPhase hf (by rw [hp]; rfl)
    · split
      · rfl
      · split <;> rfl
    · split
      · trivial
      · split
        · exact hphase
        · trivial
  | rename =>
    simp only [hp] at hs
    cases hs
    exact h.rename hf hp r
  | hgetall =>
    simp only [hp] at hs hphase
    cases hs
    apply h.setPhase hf (by rw [hp]; rfl) _ _ s.lock
    · split
      · rfl
      · split <;> rfl
    · split
      · exact hphase
      · split
        · exact ⟨‹_›, hphase⟩
        · exact ⟨rfl, hphase⟩
  | deleteEmpty =>
    simp only [hp] at hs hphase
    cases hs
    obtain ⟨hdrain, hcom⟩ := hphase
    have hempty : (if r.took then [] else f.drain) = f.drain := by simp [hdrain]
    rw [hempty]
    apply h.setPhase hf (by rw [hp]; rfl) _ _ s.lock
    · split <;> rfl
    · split
      · exact hcom
      · trivial
  | deleteDrain =>
    simp only [hp] at hs hphase
    cases hs
    apply h.setFlush hf _ _ s.lock
    · apply FlushOk.mk
      · dsimp only
        split
        · exact fun e he => by cases he
        · exact hok.nonneg
      · trivial
    · intro q
      rw [Flush.outstanding_eq (by rfl), Flush.outstanding_eq (by rw [hp]; rfl)]
      have hcom : f.committed = true := hphase
      simp only [Flush.uncommitted, hcom, if_true]
  | release raises =>
    simp only [hp] at hs
    cases hs
    apply h.setPhase hf (by rw [hp]; rfl)
    · rfl
    · trivial
  | _ => simp only [hp] at hs; cases hs

theorem Conserved.runMerge (h : Conserved s) (hf : s.flushes[i]? = some f)
    (hs : runMerge s i f = some s') : Conserved s' := by
  have hok := h.flushes f (List.mem_of_getElem? hf)
  have hphase := hok.phase
  simp only [ViewCount.runMerge] at hs
  cases hp : f.phase with
  | mergeRead =>
    simp only [hp] at hs hphase
    cases hs
    apply h.setFlush hf _ _ s.lock
    · exact ⟨hok.nonneg, hok.nonneg, hphase⟩
    · intro q
      rw [Flush.outstanding_eq (f := f) (by rw [hp]; rfl)]
      have hcom : f.committed = false := hphase
      simp [Flush.outstanding, Flush.uncommitted, hcom]
  | merging rest =>
    simp only [hp] at hs hphase
    obtain ⟨hrest, hcom⟩ := hphase
    cases rest with
    | nil =>
      cases hs
      apply h.setFlush hf _ _ s.lock
      · apply FlushOk.mk
        · intro e he
          cases he
        · trivial
      · intro q
        simp [Flush.outstanding, hp]
    | cons e rest =>
      cases hs
      apply h.exchange hf _ _ _ s.lock
      · exact ⟨hok.nonneg, fun e' he' => hrest e' (List.mem_cons_of_mem _ he'), hcom⟩
      · exact RedisHash.hincrby_nonneg h.nonneg (hrest e List.mem_cons_self) e.1
      · intro q
        simp only [Flush.outstanding, hp, RedisHash.count_hincrby, RedisHash.count_cons]
        omega
  | _ => simp only [hp] at hs; cases hs

structure AddsViews (n : Uuid → Int) (db db' : Db) : Prop where
  ids : db'.posts.map Post.id = db.posts.map Post.id
  rows : ∀ p' ∈ db'.posts, ∃ p ∈ db.posts, p'.id = p.id ∧ p'.deletedAt = p.deletedAt ∧
    (p.deletedAt = none → p'.viewCount = p.viewCount + n p.id)

theorem AddsViews.trans (h : AddsViews n db db') (h' : AddsViews m db' db'') :
    AddsViews (fun q => n q + m q) db db'' := by
  apply AddsViews.mk (h'.ids.trans h.ids)
  intro p'' hp''
  obtain ⟨p', hp', hid', hdel', hview'⟩ := h'.rows p'' hp''
  obtain ⟨p, hp, hid, hdel, hview⟩ := h.rows p' hp'
  refine ⟨p, hp, hid'.trans hid, hdel'.trans hdel, ?_⟩
  intro halive
  rw [hview' (hdel.trans halive), hview halive, hid]
  omega

theorem AddsViews.refl (db : Db) : AddsViews (fun _ => 0) db db :=
  ⟨rfl, fun p hp => ⟨p, hp, rfl, rfl, fun _ => (Int.add_zero _).symm⟩⟩

theorem AddsViews.congr (h : AddsViews n db db') (hn : ∀ q, n q = m q) : AddsViews m db db' :=
  (funext hn : n = m) ▸ h

theorem incrementViewCount_addsViews (db : Db) (q : Uuid) (hd : 0 < d) (now : Timestamp) :
    AddsViews (fun q' => if q = q' then d else 0) db
      (PostsRepository.incrementViewCount db q d now).2 := by
  have hposts : (PostsRepository.incrementViewCount db q d now).2.posts =
      Table.update (fun p => p.id == q && (!true || p.deletedAt.isNone))
        (fun p => { { p with viewCount := p.viewCount + d } with updatedAt := now }) db.posts := by
    rw [PostsRepository.incrementViewCount, if_neg (Int.not_le.mpr hd)]
    rfl
  apply AddsViews.mk
  · rw [hposts]
    simp only [Table.update, List.map_map]
    apply List.map_congr_left
    intro p _
    dsimp only [Function.comp]
    split <;> rfl
  · intro p' hp'
    rw [hposts] at hp'
    obtain ⟨p, hp, rfl⟩ := mem_update.mp hp'
    apply Exists.intro p
    apply And.intro hp
    by_cases hq : p.id = q
    · cases hdel : p.deletedAt with
      | none => simp [hq]
      | some t => simp [hq, hdel]
    · simp [hq, Ne.symm hq]

theorem incrementAll_addsViews (now : Timestamp) (db : Db) {fields : RedisHash Uuid}
    (hn : ∀ e ∈ fields, 0 ≤ e.2) :
    AddsViews (fun q => fields.count q) db (incrementAll now db fields) := by
  induction fields generalizing db with
  | nil => exact AddsViews.refl db
  | cons e fields ih =>
    have htail := fun db => ih db fun e' he' => hn e' (List.mem_cons_of_mem _ he')
    have hhead := hn e List.mem_cons_self
    simp only [incrementAll, List.foldl_cons]
    split
    · rename_i hpos
      exact (incrementViewCount_addsViews db e.1 hpos now).trans (htail _)
    · -- a field without views
      have hzero : e.2 = 0 := by omega
      apply (htail db).congr
      intro q
      simp [RedisHash.count_cons, hzero]

theorem postExists_eq {db db' : Db} (h : db'.posts.map Post.id = db.posts.map Post.id) (q : Uuid) :
    postExists db' q = postExists db q := by
  have hany (db : Db) : postExists db q = (db.posts.map Post.id).any (· == q) := by
    simp only [postExists, List.any_map]
    rfl
  rw [hany, hany, h]

theorem Conserved.runTransaction (h : Conserved s) (hf : s.flushes[i]? = some f)
    (hs : runTransaction s i f commits now = some s') : Conserved s' := by
  have hok := h.flushes f (List.mem_of_getElem? hf)
  have hphase := hok.phase
  simp only [ViewCount.runTransaction] at hs
  cases hp : f.phase with
  | transaction fields =>
    simp only [hp] at hs hphase
    obtain ⟨hfields, hcom⟩ := hphase
    split at hs
    · cases hs
      subst hfields
      have hadds := incrementAll_addsViews now s.db hok.nonneg
      have hold (q : Uuid) : f.outstanding q = f.drain.count q := by
        rw [Flush.outstanding_eq (by rw [hp]; rfl), Flush.uncommitted, if_neg (by simp [hcom])]
      have hpend (q : Uuid) : (({ s with db := incrementAll now s.db f.drain } : State).setFlush i
          { f with phase := .deleteDrain, committed := true }).pending q =
          s.pending q - f.drain.count q := by
        rw [pending_setFlush (s := { s with db := incrementAll now s.db f.drain }) hf, hold]
        simp [Flush.outstanding, State.pending]
      refine ⟨?_, ?_, ?_, h.nonneg, ?_, ?_⟩
      · exact (congrArg List.Nodup hadds.ids).mpr h.keyed
      · intro p' hp' halive
        obtain ⟨p, hmem, hid, hdel, hview⟩ := hadds.rows p' hp'
        have hcons := h.conserved p hmem (hdel.symm.trans halive)
        rw [hpend, hview (hdel.symm.trans halive), hid]
        dsimp only [State.setFlush]
        omega
      · intro q hq
        obtain ⟨hzero, hcount⟩ := h.absent q ((postExists_eq hadds.ids q).symm.trans hq)
        have hle := h.outstanding_le (List.mem_of_getElem? hf) q
        have hnonneg := RedisHash.count_nonneg hok.nonneg q
        rw [hold] at hle
        rw [hpend]
        exact ⟨by omega, hcount⟩
      · intro g hg
        rcases mem_setFlush hg with rfl | hg
        · exact ⟨hok.nonneg, rfl⟩
        · exact h.flushes g hg
      · intro v q hv
        exact (postExists_eq hadds.ids q).trans (h.viewing v q hv)
    · cases hs
      apply h.setPhase hf (by rw [hp]; rfl) _ _ s.lock
      · rfl
      · exact hcom
  | _ => simp only [hp] at hs; cases hs

theorem addView_pending (s : State) (q q' : Uuid) :
    (s.addView q).pending q' = s.pending q' + if q = q' then 1 else 0 := by
  simp only [State.pending, State.addView, RedisHash.count_hincrby]
  omega

theorem addView_counted (s : State) (q q' : Uuid) :
    (s.addView q).counted q' = s.counted q' + if q = q' then 1 else 0 := by
  simp only [State.addView, Function.update_apply]
  by_cases hq : q' = q
  · simp [hq]
  · simp [hq, Ne.symm hq]

theorem Conserved.addView (h : Conserved s) (hq : postExists s.db q = true) (v : Nat) (n : Int) :
    Conserved ((s.addView q).setViewer v (.done n)) := by
  refine ⟨h.keyed, ?_, ?_, RedisHash.hincrby_nonneg h.nonneg (by decide) q, h.flushes, ?_⟩
  · intro p hp halive
    have hcons := h.conserved p hp halive
    have hpend := addView_pending s q p.id
    have hcount := addView_counted s q p.id
    simp only [State.setViewer, State.pending] at hpend hcount hcons ⊢
    omega
  · intro q' hq'
    have hne : q ≠ q' := by
      rintro rfl
      exact Bool.noConfusion (hq'.symm.trans hq)
    have hpend := addView_pending s q q'
    have hcount := addView_counted s q q'
    obtain ⟨hzero, hzero'⟩ := h.absent q' hq'
    rw [if_neg hne, Int.add_zero] at hpend hcount
    exact ⟨hpend.trans hzero, hcount.trans hzero'⟩
  · intro w q' hw
    simp only [State.setViewer, Function.update_apply] at hw
    split at hw
    · cases hw
    · exact h.viewing w q' hw

theorem Conserved.setViewer (h : Conserved s) (dedup : KeyValue String) (v : Nat)
    (hph : ∀ q, ph = .count q → postExists s.db q = true) :
    Conserved ({ s with dedup := dedup }.setViewer v ph) := by
  apply h.move (by rfl) (by rfl)
  · exact fun _ => rfl
  · exact h.nonneg
  · exact h.flushes
  intro w q hw
  simp only [State.setViewer, Function.update_apply] at hw
  split at hw
  · exact hph q hw
  · exact h.viewing w q hw

theorem Conserved.trackView {viewerKey : String} (h : Conserved s)
    (hs : trackView c s v q viewerKey = some s') : Conserved s' := by
  simp only [ViewCount.trackView] at hs
  split at hs
  · split at hs
    · rename_i hq
      split at hs
      · cases hs
        exact h.addView hq v _
      · split at hs
        · cases hs
          apply h.setViewer
          rintro q' ⟨⟩
          exact hq
        · cases hs
          exact h.setViewer s.dedup v fun q' hq' => by cases hq'
    · cases hs
  · cases hs

theorem Conserved.runView (h : Conserved s) (hs : runView s v = some s') : Conserved s' := by
  simp only [ViewCount.runView] at hs
  split at hs
  · rename_i q hv
    cases hs
    exact h.addView (h.viewing v q hv) v _
  · cases hs
    exact h.setViewer s.dedup v fun q' hq' => by cases hq'
  · cases hs

theorem Conserved.environment (h : Conserved s) (hk : keepsViews s.db db = true) :
    Conserved { s with db := db } := by
  simp only [keepsViews, Bool.and_eq_true, decide_eq_true_eq, List.all_eq_true] at hk
  obtain ⟨⟨hkeyed, hstay⟩, hviews⟩ := hk
  have hexists (q : Uuid) (hq : postExists s.db q = true) : postExists db q = true := by
    obtain ⟨p, hp, hid⟩ := List.any_eq_true.mp hq
    exact eq_of_beq hid ▸ hstay p hp
  refine ⟨hkeyed, ?_, ?_, h.nonneg, h.flushes, fun v q hv => hexists q (h.viewing v q hv)⟩
  · intro p hp halive
    have hp' := hviews p hp
    simp only [halive, Option.isSome_none, Bool.false_or] at hp'
    split at hp'
    · -- a new post
      rename_i hnone
      have habsent : postExists s.db p.id = false := by
        simpa [postExists, List.find?_eq_none] using hnone
      obtain ⟨hzero, hzero'⟩ := h.absent p.id habsent
      have hpend : s.pending p.id = s.counted p.id := hzero.trans hzero'.symm
      rw [eq_of_beq hp', Int.zero_add]
      exact hpend
    · rename_i q hq
      simp only [Bool.and_eq_true, beq_iff_eq, Option.isNone_iff_eq_none] at hp'
      have hid : q.id = p.id := by simpa using List.find?_some hq
      have hcons := h.conserved q (List.mem_of_find?_eq_some hq) hp'.1
      rw [hid, hp'.2] at hcons
      exact hcons
  · intro q hq
    apply h.absent q
    by_contra hne
    rw [Bool.not_eq_false] at hne
    exact Bool.noConfusion (hq.symm.trans (hexists q hne))

theorem Conserved.step (h : Conserved s) (hs : ViewCount.step c s a = some s') : Conserved s' := by
  cases a with
  | environment db =>
    simp only [ViewCount.step] at hs
    split at hs
    · rename_i hk
      cases hs
      exact h.environment hk
    · cases hs
  | lockExpired =>
    cases hs
    exact ⟨h.keyed, h.conserved, h.absent, h.nonneg, h.flushes, h.viewing⟩
  | dedupExpired key =>
    cases hs
    exact ⟨h.keyed, h.conserved, h.absent, h.nonneg, h.flushes, h.viewing⟩
  | view v postId viewerKey => exact h.trackView hs
  | runView v => exact h.runView hs
  | flush =>
    cases hs
    apply h.move (by rfl) (by rfl)
    · intro q
      simp [State.pending, Flush.new, Flush.outstanding]
    · exact h.nonneg
    · intro f hf
      rcases List.mem_append.mp hf with hf | hf
      · exact h.flushes f hf
      · cases List.mem_singleton.mp hf
        apply FlushOk.mk
        · intro e he
          cases he
        · exact ⟨rfl, rfl⟩
    · exact h.viewing
  | runFlush i r =>
    obtain ⟨f, hf, hs⟩ := Option.bind_eq_some_iff.mp hs
    exact h.runFlush hf hs
  | runTransaction i commits now =>
    obtain ⟨f, hf, hs⟩ := Option.bind_eq_some_iff.mp hs
    exact h.runTransaction hf hs
  | runMerge i =>
    obtain ⟨f, hf, hs⟩ := Option.bind_eq_some_iff.mp hs
    exact h.runMerge hf hs

theorem conserved_init (hk : Keyed Post.id db.posts) : Conserved (State.init db) := by
  refine ⟨hk, ?_, ?_, fun e he => (nomatch he), fun f hf => (nomatch hf),
    fun v q hv => (nomatch hv)⟩
  · intro p hp _
    have hfind : db.posts.find? (·.id == p.id) = some p :=
      hk.find_eq_some (i := p.id) (fun _ hq => eq_of_beq hq) hp (beq_self_eq_true _)
    simp [State.init, State.pending, storedViews, hfind]
  · intro q hq
    have hfind : db.posts.find? (·.id == q) = none := by
      simpa [postExists, List.find?_eq_none, State.init] using hq
    simp [State.init, State.pending, storedViews, hfind]

/-- Whenever no merge is half done the stored views of a post that is not deleted, its buffered views
and those under uncommitted drain keys add up to the views counted. -/
theorem view_count_conserved (c : Config) (hk : Keyed Post.id db.posts)
    (hrun : exec (step c) (State.init db) as = some s) (hp : p ∈ s.db.posts)
    (halive : p.deletedAt = none) (hmerge : ∀ f ∈ s.flushes, f.phase.isMerging = false) :
    p.viewCount + s.buffer.count p.id + (s.flushes.map (Flush.uncommitted p.id)).sum =
      s.counted p.id := by
  have h : Conserved s := exec_invariant' Conserved.step (conserved_init hk) hrun
  have hcons := h.conserved p hp halive
  have hsum : s.flushes.map (Flush.outstanding p.id) = s.flushes.map (Flush.uncommitted p.id) :=
    List.map_congr_left fun f hf => Flush.outstanding_eq (hmerge f hf) p.id
  rw [State.pending, hsum] at hcons
  omega

def samplePost : Post where
  id := 1
  userId := some 10
  title := "산책"
  content := "오늘 산책 다녀왔어요"
  categoryId := none
  viewCount := 3
  likeCount := 0
  commentCount := 0
  reportCount := 0
  isBlinded := false
  createdAt := 0
  updatedAt := 0
  deletedAt := none
  version := 1

/-- Two views, a pass whose rename raises after its effect and that merges back, and a second pass
that commits and whose last delete raises. -/
def faultyRun : List Label :=
  [.view 0 1 "a", .runView 0, .view 1 1 "b", .runView 1,
   .flush, .runFlush 0 .ok, .runFlush 0 .raisedAfter, .runMerge 0, .runMerge 0, .runMerge 0,
   .runFlush 0 .ok,
   .flush, .runFlush 1 .ok, .runFlush 1 .ok, .runFlush 1 .ok, .runTransaction 1 true 5,
   .runFlush 1 .raised, .runFlush 1 .raisedAfter]

theorem view_count_conserved_faultyRun :
    ∃ s p, exec (step ⟨60⟩) (State.init { posts := [samplePost] }) faultyRun = some s ∧
      s.db.posts = [p] ∧ p.viewCount = 5 ∧ s.counted 1 = 5 ∧
      p.viewCount + s.buffer.count p.id + (s.flushes.map (Flush.uncommitted p.id)).sum =
        s.counted p.id := by
  have hrun : ∃ s p, exec (step ⟨60⟩) (State.init { posts := [samplePost] }) faultyRun = some s ∧
      s.db.posts = [p] ∧ p.viewCount = 5 ∧ s.counted 1 = 5 ∧ p.deletedAt = none ∧
      s.flushes.all (fun f => !f.phase.isMerging) = true :=
    ⟨_, _, rfl, rfl, rfl, rfl, rfl, rfl⟩
  obtain ⟨s, p, he, hposts, hviews, hcount, halive, hmerge⟩ := hrun
  have hkeyed : Keyed Post.id [samplePost] := List.nodup_singleton _
  have hp : p ∈ s.db.posts := hposts ▸ List.mem_singleton_self p
  exact ⟨s, p, he, hposts, hviews, hcount,
    view_count_conserved ⟨60⟩ hkeyed he hp halive (by simpa using hmerge)⟩

end PuppyTalk.ViewCount
