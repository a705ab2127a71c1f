import PuppyTalk.ViewCountConservation

namespace PuppyTalk.ViewCount

open Table

/-- The views in the database, in the buffer and under the drain keys. A drain key is the number of
the pass that drew it, and a key that has been deleted holds the empty hash. -/
structure Views where
  db : Db
  buffer : RedisHash Uuid
  drains : List (RedisHash Uuid)

namespace Views

def hgetall (s : Views) (key : Nat) : RedisHash Uuid := (s.drains[key]?).getD []

def delete (s : Views) (key : Nat) : Views := { s with drains := s.drains.set key [] }

/-- `rename_if_exists` of the buffer to a new drain key. -/
def renameIfExists (s : Views) : Bool × Views :=
  if s.buffer = [] then (false, s)
  else (true, { s with buffer := [], drains := s.drains ++ [s.buffer] })

/-- A `flush_view_counts_to_db` in which nothing fails. -/
def flush (s : Views) (now : Timestamp) : Views :=
  let drainKey := s.drains.length
  match s.renameIfExists with
  | (false, s) => s
  | (true, s) =>
    let fields := s.hgetall drainKey
    if fields = [] then s.delete drainKey
    else { s with db := incrementAll now s.db fields }.delete drainKey

/-- The loop of `merge_hash_into`; the `n`-th command gets the `n`-th reply, and the first one that
fails ends the loop. The number of the next command comes back. -/
def mergeFields (reply : Nat → Reply) : Nat → RedisHash Uuid → RedisHash Uuid →
    Option Nat × RedisHash Uuid
  | n, [], dst => (some n, dst)
  | n, e :: fields, dst =>
    let dst := if (reply n).took then dst.hincrby e.1 e.2 else dst
    if (reply n).failed then (none, dst) else mergeFields reply (n + 1) fields dst

/-- `merge_hash_into` of a drain key into the buffer, and whether it raises. -/
def mergeHashInto (s : Views) (src : Nat) (reply : Nat → Reply) : Bool × Views :=
  let fields := s.hgetall src
  if (reply 0).failed then (true, s)
  else
    match mergeFields reply 1 fields s.buffer with
    | (none, buffer) => (true, { s with buffer := buffer })
    | (some n, buffer) =>
      let s := { s with buffer := buffer }
      ((reply n).failed, if (reply n).took then s.delete src else s)

def leftInLoop (reply : Nat → Reply) : Nat → RedisHash Uuid → RedisHash Uuid
  | _, [] => []
  | n, e :: fields =>
    if (reply n).failed then if (reply n).took then fields else e :: fields
    else leftInLoop reply (n + 1) fields

def left (s : Views) (src : Nat) (reply : Nat → Reply) : RedisHash Uuid :=
  if (reply 0).failed then s.hgetall src else leftInLoop reply 1 (s.hgetall src)

end Views

inductive Later where
  | view (postId : Uuid)
  | flush (now : Timestamp)
  deriving DecidableEq, Repr

def Later.run (s : Views) : Later → Views
  | .view postId => { s with buffer := s.buffer.hincrby postId 1 }
  | .flush now => s.flush now

def Later.views (q : Uuid) : Later → Int
  | .view postId => if postId = q then 1 else 0
  | .flush _ => 0

/-- Every live post has received what the buffer and the drain key held, and the views since, once
the last pass is over. -/
def Received (s t : Views) (src : Nat) : Prop :=
  ∀ (later : List Later) (now : Timestamp), ∀ p ∈ s.db.posts, p.deletedAt = none →
    ∃ p' ∈ ((later.foldl Later.run t).flush now).db.posts, p'.id = p.id ∧
      p'.viewCount = p.viewCount + (s.buffer.count p.id + (s.hgetall src).count p.id) +
        (later.map (Later.views p.id)).sum

section Flush

variable {s : Views}

theorem Views.flush_eq (s : Views) (now : Timestamp) :
    (s.flush now).db = incrementAll now s.db s.buffer ∧ (s.flush now).buffer = [] := by
  unfold Views.flush Views.renameIfExists
  by_cases hempty : s.buffer = []
  · simp only [hempty, if_true, and_true]
    rfl
  · have hget : Views.hgetall { s with buffer := [], drains := s.drains ++ [s.buffer] }
        s.drains.length = s.buffer := by
      simp [Views.hgetall]
    simp only [if_neg hempty, hget]
    exact ⟨rfl, rfl⟩

/-- The views that have reached the database since `db`, those in the buffer, and no negative
counts. -/
structure Account (db : Db) (total : Uuid → Int) (s : Views) : Prop where
  adds : ∃ n, AddsViews n db s.db ∧ ∀ q, n q + s.buffer.count q = total q
  nonneg : ∀ e ∈ s.buffer, 0 ≤ e.2

theorem Account.view (h : Account db total s) (postId : Uuid) :
    Account db (fun q => total q + (Later.view postId).views q) ((Later.view postId).run s) := by
  obtain ⟨n, hn, htotal⟩ := h.adds
  refine ⟨⟨n, hn, fun q => ?_⟩, RedisHash.hincrby_nonneg h.nonneg (by decide) postId⟩
  have hq := htotal q
  simp only [Later.run, Later.views, RedisHash.count_hincrby]
  omega

theorem Account.flush (h : Account db total s) (now : Timestamp) :
    Account db total (s.flush now) := by
  obtain ⟨n, hn, htotal⟩ := h.adds
  obtain ⟨hdb, hbuffer⟩ := s.flush_eq now
  refine ⟨⟨_, hdb ▸ hn.trans (incrementAll_addsViews now s.db h.nonneg), fun q => ?_⟩, ?_⟩
  · rw [hbuffer, RedisHash.count_nil, Int.add_zero]
    exact htotal q
  · rw [hbuffer]
    nofun

theorem Account.later (h : Account db total s) (later : List Later) :
    Account db (fun q => total q + (later.map (Later.views q)).sum) (later.foldl Later.run s) := by
  induction later generalizing s total with
  | nil => simpa using h
  | cons a later ih =>
    have hstep : Account db (fun q => total q + a.views q) (a.run s) := by
      cases a with
      | view postId => exact h.view postId
      | flush now =>
        simp only [Later.views, Int.add_zero]
        exact h.flush now
    have hrest := ih hstep
    simp only [List.map_cons, List.sum_cons, List.foldl_cons, ← Int.add_assoc]
    exact hrest

theorem Account.keyed (h : Account db total s) (hids : Keyed Post.id db.posts) :
    Keyed Post.id s.db.posts := by
  obtain ⟨n, hn, -⟩ := h.adds
  unfold Keyed
  rw [hn.ids]
  exact hids

theorem Account.row (h : Account db total s) (hids : Keyed Post.id db.posts)
    (hbuffer : s.buffer = []) (hp : p ∈ db.posts) (hlive : p.deletedAt = none) :
    ∃ p' ∈ s.db.posts, p'.id = p.id ∧ p'.viewCount = p.viewCount + total p.id := by
  obtain ⟨n, hn, htotal⟩ := h.adds
  have hmem : p.id ∈ s.db.posts.map Post.id := hn.ids ▸ List.mem_map_of_mem hp
  obtain ⟨p', hp', hid⟩ := List.mem_map.mp hmem
  obtain ⟨p₀, hp₀, hid₀, -, hview⟩ := hn.rows p' hp'
  obtain rfl := hids.eq hp₀ hp (hid₀.symm.trans hid)
  have hq := htotal p₀.id
  rw [hbuffer, RedisHash.count_nil, Int.add_zero] at hq
  exact ⟨p', hp', hid, by rw [hview hlive, hq]⟩

end Flush

section Merge

variable (reply : Nat → Reply)

theorem mergeFields_count (n : Nat) (fields dst : RedisHash Uuid) (q : Uuid) :
    (Views.mergeFields reply n fields dst).2.count q + (Views.leftInLoop reply n fields).count q =
      dst.count q + fields.count q := by
  induction fields generalizing n dst with
  | nil => rfl
  | cons e fields ih =>
    simp only [Views.mergeFields, Views.leftInLoop]
    cases hr : reply n with
    | ok =>
      have hih := ih (n + 1) (dst.hincrby e.1 e.2)
      simp only [RedisHash.count_hincrby] at hih
      simp only [Reply.took_ok, Reply.failed_ok, if_true, Bool.false_eq_true, if_false,
        RedisHash.count_cons]
      omega
    | raised =>
      simp [Reply.took, Reply.failed]
    | raisedAfter =>
      simp only [Reply.took, Reply.failed, ne_eq, reduceCtorEq, not_false_eq_true, decide_true,
        if_true, RedisHash.count_hincrby, RedisHash.count_cons]
      omega

theorem mergeFields_nonneg (n : Nat) (fields dst : RedisHash Uuid) (hf : ∀ e ∈ fields, 0 ≤ e.2)
    (hd : ∀ e ∈ dst, 0 ≤ e.2) : ∀ e ∈ (Views.mergeFields reply n fields dst).2, 0 ≤ e.2 := by
  induction fields generalizing n dst with
  | nil => exact hd
  | cons e fields ih =>
    have hdst : ∀ e' ∈ (if (reply n).took then dst.hincrby e.1 e.2 else dst), 0 ≤ e'.2 := by
      split
      · exact RedisHash.hincrby_nonneg hd (hf e List.mem_cons_self) e.1
      · exact hd
    simp only [Views.mergeFields]
    split
    · exact hdst
    · exact ih (n + 1) _ (fun e' he' => hf e' (List.mem_cons_of_mem _ he')) hdst

theorem mergeHashInto_account (s : Views) (src : Nat) (reply : Nat → Reply)
    (hb : ∀ e ∈ s.buffer, 0 ≤ e.2) (hd : ∀ e ∈ s.hgetall src, 0 ≤ e.2) :
    Account s.db
      (fun q => s.buffer.count q + (s.hgetall src).count q - (s.left src reply).count q)
      (s.mergeHashInto src reply).2 := by
  have hcount := mergeFields_count reply 1 (s.hgetall src) s.buffer
  have hnonneg := mergeFields_nonneg reply 1 (s.hgetall src) s.buffer hd hb
  unfold Views.mergeHashInto Views.left
  by_cases h0 : (reply 0).failed = true
  · simp only [h0, if_true]
    exact ⟨⟨_, AddsViews.refl s.db, fun q => by omega⟩, hb⟩
  · simp only [h0, Bool.false_eq_true, if_false]
    cases hm : Views.mergeFields reply 1 (s.hgetall src) s.buffer with
    | mk next buffer =>
      rw [hm] at hcount hnonneg
      have hkeep : ∀ t : Views, t.db = s.db → t.buffer = buffer → Account s.db
          (fun q => s.buffer.count q + (s.hgetall src).count q -
            (Views.leftInLoop reply 1 (s.hgetall src)).count q) t := by
        intro t hdb hbuffer
        have hrefl : AddsViews (fun _ => 0) s.db t.db := by
          rw [hdb]
          exact AddsViews.refl s.db
        refine ⟨⟨_, hrefl, fun q => ?_⟩, hbuffer ▸ hnonneg⟩
        have hq := hcount q
        rw [hbuffer]
        dsimp only at hq
        omega
      cases next with
      | none => exact hkeep _ rfl rfl
      | some n =>
        dsimp only
        split
        · exact hkeep _ rfl rfl
        · exact hkeep _ rfl rfl

/-- A merge loses what it leaves: nobody reads the drain key again. So the views arrive once each
exactly if no view of a live post is left. -/
theorem received_iff (s : Views) (hids : Keyed Post.id s.db.posts) (src : Nat)
    (hb : ∀ e ∈ s.buffer, 0 ≤ e.2) (hd : ∀ e ∈ s.hgetall src, 0 ≤ e.2) (reply : Nat → Reply) :
    Received s (s.mergeHashInto src reply).2 src ↔
      ∀ p ∈ s.db.posts, p.deletedAt = none → (s.left src reply).count p.id = 0 := by
  have haccount := mergeHashInto_account s src reply hb hd
  constructor
  · intro h p hp hlive
    -- a pass right after the merge shows what has come over
    obtain ⟨p', hp', hid, hview⟩ := h [] 0 p hp hlive
    have hflush := haccount.flush 0
    obtain ⟨p₀, hp₀, hid₀, hview₀⟩ := hflush.row hids (Views.flush_eq _ 0).2 hp hlive
    have hsame : p' = p₀ := (hflush.keyed hids).eq hp' hp₀ (hid.trans hid₀.symm)
    rw [hsame, hview₀, List.map_nil, List.sum_nil] at hview
    omega
  · intro h later now p hp hlive
    have hflush := (haccount.later later).flush now
    obtain ⟨p', hp', hid, hview⟩ := hflush.row hids (Views.flush_eq _ now).2 hp hlive
    refine ⟨p', hp', hid, hview.trans ?_⟩
    have hzero := h p hp hlive
    omega

end Merge

section Sample

def drained : Views where
  db := { posts := [samplePost] }
  buffer := []
  drains := [[(1, 3)]]

def refused : Nat → Reply
  | 1 => .raised
  | _ => .ok

/-- The three views stay under the drain key for good: the merge raises, and no later pass brings
them to the database. -/
theorem received_diverges :
    (drained.mergeHashInto 0 refused).1 = true ∧
      ¬ Received drained (drained.mergeHashInto 0 refused).2 0 := by
  refine ⟨rfl, fun h => ?_⟩
  obtain ⟨p', hp', -, hview⟩ := h [] 0 samplePost List.mem_cons_self rfl
  cases List.mem_singleton.mp hp'
  exact absurd hview (by decide)

def undeleted : Nat → Reply
  | 2 => .raised
  | _ => .ok

theorem received_iff_drained :
    (drained.mergeHashInto 0 undeleted).1 = true ∧
      Received drained (drained.mergeHashInto 0 undeleted).2 0 := by
  refine ⟨rfl, (received_iff drained (by decide) 0 nofun ?_ undeleted).mpr fun _ _ _ => rfl⟩
  decide

end Sample

end PuppyTalk.ViewCount
