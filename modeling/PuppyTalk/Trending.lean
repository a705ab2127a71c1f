import PuppyTalk.MediaRepository
import PuppyTalk.Paging
import PuppyTalk.PostsRepository
import Mathlib.Data.List.Infix
import Mathlib.Data.Prod.Lex

namespace PuppyTalk

namespace PostsRepository

/-- What PostgreSQL computes of the score, for any arithmetic `value` of its numbers:
`(2 likes + 0.1 views + comments) / (age in hours + 2) ^ 1.0`. -/
def decayScore (value : ℚ → K) (now : Timestamp) (p : Post) : K :=
  let ageHours : ℚ := ((now - p.createdAt : Int) : ℚ) / 1000000 / 3600
  value ((p.likeCount * 2 + p.viewCount * (1 / 10) + p.commentCount * 1) / (ageHours + 2) ^ 1)

def trendingCondition (db : Db) (now : Timestamp) (windowHours : Option Int)
    (categoryId : Option Nat) (currentUserId : Option Uuid) (p : Post) : Bool :=
  postVisible db currentUserId p &&
    windowHours.all (fun h => decide (now - hours h ≤ p.createdAt)) &&
    categoryId.all (fun c => p.categoryId == some c)

variable {K : Type} [LinearOrder K]

/-- `score.desc(), id.desc()`. -/
def decayKey (value : ℚ → K) (now : Timestamp) (p : Post) : K ×ₗ Uuid :=
  toLex (decayScore value now p, p.id)

/-- `like_count.desc(), comment_count.desc(), id.desc()`. -/
def likeKey (p : Post) : Int ×ₗ Int ×ₗ Uuid := toLex (p.likeCount, toLex (p.commentCount, p.id))

def trendingOrder (value : ℚ → K) (now : Timestamp) (useTimeDecay : Bool) (rows : List Post) :
    List Post :=
  if useTimeDecay then Paging.orderBy (· > ·) (decayKey value now) rows
  else Paging.orderBy (· > ·) likeKey rows

def getTrendingPosts (value : ℚ → K) (db : Db) (now : Timestamp) (windowHours : Option Int)
    (categoryId : Option Nat) (currentUserId : Option Uuid) (limit : Nat) (useTimeDecay : Bool) :
    List Post :=
  (trendingOrder value now useTimeDecay
    (db.posts.filter (trendingCondition db now windowHours categoryId currentUserId))).take limit

def getBlockedAuthorIds (db : Db) (blockerId : Uuid) : List Uuid :=
  (db.userBlocks.filter fun b => b.blockerId == blockerId).map (·.blockedId)

end PostsRepository

namespace TrendingPostService

open PostsRepository (decayKey likeKey trendingCondition trendingOrder getTrendingPosts getBlockedAuthorIds
  postVisible)

def windowHours : Int := 24

def minPostsForTimeDecay : Nat := 3

def fallbackWindowHours : Int := 24 * 7

def maxLimit : Nat := 10

def poolSize : Nat := maxLimit * 3

structure TrendingCacheItem where
  id : Uuid
  title : String
  categoryId : Option Nat
  commentCount : Int
  likeCount : Int
  viewCount : Int
  authorId : Option Uuid
  deriving DecidableEq, Repr

structure TrendingPostResponse where
  id : Uuid
  title : String
  categoryId : Option Nat
  commentCount : Int
  likeCount : Int
  viewCount : Int
  deriving DecidableEq, Repr

def TrendingCacheItem.ofPost (p : Post) : TrendingCacheItem where
  id := p.id
  title := p.title
  categoryId := p.categoryId
  commentCount := p.commentCount
  likeCount := p.likeCount
  viewCount := p.viewCount
  authorId := p.userId

def TrendingCacheItem.response (it : TrendingCacheItem) : TrendingPostResponse where
  id := it.id
  title := it.title
  categoryId := it.categoryId
  commentCount := it.commentCount
  likeCount := it.likeCount
  viewCount := it.viewCount

section Pool
variable {K : Type} [LinearOrder K] (value : ℚ → K) (db : Db) (now : Timestamp)
  (categoryId : Option Nat)

def computePool : List TrendingCacheItem :=
  let posts := getTrendingPosts value db now (some windowHours) categoryId none poolSize true
  let posts := if posts.length < minPostsForTimeDecay then
      getTrendingPosts value db now (some fallbackWindowHours) categoryId none poolSize false
    else posts
  let posts := if posts.length = 0 then
      getTrendingPosts value db now none categoryId none poolSize false
    else posts
  posts.map .ofPost

/-- `get_trending_posts` with a pool that is computed in the same state. -/
def getTrendingPosts (currentUserId : Option Uuid) (limit : Nat) : List TrendingPostResponse :=
  let pool := computePool value db now categoryId
  let pool := match currentUserId with
    | none => pool
    | some viewer =>
      if pool.isEmpty then pool
      else
        let blocked := getBlockedAuthorIds db viewer
        if blocked.isEmpty then pool
        else pool.filter fun it => it.authorId.all fun author => !blocked.contains author
  (pool.take limit).map TrendingCacheItem.response

structure Stage where
  windowHours : Option Int
  useTimeDecay : Bool

def ranking (currentUserId : Option Uuid) (stage : Stage) : List Post :=
  trendingOrder value now stage.useTimeDecay
    (db.posts.filter (trendingCondition db now stage.windowHours categoryId currentUserId))

def stage : Stage :=
  if minPostsForTimeDecay ≤ (ranking value db now categoryId none ⟨some windowHours, true⟩).length then
    ⟨some windowHours, true⟩
  else if ranking value db now categoryId none ⟨some fallbackWindowHours, false⟩ ≠ [] then
    ⟨some fallbackWindowHours, false⟩
  else ⟨none, false⟩

variable {value db now categoryId}

theorem computePool_eq : computePool value db now categoryId =
    ((ranking value db now categoryId none (stage value db now categoryId)).take poolSize).map .ofPost := by
  have hquery (w : Option Int) (decay : Bool) :
      PostsRepository.getTrendingPosts value db now w categoryId none poolSize decay =
        (ranking value db now categoryId none ⟨w, decay⟩).take poolSize := rfl
  have hempty (st : Stage) : ((ranking value db now categoryId none st).take poolSize).length = 0 ↔
      ranking value db now categoryId none st = [] := by
    rw [List.length_take, ← List.length_eq_zero_iff]
    have : poolSize = 30 := rfl
    omega
  have hfew : ((ranking value db now categoryId none ⟨some windowHours, true⟩).take poolSize).length <
      minPostsForTimeDecay ↔ ¬ minPostsForTimeDecay ≤
        (ranking value db now categoryId none ⟨some windowHours, true⟩).length := by
    rw [List.length_take]
    have : poolSize = 30 ∧ minPostsForTimeDecay = 3 := ⟨rfl, rfl⟩
    omega
  simp only [computePool, hquery, stage]
  by_cases hmin : minPostsForTimeDecay ≤
      (ranking value db now categoryId none ⟨some windowHours, true⟩).length
  · have hsome : ¬ ((ranking value db now categoryId none ⟨some windowHours, true⟩).take poolSize).length =
        0 := by
      rw [hempty]
      intro hnil
      rw [hnil] at hmin
      exact absurd hmin (by decide)
    simp only [hfew, hmin, not_true_eq_false, if_false, if_true, hsome]
  · by_cases hweek : ranking value db now categoryId none ⟨some fallbackWindowHours, false⟩ = []
    · have hnone := (hempty ⟨some fallbackWindowHours, false⟩).mpr hweek
      simp only [hfew, hmin, not_false_eq_true, if_true, if_false, hnone]
      rw [if_neg (not_not.mpr hweek)]
    · simp only [hfew, hmin, not_false_eq_true, if_true, if_false, hempty, hweek, ne_eq]

theorem trendingOrder_filter {rows : List Post} (hrows : Table.Keyed Post.id rows) (decay : Bool)
    (p : Post → Bool) :
    trendingOrder value now decay (rows.filter p) = (trendingOrder value now decay rows).filter p := by
  have hkeys {κ : Type} (key : Post → κ) (hid : ∀ a b, key a = key b → a.id = b.id) :
      (rows.map key).Nodup := by
    refine List.pairwise_map.mpr ((List.pairwise_map.mp hrows).imp ?_)
    exact fun hne he => hne (hid _ _ he)
  cases decay with
  | true =>
    refine Paging.orderBy_filter (· > ·) (hkeys (decayKey value now) fun a b he => ?_) p
    exact congrArg (fun k => (ofLex k).2) he
  | false =>
    refine Paging.orderBy_filter (· > ·) (hkeys likeKey fun a b he => ?_) p
    exact congrArg (fun k => (ofLex (ofLex k).2).2) he

theorem ranking_viewer (hposts : Table.Keyed Post.id db.posts) (viewer : Option Uuid) (st : Stage) :
    ranking value db now categoryId viewer st =
      (ranking value db now categoryId none st).filter fun p => authorNotBlocked db p.userId viewer := by
  have hcond : db.posts.filter (trendingCondition db now st.windowHours categoryId viewer) =
      (db.posts.filter (trendingCondition db now st.windowHours categoryId none)).filter
        fun p => authorNotBlocked db p.userId viewer := by
    rw [List.filter_filter]
    refine List.filter_congr fun p _ => ?_
    simp only [trendingCondition, postVisible, authorNotBlocked, Bool.and_true]
    rw [Bool.eq_iff_iff]
    simp only [Bool.and_eq_true]
    tauto
  rw [ranking, hcond]
  exact trendingOrder_filter (hposts.sublist (List.filter_sublist.map _)) st.useTimeDecay _

theorem authorNotBlocked_eq (viewer : Uuid) (author : Option Uuid) :
    authorNotBlocked db author (some viewer) =
      author.all fun a => !(getBlockedAuthorIds db viewer).contains a := by
  cases author with
  | none => simp [authorNotBlocked]
  | some a =>
    refine congrArg (!·) ?_
    rw [Bool.eq_iff_iff, List.any_eq_true, List.contains_iff_mem, getBlockedAuthorIds, List.mem_map]
    constructor
    · rintro ⟨b, hb, hcond⟩
      obtain ⟨hblocker, hblocked⟩ := Bool.and_eq_true_iff.mp hcond
      exact ⟨b, List.mem_filter.mpr ⟨hb, hblocker⟩, (Option.some.inj (eq_of_beq hblocked)).symm⟩
    · rintro ⟨b, hb, rfl⟩
      obtain ⟨hb, hblocker⟩ := List.mem_filter.mp hb
      exact ⟨b, hb, Bool.and_eq_true_iff.mpr ⟨hblocker, beq_self_eq_true _⟩⟩

theorem getTrendingPosts_eq (viewer : Option Uuid) (limit : Nat) :
    getTrendingPosts value db now categoryId viewer limit =
      ((((ranking value db now categoryId none (stage value db now categoryId)).take poolSize).filter
        fun p => authorNotBlocked db p.userId viewer).take limit).map
          fun p => (TrendingCacheItem.ofPost p).response := by
  simp only [getTrendingPosts, computePool_eq]
  generalize (ranking value db now categoryId none (stage value db now categoryId)).take poolSize = rows
  cases viewer with
  | none =>
    simp only [authorNotBlocked, List.filter_true, ← List.map_take, List.map_map]
    rfl
  | some viewer =>
    have hoverlay : (if (rows.map TrendingCacheItem.ofPost).isEmpty then rows.map TrendingCacheItem.ofPost
        else if (getBlockedAuthorIds db viewer).isEmpty then rows.map TrendingCacheItem.ofPost
        else (rows.map TrendingCacheItem.ofPost).filter fun it =>
          it.authorId.all fun author => !(getBlockedAuthorIds db viewer).contains author) =
        (rows.filter fun p => authorNotBlocked db p.userId (some viewer)).map .ofPost := by
      simp only [authorNotBlocked_eq]
      split
      · rename_i hnil
        rw [List.isEmpty_iff, List.map_eq_nil_iff] at hnil
        rw [hnil]
        rfl
      · split
        · rename_i hnone
          rw [List.isEmpty_iff] at hnone
          simp [hnone]
        · rw [List.filter_map]
          rfl
    simp only [hoverlay, ← List.map_take, List.map_map]
    rfl

theorem take_filter_take {l : List α} {p : α → Bool} {m n : Nat}
    (h : l.length ≤ m ∨ n ≤ ((l.take m).filter p).length) :
    ((l.take m).filter p).take n = (l.filter p).take n := by
  rcases h with h | h
  · rw [List.take_of_length_le h]
  · have hsplit : l.filter p = (l.take m).filter p ++ (l.drop m).filter p := by
      rw [← List.filter_append, List.take_append_drop]
    rw [hsplit, List.take_append_of_le_length h]

/-- The personalised list is an initial segment of what the query with the block condition gives for
the same stage, and all of it unless blocked authors have more than 20 of the first 30 posts. -/
theorem getTrendingPosts_personalised (value : ℚ → K) (now : Timestamp) (categoryId : Option Nat)
    (hposts : Table.Keyed Post.id db.posts) (viewer : Option Uuid) {limit : Nat} (hlimit : limit ≤ maxLimit) :
    getTrendingPosts value db now categoryId viewer limit <+:
      (PostsRepository.getTrendingPosts value db now (stage value db now categoryId).windowHours categoryId
        viewer limit (stage value db now categoryId).useTimeDecay).map
          (fun p => (TrendingCacheItem.ofPost p).response) ∧
    (((ranking value db now categoryId none (stage value db now categoryId)).take poolSize).countP
        (fun p => !authorNotBlocked db p.userId viewer) ≤ 20 →
      getTrendingPosts value db now categoryId viewer limit =
        (PostsRepository.getTrendingPosts value db now (stage value db now categoryId).windowHours categoryId
          viewer limit (stage value db now categoryId).useTimeDecay).map
            (fun p => (TrendingCacheItem.ofPost p).response)) := by
  have hdirect : PostsRepository.getTrendingPosts value db now (stage value db now categoryId).windowHours
      categoryId viewer limit (stage value db now categoryId).useTimeDecay =
      ((ranking value db now categoryId none (stage value db now categoryId)).filter
        fun p => authorNotBlocked db p.userId viewer).take limit := by
    rw [← ranking_viewer hposts]
    rfl
  rw [hdirect, getTrendingPosts_eq]
  generalize ranking value db now categoryId none (stage value db now categoryId) = rows
  constructor
  · exact ((((List.take_prefix poolSize rows).filter _).take limit).map _)
  · intro hblocked
    rw [take_filter_take]
    by_cases hlen : rows.length ≤ poolSize
    · exact .inl hlen
    · right
      have hsum := List.length_eq_countP_add_countP (fun p => authorNotBlocked db p.userId viewer)
        (l := rows.take poolSize)
      rw [List.length_take, Nat.min_eq_left (by omega)] at hsum
      rw [← List.countP_eq_length_filter]
      have hsizes : poolSize = 30 ∧ maxLimit = 10 := ⟨rfl, rfl⟩
      have hcount : (rows.take poolSize).countP (fun p => decide ¬authorNotBlocked db p.userId viewer = true) =
          (rows.take poolSize).countP fun p => !authorNotBlocked db p.userId viewer := by
        refine List.countP_congr fun p _ => ?_
        simp
      omega

end Pool

def sampleDb : Db where
  posts := [(1, some 20, 5), (2, none, 3), (3, some 30, 4)].map fun (id, author, likes) =>
    { id := id, userId := author, title := "산책", content := "", categoryId := none, viewCount := 0,
      likeCount := likes, commentCount := 0, reportCount := 0, isBlinded := false, createdAt := 0,
      updatedAt := 0, deletedAt := none, version := 1 }
  userBlocks := [⟨10, 20, 0⟩]

theorem getTrendingPosts_personalised_sampleDb :
    getTrendingPosts (id : ℚ → ℚ) sampleDb 0 none (some 10) 10 <+:
      (PostsRepository.getTrendingPosts (id : ℚ → ℚ) sampleDb 0 (stage (id : ℚ → ℚ) sampleDb 0 none).windowHours
        none (some 10) 10 (stage (id : ℚ → ℚ) sampleDb 0 none).useTimeDecay).map
          fun p => (TrendingCacheItem.ofPost p).response :=
  (getTrendingPosts_personalised id 0 none (by decide) (some 10) (le_refl 10)).1

end TrendingPostService

end PuppyTalk
