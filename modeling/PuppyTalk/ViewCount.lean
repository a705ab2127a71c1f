import PuppyTalk.KeyValue
import PuppyTalk.PostsRepository
import PuppyTalk.RedisHash
import PuppyTalk.Run
import PuppyTalk.UuidText

namespace PuppyTalk.ViewCount

structure Config where
  viewCacheTtlSeconds : Int

def viewRedisKey (postId : Uuid) (viewerKey : String) : String :=
  "view:post:" ++ postId.text ++ ":viewer:" ++ viewerKey

/-- Where one `_track_view` stands. -/
inductive ViewPhase where
  | idle
  | count (postId : Uuid)
  | read (postId : Uuid)
  | done (pending : Int)
  deriving DecidableEq, Repr

/-- Where one `flush_view_counts_to_db` stands; a pass that has merged back raises at its end. -/
inductive FlushPhase where
  | acquire
  | rename
  | hgetall
  | deleteEmpty
  | transaction (fields : RedisHash Uuid)
  | mergeRead
  | merging (rest : RedisHash Uuid)
  | deleteDrain
  | release (raises : Bool)
  | done (raises : Bool)
  deriving DecidableEq, Repr

structure Flush where
  phase : FlushPhase
  drain : RedisHash Uuid
  committed : Bool
  deriving DecidableEq, Repr

def Flush.new : Flush where
  phase := .acquire
  drain := []
  committed := false

/-- The lock holds the number of the pass that took it; `counted` is the number of views counted so
far. -/
structure State where
  db : Db
  buffer : RedisHash Uuid
  lock : Option Nat
  dedup : KeyValue String
  viewers : Nat → ViewPhase
  flushes : List Flush
  counted : Uuid → Int

def storedViews (db : Db) (postId : Uuid) : Int :=
  ((db.posts.find? (·.id == postId)).map (·.viewCount)).getD 0

def State.init (db : Db) : State where
  db := db
  buffer := []
  lock := none
  dedup := fun _ => none
  viewers := fun _ => .idle
  flushes := []
  counted := storedViews db

def State.setViewer (s : State) (v : Nat) (ph : ViewPhase) : State :=
  { s with viewers := Function.update s.viewers v ph }

def State.setFlush (s : State) (i : Nat) (f : Flush) : State :=
  { s with flushes := s.flushes.set i f }

def State.addView (s : State) (postId : Uuid) : State :=
  { s with
    buffer := s.buffer.hincrby postId 1
    counted := Function.update s.counted postId (s.counted postId + 1) }

def postExists (db : Db) (postId : Uuid) : Bool := db.posts.any (·.id == postId)

/-- `_track_view` of an existing post, up to and with its first command. -/
def trackView (c : Config) (s : State) (v : Nat) (postId : Uuid) (viewerKey : String) :
    Option State :=
  match s.viewers v with
  | .idle =>
    if postExists s.db postId then
      if c.viewCacheTtlSeconds ≤ 0 then
        let s := s.addView postId
        some (s.setViewer v (.done (s.buffer.count postId)))
      else
        match s.dedup.setNx (viewRedisKey postId viewerKey) "1" with
        | (true, dedup) => some ({ s with dedup := dedup }.setViewer v (.count postId))
        | (false, _) => some (s.setViewer v (.read postId))
    else none
  | _ => none

def runView (s : State) (v : Nat) : Option State :=
  match s.viewers v with
  | .count postId =>
    let s := s.addView postId
    some (s.setViewer v (.done (s.buffer.count postId)))
  | .read postId => some (s.setViewer v (.done ((s.buffer.hget postId).getD 0)))
  | _ => none

def incrementAll (now : Timestamp) (db : Db) (fields : RedisHash Uuid) : Db :=
  fields.foldl (fun db e => if 0 < e.2 then
    (PostsRepository.incrementViewCount db e.1 e.2 now).2 else db) db

/-- `rename_if_exists` of the buffer to the drain key of pass `i`. -/
def rename (s : State) (i : Nat) (f : Flush) (r : Reply) : State :=
  let failed : Bool := r.failed
  if r.took ∧ s.buffer ≠ [] then
    { s with buffer := [] }.setFlush i { f with
      phase := if failed then .mergeRead else .hgetall
      drain := s.buffer }
  else
    s.setFlush i { f with phase := if failed then .mergeRead else .release false }

/-- The next command of pass `i`; only the transaction and the merge are left out of the faults. -/
def runFlush (s : State) (i : Nat) (f : Flush) (r : Reply) : Option State :=
  match f.phase with
  | .acquire =>
    let lock := if r.took ∧ s.lock = none then some i else s.lock
    some ({ s with lock := lock }.setFlush i { f with
      phase := if r.failed then .done true else if s.lock = none then .rename else .done false })
  | .rename => some (rename s i f r)
  | .hgetall =>
    some (s.setFlush i { f with
      phase := if r.failed then .mergeRead
        else if f.drain = [] then .deleteEmpty else .transaction f.drain })
  | .deleteEmpty =>
    some (s.setFlush i { f with
      phase := if r.failed then .mergeRead else .release false
      drain := if r.took then [] else f.drain })
  | .deleteDrain =>
    some (s.setFlush i { f with
      phase := .release false
      drain := if r.took then [] else f.drain })
  | .release raises =>
    let lock := if r.took ∧ s.lock = some i then none else s.lock
    some ({ s with lock := lock }.setFlush i { f with phase := .done raises })
  | _ => none

/-- The commands of `merge_hash_into`, which do not fail. -/
def runMerge (s : State) (i : Nat) (f : Flush) : Option State :=
  match f.phase with
  | .mergeRead => some (s.setFlush i { f with phase := .merging f.drain })
  | .merging (e :: rest) =>
    some ({ s with buffer := s.buffer.hincrby e.1 e.2 }.setFlush i { f with phase := .merging rest })
  | .merging [] => some (s.setFlush i { f with phase := .release true, drain := [] })
  | _ => none

def runTransaction (s : State) (i : Nat) (f : Flush) (commits : Bool) (now : Timestamp) :
    Option State :=
  match f.phase with
  | .transaction fields =>
    if commits then
      some ({ s with db := incrementAll now s.db fields }.setFlush i { f with
        phase := .deleteDrain
        committed := true })
    else some (s.setFlush i { f with phase := .mergeRead })
  | _ => none

/-- Other requests create and delete posts and leave the counters of the others alone. -/
def keepsViews (db db' : Db) : Bool :=
  decide (db'.posts.map (·.id)).Nodup &&
  db.posts.all (fun p => postExists db' p.id) &&
  db'.posts.all fun p => p.deletedAt.isSome ||
    match db.posts.find? (·.id == p.id) with
    | none => p.viewCount == 0
    | some q => q.deletedAt.isNone && q.viewCount == p.viewCount

inductive Label where
  | environment (db : Db)
  | lockExpired
  | dedupExpired (key : String)
  | view (v : Nat) (postId : Uuid) (viewerKey : String)
  | runView (v : Nat)
  | flush
  | runFlush (i : Nat) (r : Reply)
  | runTransaction (i : Nat) (commits : Bool) (now : Timestamp)
  | runMerge (i : Nat)

def step (c : Config) (s : State) : Label → Option State
  | .environment db => if keepsViews s.db db then some { s with db := db } else none
  | .lockExpired => some { s with lock := none }
  | .dedupExpired key => some { s with dedup := s.dedup.del key }
  | .view v postId viewerKey => trackView c s v postId viewerKey
  | .runView v => runView s v
  | .flush => some { s with flushes := s.flushes ++ [.new] }
  | .runFlush i r => (s.flushes[i]?).bind fun f => runFlush s i f r
  | .runTransaction i commits now => (s.flushes[i]?).bind fun f => runTransaction s i f commits now
  | .runMerge i => (s.flushes[i]?).bind fun f => runMerge s i f

end PuppyTalk.ViewCount
