import PuppyTalk.KeyValue
import PuppyTalk.Run
import PuppyTalk.Table
import Mathlib.Algebra.Order.Floor.Ring
import Mathlib.Algebra.Order.Field.Basic
import Mathlib.Data.List.MinMax
import Mathlib.Data.PNat.Basic

namespace PuppyTalk.RateLimit

/-- An entry of `_memory_store`. -/
structure Window (R : Type) where
  key : String
  count : ℕ+
  windowEnd : R
  deriving DecidableEq

/-- `_memory_store`: a dict in the order in which its keys came. -/
@[ext] structure MemoryStore (R : Type) where
  windows : List (Window R)
  keyed : Table.Keyed Window.key windows

namespace MemoryStore

variable {R : Type} {s : MemoryStore R}

def empty : MemoryStore R := ⟨[], Table.keyed_nil _⟩

def get (s : MemoryStore R) (key : String) : Option (Window R) := Table.row Window.key s.windows key

/-- `del` of the entries that `p` does not keep. -/
def keep (s : MemoryStore R) (p : Window R → Bool) : MemoryStore R :=
  ⟨s.windows.filter p, s.keyed.sublist (List.filter_sublist.map _)⟩

/-- `_memory_store[key] = ...`: a key that is there keeps its place. -/
def put (s : MemoryStore R) (w : Window R) : MemoryStore R :=
  match h : s.get w.key with
  | some _ => ⟨Table.update (·.key = w.key) (fun v => { w with key := v.key }) s.windows,
      s.keyed.update fun _ => rfl⟩
  | none => ⟨s.windows ++ [w], s.keyed.append fun v hv hk =>
      List.find?_eq_none.mp h v hv (decide_eq_true hk)⟩

theorem get_key (h : s.get k = some w) : w.key = k := Table.row_key h

theorem get_mem (h : s.get k = some w) : w ∈ s.windows := Table.row_mem h

theorem get_of_mem (h : w ∈ s.windows) : s.get w.key = some w := s.keyed.row_eq h

theorem put_of_absent (h : s.get w.key = none) : (s.put w).windows = s.windows ++ [w] := by
  unfold put
  split
  · rename_i hv
    cases h.symm.trans hv
  · rfl

theorem put_of_stored (h : s.get w.key = some v) :
    (s.put w).windows = Table.update (·.key = w.key) (fun v => { w with key := v.key }) s.windows := by
  unfold put
  split
  · rfl
  · rename_i hn
    cases h.symm.trans hn

theorem get_put (s : MemoryStore R) (w : Window R) (k : String) :
    (s.put w).get k = if k = w.key then some w else s.get k := by
  cases h : s.get w.key with
  | none =>
    rw [get, put_of_absent h]
    split
    · rename_i hk
      subst hk
      rw [Table.row, List.find?_append]
      rw [show s.windows.find? _ = none from h]
      simp
    · rename_i hk
      exact Table.row_append_of_ne (Ne.symm hk)
  | some v =>
    rw [get, put_of_stored h, Table.row_update (k := Window.key)
      (f := fun v : Window R => { w with key := v.key }) fun _ => rfl]
    split
    · rename_i hk
      subst hk
      rw [show Table.row Window.key s.windows w.key = some v from h, Option.map_some,
        if_pos (decide_eq_true (get_key h)), get_key h]
    · rename_i hk
      change (s.get k).map _ = s.get k
      cases hs : s.get k with
      | none => rfl
      | some u => simp [get_key hs, hk]

theorem length_put_le (s : MemoryStore R) (w : Window R) :
    (s.put w).windows.length ≤ s.windows.length + 1 := by
  cases h : s.get w.key with
  | none => rw [put_of_absent h, List.length_append, List.length_singleton]
  | some v =>
    rw [put_of_stored h, Table.update, List.length_map]
    omega

theorem get_keep (s : MemoryStore R) (p : Window R → Bool) (k : String) :
    (s.keep p).get k = (s.get k).filter p := by
  cases h : s.get k with
  | none =>
    refine List.find?_eq_none.mpr fun w hw => ?_
    exact List.find?_eq_none.mp h w (List.mem_filter.mp hw).1
  | some w =>
    have hk := get_key h
    subst hk
    cases hp : p w with
    | true =>
      rw [Option.filter_some, if_pos hp]
      exact get_of_mem (s := s.keep p) (List.mem_filter.mpr ⟨get_mem h, hp⟩)
    | false =>
      rw [Option.filter_some, if_neg (by simp [hp])]
      refine List.find?_eq_none.mpr fun v hv hk => ?_
      obtain ⟨hv, hpv⟩ := List.mem_filter.mp hv
      rw [s.keyed.eq hv (get_mem h) (of_decide_eq_true hk), hp] at hpv
      cases hpv

theorem length_keep_le (s : MemoryStore R) (p : Window R → Bool) :
    (s.keep p).windows.length ≤ s.windows.length := List.length_filter_le _ _

theorem length_keep_lt {p : Window R → Bool} (hw : w ∈ s.windows) (hp : p w = false) :
    (s.keep p).windows.length < s.windows.length := by
  refine List.length_filter_lt_length_iff_exists.mpr ⟨w, hw, ?_⟩
  rw [hp]
  exact Bool.false_ne_true

end MemoryStore

def memoryMaxKeys : Nat := 10000

section Eviction

variable {R : Type} [LinearOrder R] {s : MemoryStore R}

/-- The `while` loop of `_memory_evict_if_needed`; `min` takes the first of equal deadlines. -/
def evictOldest (s : MemoryStore R) : MemoryStore R :=
  if memoryMaxKeys ≤ s.windows.length then
    match _ : s.windows.argmin Window.windowEnd with
    | none => s
    | some oldest => evictOldest (s.keep fun w => w.key ≠ oldest.key)
  else s
termination_by s.windows.length
decreasing_by exact MemoryStore.length_keep_lt (List.argmin_mem (by assumption)) (by simp)

def memoryEvictIfNeeded (now : R) (s : MemoryStore R) : MemoryStore R :=
  if s.windows.length < memoryMaxKeys then s
  else evictOldest (s.keep fun w => !decide (w.windowEnd < now))

theorem evictOldest_of_lt (h : s.windows.length < memoryMaxKeys) : evictOldest s = s := by
  rw [evictOldest, if_neg (by omega)]

theorem length_evictOldest (s : MemoryStore R) : (evictOldest s).windows.length < memoryMaxKeys := by
  fun_induction evictOldest s with
  | case1 s hfull hnone =>
    rw [List.argmin_eq_none.mp hnone] at hfull
    exact absurd hfull (by simp [memoryMaxKeys])
  | case2 s hfull oldest h ih => exact ih
  | case3 s hroom => omega

theorem evictOldest_of_eq (h : s.windows.length = memoryMaxKeys) :
    ∃ oldest ∈ s.windows, (∀ w ∈ s.windows, oldest.windowEnd ≤ w.windowEnd) ∧
      evictOldest s = s.keep fun w => w.key ≠ oldest.key := by
  rw [evictOldest, if_pos h.ge]
  split
  · rename_i hnone
    rw [List.argmin_eq_none.mp hnone] at h
    exact absurd h (by simp [memoryMaxKeys])
  · rename_i oldest hmin
    have hmem := List.argmin_mem hmin
    refine ⟨oldest, hmem, fun w hw => List.le_of_mem_argmin hw hmin, evictOldest_of_lt ?_⟩
    rw [← h]
    exact MemoryStore.length_keep_lt hmem (by simp)

theorem get_evictOldest (hlen : s.windows.length ≤ memoryMaxKeys) (hv : v ∈ s.windows)
    (hlt : v.windowEnd < w.windowEnd) (hw : s.get k = some w) : (evictOldest s).get k = some w := by
  by_cases hfull : s.windows.length = memoryMaxKeys
  · obtain ⟨oldest, hmem, hfirst, heq⟩ := evictOldest_of_eq hfull
    have hne : w.key ≠ oldest.key := by
      intro hk
      rw [s.keyed.eq (MemoryStore.get_mem hw) hmem hk] at hlt
      exact absurd (hfirst v hv) (not_le.mpr hlt)
    rw [heq, MemoryStore.get_keep, hw, Option.filter_some, if_pos (decide_eq_true hne)]
  · rwa [evictOldest_of_lt (by omega)]

theorem evictOldest_get (h : (evictOldest s).get k = some w) : s.get k = some w := by
  fun_induction evictOldest s with
  | case1 s hfull hnone => exact h
  | case2 s hfull oldest _ ih =>
    have hkeep := ih h
    rw [MemoryStore.get_keep] at hkeep
    exact (Option.filter_eq_some_iff.mp hkeep).1
  | case3 s hroom => exact h

theorem memoryEvictIfNeeded_get {now : R} (h : (memoryEvictIfNeeded now s).get k = some w) :
    s.get k = some w := by
  unfold memoryEvictIfNeeded at h
  split at h
  · exact h
  · have hkeep := evictOldest_get h
    rw [MemoryStore.get_keep] at hkeep
    exact (Option.filter_eq_some_iff.mp hkeep).1

theorem length_memoryEvictIfNeeded (now : R) (s : MemoryStore R) :
    (memoryEvictIfNeeded now s).windows.length < memoryMaxKeys := by
  unfold memoryEvictIfNeeded
  split
  · assumption
  · exact length_evictOldest _

theorem memoryEvictIfNeeded_of_lt (now : R) (h : s.windows.length < memoryMaxKeys) :
    memoryEvictIfNeeded now s = s := if_pos h

end Eviction

section Limiters

variable {R : Type} [Field R] [LinearOrder R] [FloorRing R]
  {s : MemoryStore R}

structure Call (R : Type) where
  now : R
  key : String
  windowSec : Int
  maxCount : Int

def Call.opens (c : Call R) : Window R := ⟨c.key, 1, c.now + c.windowSec⟩

def checkMemoryFixedWindow (s : MemoryStore R) (c : Call R) : (Bool × Int) × MemoryStore R :=
  let s := memoryEvictIfNeeded c.now s
  match s.get c.key with
  | none => ((true, 0), s.put c.opens)
  | some w =>
    if w.windowEnd ≤ c.now then ((true, 0), s.put c.opens)
    else
      let count := w.count + 1
      let s := s.put { w with count := count }
      if c.maxCount < count then ((false, max 0 ⌊w.windowEnd - c.now⌋), s) else ((true, 0), s)

theorem checkMemoryFixedWindow_of_ended {c : Call R}
    (h : ∀ w, (memoryEvictIfNeeded c.now s).get c.key = some w → w.windowEnd ≤ c.now) :
    checkMemoryFixedWindow s c = ((true, 0), (memoryEvictIfNeeded c.now s).put c.opens) := by
  simp only [checkMemoryFixedWindow]
  split
  · rfl
  · rename_i w hw
    exact if_pos (h w hw)

theorem checkMemoryFixedWindow_of_live {c : Call R}
    (h : (memoryEvictIfNeeded c.now s).get c.key = some w) (hlive : c.now < w.windowEnd) :
    (checkMemoryFixedWindow s c).1.1 = decide (((w.count + 1 : ℕ+) : Int) ≤ c.maxCount) ∧
      (checkMemoryFixedWindow s c).2 =
        (memoryEvictIfNeeded c.now s).put { w with count := w.count + 1 } := by
  simp only [checkMemoryFixedWindow, h, if_neg (not_le.mpr hlive)]
  split
  · rename_i hmax
    exact ⟨(decide_eq_false (not_le.mpr hmax)).symm, rfl⟩
  · rename_i hmax
    exact ⟨(decide_eq_true (not_lt.mp hmax)).symm, rfl⟩

theorem checkMemoryFixedWindow_put (s : MemoryStore R) (c : Call R) :
    ∃ w, w.key = c.key ∧
      (checkMemoryFixedWindow s c).2 = (memoryEvictIfNeeded c.now s).put w := by
  by_cases h : ∀ w, (memoryEvictIfNeeded c.now s).get c.key = some w → w.windowEnd ≤ c.now
  · exact ⟨c.opens, rfl, congrArg Prod.snd (checkMemoryFixedWindow_of_ended h)⟩
  · push Not at h
    obtain ⟨w, hw, hlive⟩ := h
    have hk : w.key = c.key := MemoryStore.get_key hw
    exact ⟨{ w with count := w.count + 1 }, hk, (checkMemoryFixedWindow_of_live hw hlive).2⟩

theorem length_checkMemoryFixedWindow (s : MemoryStore R) (c : Call R) :
    (checkMemoryFixedWindow s c).2.windows.length ≤ memoryMaxKeys := by
  obtain ⟨w, -, hw⟩ := checkMemoryFixedWindow_put s c
  rw [hw]
  exact le_trans (MemoryStore.length_put_le _ w) (length_memoryEvictIfNeeded c.now s)

theorem length_run {calls : List (Call R)} {t : MemoryStore R}
    (h : exec (advance checkMemoryFixedWindow) MemoryStore.empty calls = some t) :
    t.windows.length ≤ memoryMaxKeys := by
  refine exec_invariant' (I := fun t => t.windows.length ≤ memoryMaxKeys) ?_ (Nat.zero_le _) h
  intro s c t _ hs
  cases hs
  exact length_checkMemoryFixedWindow s c

section Redis

def fullKey (key : String) : String := "rl:" ++ key

/-- `TTL` in seconds: `roundTtl` is how the server rounds, and an absent key has -2. -/
def ttl (roundTtl : R → Int) (now expiry : R) : Int :=
  if now < expiry then roundTtl (expiry - now) else -2

/-- `_LUA_FIXED_WINDOW`: `INCR` starts an absent key at 1 and leaves the expiry of another alone. -/
def luaFixedWindow (roundTtl : R → Int) (kv : TimedKeyValue R Int) (now : R) (key : String)
    (window : Int) : (Int × Int) × TimedKeyValue R Int :=
  let live := (kv key).filter fun entry => now < entry.2
  let c := (live.map Prod.fst).getD 0 + 1
  let expiry := if c = 1 then now + window else (live.map Prod.snd).getD now
  ((c, ttl roundTtl now expiry), Function.update kv key (some (c, expiry)))

def checkRedisFixedWindow (roundTtl : R → Int) (kv : TimedKeyValue R Int) (c : Call R) :
    (Bool × Int) × TimedKeyValue R Int :=
  let result := luaFixedWindow roundTtl kv c.now (fullKey c.key) c.windowSec
  let retryAfter := if 0 ≤ result.1.2 then max 0 result.1.2 else c.windowSec
  if c.maxCount < result.1.1 then ((false, retryAfter), result.2) else ((true, 0), result.2)

variable {roundTtl : R → Int} {kv : TimedKeyValue R Int} {c : Call R}

omit [FloorRing R] in
variable (roundTtl kv c) in
theorem checkRedisFixedWindow_of_lua
    (h : luaFixedWindow roundTtl kv c.now (fullKey c.key) c.windowSec = ((count, left), kv')) :
    (checkRedisFixedWindow roundTtl kv c).1.1 = decide (count ≤ c.maxCount) ∧
      (checkRedisFixedWindow roundTtl kv c).2 = kv' := by
  simp only [checkRedisFixedWindow, h]
  split
  · rename_i hmax
    exact ⟨(decide_eq_false (not_le.mpr hmax)).symm, rfl⟩
  · rename_i hmax
    exact ⟨(decide_eq_true (not_lt.mp hmax)).symm, rfl⟩

def Mirrors (s : MemoryStore R) (kv : TimedKeyValue R Int) : Prop :=
  ∀ k, kv (fullKey k) = (s.get k).map fun w => ((w.count : Int), w.windowEnd)

omit [Field R] [LinearOrder R] [FloorRing R] in
theorem Mirrors.put (h : Mirrors s kv) (w : Window R) :
    Mirrors (s.put w) (Function.update kv (fullKey w.key) (some ((w.count : Int), w.windowEnd))) := by
  intro k
  rw [MemoryStore.get_put]
  by_cases hk : k = w.key
  · rw [if_pos hk, hk, Function.update_self, Option.map_some]
  · have hne : fullKey k ≠ fullKey w.key := by
      intro he
      rw [fullKey, fullKey, String.append_right_inj] at he
      exact hk he
    rw [if_neg hk, Function.update_of_ne hne]
    exact h k

variable (roundTtl) in
theorem Mirrors.check (h : Mirrors s kv) (hlen : s.windows.length < memoryMaxKeys)
    (hmax : 1 ≤ c.maxCount) :
    (checkMemoryFixedWindow s c).1.1 = (checkRedisFixedWindow roundTtl kv c).1.1 ∧
      Mirrors (checkMemoryFixedWindow s c).2 (checkRedisFixedWindow roundTtl kv c).2 := by
  have hevict := memoryEvictIfNeeded_of_lt c.now hlen
  have hkey := h c.key
  by_cases hend : ∀ w, s.get c.key = some w → w.windowEnd ≤ c.now
  · -- the key is absent or its window is over, which is when Redis has dropped the key
    have hnone : (kv (fullKey c.key)).filter (fun entry => decide (c.now < entry.2)) = none := by
      rw [hkey]
      cases hw : s.get c.key with
      | none => rfl
      | some w => simpa [Option.filter] using hend w hw
    rw [checkMemoryFixedWindow_of_ended (by rwa [hevict]), hevict]
    obtain ⟨hans, hkv⟩ := checkRedisFixedWindow_of_lua roundTtl kv c
      (by simp only [luaFixedWindow, hnone]; rfl)
    rw [hans, hkv]
    exact ⟨(decide_eq_true hmax).symm, h.put c.opens⟩
  · push Not at hend
    obtain ⟨w, hw, hlive⟩ := hend
    have hwk := MemoryStore.get_key hw
    have hcount : (w.count : Int) + 1 ≠ 1 := by
      have := w.count.pos
      omega
    have hsome : (kv (fullKey c.key)).filter (fun entry => decide (c.now < entry.2)) =
        some ((w.count : Int), w.windowEnd) := by
      rw [hkey, hw]
      simp [Option.filter, hlive]
    obtain ⟨hmem, hstore⟩ := checkMemoryFixedWindow_of_live (s := s) (c := c) (by rwa [hevict]) hlive
    obtain ⟨hans, hkv⟩ := checkRedisFixedWindow_of_lua roundTtl kv c
      (by simp only [luaFixedWindow, hsome, Option.map_some, Option.getD_some, if_neg hcount]; rfl)
    rw [hmem, hstore, hans, hkv, hevict]
    refine ⟨by simp, ?_⟩
    rw [← hwk]
    exact h.put { w with count := w.count + 1 }

def Called (keys : List String) (s : MemoryStore R) : Prop := ∀ w ∈ s.windows, w.key ∈ keys

omit [Field R] [LinearOrder R] [FloorRing R] in
theorem Called.put {keys : List String} (h : Called keys s) (hw : w.key ∈ keys) :
    Called keys (s.put w) := by
  intro v hv
  have hget := MemoryStore.get_of_mem hv
  rw [MemoryStore.get_put] at hget
  split at hget
  · rename_i hk
    rwa [hk]
  · exact h v (MemoryStore.get_mem hget)

omit [Field R] [LinearOrder R] [FloorRing R] in
theorem Called.length_le {keys : List String} (h : Called keys s) :
    s.windows.length ≤ keys.dedup.length := by
  have hsub : s.windows.map Window.key ⊆ keys.dedup := by
    intro k hk
    obtain ⟨w, hw, rfl⟩ := List.mem_map.mp hk
    exact List.mem_dedup.mpr (h w hw)
  have hle := (List.subperm_of_subset s.keyed hsub).length_le
  rwa [List.length_map] at hle

end Redis

/-- The memory limiter refines the Redis limiter as long as it evicts nothing, and it never holds
more keys than it may. -/
theorem checkMemoryFixedWindow_refines (roundTtl : R → Int) (calls : List (Call R)) :
    ((∀ c ∈ calls, 1 ≤ c.maxCount) → (calls.map Call.key).dedup.length < memoryMaxKeys →
      (answers checkMemoryFixedWindow MemoryStore.empty calls).map Prod.fst =
        (answers (checkRedisFixedWindow roundTtl) (fun _ => none) calls).map Prod.fst) ∧
      ∀ t, exec (advance checkMemoryFixedWindow) MemoryStore.empty calls = some t →
        t.windows.length ≤ memoryMaxKeys := by
  refine ⟨fun hmax hkeys => ?_, fun t ht => length_run ht⟩
  refine answers_simulation
    (r := fun s kv => Mirrors s kv ∧ Called (calls.map Call.key) s) ?_ ⟨fun _ => rfl, nofun⟩
  intro s kv c hc ⟨hmirrors, hcalled⟩
  have hlen : s.windows.length < memoryMaxKeys := lt_of_le_of_lt hcalled.length_le hkeys
  obtain ⟨hans, hnext⟩ := hmirrors.check roundTtl hlen (hmax c hc)
  refine ⟨hans, hnext, ?_⟩
  obtain ⟨w, hw, hstore⟩ := checkMemoryFixedWindow_put s c
  rw [hstore, memoryEvictIfNeeded_of_lt c.now hlen]
  exact hcalled.put (hw ▸ List.mem_map_of_mem hc)

/-- Two calls of one window, and a call at its end. -/
theorem checkMemoryFixedWindow_refines_login :
    ((answers checkMemoryFixedWindow MemoryStore.empty
        [⟨(0 : ℚ), "login:a", 60, 1⟩, ⟨59, "login:a", 60, 1⟩, ⟨60, "login:a", 60, 1⟩]).map Prod.fst) =
      (answers (checkRedisFixedWindow fun left => ⌈left⌉) (fun _ => none)
        [⟨(0 : ℚ), "login:a", 60, 1⟩, ⟨59, "login:a", 60, 1⟩, ⟨60, "login:a", 60, 1⟩]).map Prod.fst :=
  (checkMemoryFixedWindow_refines (fun left : ℚ => ⌈left⌉) _).1 (by simp)
    (by simp [memoryMaxKeys])

def Kept (s t : MemoryStore R) (c : Call R) : Prop :=
  ∀ k w, s.get k = some w → c.now < w.windowEnd →
    t.get k = some (if k = c.key then { w with count := w.count + 1 } else w)

def Room (now : R) (s : MemoryStore R) : Prop :=
  s.windows.length < memoryMaxKeys ∨ ∃ w ∈ s.windows, w.windowEnd ≤ now

omit [Field R] [FloorRing R] in
theorem Room.get_memoryEvictIfNeeded {now : R} (h : Room now s)
    (hlen : s.windows.length ≤ memoryMaxKeys) (hw : s.get k = some w) (hlive : now < w.windowEnd) :
    (memoryEvictIfNeeded now s).get k = some w := by
  by_cases hlt : s.windows.length < memoryMaxKeys
  · rwa [memoryEvictIfNeeded_of_lt now hlt]
  obtain ⟨v, hv, hended⟩ := h.resolve_left hlt
  rw [memoryEvictIfNeeded, if_neg hlt]
  set t := s.keep fun w => !decide (w.windowEnd < now) with ht
  have hkeep : t.get k = some w := by
    rw [ht, MemoryStore.get_keep, hw, Option.filter_some, if_pos (by simp [hlive.le])]
  have hle : t.windows.length ≤ memoryMaxKeys := le_trans (s.length_keep_le _) hlen
  by_cases hlost : v.windowEnd < now
  · have hless : t.windows.length < s.windows.length := MemoryStore.length_keep_lt hv (by simp [hlost])
    rwa [evictOldest_of_lt (lt_of_lt_of_le hless hlen)]
  · have hvt : v ∈ t.windows := List.mem_filter.mpr ⟨hv, by simp [not_lt.mp hlost]⟩
    exact get_evictOldest hle hvt (lt_of_le_of_lt hended hlive) hkeep

omit [Field R] [FloorRing R] in
theorem evict_of_not_room {now : R} (h : ¬ Room now s) (hlen : s.windows.length ≤ memoryMaxKeys) :
    ∃ w, s.get w.key = some w ∧ now < w.windowEnd ∧
      (memoryEvictIfNeeded now s).get w.key = none := by
  obtain ⟨hfull, hlive⟩ := not_or.mp h
  push Not at hlive
  have hkeep : (s.keep fun w => !decide (w.windowEnd < now)) = s := by
    apply MemoryStore.ext
    refine List.filter_eq_self.mpr fun w hw => ?_
    simp [(hlive w hw).le]
  obtain ⟨oldest, hmem, -, heq⟩ := evictOldest_of_eq (s := s) (by omega)
  refine ⟨oldest, MemoryStore.get_of_mem hmem, hlive oldest hmem, ?_⟩
  rw [memoryEvictIfNeeded, if_neg hfull, hkeep, heq, MemoryStore.get_keep,
    MemoryStore.get_of_mem hmem]
  simp

theorem kept_iff_room {c : Call R} (hlen : s.windows.length ≤ memoryMaxKeys) :
    Kept s (checkMemoryFixedWindow s c).2 c ↔ Room c.now s := by
  constructor
  · intro hkept
    by_contra hroom
    obtain ⟨v, hv, hvlive, hlost⟩ := evict_of_not_room hroom hlen
    have hafter := hkept v.key v hv hvlive
    by_cases hk : v.key = c.key
    · -- its own window goes, and starts again at 1
      rw [hk] at hlost
      rw [if_pos hk, hk, checkMemoryFixedWindow_of_ended (by simp [hlost]), MemoryStore.get_put,
        if_pos (show c.key = c.opens.key from rfl)] at hafter
      have hcount := congrArg Window.count (Option.some.inj hafter)
      exact absurd (congrArg PNat.val hcount) (by simp [Call.opens])
    · obtain ⟨u, hu, hstore⟩ := checkMemoryFixedWindow_put s c
      rw [hstore, MemoryStore.get_put, if_neg (hu ▸ hk), hlost] at hafter
      cases hafter
  · intro hroom k v hv hvlive
    have hstays := hroom.get_memoryEvictIfNeeded hlen hv hvlive
    by_cases hk : k = c.key
    · subst hk
      have hvk : v.key = c.key := MemoryStore.get_key hv
      rw [(checkMemoryFixedWindow_of_live hstays hvlive).2, MemoryStore.get_put, if_pos hvk.symm,
        if_pos rfl]
    · obtain ⟨u, hu, hstore⟩ := checkMemoryFixedWindow_put s c
      rw [hstore, MemoryStore.get_put, if_neg (hu ▸ hk), if_neg hk, hstays]

/-- After the call, the window of the key is stored and runs until `deadline`. -/
def Running (k : String) (deadline : R) (s : MemoryStore R) (c : Call R) : Prop :=
  c.now < deadline ∧ ∃ w, (checkMemoryFixedWindow s c).2.get k = some w ∧ w.windowEnd = deadline

def HasRoom (s : MemoryStore R) (c : Call R) : Prop := (s.get c.key).isSome → Room c.now s

def allowedFor (k : String) (s : MemoryStore R) (calls : List (Call R)) : Nat :=
  (calls.zip (answers checkMemoryFixedWindow s calls)).countP fun p => p.1.key = k && p.2.1

theorem allowedFor_cons (k : String) (s : MemoryStore R) (c : Call R) (calls : List (Call R)) :
    allowedFor k s (c :: calls) = allowedFor k (checkMemoryFixedWindow s c).2 calls +
      if c.key = k && (checkMemoryFixedWindow s c).1.1 then 1 else 0 := by
  simp only [allowedFor, answers, List.zip_cons_cons, List.countP_cons]

theorem get_of_other {c : Call R} (hk : c.key ≠ k)
    (h : (checkMemoryFixedWindow s c).2.get k = some w) : s.get k = some w := by
  obtain ⟨u, hu, hstore⟩ := checkMemoryFixedWindow_put s c
  rw [hstore, MemoryStore.get_put, if_neg (fun he => hk (hu ▸ he.symm))] at h
  exact memoryEvictIfNeeded_get h

theorem allowedFor_rest {calls : List (Call R)} {m : Int} (hlen : s.windows.length ≤ memoryMaxKeys)
    (hw : s.get k = some w) (hmax : ∀ c ∈ calls, c.key = k → c.maxCount = m)
    (hrun : Along (advance checkMemoryFixedWindow) (Running k w.windowEnd) s calls)
    (hroom : Along (advance checkMemoryFixedWindow) HasRoom s calls) :
    allowedFor k s calls = 0 ∨ (w.count : Int) + allowedFor k s calls ≤ m := by
  induction calls generalizing s w with
  | nil => exact .inl rfl
  | cons c calls ih =>
    obtain ⟨hnow, v, hv, hend⟩ := hrun.1
    have ih := ih (length_checkMemoryFixedWindow s c) hv
      (fun d hd => hmax d (List.mem_cons_of_mem _ hd)) (hend ▸ hrun.2 _ rfl) (hroom.2 _ rfl)
    rw [allowedFor_cons]
    by_cases hk : c.key = k
    · subst hk
      have hstays := (hroom.1 (by simp [hw])).get_memoryEvictIfNeeded hlen hw hnow
      obtain ⟨hans, hstore⟩ := checkMemoryFixedWindow_of_live hstays hnow
      have hwk : w.key = c.key := MemoryStore.get_key hw
      rw [hstore, MemoryStore.get_put, if_pos hwk.symm] at hv
      cases hv
      rw [hmax c List.mem_cons_self rfl] at hans
      simp only [PNat.add_coe, PNat.val_ofNat, Nat.cast_add, Nat.cast_one] at hans ih
      rw [hans]
      by_cases hm : (w.count : Int) + 1 ≤ m
      · simp only [hm, decide_true, Bool.and_self, if_true]
        omega
      · simp only [hm, decide_true, decide_false, Bool.and_false, Bool.false_eq_true, if_false]
        omega
    · cases (get_of_other hk hv).symm.trans hw
      simpa [hk] using ih

theorem allowedFor_le {calls : List (Call R)} {m : Int} {deadline : R}
    (hm : 1 ≤ m) (hmax : ∀ c ∈ calls, c.key = k → c.maxCount = m)
    (hrun : Along (advance checkMemoryFixedWindow) (Running k deadline) s calls)
    (hroom : Along (advance checkMemoryFixedWindow) HasRoom s calls) :
    (allowedFor k s calls : Int) ≤ m := by
  cases calls with
  | nil =>
    simp only [allowedFor, List.zip_nil_left, List.countP_nil]
    omega
  | cons c calls =>
    obtain ⟨-, w, hw, hend⟩ := hrun.1
    have hrest := allowedFor_rest (length_checkMemoryFixedWindow s c) hw
      (fun d hd => hmax d (List.mem_cons_of_mem _ hd)) (hend ▸ hrun.2 _ rfl) (hroom.2 _ rfl)
    have hpos : 1 ≤ (w.count : Int) := by exact_mod_cast w.count.pos
    rw [allowedFor_cons]
    split <;> omega

/-- In a reachable store, a call for a stored key leaves the running windows alone exactly if the
store has room; and where every such call has room, a running window allows no more calls than its
limit. -/
theorem running_limit_iff {before : List (Call R)}
    (hs : exec (advance checkMemoryFixedWindow) MemoryStore.empty before = some s) :
    (∀ c, (s.get c.key).isSome → (Kept s (checkMemoryFixedWindow s c).2 c ↔ Room c.now s)) ∧
      ∀ (calls : List (Call R)) (k : String) (deadline : R) (m : Int), 1 ≤ m →
        (∀ c ∈ calls, c.key = k → c.maxCount = m) →
        Along (advance checkMemoryFixedWindow) (Running k deadline) s calls →
        Along (advance checkMemoryFixedWindow) HasRoom s calls → (allowedFor k s calls : Int) ≤ m := by
  exact ⟨fun c _ => kept_iff_room (length_run hs), fun calls k deadline m => allowedFor_le⟩

end Limiters

def afterLogin : MemoryStore ℚ :=
  (checkMemoryFixedWindow MemoryStore.empty ⟨0, "login:a", 60, 1⟩).2

theorem running_limit_iff_login :
    Kept afterLogin (checkMemoryFixedWindow afterLogin ⟨1, "login:a", 60, 1⟩).2 ⟨1, "login:a", 60, 1⟩ ∧
      (allowedFor "login:a" afterLogin [⟨1, "login:a", 60, 1⟩] : Int) ≤ 1 := by
  have hs : exec (advance checkMemoryFixedWindow) MemoryStore.empty [⟨(0 : ℚ), "login:a", 60, 1⟩] =
      some afterLogin := rfl
  have hroom : Room 1 afterLogin := .inl (by decide)
  refine ⟨((running_limit_iff hs).1 ⟨1, "login:a", 60, 1⟩ (by decide)).mpr hroom,
    (running_limit_iff hs).2 [⟨1, "login:a", 60, 1⟩] "login:a" 60 1 le_rfl (by simp) ?_ ?_⟩
  · exact ⟨⟨by norm_num, ⟨"login:a", 2, 60⟩, by decide +kernel, rfl⟩, fun _ _ => trivial⟩
  · exact ⟨fun _ => hroom, fun _ _ => trivial⟩

section FullStore

def fillKey (i : Nat) : String := String.ofList (List.replicate i 'k')

def fillCall (i : Nat) : Call ℚ := ⟨if i = 0 then 0 else 1, fillKey i, 60, 1⟩

theorem fillKey_inj (h : fillKey i = fillKey j) : i = j := by
  have hl := congrArg String.length h
  simpa [fillKey] using hl

theorem exec_fill {n : Nat} (hn : n ≤ memoryMaxKeys) :
    ∃ s, exec (advance checkMemoryFixedWindow) MemoryStore.empty ((List.range n).map fillCall) = some s ∧
      s.windows = (List.range n).map fun i => (fillCall i).opens := by
  induction n with
  | zero => exact ⟨_, rfl, rfl⟩
  | succ n ih =>
    obtain ⟨s, hs, hwin⟩ := ih (by omega)
    have hlen : s.windows.length < memoryMaxKeys := by
      rw [hwin, List.length_map, List.length_range]
      omega
    have habsent : s.get (fillCall n).key = none := by
      refine List.find?_eq_none.mpr fun w hw hk => ?_
      rw [hwin] at hw
      obtain ⟨i, hi, rfl⟩ := List.mem_map.mp hw
      have := fillKey_inj (of_decide_eq_true hk)
      have := List.mem_range.mp hi
      omega
    have hcheck := checkMemoryFixedWindow_of_ended (s := s) (c := fillCall n)
      (by simp [memoryEvictIfNeeded_of_lt _ hlen, habsent])
    refine ⟨(checkMemoryFixedWindow s (fillCall n)).2, ?_, ?_⟩
    · rw [List.range_succ, List.map_append, exec_append, hs]
      rfl
    · rw [hcheck, memoryEvictIfNeeded_of_lt _ hlen, MemoryStore.put_of_absent habsent, hwin,
        List.range_succ, List.map_append]
      rfl

/-- In a full store, the key with the oldest window gets a new one although its limit is used up. -/
theorem full_store_restarts :
    ∃ (before : List (Call ℚ)) (s : MemoryStore ℚ) (c : Call ℚ) (w : Window ℚ),
      (before ++ [c]).Pairwise (fun a b => a.now ≤ b.now) ∧
      exec (advance checkMemoryFixedWindow) MemoryStore.empty before = some s ∧
      s.get c.key = some w ∧ c.now < w.windowEnd ∧ (w.count : Int) = c.maxCount ∧
      (checkMemoryFixedWindow s c).1 = (true, 0) ∧
      (checkMemoryFixedWindow s c).2.get c.key = some c.opens := by
  obtain ⟨s, hs, hwin⟩ := exec_fill le_rfl
  have hmem : (fillCall 0).opens ∈ s.windows := by
    rw [hwin]
    exact List.mem_map_of_mem (f := fun i => (fillCall i).opens) (List.mem_range.mpr (by decide))
  have hend {w : Window ℚ} (hw : w ∈ s.windows) : w = (fillCall 0).opens ∨ w.windowEnd = 61 := by
    rw [hwin] at hw
    obtain ⟨i, -, rfl⟩ := List.mem_map.mp hw
    by_cases hi : i = 0
    · exact .inl (hi ▸ rfl)
    · right
      norm_num [fillCall, Call.opens, hi]
  have hfirst : (fillCall 0).opens.windowEnd = 60 := by norm_num [fillCall, Call.opens]
  have hlen : s.windows.length = memoryMaxKeys := by rw [hwin, List.length_map, List.length_range]
  have hkeep : (s.keep fun w => !decide (w.windowEnd < 2)) = s := by
    apply MemoryStore.ext
    refine List.filter_eq_self.mpr fun w hw => ?_
    rcases hend hw with rfl | hw
    · norm_num [hfirst]
    · norm_num [hw]
  have hlost : (memoryEvictIfNeeded 2 s).get (fillKey 0) = none := by
    obtain ⟨oldest, hold, hle, heq⟩ := evictOldest_of_eq hlen
    have holdest : oldest = (fillCall 0).opens := by
      refine (hend hold).resolve_right fun h => ?_
      have := hle _ hmem
      rw [h, hfirst] at this
      norm_num at this
    rw [memoryEvictIfNeeded, if_neg hlen.not_lt, hkeep, heq, MemoryStore.get_keep, holdest]
    exact Option.filter_eq_none_iff.mpr fun w hw => by simp [MemoryStore.get_key hw, fillCall, Call.opens]
  have hcheck := checkMemoryFixedWindow_of_ended (s := s) (c := ⟨2, fillKey 0, 60, 1⟩) (by simp [hlost])
  refine ⟨_, s, ⟨2, fillKey 0, 60, 1⟩, (fillCall 0).opens, ?_, hs, MemoryStore.get_of_mem hmem, ?_, rfl,
    ?_, ?_⟩
  · refine List.pairwise_append.mpr ⟨?_, List.pairwise_singleton _ _, ?_⟩
    · refine List.pairwise_map.mpr (List.pairwise_lt_range.imp fun {i j} hij => ?_)
      have hj : j ≠ 0 := by omega
      simp only [fillCall, hj, if_false]
      split <;> norm_num
    · intro a ha b hb
      obtain ⟨i, -, rfl⟩ := List.mem_map.mp ha
      rw [List.mem_singleton.mp hb]
      simp only [fillCall]
      split <;> norm_num
  · norm_num [hfirst]
  · rw [hcheck]
  · rw [hcheck, MemoryStore.get_put]
    exact if_pos rfl

end FullStore

section AnyPeriod

variable {R : Type} [Field R] [LinearOrder R] {c : Call R} {calls : List (Call R)}
  {m window : Int} {t : R}

def allowedByRedis (roundTtl : R → Int) (k : String) (kv : TimedKeyValue R Int)
    (calls : List (Call R)) : Nat :=
  (calls.zip (answers (checkRedisFixedWindow roundTtl) kv calls)).countP fun x => x.1.key = k && x.2.1

/-- What is left to allow: the counter may go up to its limit, and one that expires before the period
is over is followed by one that does not. -/
def left (t : R) (window m : Int) : Option (Int × R) → Int
  | none => m
  | some (count, expiry) => max 0 (m - count) + if t + window ≤ expiry then 0 else m

theorem checkRedisFixedWindow_counter (roundTtl : R → Int) (kv : TimedKeyValue R Int) (c : Call R) :
    ∃ count expiry, (checkRedisFixedWindow roundTtl kv c).2 =
        Function.update kv (fullKey c.key) (some (count, expiry)) ∧
      (checkRedisFixedWindow roundTtl kv c).1.1 = decide (count ≤ c.maxCount) ∧
      ((∀ n e, kv (fullKey c.key) = some (n, e) → c.now < e → n = 0) ∧ count = 1 ∧
        expiry = c.now + c.windowSec ∨
        ∃ n, kv (fullKey c.key) = some (n, expiry) ∧ c.now < expiry ∧ count = n + 1) := by
  cases hlive : (kv (fullKey c.key)).filter fun entry => decide (c.now < entry.2) with
  | none =>
    obtain ⟨hans, hkv⟩ := checkRedisFixedWindow_of_lua roundTtl kv c
      (by simp only [luaFixedWindow, hlive]; rfl)
    refine ⟨_, _, hkv, hans, .inl ⟨fun n e hentry hnow => ?_, rfl, rfl⟩⟩
    rw [hentry, Option.filter_some, if_pos (decide_eq_true hnow)] at hlive
    cases hlive
  | some entry =>
    obtain ⟨hans, hkv⟩ := checkRedisFixedWindow_of_lua roundTtl kv c
      (by simp only [luaFixedWindow, hlive, Option.map_some, Option.getD_some]; rfl)
    obtain ⟨hentry, hnow⟩ := Option.filter_eq_some_iff.mp hlive
    refine ⟨_, _, hkv, hans, ?_⟩
    split
    · rename_i hone
      refine .inl ⟨fun n e he _ => ?_, hone, rfl⟩
      cases hentry.symm.trans he
      omega
    · exact .inr ⟨_, hentry, of_decide_eq_true hnow, rfl⟩

theorem counter_of_other (roundTtl : R → Int) (kv : TimedKeyValue R Int) (hk : c.key ≠ k) :
    (checkRedisFixedWindow roundTtl kv c).2 (fullKey k) = kv (fullKey k) := by
  obtain ⟨count, expiry, hkv, _⟩ := checkRedisFixedWindow_counter roundTtl kv c
  rw [hkv, Function.update_of_ne]
  intro he
  rw [fullKey, fullKey, String.append_right_inj] at he
  exact hk he.symm

variable [IsStrictOrderedRing R]

theorem left_counter (roundTtl : R → Int) (kv : TimedKeyValue R Int) (hm : 1 ≤ m) (hfrom : t ≤ c.now)
    (hto : c.now < t + window) (hwindow : c.windowSec = window) (hmax : c.maxCount = m) :
    left t window m ((checkRedisFixedWindow roundTtl kv c).2 (fullKey c.key)) +
        (if (checkRedisFixedWindow roundTtl kv c).1.1 = true then 1 else 0) ≤
      left t window m (kv (fullKey c.key)) := by
  obtain ⟨count, expiry, hkv, hans, hcase⟩ := checkRedisFixedWindow_counter roundTtl kv c
  rw [hkv, hans, Function.update_self, hmax, left]
  simp only [decide_eq_true_eq]
  rcases hcase with ⟨hzero, rfl, rfl⟩ | ⟨n, hentry, hlive, rfl⟩
  · -- a new counter lives until the period is over
    rw [hwindow, if_pos (add_le_add_left hfrom _)]
    cases hentry : kv (fullKey c.key) with
    | none =>
      rw [left]
      split <;> omega
    | some entry =>
      have hended : entry.1 = 0 ∨ ¬ t + window ≤ entry.2 := by
        by_contra! h
        exact h.1 (hzero _ _ hentry (lt_of_lt_of_le hto h.2))
      rw [left]
      rcases hended with hn | hend
      · split <;> split <;> omega
      · rw [if_neg hend]
        split <;> omega
  · rw [hentry, left]
    split <;> split <;> omega

theorem allowedByRedis_le_left (roundTtl : R → Int) (kv : TimedKeyValue R Int) (hm : 1 ≤ m)
    (hcalls : ∀ c ∈ calls, t ≤ c.now ∧ c.now < t + window ∧
      (c.key = k → c.windowSec = window ∧ c.maxCount = m)) :
    (allowedByRedis roundTtl k kv calls : Int) ≤ left t window m (kv (fullKey k)) := by
  induction calls generalizing kv with
  | nil =>
    simp only [allowedByRedis, List.zip_nil_left, List.countP_nil]
    unfold left
    split
    · omega
    · split <;> omega
  | cons c calls ih =>
    obtain ⟨⟨hfrom, hto, hlimit⟩, hcalls⟩ := List.forall_mem_cons.mp hcalls
    have hrest := ih (checkRedisFixedWindow roundTtl kv c).2 hcalls
    have hcons : allowedByRedis roundTtl k kv (c :: calls) =
        allowedByRedis roundTtl k (checkRedisFixedWindow roundTtl kv c).2 calls +
          if c.key = k && (checkRedisFixedWindow roundTtl kv c).1.1 then 1 else 0 := by
      simp only [allowedByRedis, answers, List.zip_cons_cons, List.countP_cons]
    rw [hcons]
    by_cases hk : c.key = k
    · subst hk
      have hstep := left_counter roundTtl kv hm hfrom hto (hlimit rfl).1 (hlimit rfl).2
      simp only [decide_true, Bool.true_and]
      push_cast
      omega
    · rw [counter_of_other roundTtl kv hk] at hrest
      simpa [hk] using hrest

/-- After any calls, within any period of the length of its window a key is allowed less than twice
its limit. -/
theorem allowedByRedis_lt_twice (roundTtl : R → Int) (k : String) (window m : Int) (hm : 1 ≤ m)
    (before : List (Call R)) {kv : TimedKeyValue R Int}
    (hkv : exec (advance (checkRedisFixedWindow roundTtl)) (fun _ => none) before = some kv)
    (t : R) (calls : List (Call R)) (hcalls : ∀ c ∈ calls, t ≤ c.now ∧ c.now < t + window ∧
      (c.key = k → c.windowSec = window ∧ c.maxCount = m)) :
    (allowedByRedis roundTtl k kv calls : Int) < 2 * m := by
  have hpos : ∀ n e, kv (fullKey k) = some (n, e) → 1 ≤ n := by
    refine exec_invariant' (I := fun kv => ∀ n e, kv (fullKey k) = some (n, e) → 1 ≤ n) ?_ ?_ hkv
    · rintro kv c _ h ⟨⟩ n e hentry
      by_cases hk : c.key = k
      · obtain ⟨count, expiry, hstore, _, hcase⟩ := checkRedisFixedWindow_counter roundTtl kv c
        rw [hstore, hk, Function.update_self] at hentry
        cases hentry
        rcases hcase with ⟨_, rfl, _⟩ | ⟨v, hv, _, rfl⟩
        · decide
        · have := h v _ (hk ▸ hv)
          omega
      · rw [counter_of_other roundTtl kv hk] at hentry
        exact h n e hentry
    · rintro n e ⟨⟩
  have hle := allowedByRedis_le_left roundTtl kv hm hcalls
  cases hentry : kv (fullKey k) with
  | none =>
    rw [hentry, left] at hle
    omega
  | some entry =>
    have := hpos _ _ hentry
    rw [hentry, left] at hle
    split at hle <;> omega

end AnyPeriod

/-- The last call of one window and the first two of the next. -/
theorem allowedByRedis_lt_twice_login :
    ∃ kv, exec (advance (checkRedisFixedWindow fun left : ℚ => ⌈left⌉)) (fun _ => none)
        [⟨0, "login:a", 60, 2⟩] = some kv ∧
      allowedByRedis (fun left => ⌈left⌉) "login:a" kv
        ([59, 60, 61].map fun now => ⟨now, "login:a", 60, 2⟩) = 3 ∧
      (allowedByRedis (fun left => ⌈left⌉) "login:a" kv
        ([59, 60, 61].map fun now => ⟨now, "login:a", 60, 2⟩) : Int) < 2 * 2 :=
  ⟨_, rfl, by decide +kernel, allowedByRedis_lt_twice _ "login:a" 60 2 (by decide)
    [⟨0, "login:a", 60, 2⟩] rfl 59 _ (by norm_num)⟩

end PuppyTalk.RateLimit
