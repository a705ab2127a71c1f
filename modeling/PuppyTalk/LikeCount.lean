import PuppyTalk.ProgramRules
import PuppyTalk.Tally

namespace PuppyTalk.Backend.LikeCount

open Txn

def exactFor : (t : TargetType) → (likeTarget t).Target → Bool
  | .post, p => (p : Post).deletedAt.isNone
  | .comment, _ => true

def tally (t : TargetType) (d : Store) : Tally Uuid Uuid where
  count i := ((likeTarget t).counters.get d i).map (likeTarget t).likeCount
  exact i := ((likeTarget t).counters.get d i).any (exactFor t)
  links := ((likeTarget t).links.rows d).map (likeTarget t).links.key

section Tables

variable {t t' : TargetType}

@[simp] theorem key_link (t : TargetType) (i u : Uuid) (now : Timestamp) :
    (likeTarget t).links.key ((likeTarget t).link i u now) = (i, u) := by
  cases t <;> rfl

theorem likeCount_update (t : TargetType) (n : Int) (now : Timestamp) (a : (likeTarget t).Target) :
    (likeTarget t).likeCount ((likeTarget t).touch now ((likeTarget t).setLikeCount n a)) = n := by
  cases t <;> rfl

theorem exactFor_update (t : TargetType) (n : Int) (now : Timestamp) (a : (likeTarget t).Target) :
    exactFor t ((likeTarget t).touch now ((likeTarget t).setLikeCount n a)) = exactFor t a := by
  cases t <;> rfl

theorem likeCount_set (t : TargetType) (n : Int) (a : (likeTarget t).Target) :
    (likeTarget t).likeCount ((likeTarget t).setLikeCount n a) = n := by
  cases t <;> rfl

theorem exactFor_set (t : TargetType) (n : Int) (a : (likeTarget t).Target) :
    exactFor t ((likeTarget t).setLikeCount n a) = exactFor t a := by
  cases t <;> rfl

theorem counters_put_links (t t' : TargetType) (l : List (likeTarget t).Link) (d : Store) :
    (likeTarget t').counters.rows ((likeTarget t).links.put l d) =
      (likeTarget t').counters.rows d := by
  cases t <;> cases t' <;> rfl

theorem get_counters_add (t t' : TargetType) (l : (likeTarget t).Link) (d : Store) (i : Uuid) :
    (likeTarget t').counters.get ((likeTarget t).links.add l d) i =
      (likeTarget t').counters.get d i := by
  unfold TableOf.add
  split
  · rfl
  · simp only [TableOf.get, counters_put_links]

theorem get_counters_remove (t t' : TargetType) (p : (likeTarget t).Link → Bool) (d : Store)
    (i : Uuid) :
    (likeTarget t').counters.get ((likeTarget t).links.remove p d) i =
      (likeTarget t').counters.get d i := by
  simp only [TableOf.get, TableOf.remove, counters_put_links]

theorem tally_put_links (t : TargetType) (l : List (likeTarget t).Link) (d : Store) :
    tally t ((likeTarget t).links.put l d) =
      { tally t d with links := l.map (likeTarget t).links.key } := by
  cases t <;> rfl

theorem tally_put_links_other (h : t' ≠ t) (l : List (likeTarget t).Link) (d : Store) :
    tally t' ((likeTarget t).links.put l d) = tally t' d := by
  cases t <;> cases t' <;> first | rfl | exact absurd rfl h

theorem tally_put_counters_other (h : t' ≠ t) (l : List (likeTarget t).Target) (d : Store) :
    tally t' ((likeTarget t).counters.put l d) = tally t' d := by
  cases t <;> cases t' <;> first | rfl | exact absurd rfl h

theorem links_put_counters (t : TargetType) (l : List (likeTarget t).Target) (d : Store) :
    (likeTarget t).links.rows ((likeTarget t).counters.put l d) = (likeTarget t).links.rows d := by
  cases t <;> rfl

def counted (t : TargetType) (f : Int → Int) (now : Timestamp) (a : (likeTarget t).Target) :
    (likeTarget t).Target :=
  (likeTarget t).touch now ((likeTarget t).setLikeCount (f ((likeTarget t).likeCount a)) a)

theorem key_counted (t : TargetType) (f : Int → Int) (now : Timestamp) (a : (likeTarget t).Target) :
    (likeTarget t).counters.key (counted t f now a) = (likeTarget t).counters.key a :=
  ((likeTarget t).key_touch now _).trans ((likeTarget t).key_set _ a)

section Update

variable {s : Store → (likeTarget t).Target → Bool} {p : (likeTarget t).Target → Bool}
variable {values : Store → (likeTarget t).Target → (likeTarget t).Target} {b : Bool}

theorem tally_update (hkey : ∀ d a, (likeTarget t).counters.key (values d a) =
      (likeTarget t).counters.key a)
    (hexact : ∀ d a, exactFor t (values d a) = exactFor t a) (snap : Store) (locked : List Row)
    (d : Store) :
    tally t (((likeTarget t).counters.update s p values b hkey).write snap locked d) =
      { tally t d with
        count := fun j => ((likeTarget t).counters.get d j).map fun a =>
          (likeTarget t).likeCount
            (if (likeTarget t).counters.row j ∈ locked then values snap a else a) } := by
  have hget := TableOf.get_update (s := s) (p := p) (b := b) hkey snap locked d
  unfold tally
  simp only [hget, Tally.mk.injEq]
  refine ⟨?_, ?_, ?_⟩
  · funext j
    rw [Option.map_map]
    rfl
  · funext j
    rw [Option.any_map]
    congr 1
    funext a
    show exactFor t (if _ then _ else _) = _
    split
    · exact hexact snap a
    · rfl
  · exact congrArg (List.map _) (links_put_counters t _ d)

theorem tally_update_same (hkey : ∀ d a, (likeTarget t).counters.key (values d a) =
      (likeTarget t).counters.key a)
    (hexact : ∀ d a, exactFor t (values d a) = exactFor t a)
    (hcount : ∀ d a, (likeTarget t).likeCount (values d a) = (likeTarget t).likeCount a)
    (snap : Store) (locked : List Row) (d : Store) :
    tally t (((likeTarget t).counters.update s p values b hkey).write snap locked d) =
      tally t d := by
  rw [tally_update hkey hexact]
  unfold tally
  simp only [Tally.mk.injEq, and_true]
  funext j
  congr 1
  funext a
  split
  · exact hcount snap a
  · rfl

end Update

theorem tally_modify (t : TargetType) (f : Int → Int) (now : Timestamp) (i : Uuid) (d : Store) :
    tally t ((likeTarget t).counters.modify i (counted t f now) d) =
      { tally t d with
        count := fun j => ((tally t d).count j).map fun n => if j = i then f n else n } := by
  have hget := TableOf.get_modify (key_counted t f now) i d
  unfold tally
  simp only [hget, Tally.mk.injEq]
  refine ⟨?_, ?_, ?_⟩
  · funext j
    rw [Option.map_map, Option.map_map]
    congr 1
    funext a
    by_cases hj : j = i <;> simp [hj, counted, likeCount_update]
  · funext j
    rw [Option.any_map]
    congr 1
    funext a
    by_cases hj : j = i <;> simp [hj, counted, exactFor_update]
  · unfold TableOf.modify
    rw [links_put_counters]

theorem mem_links {d : Store} : k ∈ (tally t d).links ↔ (likeTarget t).links.get d k ≠ none := by
  rw [Ne, TableOf.get_eq_none]
  unfold tally
  simp

theorem links_nodup {d : Store} (h : d.Valid) (t : TargetType) : (tally t d).links.Nodup :=
  (likeTarget t).links.keyed h

theorem adds_like {d : Store} (hfree : (likeTarget t).links.get d (i, u) = none)
    (htarget : ((likeTarget t).counters.get d i).isSome = true) (now : Timestamp) :
    Tally.Adds i u (tally t d) (tally t ((likeTarget t).counters.modify i
      (counted t (fun n => n + 1) now)
      ((likeTarget t).links.add ((likeTarget t).link i u now) d))) := by
  rw [TableOf.add_of_none (by rw [key_link]; exact hfree), tally_modify, tally_put_links]
  apply Tally.Adds.mk
  · exact fun hm => mem_links.mp hm hfree
  · exact Option.isSome_map.trans htarget
  · exact fun _ => rfl
  · exact fun _ => rfl
  · simp [tally]

theorem removes_like {d : Store} (hd : d.Valid)
    (hlink : (likeTarget t).links.get d (i, u) = some l) (now : Timestamp) :
    Tally.Removes i u (tally t d) (tally t ((likeTarget t).counters.modify i
      (counted t (fun n => max (n - 1) 0) now)
      ((likeTarget t).links.remove (fun l => decide ((likeTarget t).links.key l = (i, u))) d))) := by
  unfold TableOf.remove
  rw [tally_modify, tally_put_links]
  apply Tally.Removes.mk
  · exact fun _ => rfl
  · exact fun _ => rfl
  · have hmem : (i, u) ∈ (tally t d).links := mem_links.mpr (by rw [hlink]; nofun)
    have hfilter : (Table.delete (fun l => decide ((likeTarget t).links.key l = (i, u)))
        ((likeTarget t).links.rows d)).map (likeTarget t).links.key =
          (tally t d).links.filter fun k => !decide (k = (i, u)) := by
      unfold Table.delete tally
      rw [List.filter_map]
      rfl
    have hne : (fun k : Uuid × Uuid => !decide (k = (i, u))) = fun k => k != (i, u) := by
      funext k
      rw [bne, beq_eq_decide]
    rw [hfilter, hne, ← (links_nodup hd t).erase_eq_filter (i, u)]
    exact List.perm_cons_erase hmem

end Tables

def actor : Request → Option Uuid
  | .like _ _ userId _ _ => some userId
  | .unlike _ _ userId _ => some userId
  | _ => none

def isPurge : Request → Bool
  | .purge _ _ => true
  | _ => false

def purges : Request → Bool
  | .purge job chunk => decide (job.targetIds chunk ≠ [])
  | _ => false

def Counts : Request → Prop
  | .like .. => True
  | .unlike .. => True
  | .deletePost .. => True
  | .deleteComment .. => True
  | .purge .. => True
  | _ => False

structure Effect (c : Commit) (d : Store) : Prop where
  again : ∀ t i u notificationId now, c.req = .like t i u notificationId now →
    (i, u) ∈ (tally t d).links → c.db = d
  gone : ∀ t i u now, c.req = .unlike t i u now → (i, u) ∉ (tally t d).links → c.db = d
  users : isPurge c.req = false → c.db.users = d.users
  keeps : isPurge c.req = false → ∀ t sel, (∀ u, actor c.req = some u → sel u = false) →
    Tally.Keeps sel (tally t d) (tally t c.db)

structure Inv (first : Store) (w : World) : Prop where
  ok : ∀ t, (tally t w.db).Ok
  users : (w.log.countP fun c => purges c.req) + w.db.users.length ≤ first.users.length
  history : History Effect first w.log w.db

/-- No decrement reaches the bound of `GREATEST(..., 0)`. -/
def Unclamped : Request → Statement → Store → List Row → Store → Prop
  | .unlike t _ _ _, .decrementLikeCount, _, locked, d =>
    ∀ a ∈ (likeTarget t).counters.rows d, (likeTarget t).counters.rowOf a ∈ locked →
      max ((likeTarget t).likeCount a - 1) 0 = (likeTarget t).likeCount a - 1
  | .purge job chunk, .decrementLikeCounts t, snap, locked, d =>
    ∀ a ∈ (likeTarget t).counters.rows d, (likeTarget t).counters.rowOf a ∈ locked →
      max ((likeTarget t).likeCount a -
        (likeTarget t).likesBy (job.targetIds chunk) snap ((likeTarget t).counters.key a)) 0 =
      (likeTarget t).likeCount a -
        (likeTarget t).likesBy (job.targetIds chunk) snap ((likeTarget t).counters.key a)
  | _, _, _, _, _ => True

/-- A request that commits beside a purge: it is no purge itself, and none of an account that is
being purged. -/
def Beside (q : Request) (job : UserService.PurgeJob) (chunk : Nat) : Prop :=
  isPurge q = false ∧ ∀ u, actor q = some u → u ∉ job.targetIds chunk

def spec (first : Store) : Spec where
  starts := Counts
  inv := Inv first
  change := World.Committed Effect
  reads _ _ _ := True
  adm _ _ _ := True
  may q past w w' := ∀ job chunk, q = .purge job chunk → past ≠ [] →
    ∀ c : Commit, w'.log = w.log ++ [c] → Beside c.req job chunk
  ends := Unclamped
  raised _ _ _ _ := True
  returned _ _ _ := True

structure Moves (q : Request) (d d' : Store) : Prop where
  again : ∀ t i u notificationId now, q = .like t i u notificationId now →
    (i, u) ∈ (tally t d).links → d' = d
  gone : ∀ t i u now, q = .unlike t i u now → (i, u) ∉ (tally t d).links → d' = d
  users : d'.users = d.users
  ok : ∀ t, (tally t d').Ok
  keeps : ∀ t sel, (∀ u, actor q = some u → sel u = false) →
    Tally.Keeps sel (tally t d) (tally t d')

variable {first : Store} {q : Request} {c : Known} {w : World}

theorem Inv.moves (h : Inv first w) (hq : isPurge q = false) (hm : Moves q w.db d)
    (note : Option Nat) (past : List (Statement × Nat)) :
    Inv first (w.commit q note past d) ∧ World.Committed Effect w (w.commit q note past d) := by
  have heffect : Effect ⟨q, note, past, d⟩ w.db :=
    ⟨hm.again, hm.gone, fun _ => hm.users, fun _ => hm.keeps⟩
  have hpurges : purges q = false := by
    cases q <;> first | rfl | cases hq
  refine ⟨⟨hm.ok, ?_, .snoc h.history heffect⟩, _, rfl, heffect⟩
  show (w.log ++ [_]).countP _ + d.users.length ≤ _
  rw [List.countP_append, hm.users]
  simpa [hpurges] using h.users

theorem commits_of_moves (hq : isPurge q = false)
    (h : ∀ w, (spec first).Here c w → Moves q w.db (c.redo w.db)) : Commits (spec first) q c :=
  fun w hw _ => hw.good.inv.moves hq (h w hw) none c.past

theorem keeps_refl (x : Tally Uuid Uuid) (sel : Uuid → Bool) : Tally.Keeps sel x x :=
  ⟨fun _ => rfl, fun _ h => h, fun _ _ => rfl,
    fun i n m hn hm => by cases hn.symm.trans hm; exact le_refl _, fun _ h _ => h⟩

theorem moves_refl (h : Inv first w) (q : Request) : Moves q w.db w.db :=
  ⟨fun _ _ _ _ _ _ _ => rfl, fun _ _ _ _ _ _ => rfl, rfl, h.ok, fun _ _ _ => keeps_refl _ _⟩

def Quiet : Statement → Prop
  | .decrementLikeCount => False
  | .decrementLikeCounts _ => False
  | _ => True

theorem unclamped_of_quiet (q : Request) (h : Quiet name) (snap : Store) (locked : List Row)
    (d : Store) : Unclamped q name snap locked d := by
  unfold Unclamped
  split
  · exact h.elim
  · exact h.elim
  · trivial

theorem ends_of_quiet (q : Request) (h : Quiet n) : (spec first).ends q n snap locked d :=
  unclamped_of_quiet q h snap locked d

def core (d : Store) : List User × List Post × List Comment × List PostLike × List CommentLike :=
  (d.users, d.posts, d.comments, d.postLikes, d.commentLikes)

theorem tally_congr (h : core d = core d') (t : TargetType) : tally t d = tally t d' := by
  simp only [core, Prod.mk.injEq] at h
  obtain ⟨_, hp, hc, hpl, hcl⟩ := h
  cases t with
  | post =>
    show (⟨fun i => (Table.row Post.id d.posts i).map _, fun i => (Table.row Post.id d.posts i).any _,
      d.postLikes.map _⟩ : Tally Uuid Uuid) = _
    rw [hp, hpl]
    rfl
  | comment =>
    show (⟨fun i => (Table.row Comment.id d.comments i).map _,
      fun i => (Table.row Comment.id d.comments i).any _, d.commentLikes.map _⟩ :
        Tally Uuid Uuid) = _
    rw [hc, hcl]
    rfl

theorem wp_quiet {V : Type} {x : TxM β} {K : β → Known → Prop} (part : Store → V)
    (hc : (spec first).Kept q c) (hx : x.Within Quiet part)
    (hK : ∀ a c', (spec first).Framed q c Quiet (SamePart part) c' → K a c') : (spec first).wp q x K c :=
  Spec.wp_frame hx (fun _ h _ _ _ => ends_of_quiet _ h) (fun _ _ _ => trivial) hc hK

theorem wp_likeParent {K : Unit → Known → Prop} (t : TargetType) (i : Uuid)
    (hc : (spec first).Kept q c)
    (hget : ∀ d, (likeTarget t).counters.get (c.redo d) i = (likeTarget t).counters.get d i)
    (hK : ∀ n c', (spec first).After q c .foreignKey n c.redo
      (fun w => ((likeTarget t).counters.get w.db i).isSome = true) c' → K () c') :
    (spec first).wp q ((likeTarget t).parent i) K c := by
  have hget' := fun d => congrArg Option.isSome (hget d)
  cases t with
  | post =>
    exact wp_references (i := i) (fun _ _ _ => trivial)
      (fun _ _ _ => ends_of_quiet q (n := .foreignKey) trivial) (fun a => beq_iff_eq) hc hget'
      fun w c' _ ha => hK w.log.length c' ha
  | comment =>
    exact wp_references (i := i) (fun _ _ _ => trivial)
      (fun _ _ _ => ends_of_quiet q (n := .foreignKey) trivial) (fun a => beq_iff_eq) hc hget'
      fun w c' _ ha => hK w.log.length c' ha

theorem moves_of_one {t : TargetType} (hi : Inv first w) (hok : (tally t d).Ok)
    (hkeeps : ∀ sel, (∀ u, actor q = some u → sel u = false) →
      Tally.Keeps sel (tally t w.db) (tally t d))
    (hother : ∀ t', t' ≠ t → tally t' d = tally t' w.db) (hu : d.users = w.db.users)
    (hagain : ∀ t i u notificationId now, q = .like t i u notificationId now →
      (i, u) ∈ (tally t w.db).links → d = w.db)
    (hgone : ∀ t i u now, q = .unlike t i u now → (i, u) ∉ (tally t w.db).links → d = w.db) :
    Moves q w.db d := by
  refine ⟨hagain, hgone, hu, fun t' => ?_, fun t' sel hsel => ?_⟩
  · by_cases ht : t' = t
    · subst ht
      exact hok
    · rw [hother t' ht]
      exact hi.ok t'
  · by_cases ht : t' = t
    · subst ht
      exact hkeeps sel hsel
    · rw [hother t' ht]
      exact keeps_refl _ _

theorem users_put_counters (t : TargetType) (l : List (likeTarget t).Target) (d : Store) :
    ((likeTarget t).counters.put l d).users = d.users := by
  cases t <;> rfl

theorem users_put_links (t : TargetType) (l : List (likeTarget t).Link) (d : Store) :
    ((likeTarget t).links.put l d).users = d.users := by
  cases t <;> rfl

theorem moves_like {t : TargetType} (hi : Inv first w)
    (hfree : (likeTarget t).links.get w.db (i, u) = none)
    (htarget : ((likeTarget t).counters.get w.db i).isSome = true)
    (hcore : core d = core ((likeTarget t).counters.modify i (counted t (fun n => n + 1) now)
      ((likeTarget t).links.add ((likeTarget t).link i u now) w.db))) :
    Moves (.like t i u notificationId now') w.db d := by
  have hadds := adds_like hfree htarget now
  rw [← tally_congr hcore] at hadds
  have hadd : (likeTarget t).links.add ((likeTarget t).link i u now) w.db = _ :=
    TableOf.add_of_none (by rw [key_link]; exact hfree)
  apply moves_of_one (t := t) hi (hadds.ok (hi.ok t))
  · exact fun sel hsel => hadds.keeps (hsel u rfl)
  · intro t' ht
    rw [tally_congr hcore, TableOf.modify, tally_put_counters_other ht, hadd,
      tally_put_links_other ht]
  · have hu := congrArg Prod.fst hcore
    simp only [core] at hu
    rw [hu, TableOf.modify, users_put_counters, hadd, users_put_links]
  · intro t' i' u' _ _ he hmem
    cases he
    exact absurd hfree (mem_links.mp hmem)
  · intro t' i' u' _ he
    cases he

theorem meets_like (cfg : Config) (t : TargetType) (i u notificationId : Uuid) (now : Timestamp) :
    MeetsAt (spec first) cfg (.like t i u notificationId now) := by
  apply wp_once_transaction fun _ _ => trivial
  rw [Spec.wp_bind]
  apply wp_quiet id kept_begun (steps_resolveForLike trivial trivial t i u)
  intro notify c₁ h₁
  have hr₁ : ∀ d, c₁.redo d = d := h₁.redo
  apply Spec.wp_tryExcept fun _ _ _ => trivial
  rw [Spec.wp_bind]
  apply wp_insertIgnore (N := fun _ => True)
  · exact ⟨h₁.kept, fun d => by rw [hr₁], .true rfl, fun _ _ _ => trivial,
      fun _ _ _ _ _ _ _ => ends_of_quiet _ (n := .insertLike) trivial⟩
  · intro w c₂ _ _ h₂
    have hr₂ : ∀ d, c₂.redo d = (likeTarget t).links.add ((likeTarget t).link i u now) d :=
      fun d => by rw [h₂.redo, Function.comp_apply, hr₁]
    rw [Spec.wp_bind]
    apply wp_likeParent t i h₂.kept fun d => by rw [hr₂, get_counters_add]
    intro w c₃ h₃
    apply wp_quiet id h₃.kept (steps_references (R := SamePart id) (fun _ => rfl) trivial _ _)
    intro _ c₄ h₄
    have hr₄ : ∀ d, c₄.redo d = (likeTarget t).links.add ((likeTarget t).link i u now) d :=
      fun d => (h₄.redo d).trans (by rw [h₃.redo]; exact hr₂ d)
    have hf₄ : ∀ w, c₄.fact w → (likeTarget t).links.get w.db (i, u) = none ∧
        ((likeTarget t).counters.get w.db i).isSome = true := by
      intro w hw
      have h := h₃.fact w (h₄.fact w hw)
      have hfree := (h₂.fact w h.1).2
      rw [key_link] at hfree
      exact ⟨hfree, h.2⟩
    rw [if_pos rfl, Spec.wp_bind, LikeTarget.incrementLikeCount, LikeTarget.updateLikeCount,
      Spec.wp_bind]
    apply wp_updateOneReturning (i := i) (N := fun _ => False) fun a => of_decide_eq_true
    · refine ⟨h₄.kept, fun d => by rw [hr₄, get_counters_add], .false rfl, ?_, ?_⟩
      · intro w hw hcond
        obtain ⟨a, ha⟩ := Option.isSome_iff_exists.mp (hf₄ w hw.fact).2
        rw [ha] at hcond
        simp [(likeTarget t).counters.get_key ha] at hcond
      · exact fun _ _ _ _ _ _ _ => ends_of_quiet _ (n := .incrementLikeCount) trivial
    · intro w w' v c₅ _ _ _ _ _ h₅
      rw [Spec.wp_pure, Spec.wp_bind]
      apply wp_quiet core h₅.kept
        (steps_notifyAuthor (R := SamePart core) (fun _ => rfl) trivial trivial (fun _ _ => rfl) _ _ _ _ _ _ _)
      intro _ c₆ h₆
      apply commits_of_moves rfl
      intro w hw
      obtain ⟨hfree, htarget⟩ := hf₄ w (h₅.fact w (h₆.fact w hw.fact)).1
      apply moves_like hw.good.inv hfree htarget
      rw [h₆.redo, h₅.redo, Function.comp_apply, hr₄]
      rfl
    · exact fun w w' c' _ _ hN => hN.elim
  · intro w c₂ _ h₂
    rw [if_neg (by decide), Spec.wp_bind]
    apply wp_query (fun d => ends_of_quiet _ (n := .getLikeCount) trivial) h₂.kept
    intro w c₃ _ h₃
    apply commits_of_moves rfl
    intro w hw
    rw [h₃.redo, h₂.redo, hr₁]
    exact moves_refl hw.good.inv _

theorem mem_links_of_get {t : TargetType} {d : Store} {l : (likeTarget t).Link}
    (h : (likeTarget t).links.get d (i, u) = some l) : (i, u) ∈ (tally t d).links :=
  mem_links.mpr (by rw [h]; nofun)

theorem moves_unlike {t : TargetType} {l : (likeTarget t).Link} (hi : Inv first w) (hd : w.db.Valid)
    (hlink : (likeTarget t).links.get w.db (i, u) = some l) (now : Timestamp) :
    Moves (.unlike t i u now') w.db ((likeTarget t).counters.modify i
      (counted t (fun n => max (n - 1) 0) now)
      ((likeTarget t).links.remove (fun l => decide ((likeTarget t).links.key l = (i, u))) w.db)) := by
  have hremoves := removes_like hd hlink now
  apply moves_of_one (t := t) hi (hremoves.ok (hi.ok t))
  · exact fun sel hsel => hremoves.keeps (hi.ok t) (hsel u rfl)
  · intro t' ht
    rw [TableOf.modify, tally_put_counters_other ht, TableOf.remove, tally_put_links_other ht]
  · rw [TableOf.modify, users_put_counters, TableOf.remove, users_put_links]
  · intro t' i' u' _ _ he
    cases he
  · intro t' i' u' _ he hmem
    cases he
    exact absurd (mem_links_of_get hlink) hmem

theorem unclamped_unlike {t : TargetType} {a : (likeTarget t).Target} {d : Store} (hok : (tally t d).Ok) (hd : d.Valid)
    (hl : (i, u) ∈ (tally t d).links) (ha : a ∈ (likeTarget t).counters.rows d)
    (hk : (likeTarget t).counters.key a = i) :
    max ((likeTarget t).likeCount a - 1) 0 = (likeTarget t).likeCount a - 1 := by
  have hget : (likeTarget t).counters.get d i = some a := ((likeTarget t).counters.get_eq_some hd).mpr ⟨ha, hk⟩
  have hcount : (tally t d).count i = some ((likeTarget t).likeCount a) := by
    simp only [tally, hget, Option.map_some]
  have hpos := hok.one_le hl hcount
  omega

theorem meets_unlike (cfg : Config) (t : TargetType) (i u : Uuid) (now : Timestamp) :
    MeetsAt (spec first) cfg (.unlike t i u now) := by
  apply wp_once_transaction fun _ _ => trivial
  rw [Spec.wp_bind]
  apply wp_quiet id kept_begun (steps_ensureUnlikeable trivial trivial t i)
  intro _ c₁ h₁
  have hr₁ : ∀ d, c₁.redo d = d := h₁.redo
  apply Spec.wp_tryExcept fun _ _ _ => trivial
  rw [Spec.wp_bind, LikeTarget.delete, Spec.wp_bind]
  apply wp_deleteOne (i := (i, u)) (N := fun _ => True) fun l => of_decide_eq_true
  · exact ⟨h₁.kept, fun d => by rw [hr₁], .true rfl, fun _ _ _ => trivial,
      fun _ _ _ _ _ _ _ => ends_of_quiet _ (n := .deleteLike) trivial⟩
  · intro w w' l n c₂ _ _ _ _ _ hn h₂
    have hr₂ : ∀ d, c₂.redo d =
        (likeTarget t).links.remove (fun l => decide ((likeTarget t).links.key l = (i, u))) d :=
      fun d => by rw [h₂.redo, Function.comp_apply, hr₁]
    have hf₂ : ∀ w, c₂.fact w → (likeTarget t).links.get w.db (i, u) = some l :=
      fun w hw => (h₂.fact w hw).2
    rw [Spec.wp_pure, if_pos (decide_eq_true hn), LikeTarget.decrementLikeCount,
      LikeTarget.updateLikeCount, Spec.wp_bind]
    apply wp_updateOneReturning (i := i) (N := fun _ => False) fun a => of_decide_eq_true
    · refine ⟨h₂.kept, fun d => by rw [hr₂, get_counters_remove], .false rfl, ?_, ?_⟩
      · intro w hw hcond
        have htarget := (hw.good.inv.ok t).target _ (mem_links_of_get (hf₂ w hw.fact))
        obtain ⟨a, ha⟩ := Option.isSome_iff_exists.mp (Option.isSome_map.symm.trans htarget)
        rw [ha] at hcond
        simp [(likeTarget t).counters.get_key ha] at hcond
      · intro w w' locked _ hw' honly _ a ha hl
        rw [hr₂, TableOf.remove, counters_put_links] at ha
        exact unclamped_unlike (hw'.good.inv.ok t) hw'.good.valid
          (mem_links_of_get (hf₂ w' hw'.fact)) ha ((likeTarget t).counters.row_inj (honly _ hl))
    · intro w w' v c₃ _ _ _ _ _ h₃
      apply commits_of_moves rfl
      intro w hw
      rw [h₃.redo, Function.comp_apply, hr₂]
      exact moves_unlike hw.good.inv hw.good.valid (hf₂ w (h₃.fact w hw.fact).1) now
    · exact fun w w' c' _ _ hN => hN.elim
  · intro w w' c₂ _ _ _ h₂
    rw [Spec.wp_pure, if_neg (by decide)]
    apply wp_query (fun d => ends_of_quiet _ (n := .getLikeCount) trivial) h₂.kept
    intro w c₃ _ h₃
    apply commits_of_moves rfl
    intro w hw
    rw [h₃.redo, h₂.redo, hr₁]
    exact moves_refl hw.good.inv _

def parts (d : Store) : List User × Tally Uuid Uuid × Tally Uuid Uuid :=
  (d.users, tally .post d, tally .comment d)

theorem parts_update_posts {values : Post → Post} {hkey : ∀ p, (values p).id = p.id}
    (hcount : ∀ p, (values p).likeCount = p.likeCount)
    (hdel : ∀ p, (values p).deletedAt.isNone = p.deletedAt.isNone) :
    Untouched Tables.posts (SamePart parts) values hkey := by
  intro conds snap locked d
  have h := tally_update_same (t := .post) (s := fun _ => conds) (p := conds) (b := false)
    (fun _ => hkey) (fun _ => hdel) (fun _ => hcount) snap locked d
  exact congrArg (fun x => (d.users, x, tally .comment d)) h

theorem parts_update_comments {values : Comment → Comment} {hkey : ∀ c, (values c).id = c.id}
    (hcount : ∀ c, (values c).likeCount = c.likeCount) :
    Untouched Tables.comments (SamePart parts) values hkey := by
  intro conds snap locked d
  have h := tally_update_same (t := .comment) (s := fun _ => conds) (p := conds) (b := false)
    (fun _ => hkey) (fun _ _ => rfl) (fun _ => hcount) snap locked d
  exact congrArg (fun x => (d.users, tally .post d, x)) h

theorem moves_of_parts (hi : Inv first w) (h : parts d = parts w.db)
    (hagain : ∀ t i u notificationId now, q ≠ .like t i u notificationId now)
    (hgone : ∀ t i u now, q ≠ .unlike t i u now) : Moves q w.db d := by
  simp only [parts, Prod.mk.injEq] at h
  obtain ⟨hu, hp, hc⟩ := h
  have ht : ∀ t, tally t d = tally t w.db := fun t => by cases t <;> assumption
  refine ⟨fun _ _ _ _ _ he => absurd he (hagain _ _ _ _ _), fun _ _ _ _ he => absurd he (hgone _ _ _ _),
    hu, fun t => ?_, fun t sel _ => ?_⟩
  · rw [ht]
    exact hi.ok t
  · rw [ht]
    exact keeps_refl _ _

theorem meets_deleteComment (cfg : Config) (postId commentId : Uuid) (now : Timestamp) :
    MeetsAt (spec first) cfg (.deleteComment postId commentId now) := by
  have hframe : Transacts Quiet (SamePart parts) (CommentService.deleteComment postId commentId now) :=
    transacts_deleteComment postId commentId ⟨trivial, trivial, trivial⟩
      (parts_update_comments fun _ => rfl) (parts_update_posts (fun _ => rfl) fun _ => rfl)
  apply wp_once_steps hframe (fun _ => rfl) (fun _ _ _ h h' => h'.trans h)
    (fun _ h _ _ _ => ends_of_quiet _ h) (fun _ _ _ => trivial) (fun _ _ => trivial) kept_begun
  intro c' h'
  apply commits_of_moves rfl
  intro w hw
  exact moves_of_parts hw.good.inv (h'.redo w.db) nofun nofun

def rest (d : Store) : List User × List Post × List PostLike × Tally Uuid Uuid :=
  (d.users, d.posts, d.postLikes, tally .comment d)

theorem rest_update_comments {values : Comment → Comment} {hkey : ∀ c, (values c).id = c.id}
    (hcount : ∀ c, (values c).likeCount = c.likeCount) :
    Untouched Tables.comments (SamePart rest) values hkey := by
  intro conds snap locked d
  have h := tally_update_same (t := .comment) (s := fun _ => conds) (p := conds) (b := false)
    (fun _ => hkey) (fun _ _ => rfl) (fun _ => hcount) snap locked d
  exact congrArg (fun x => (d.users, d.posts, d.postLikes, x)) h

theorem count_post (d : Store) (j : Uuid) :
    (tally .post d).count j = (Tables.posts.get d j).map (·.likeCount) := rfl

theorem exact_post (d : Store) (j : Uuid) :
    (tally .post d).exact j = (Tables.posts.get d j).any (·.deletedAt.isNone) := rfl

/-- What `soft_delete` writes. -/
def softDeleted (now : Timestamp) (p : Post) : Post :=
  { p with deletedAt := some now, updatedAt := now }

theorem drops_delete {d d' : Store} {locked : List Row} (now : Timestamp)
    (hposts : d'.posts = (Tables.posts.modify i (softDeleted now) d).posts)
    (hlikes : d'.postLikes =
      Table.delete (fun l => decide (Row.postLike l.key ∈ locked)) d.postLikes)
    (hlocked : ∀ r ∈ locked, ∃ u, r = Row.postLike (i, u)) :
    Tally.Drops (fun k => !decide (Row.postLike k ∈ locked)) (tally .post d) (tally .post d') := by
  have hget : ∀ j, Tables.posts.get d' j = (Tables.posts.get d j).map fun p =>
      if j = i then softDeleted now p else p := by
    intro j
    have hj := TableOf.get_modify (T := Tables.posts) (f := softDeleted now) (fun _ => rfl) i d j
    rw [← hj]
    exact congrArg (Table.row Post.id · j) hposts
  have hexact : ∀ j, (tally .post d').exact j =
      if j = i then false else (tally .post d).exact j := by
    intro j
    rw [exact_post, exact_post, hget]
    cases Tables.posts.get d j with
    | none => simp
    | some p => by_cases hj : j = i <;> simp [hj, softDeleted]
  apply Tally.Drops.mk
  · intro j
    rw [count_post, count_post, hget]
    cases Tables.posts.get d j with
    | none => rfl
    | some p => by_cases hj : j = i <;> simp [hj, softDeleted]
  · intro j hj
    rw [hexact] at hj
    split at hj
    · cases hj
    · exact hj
  · show d'.postLikes.map PostLike.key = (d.postLikes.map PostLike.key).filter _
    rw [hlikes, Table.delete, List.filter_map]
    rfl
  · intro k _ hk
    rw [hexact] at hk
    split at hk
    · cases hk
    · rename_i hne
      simp only [Bool.not_eq_true', decide_eq_false_iff_not]
      intro hmem
      obtain ⟨u, hu⟩ := hlocked _ hmem
      cases hu
      exact hne rfl

theorem meets_deletePost (cfg : Config) (i : Uuid) (now : Timestamp) :
    MeetsAt (spec first) cfg (.deletePost i now) := by
  apply wp_once_transaction fun _ _ => trivial
  rw [Spec.wp_bind, PostsRepository.softDelete, Spec.wp_bind]
  apply wp_updateOneReturning (i := i) (N := fun _ => True)
  · intro p hp
    simp only [Bool.and_eq_true, beq_iff_eq] at hp
    exact hp.1
  · exact ⟨kept_begun, fun d => rfl, .true rfl, fun _ _ _ => trivial,
      fun _ _ _ _ _ _ _ => ends_of_quiet _ (n := .softDelete) trivial⟩
  · intro w w' p c₁ _ _ _ _ _ h₁
    rw [Spec.wp_bind]
    refine wp_quiet rest h₁.kept ?_ fun _ c₂ h₂ => ?_
    · exact steps_deleteRows trivial (fun _ _ => rfl) _
    rw [Spec.wp_pure, if_pos rfl, Spec.wp_bind]
    refine wp_quiet rest h₂.kept ?_ fun _ c₃ h₃ => ?_
    · apply steps_updateRows trivial
      exact rest_update_comments fun _ => rfl
    rw [Spec.wp_bind]
    apply Spec.wp_any h₃.kept fun _ _ _ => ends_of_quiet _ (n := .deleteByPostId) trivial
    intro w w' locked c₄ _ _ hlocked h₄
    apply commits_of_moves rfl
    intro w hw
    have hrest : rest (c₃.redo w.db) = rest (Tables.posts.modify i (softDeleted now) w.db) := by
      rw [h₃.redo, h₂.redo, h₁.redo]
      rfl
    simp only [rest, Prod.mk.injEq] at hrest
    obtain ⟨hu, hp, hl, hc⟩ := hrest
    have hlocked' : ∀ r ∈ locked, ∃ u, r = Row.postLike (i, u) := by
      intro r hr
      obtain ⟨l, hl, rfl⟩ := List.mem_map.mp (hlocked r hr)
      have hk : l.postId = i := beq_iff_eq.mp (List.mem_filter.mp hl).2
      exact ⟨l.userId, by rw [← hk]; rfl⟩
    have hlikes : (c₄.redo w.db).postLikes =
        Table.delete (fun l => decide (Row.postLike l.key ∈ locked)) w.db.postLikes := by
      rw [h₄.redo]
      exact congrArg (Table.delete _) hl
    have hdrops := drops_delete now (by rw [h₄.redo]; exact hp) hlikes hlocked'
    have hcomment : tally .comment (c₄.redo w.db) = tally .comment w.db := by
      rw [h₄.redo]
      exact hc
    apply moves_of_one (t := .post) hw.good.inv (hdrops.ok (hw.good.inv.ok .post))
    · exact fun sel _ => hdrops.keeps
    · intro t' ht
      cases t' with
      | post => exact absurd rfl ht
      | comment => exact hcomment
    · rw [h₄.redo]
      exact hu
    · nofun
    · nofun
  · intro w w' c₁ _ _ _ h₁
    rw [Spec.wp_pure, if_neg (by decide)]
    exact fun _ _ => trivial

section Purge

variable {job : UserService.PurgeJob} {chunk : Nat} {t : TargetType}

theorem kept_purge {F : World → Prop}
    (hF : ∀ w w' (c : Commit), Effect c w.db → w'.db = c.db → Beside c.req job chunk → F w → F w')
    (past : List (Statement × Nat)) (held : List (Row × LockMode)) (redo : Store → Store)
    (hp : past ≠ []) :
    (spec first).Kept (.purge job chunk) { past := past, held := held, redo := redo, fact := F } := by
  intro past' held' hp' _ w w' _ _ hch hmay _ hf
  obtain ⟨c, rfl, he⟩ := hch
  obtain ⟨x, hx⟩ := List.exists_mem_of_ne_nil _ hp
  have hb := hmay job chunk rfl (List.ne_nil_of_mem (hp' x hx)) c rfl
  exact hF w _ c he rfl hb hf

def purged (job : UserService.PurgeJob) (chunk : Nat) (u : Uuid) : Bool :=
  (job.targetIds chunk).contains u

theorem keeps_beside (he : Effect c' d) (hb : Beside c'.req job chunk) (t : TargetType) :
    Tally.Keeps (purged job chunk) (tally t d) (tally t c'.db) := by
  apply he.keeps hb.1
  intro u hu
  have hmem := hb.2 u hu
  simpa [purged] using hmem

theorem linksOf_purged (t : TargetType) (d : Store) (i : Uuid) :
    (tally t d).linksOf i (purged job chunk) = (likeTarget t).likesBy (job.targetIds chunk) d i := by
  unfold Tally.linksOf tally LikeTarget.likesBy purged
  rw [List.countP_map]
  rfl

structure Decremented (job : UserService.PurgeJob) (chunk : Nat) (t : TargetType) (snap : Store)
    (locked : List Row) (w : World) : Prop where
  counted : (tally t w.db).Counted ((likeTarget t).likesBy (job.targetIds chunk) snap)
    (purged job chunk)
  covered : ∀ i, (likeTarget t).likesBy (job.targetIds chunk) snap i ≠ 0 →
    ((tally t w.db).count i).isSome = true → (likeTarget t).counters.row i ∈ locked

theorem Decremented.beside {w w' : World} (h : Decremented job chunk t snap locked w)
    (he : Effect c' w.db) (hd : w'.db = c'.db) (hb : Beside c'.req job chunk) :
    Decremented job chunk t snap locked w' := by
  have hk := keeps_beside he hb t
  rw [← hd] at hk
  refine ⟨h.counted.keeps hk, fun i hi hs => h.covered i hi ?_⟩
  rw [← hk.count]
  exact hs

structure Unlinked (job : UserService.PurgeJob) (chunk : Nat) (t : TargetType) (locked : List Row)
    (w : World) : Prop where
  only : ∀ k, (likeTarget t).links.row k ∈ locked → purged job chunk k.2 = true
  covered : ∀ k ∈ (tally t w.db).links, purged job chunk k.2 = true →
    (likeTarget t).links.row k ∈ locked

theorem Unlinked.beside {w w' : World} (h : Unlinked job chunk t locked w)
    (he : Effect c' w.db) (hd : w'.db = c'.db) (hb : Beside c'.req job chunk) :
    Unlinked job chunk t locked w' := by
  have hk := keeps_beside he hb t
  rw [← hd] at hk
  exact ⟨h.only, fun k hm hp => h.covered k (hk.sub k hm hp) hp⟩

theorem isSome_count (t : TargetType) (d : Store) (i : Uuid) :
    ((tally t d).count i).isSome = ((likeTarget t).counters.get d i).isSome := Option.isSome_map

theorem count_of_mem {a : (likeTarget t).Target} {d : Store} (hd : d.Valid)
    (ha : a ∈ (likeTarget t).counters.rows d) :
    (tally t d).count ((likeTarget t).counters.key a) = some ((likeTarget t).likeCount a) := by
  have hget : (likeTarget t).counters.get d ((likeTarget t).counters.key a) = some a :=
    ((likeTarget t).counters.get_eq_some hd).mpr ⟨ha, rfl⟩
  simp only [tally, hget, Option.map_some]

theorem wp_decrement {K : Unit → Known → Prop} (t : TargetType)
    (hc : (spec first).Kept (.purge job chunk) c)
    (hrows : ∀ d, (likeTarget t).counters.rows (c.redo d) = (likeTarget t).counters.rows d)
    (hlinks : ∀ d, (likeTarget t).links.rows (c.redo d) = (likeTarget t).links.rows d)
    (hK : ∀ n snap locked c', (spec first).After (.purge job chunk) c (.decrementLikeCounts t) n
      (((likeTarget t).decrementByOwner (job.targetIds chunk)).write snap locked ∘ c.redo)
      (Decremented job chunk t snap locked) c' → K () c') :
    (spec first).wp (.purge job chunk) (decrementCounterByLinkOwner t (job.targetIds chunk)) K c := by
  have hsnap : ∀ d i, (likeTarget t).likesBy (job.targetIds chunk) (c.redo d) i =
      (tally t d).linksOf i (purged job chunk) := by
    intro d i
    rw [linksOf_purged, LikeTarget.likesBy, hlinks]
    rfl
  apply Spec.wp_rows (T := (likeTarget t).counters) (p := fun _ => true) (fun _ => rfl)
    (fun _ _ => rfl) (fun _ h => by cases h) hrows hc
    (fun w w' => (tally t w'.db).Counted (fun i => (tally t w.db).linksOf i (purged job chunk))
      (purged job chunk) ∧ ∀ i, ((tally t w'.db).count i).isSome = ((tally t w.db).count i).isSome)
    (fun w hw => ⟨(hw.good.inv.ok t).counted _, fun _ => rfl⟩)
    (fun w n => kept_purge (fun w₁ w₂ c' he hd hb hf => by
      have hk := keeps_beside he hb t
      rw [← hd] at hk
      exact ⟨hf.1.keeps hk, fun i => (hk.count i).trans (hf.2 i)⟩) _ _ _ (List.cons_ne_nil _ _))
    (fun i w => ((tally t w.db).count i).isSome = false)
    (fun i n => kept_purge (fun w₁ w₂ c' he hd hb hf => by
      have hk := keeps_beside he hb t
      rw [← hd] at hk
      exact (hk.count i).trans hf) _ _ _ (List.cons_ne_nil _ _))
  · intro i w _ h
    rw [isSome_count]
    cases hg : (likeTarget t).counters.get w.db i with
    | none => rfl
    | some a => cases h a hg
  · intro w w' locked hw hw' hB hsel hl hcov
    have hcounted : (tally t w'.db).Counted
        ((likeTarget t).likesBy (job.targetIds chunk) (c.redo w.db)) (purged job chunk) := by
      rw [show (likeTarget t).likesBy (job.targetIds chunk) (c.redo w.db) = _ from funext (hsnap w.db)]
      exact hB.1
    apply And.intro
    · intro a ha _
      rw [hrows] at ha
      have hle := hcounted.le _ _ (count_of_mem hw'.good.valid ha)
      omega
    · refine ⟨Decremented job chunk t (c.redo w.db) locked, ⟨hcounted, ?_⟩, ?_, ?_⟩
      · intro i hi hs
        rw [hB.2, isSome_count] at hs
        obtain ⟨a, ha⟩ := Option.isSome_iff_exists.mp hs
        obtain ⟨hm, rfl⟩ := ((likeTarget t).counters.get_eq_some hw.good.valid).mp ha
        rcases hcov a hm (bne_iff_ne.mpr hi) with hl | hN
        · exact hl
        · rw [hB.2, isSome_count, ha] at hN
          cases hN
      · exact kept_purge (fun w₁ w₂ c' he hd hb hf => hf.beside he hd hb) _ _ _
          (List.cons_ne_nil _ _)
      · exact fun c' ha => hK _ _ _ c' ha

theorem wp_unlink {K : Nat → Known → Prop} (t : TargetType)
    (hc : (spec first).Kept (.purge job chunk) c)
    (hrows : ∀ d, (likeTarget t).links.rows (c.redo d) = (likeTarget t).links.rows d)
    (hK : ∀ n m locked c', (spec first).After (.purge job chunk) c .cascade n
      ((likeTarget t).links.remove (fun l => decide ((likeTarget t).links.rowOf l ∈ locked)) ∘ c.redo)
      (Unlinked job chunk t locked) c' → K m c') :
    (spec first).wp (.purge job chunk) (deleteRows .cascade (likeTarget t).links
      fun l => (job.targetIds chunk).contains ((likeTarget t).links.key l).2) K c := by
  apply Spec.wp_rows (T := (likeTarget t).links)
    (p := fun l => purged job chunk ((likeTarget t).links.key l).2) (fun _ => rfl)
    (fun _ _ => rfl) (fun _ h => by cases h) hrows hc
    (fun w w' => ∀ k ∈ (tally t w'.db).links, purged job chunk k.2 = true → k ∈ (tally t w.db).links)
    (fun w _ k hk _ => hk)
    (fun w n => kept_purge (fun w₁ w₂ c' he hd hb hf k hk hp => by
      have hkeeps := keeps_beside he hb t
      rw [← hd] at hkeeps
      exact hf k (hkeeps.sub k hk hp) hp) _ _ _ (List.cons_ne_nil _ _))
    (fun k w => purged job chunk k.2 = true → k ∉ (tally t w.db).links)
    (fun k n => kept_purge (fun w₁ w₂ c' he hd hb hf hp hk => by
      have hkeeps := keeps_beside he hb t
      rw [← hd] at hkeeps
      exact hf hp (hkeeps.sub k hk hp)) _ _ _ (List.cons_ne_nil _ _))
  · intro k w _ h hp hk
    obtain ⟨l, hl⟩ := Option.ne_none_iff_exists'.mp (mem_links.mp hk)
    have hpl := h l hl
    rw [(likeTarget t).links.get_key hl, hp] at hpl
    cases hpl
  · intro w w' locked hw hw' hB hsel hl hcov
    refine ⟨ends_of_quiet _ (n := .cascade) trivial, Unlinked job chunk t locked, ⟨?_, ?_⟩, ?_, ?_⟩
    · intro k hk
      obtain ⟨l, _, hs, he⟩ := hsel _ hk
      rw [(likeTarget t).links.row_inj he]
      exact hs
    · intro k hk hp
      obtain ⟨l, hm, rfl⟩ := List.mem_map.mp (hB k hk hp)
      exact (hcov l hm hp).resolve_right fun hN => hN hp hk
    · exact kept_purge (fun w₁ w₂ c' he hd hb hf => hf.beside he hd hb) _ _ _ (List.cons_ne_nil _ _)
    · exact fun c' ha => hK _ _ _ c' ha

theorem purges_tally {d' : Store} (hok : (tally t w.db).Ok)
    (hdec : Decremented job chunk t snap locked w) (hun : Unlinked job chunk t locked' w)
    (hcount : (tally t d').count = (tally t
      (((likeTarget t).decrementByOwner (job.targetIds chunk)).write snap locked w.db)).count)
    (hexact : (tally t d').exact = (tally t w.db).exact)
    (hlinks : (tally t d').links =
      (Table.delete (fun l => decide ((likeTarget t).links.rowOf l ∈ locked'))
        ((likeTarget t).links.rows w.db)).map (likeTarget t).links.key) :
    Tally.Purges ((likeTarget t).likesBy (job.targetIds chunk) snap) (purged job chunk)
      (tally t w.db) (tally t d') := by
  apply Tally.Purges.mk
  · intro i
    rw [hcount, LikeTarget.decrementByOwner, tally_update _ fun _ _ => exactFor_set t _ _]
    show ((likeTarget t).counters.get w.db i).map _ =
      (((likeTarget t).counters.get w.db i).map (likeTarget t).likeCount).map _
    cases hg : (likeTarget t).counters.get w.db i with
    | none => rfl
    | some a =>
      have hk : (likeTarget t).counters.key a = i := (likeTarget t).counters.get_key hg
      have hcount : (tally t w.db).count i = some ((likeTarget t).likeCount a) := by
        simp only [tally, hg, Option.map_some]
      simp only [Option.map_some, Option.some.injEq]
      split
      · rw [likeCount_set, hk]
      · -- a counter that was passed over has nothing to lose
        rename_i hl
        have hzero : (likeTarget t).likesBy (job.targetIds chunk) snap i = 0 := by
          by_contra hne
          exact hl (hdec.covered i hne (by rw [hcount]; rfl))
        have hle := hok.le i _ hcount
        rw [hzero]
        omega
  · exact fun i => congrFun hexact i
  · rw [hlinks, Table.delete]
    show _ = (((likeTarget t).links.rows w.db).map (likeTarget t).links.key).filter _
    rw [List.filter_map]
    congr 1
    apply List.filter_congr
    intro l hl
    have hiff : (likeTarget t).links.rowOf l ∈ locked' ↔
        purged job chunk ((likeTarget t).links.key l).2 = true :=
      ⟨hun.only _, hun.covered _ (List.mem_map_of_mem hl)⟩
    simp only [hiff, Bool.decide_eq_true]
    rfl

theorem wp_purgeUsers {K : Nat → Known → Prop} {u : User}
    (hc : (spec first).Kept (.purge job chunk) c)
    (hrows : ∀ d, Tables.users.rows (c.redo d) = Tables.users.rows d)
    (hu : ∀ w, c.fact w → u ∈ w.db.users) (hp : purged job chunk u.id = true)
    (hK : ∀ n m (locked : List Row) c', Row.user u.id ∈ locked →
      (spec first).After (.purge job chunk) c .purgeUsersByIds n
        (Tables.users.remove (fun u => decide (Tables.users.rowOf u ∈ locked)) ∘ c.redo)
        (fun _ => True) c' → K m c') :
    (spec first).wp (.purge job chunk) (deleteRows .purgeUsersByIds Tables.users
      fun u => (job.targetIds chunk).contains u.id) K c := by
  apply Spec.wp_rows (T := Tables.users) (p := fun u => purged job chunk u.id) (fun _ => rfl)
    (fun _ _ => rfl) (fun _ h => by cases h) hrows hc (fun _ _ => True) (fun _ _ => trivial)
    (fun _ _ => .true rfl)
    (fun i w => ∀ u, Tables.users.get w.db i = some u → purged job chunk u.id = false)
    (fun i n => kept_purge (fun w₁ w₂ c' he hd hb hf u hg => by
      apply hf u
      rw [← hg]
      show Table.row _ w₁.db.users i = Table.row _ w₂.db.users i
      rw [hd, he.users hb.1]) _ _ _ (List.cons_ne_nil _ _))
    (fun _ _ _ h => h)
  intro w w' locked hw hw' _ _ _ hcov
  refine ⟨ends_of_quiet _ (n := .purgeUsersByIds) trivial, fun _ => True, trivial, .true rfl, ?_⟩
  intro c' ha
  apply hK _ _ locked c' _ ha
  apply (hcov u (hu w hw.fact) hp).resolve_right
  intro hN
  have hget : Tables.users.get w'.db u.id = some u :=
    (Tables.users.get_eq_some hw'.good.valid).mpr ⟨hu w' hw'.fact, rfl⟩
  rw [hN u hget] at hp
  cases hp

def purgeParts (d : Store) :
    List User × List PostLike × List CommentLike × Tally Uuid Uuid × Tally Uuid Uuid :=
  (d.users, d.postLikes, d.commentLikes, tally .post d, tally .comment d)

theorem purgeParts_update_posts {values : Post → Post} {hkey : ∀ p, (values p).id = p.id}
    (hcount : ∀ p, (values p).likeCount = p.likeCount)
    (hdel : ∀ p, (values p).deletedAt.isNone = p.deletedAt.isNone) :
    Untouched Tables.posts (SamePart purgeParts) values hkey := by
  intro conds snap locked d
  have h := tally_update_same (t := .post) (s := fun _ => conds) (p := conds) (b := false)
    (fun _ => hkey) (fun _ => hdel) (fun _ => hcount) snap locked d
  exact congrArg (fun x => (d.users, d.postLikes, d.commentLikes, x, tally .comment d)) h

theorem purgeParts_update_comments {values : Comment → Comment} {hkey : ∀ c, (values c).id = c.id}
    (hcount : ∀ c, (values c).likeCount = c.likeCount) :
    Untouched Tables.comments (SamePart purgeParts) values hkey := by
  intro conds snap locked d
  have h := tally_update_same (t := .comment) (s := fun _ => conds) (p := conds) (b := false)
    (fun _ => hkey) (fun _ _ => rfl) (fun _ => hcount) snap locked d
  exact congrArg (fun x => (d.users, d.postLikes, d.commentLikes, tally .post d, x)) h

theorem Inv.purged (h : Inv first w) (hq : purges (.purge job chunk) = true)
    (hok : ∀ t, (tally t d).Ok) (hu : d.users.length < w.db.users.length)
    (note : Option Nat) (past : List (Statement × Nat)) :
    Inv first (w.commit (.purge job chunk) note past d) ∧
      World.Committed Effect w (w.commit (.purge job chunk) note past d) := by
  have heffect : Effect ⟨.purge job chunk, note, past, d⟩ w.db :=
    ⟨nofun, nofun, nofun, nofun⟩
  refine ⟨⟨hok, ?_, .snoc h.history heffect⟩, _, rfl, heffect⟩
  show (w.log ++ [_]).countP _ + d.users.length ≤ _
  rw [List.countP_append]
  have husers := h.users
  simp only [List.countP_cons, List.countP_nil, hq]
  simp
  omega

theorem Inv.idle (h : Inv first w) (hq : purges (.purge job chunk) = false)
    (note : Option Nat) (past : List (Statement × Nat)) :
    Inv first (w.commit (.purge job chunk) note past w.db) ∧
      World.Committed Effect w (w.commit (.purge job chunk) note past w.db) := by
  have heffect : Effect ⟨.purge job chunk, note, past, w.db⟩ w.db :=
    ⟨nofun, nofun, nofun, nofun⟩
  refine ⟨⟨h.ok, ?_, .snoc h.history heffect⟩, _, rfl, heffect⟩
  show (w.log ++ [_]).countP _ + w.db.users.length ≤ _
  rw [List.countP_append]
  simpa [hq] using h.users

theorem exists_purged {d : Store} (hne : job.targetIds chunk ≠ [])
    (hok : UsersRepository.purgeableAnswer olderThanDays now (job.targetIds chunk) d = true) :
    ∃ u ∈ d.users, purged job chunk u.id = true := by
  unfold UsersRepository.purgeableAnswer at hok
  simp only [Bool.and_eq_true, List.all_eq_true, List.any_eq_true, beq_iff_eq] at hok
  obtain ⟨id, hid⟩ := List.exists_mem_of_ne_nil _ hne
  obtain ⟨u, hu, hk, _⟩ := hok.1.2 id hid
  exact ⟨u, hu, by simpa [purged, hk] using hid⟩

structure Lowered (job : UserService.PurgeJob) (chunk : Nat) (snap snap' : Store)
    (locked locked' : List Row) (c : Known) : Prop where
  redo : ∀ d, purgeParts (c.redo d) = (d.users, d.postLikes, d.commentLikes,
    tally .post (((likeTarget .post).decrementByOwner (job.targetIds chunk)).write snap locked d),
    tally .comment
      (((likeTarget .comment).decrementByOwner (job.targetIds chunk)).write snap' locked' d))
  post : ∀ w, c.fact w → Decremented job chunk .post snap locked w
  comment : ∀ w, c.fact w → Decremented job chunk .comment snap' locked' w

theorem exact_decrement (t : TargetType) (ids : List Uuid) (snap : Store) (locked : List Row)
    (d : Store) :
    (tally t (((likeTarget t).decrementByOwner ids).write snap locked d)).exact = (tally t d).exact := by
  rw [LikeTarget.decrementByOwner, tally_update _ fun _ _ => exactFor_set t _ _]

theorem purgeParts_purged {d e e' : Store} {gone : List Row} (likes likes' : List Row)
    (hl : purgeParts e = (d.users, d.postLikes, d.commentLikes,
      tally .post (((likeTarget .post).decrementByOwner ids).write snap locked d),
      tally .comment (((likeTarget .comment).decrementByOwner ids).write snap' locked' d)))
    (he : purgeParts e' =
      (Table.delete (fun u => decide (Tables.users.rowOf u ∈ gone)) d.users, (purgeParts e).2)) :
    purgeParts ((likeTarget .comment).links.remove
        (fun l => decide ((likeTarget .comment).links.rowOf l ∈ likes'))
        ((likeTarget .post).links.remove
          (fun l => decide ((likeTarget .post).links.rowOf l ∈ likes)) e')) =
      (Table.delete (fun u => decide (Tables.users.rowOf u ∈ gone)) d.users,
        Table.delete (fun l => decide (Tables.postLikes.rowOf l ∈ likes)) d.postLikes,
        Table.delete (fun l => decide (Tables.commentLikes.rowOf l ∈ likes')) d.commentLikes,
        { tally .post (((likeTarget .post).decrementByOwner ids).write snap locked d) with
          links := (Table.delete (fun l => decide (Tables.postLikes.rowOf l ∈ likes))
            d.postLikes).map PostLike.key },
        { tally .comment (((likeTarget .comment).decrementByOwner ids).write snap' locked' d) with
          links := (Table.delete (fun l => decide (Tables.commentLikes.rowOf l ∈ likes'))
            d.commentLikes).map CommentLike.key }) := by
  rw [hl] at he
  simp only [purgeParts, Prod.mk.injEq] at he
  obtain ⟨hu, hpl, hcl, hp, hc⟩ := he
  rw [← hu, ← hpl, ← hcl, ← hp, ← hc]
  rfl

theorem wp_purgeUsersByIds {u : User} (hc : (spec first).Kept (.purge job chunk) c)
    (hl : Lowered job chunk snap snap' locked locked' c) (hids : purges (.purge job chunk) = true)
    (hu : ∀ w, c.fact w → u ∈ w.db.users) (hp : purged job chunk u.id = true) :
    (spec first).wp (.purge job chunk) (UsersRepository.purgeUsersByIds (job.targetIds chunk))
      (fun _ c => Commits (spec first) (.purge job chunk) c) c := by
  rw [UsersRepository.purgeUsersByIds, Spec.wp_bind]
  refine wp_purgeUsers hc (fun d => congrArg Prod.fst (hl.redo d)) hu hp ?_
  intro _ _ gone c₁ hgone h₁
  rw [Spec.wp_bind]
  refine wp_quiet purgeParts h₁.kept ?_ fun _ c₂ h₂ => ?_
  · exact steps_purgeOwned _ trivial (fun _ _ => rfl) fun _ _ => rfl
  rw [Spec.wp_bind]
  refine wp_quiet purgeParts h₂.kept ?_ fun _ c₃ h₃ => ?_
  · apply steps_forgetOwners _ trivial (fun _ _ => rfl)
    · exact purgeParts_update_posts (fun _ => rfl) fun _ => rfl
    · exact purgeParts_update_comments fun _ => rfl
  have hr₃ : ∀ d, purgeParts (c₃.redo d) =
      (Table.delete (fun u => decide (Tables.users.rowOf u ∈ gone)) d.users,
        (purgeParts (c.redo d)).2) := by
    intro d
    rw [h₃.redo, h₂.redo, h₁.redo, ← show (purgeParts (c.redo d)).1 = d.users by rw [hl.redo]]
    rfl
  rw [Spec.wp_bind]
  refine wp_unlink .post h₃.kept (fun d => ?_) ?_
  · have h := congrArg (fun x => x.2.1) (hr₃ d)
    rw [hl.redo] at h
    exact h
  intro _ _ likes c₄ h₄
  rw [Spec.wp_bind]
  refine wp_unlink .comment h₄.kept (fun d => ?_) ?_
  · have h := congrArg (fun x => x.2.2.1) (hr₃ d)
    rw [hl.redo] at h
    rw [h₄.redo]
    exact h
  intro _ _ likes' c₅ h₅
  refine wp_quiet purgeParts h₅.kept ?_ fun _ c₆ h₆ => ?_
  · apply (steps_deleteRows trivial (fun _ _ => rfl) _).bind
    intro _
    apply (steps_purgeNotifications _ trivial fun _ _ => rfl).bind
    intro _
    apply (steps_purgeRooms _ trivial (fun _ _ => rfl) fun _ _ => rfl).bind
    intro _
    exact (steps_deleteRows trivial (fun _ _ => rfl) _).map _
  intro w hw _
  have hparts := purgeParts_purged likes likes' (hl.redo w.db) (hr₃ w.db)
  have hredo : purgeParts (c₆.redo w.db) = _ :=
    (h₆.redo w.db).trans (by rw [h₅.redo, Function.comp_apply, h₄.redo, Function.comp_apply])
  rw [hparts] at hredo
  simp only [purgeParts, Prod.mk.injEq] at hredo
  obtain ⟨husers, _, _, hpost, hcomment⟩ := hredo
  have hf₄ := h₅.fact w (h₆.fact w hw.fact)
  have hf₃ := h₄.fact w hf₄.1
  have hf := (h₁.fact w (h₂.fact w (h₃.fact w hf₃.1))).1
  have hinv := hw.good.inv
  apply hinv.purged hids
  · intro t
    cases t with
    | post =>
      have hpurges := purges_tally (hinv.ok .post) (hl.post w hf) hf₃.2 (by rw [hpost])
        (by rw [hpost, exact_decrement]) (by rw [hpost]; rfl)
      exact hpurges.ok (hinv.ok .post) (hl.post w hf).counted
    | comment =>
      have hpurges := purges_tally (hinv.ok .comment) (hl.comment w hf) hf₄.2 (by rw [hcomment])
        (by rw [hcomment, exact_decrement]) (by rw [hcomment]; rfl)
      exact hpurges.ok (hinv.ok .comment) (hl.comment w hf).counted
  · rw [husers]
    apply List.length_filter_lt_length_iff_exists.mpr
    refine ⟨u, hu w hf, ?_⟩
    dsimp only
    rw [decide_eq_true (show Tables.users.rowOf u ∈ gone from hgone)]
    decide

theorem meets_purge (cfg : Config) (job : UserService.PurgeJob) (chunk : Nat) :
    MeetsAt (spec first) cfg (.purge job chunk) := by
  refine wp_purge cfg (fun _ _ => trivial) trivial
    (fun d => ends_of_quiet _ (n := .selectPurgeableUserIds) trivial)
    (fun w w' => w'.db.users = w.db.users) (fun _ _ _ => rfl) ?_ ?_ ?_
  · intro w n held redo
    exact kept_purge (fun w₁ w₂ c' he hd hb hf => by rw [hd, he.users hb.1, hf]) _ _ _
      (List.cons_ne_nil _ _)
  · intro n w₀ c₁ hids h₁ w hw _
    rw [h₁.redo]
    exact hw.good.inv.idle (by simp [purges, hids]) _ _
  · intro n w₀ c₁ hids hok h₁
    have hr₁ : ∀ d, c₁.redo d = d := fun d => by rw [h₁.redo]; rfl
    have hf₁ : ∀ w, c₁.fact w → w.db.users = w₀.db.users := fun w hw => (h₁.fact w hw).2
    obtain ⟨u, hu, hpu⟩ := exists_purged hids hok
    refine wp_decrement .post h₁.kept (fun d => congrArg _ (hr₁ d)) (fun d => congrArg _ (hr₁ d)) ?_
    intro _ snap locked c₂ h₂
    have hr₂ : ∀ d, c₂.redo d =
        ((likeTarget .post).decrementByOwner (job.targetIds chunk)).write snap locked d :=
      fun d => by rw [h₂.redo, Function.comp_apply, hr₁]
    refine wp_decrement .comment h₂.kept (fun d => ?_) (fun d => ?_) ?_
    · rw [hr₂]
      rfl
    · rw [hr₂]
      rfl
    intro _ snap' locked' c₃ h₃
    have hl : Lowered job chunk snap snap' locked locked' c₃ := by
      refine ⟨fun d => ?_, fun w hw => ?_, fun w hw => (h₃.fact w hw).2⟩
      · rw [h₃.redo, Function.comp_apply, hr₂]
        rfl
      · exact (h₂.fact w (h₃.fact w hw).1).2
    apply wp_purgeUsersByIds h₃.kept hl (by simpa [purges] using hids) (u := u) _ hpu
    intro w hw
    rw [hf₁ w (h₂.fact w (h₃.fact w hw).1).1]
    exact hu

theorem returns_purge (cfg : Config) (job : UserService.PurgeJob) (chunk : Nat) :
    (program cfg (.purge job chunk)).Returns fun next =>
      next = if job.targetIds chunk = [] then none else some (.purge job (chunk + 1)) := by
  apply Prog.Returns.bind (Q := fun more => more = decide (job.targetIds chunk ≠ []))
  · intro d
    dsimp only
    split
    · rename_i h
      simp [Prog.Returns, h]
    · rename_i h
      apply Prog.Returns.bind (Prog.returns_true _)
      intro _ _
      apply Prog.Returns.bind (Prog.returns_true _)
      intro _ _
      apply Prog.Returns.bind (Prog.returns_true _)
      intro _ _
      simp [Prog.Returns, h]
  · rintro more rfl
    by_cases h : job.targetIds chunk = [] <;> simp [h]
    · rfl
    · rfl

end Purge

theorem meets (cfg : Config) (first : Store) : (spec first).Meets (program cfg) := by
  intro q hq
  cases q with
  | like t i u n now => exact meets_like cfg t i u n now
  | unlike t i u now => exact meets_unlike cfg t i u now
  | deletePost i now => exact meets_deletePost cfg i now
  | deleteComment p i now => exact meets_deleteComment cfg p i now
  | purge job chunk => exact meets_purge cfg job chunk
  | _ => exact hq.elim

/-- A step of the runs: only the five requests begin, and while a purge is under way, from its query
for the accounts on, no other purge and no request of such an account commits. -/
def Permitted (s : State) : Label Row Request → Prop
  | .begin _ q => Counts q
  | .run i => ∀ tx note k, s.txs i = some tx → tx.prog = .commit note k →
    ∀ j tx' job chunk, j ≠ i → s.txs j = some tx' → tx'.req = .purge job chunk → tx'.past ≠ [] →
      Beside tx.req job chunk
  | _ => True

/-- A statement that is done has met no bound of `GREATEST(..., 0)`. -/
def NoClamp (s : State) : Label Row Request → Prop
  | .run i => ∀ tx name st k snap locked, s.txs i = some tx → tx.prog = .exec name st k →
    tx.scan = some (snap, { locked := locked, waiting := [] }) →
    Unclamped tx.req name snap locked (tx.redo s.world.db)
  | _ => True

structure Repeats (c : Commit) (d : Store) : Prop where
  again : ∀ t i u notificationId now, c.req = .like t i u notificationId now →
    (likeTarget t).links.get d (i, u) ≠ none → c.db = d
  gone : ∀ t i u now, c.req = .unlike t i u now →
    (likeTarget t).links.get d (i, u) = none → c.db = d

theorem admits_of_permitted (h : Permitted s a) : (spec first).Admits s a := by
  cases a with
  | begin i q => exact h
  | run i =>
    intro tx htx
    refine ⟨fun _ _ _ => trivial, fun note k hp => ⟨trivial, ?_⟩, fun f k hp => ?_⟩
    · rintro j tx' hne htx' job chunk hq hpast c hc
      obtain rfl : _ = c := List.singleton_inj.mp (List.append_cancel_left hc)
      exact h tx note k htx hp j tx' job chunk hne htx' hq hpast
    · intro j tx' _ _ job chunk _ _ c hc
      have hlen := congrArg List.length hc
      simp [World.call] at hlen
  | lock i r => trivial
  | abort i => trivial

theorem noClamp_of_ends (h : (spec first).Ends s a) : NoClamp s a := by
  cases a with
  | run i => exact fun tx name st k snap locked htx hp hs => (h tx htx).2 name st k snap locked hp hs
  | _ => trivial

theorem Effect.repeats (h : Effect c' d) : Repeats c' d :=
  ⟨fun t i u n now hq hl => h.again t i u n now hq (mem_links.mpr hl),
    fun t i u now hq hl => h.gone t i u now hq fun hm => mem_links.mp hm hl⟩

/-- Like counters are exact after every commit, no decrement is clamped, repeated requests change
nothing, and the purge loop ends. -/
theorem likeCount_exact (cfg : Config) {db : Store} {ext : Outside} {run : List (Label Row Request)}
    {s : State} (hdb : db.Valid) (hok : ∀ t, (tally t db).Ok)
    (hrun : Along (step cfg) Permitted (State.start db ext) run)
    (hs : exec (step cfg) (State.start db ext) run = some s) :
    (∀ t i a, (likeTarget t).counters.get s.world.db i = some a → exactFor t a = true →
      (likeTarget t).likeCount a = ((likeTarget t).links.rows s.world.db).countP
        fun l => decide (((likeTarget t).links.key l).1 = i)) ∧
    Along (step cfg) NoClamp (State.start db ext) run ∧
    History Repeats db s.world.log s.world.db ∧
    (s.world.log.countP fun c => purges c.req) ≤ db.users.length ∧
    ∀ job chunk, (program cfg (.purge job chunk)).Returns fun next =>
      next = if job.targetIds chunk = [] then none else some (.purge job (chunk + 1)) := by
  have hgood : (spec db).Good { db := db, ext := ext, log := [] } :=
    ⟨⟨hok, Nat.le_of_eq (Nat.zero_add _), .nil⟩, hdb⟩
  have hadm : Along (step cfg) (spec db).Admits (State.start db ext) run :=
    hrun.mono fun _ _ h => admits_of_permitted h
  have hsound := Spec.sound (meets cfg db) hgood hadm hs
  have hinv := hsound.good.inv
  refine ⟨?_, ?_, ?_, ?_, returns_purge cfg⟩
  · intro t i a hget hex
    have hcount : (tally t s.world.db).count i = some ((likeTarget t).likeCount a) := by
      simp only [tally, hget, Option.map_some]
    have hexact : (tally t s.world.db).exact i = true := by
      simp only [tally, hget, Option.any_some, hex]
    rw [← (hinv.ok t).eq i _ hcount hexact, Tally.total, tally, List.countP_map]
    rfl
  · exact (Spec.ends_along (meets cfg db) hgood hadm).mono fun _ _ h => noClamp_of_ends h
  · exact hinv.history.mono fun _ _ h => h.repeats
  · exact Nat.le_trans (Nat.le_add_right _ _) hinv.users

theorem ok_of_unliked {t : TargetType} {d : Store} (hl : (likeTarget t).links.rows d = [])
    (hz : ∀ a ∈ (likeTarget t).counters.rows d, (likeTarget t).likeCount a = 0) : (tally t d).Ok := by
  have hlinks : (tally t d).links = [] := by
    show List.map _ _ = _
    rw [hl, List.map_nil]
  have htotal : ∀ i, (tally t d).total i = 0 := by
    intro i
    rw [Tally.total, hlinks, List.countP_nil]
  have hcount : ∀ i n, (tally t d).count i = some n → n = 0 := by
    intro i n hn
    obtain ⟨a, ha, rfl⟩ := Option.map_eq_some_iff.mp hn
    exact hz a (Table.row_mem ha)
  apply Tally.Ok.mk
  · rw [hlinks]
    exact List.nodup_nil
  · rw [hlinks]
    exact List.forall_mem_nil _
  · intro i n hn
    rw [htotal, hcount i n hn]
    exact le_refl _
  · intro i n hn _
    rw [htotal, hcount i n hn]
    rfl

def likeRun : List (Label Row Request) :=
  [.begin 0 (.like .post 10 1 100 7), .run 0,
    .run 0, .lock 0 (.postLike (10, 1)), .run 0,
    .run 0, .lock 0 (.post 10), .run 0,
    .run 0, .lock 0 (.user 1), .run 0,
    .run 0, .lock 0 (.post 10), .run 0,
    .run 0, .run 0]

theorem likeCount_exact_likeRun :
    ∃ s, exec (step Sample.config) (State.start Sample.store Sample.outside) likeRun = some s ∧
      ∀ i a, Tables.posts.get s.world.db i = some a → a.deletedAt.isNone = true →
        a.likeCount = s.world.db.postLikes.countP fun l => decide (l.key.1 = i) := by
  have hsome : (exec (step Sample.config) (State.start Sample.store Sample.outside)
      likeRun).isSome = true := rfl
  obtain ⟨s, hs⟩ := Option.isSome_iff_exists.mp hsome
  refine ⟨s, hs, ?_⟩
  have hok : ∀ t, (tally t Sample.store).Ok := by
    intro t
    cases t with
    | post => exact ok_of_unliked rfl (by decide)
    | comment => exact ok_of_unliked rfl (by decide)
  have hrun : Along (step Sample.config) Permitted (State.start Sample.store Sample.outside)
      likeRun := by
    apply (along_alone (P := fun q => q = .like .post 10 1 100 7) (i := 0) _ _ _ _).mono
    · rintro s a ⟨hbegin, hnone, _⟩
      cases a with
      | begin i q =>
        rw [hbegin i q rfl]
        trivial
      | run i =>
        intro tx note k _ _ j tx' job chunk hne htx'
        rw [hnone j hne] at htx'
        cases htx'
      | lock i r => trivial
      | abort i => trivial
    · rintro q rfl
      exact returns_once _
    · simp [likeRun, Label.slot]
  exact (likeCount_exact Sample.config Sample.store_valid hok hrun hs).1 .post

example : ((exec (step Sample.config) (State.start Sample.store Sample.outside) likeRun).map
    fun s => (s.world.db.posts.map (·.likeCount), s.world.db.postLikes.length, s.ended.length)) =
      some ([1], 1, 1) := rfl

end PuppyTalk.Backend.LikeCount
