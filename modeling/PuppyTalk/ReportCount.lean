import PuppyTalk.ProgramRules

namespace PuppyTalk.Backend.ReportCount

open Txn

structure Mark where
  alive : Bool
  author : Option Uuid
  count : Int

abbrev targets (t : TargetType) : TableOf Store Row (likeTarget t).Target Uuid :=
  (likeTarget t).counters

def markOf : (t : TargetType) → (likeTarget t).Target → Mark
  | .post, p => ⟨(p : Post).deletedAt.isNone, (p : Post).userId, (p : Post).reportCount⟩
  | .comment, c => ⟨(c : Comment).deletedAt.isNone, (c : Comment).authorId, (c : Comment).reportCount⟩

def mark (t : TargetType) (d : Store) (i : Uuid) : Option Mark := ((targets t).get d i).map (markOf t)

def live (t : TargetType) (i : Uuid) (r : Report) : Bool :=
  decide (r.targetType = t) && r.targetId == i && r.deletedAt.isNone

def reportsOn (t : TargetType) (i : Uuid) (d : Store) : Nat := d.reports.countP (live t i)

def Exact (d : Store) : Prop :=
  ∀ t i m, mark t d i = some m → m.alive = true → m.author.isSome = true →
    m.count = reportsOn t i d

def view (d : Store) : (TargetType → Uuid → Option Mark) × List Report := (fun t => mark t d, d.reports)

theorem mark_congr (h : view d' = view d) (t : TargetType) (i : Uuid) : mark t d' i = mark t d i :=
  congrFun (congrFun (congrArg Prod.fst h) t) i

theorem reports_congr (h : view d' = view d) : d'.reports = d.reports := congrArg Prod.snd h

theorem view_of_tables {d d' : Store} (hp : d'.posts = d.posts) (hc : d'.comments = d.comments)
    (hr : d'.reports = d.reports) : view d' = view d := by
  refine Prod.ext (funext fun t => ?_) hr
  cases t with
  | post => exact congrArg (fun l i => (Table.row Post.id l i).map (markOf .post)) hp
  | comment => exact congrArg (fun l i => (Table.row Comment.id l i).map (markOf .comment)) hc

theorem apart_view {κ : Type} [DecidableEq κ] {T : TableOf Store Row α κ}
    (h : ∀ l d, (T.put l d).posts = d.posts ∧ (T.put l d).comments = d.comments ∧
      (T.put l d).reports = d.reports) : Apart T (SamePart view) :=
  fun l d => view_of_tables (h l d).1 (h l d).2.1 (h l d).2.2

section Updates

variable {t : TargetType} {s : Store → (likeTarget t).Target → Bool}
variable {p : (likeTarget t).Target → Bool}
variable {values : Store → (likeTarget t).Target → (likeTarget t).Target} {b : Bool}

theorem mark_put_other (h : t' ≠ t) (l : List (likeTarget t).Target) (d : Store) :
    mark t' ((targets t).put l d) = mark t' d := by
  cases t <;> cases t' <;> first | rfl | exact absurd rfl h

theorem reports_put (t : TargetType) (l : List (likeTarget t).Target) (d : Store) :
    ((targets t).put l d).reports = d.reports := by
  cases t <;> rfl

theorem mark_update (hkey : ∀ d a, (targets t).key (values d a) = (targets t).key a)
    {f : Mark → Mark} (hf : ∀ d a, markOf t (values d a) = f (markOf t a)) (snap : Store)
    (locked : List Row) (d : Store) (t' : TargetType) (j : Uuid) :
    mark t' (((targets t).update s p values b hkey).write snap locked d) j =
      (mark t' d j).map fun m => if t' = t ∧ (targets t).row j ∈ locked then f m else m := by
  by_cases ht : t' = t
  · subst ht
    unfold mark
    rw [TableOf.get_update, Option.map_map, Option.map_map]
    congr 1
    funext a
    by_cases hl : (targets t').row j ∈ locked <;> simp [hl, hf]
  · have hid : (fun m : Mark => if t' = t ∧ (targets t).row j ∈ locked then f m else m) = id := by
      funext m
      simp [ht]
    rw [hid, Option.map_id_apply]
    exact congrFun (mark_put_other ht _ d) j

theorem view_update (hkey : ∀ d a, (targets t).key (values d a) = (targets t).key a)
    (hf : ∀ d a, markOf t (values d a) = markOf t a) (snap : Store) (locked : List Row) (d : Store) :
    view (((targets t).update s p values b hkey).write snap locked d) = view d := by
  refine Prod.ext (funext fun t' => funext fun j => ?_) (reports_put t _ d)
  show mark t' _ j = mark t' d j
  rw [mark_update hkey (f := id) hf]
  simp

end Updates

theorem untouched_posts {values : Post → Post} {hkey : ∀ p, (values p).id = p.id}
    (h : ∀ p, markOf .post (values p) = markOf .post p) :
    Untouched Tables.posts (SamePart view) values hkey :=
  fun conds snap locked d => view_update (t := .post) (s := fun _ => conds) (p := conds) (b := false)
    (fun _ => hkey) (fun _ => h) snap locked d

theorem untouched_comments {values : Comment → Comment} {hkey : ∀ c, (values c).id = c.id}
    (h : ∀ c, markOf .comment (values c) = markOf .comment c) :
    Untouched Tables.comments (SamePart view) values hkey :=
  fun conds snap locked d => view_update (t := .comment) (s := fun _ => conds) (p := conds) (b := false)
    (fun _ => hkey) (fun _ => h) snap locked d

def SubmitsTo (q : Request) (t : TargetType) (i : Uuid) : Prop :=
  ∃ reporterId reason reportId now, q = .submitReport reporterId t i reason reportId now

def Moderates : Request → Prop
  | .submitReport .. => True
  | .resetReports .. => True
  | .blind .. => True
  | .unblind .. => True
  | .purge .. => True
  | _ => False

structure Effect (c : Commit) (d : Store) : Prop where
  targets : ∀ t i m', mark t c.db i = some m' →
    ∃ m, mark t d i = some m ∧ m.alive = m'.alive ∧ (m'.author = m.author ∨ m'.author = none)
  reports : ∀ r ∈ c.db.reports, r.deletedAt.isNone = true →
    r ∈ d.reports ∨ SubmitsTo c.req r.targetType r.targetId

/-- No account of a chunk has a report on a target that is not deleted and keeps its author. -/
def Unreported (job : UserService.PurgeJob) (chunk : Nat) (d : Store) : Prop :=
  ∀ r ∈ d.reports, r.deletedAt.isNone = true → r.reporterId ∈ job.targetIds chunk →
    ∀ m, mark r.targetType d r.targetId = some m → m.alive = true →
      ∀ a, m.author = some a → a ∈ job.targetIds chunk

def spec : Spec where
  starts := Moderates
  inv w := Exact w.db
  change := World.Committed Effect
  reads _ _ _ := True
  adm q w _ := ∀ job chunk, q = .purge job chunk → Unreported job chunk w.db
  may q past w w' := ∀ t i now n, q = .resetReports t i now → (.deleteByTarget, n) ∈ past →
    ∀ c : Commit, w'.log = w.log ++ [c] → ¬ SubmitsTo c.req t i
  ends _ _ _ _ _ := True
  raised _ _ _ _ := True
  returned _ _ _ := True

variable {q : Request} {c : Known} {w : World}

theorem wp_aside {V : Type} {x : TxM β} {K : β → Known → Prop} (part : Store → V)
    (hc : spec.Kept q c) (hx : x.Within (fun _ => True) part)
    (hK : ∀ a c', spec.Framed q c (fun _ => True) (SamePart part) c' → K a c') : spec.wp q x K c :=
  Spec.wp_frame hx (fun _ _ _ _ _ => trivial) (fun _ _ _ => trivial) hc hK

structure Moves (q : Request) (d d' : Store) : Prop where
  exact : Exact d'
  targets : ∀ t i m', mark t d' i = some m' →
    ∃ m, mark t d i = some m ∧ m.alive = m'.alive ∧ (m'.author = m.author ∨ m'.author = none)
  reports : ∀ r ∈ d'.reports, r.deletedAt.isNone = true →
    r ∈ d.reports ∨ SubmitsTo q r.targetType r.targetId

theorem commits_of_moves (h : ∀ w, spec.Here c w →
      spec.adm q w (w.commit q none c.past (c.redo w.db)) → Moves q w.db (c.redo w.db)) :
    Commits spec q c := by
  intro w hw hadm
  have hm := h w hw hadm
  exact ⟨hm.exact, ⟨q, none, c.past, c.redo w.db⟩, rfl, hm.targets, hm.reports⟩

theorem moves_of_view (h : Exact d) (hv : view d' = view d) (q : Request) : Moves q d d' := by
  have hm := mark_congr hv
  have hr := reports_congr hv
  refine ⟨fun t i m hmark => ?_, fun t i m hmark => ?_, fun r hmem _ => ?_⟩
  · rw [hm] at hmark
    rw [reportsOn, hr]
    exact h t i m hmark
  · rw [hm] at hmark
    exact ⟨m, hmark, rfl, .inl rfl⟩
  · rw [hr] at hmem
    exact .inl hmem

section Blind

theorem steps_blindPost {conds : Post → Bool} {values : Post → Post}
    {hkey : ∀ p, (values p).id = p.id} (h : ∀ p, markOf .post (values p) = markOf .post p)
    (name : Statement) :
    (updateOneReturning name Tables.posts conds values hkey (·.id) >>= fun r =>
      pure r.isSome).Within (fun _ => True) view := by
  apply Prog.Steps.map
  apply steps_updateOneReturning
  · trivial
  · exact untouched_posts h

theorem steps_setBlinded (t : TargetType) (i : Uuid) (now : Timestamp) :
    ((moderationTarget t).setBlinded i now).Within (fun _ => True) view := by
  cases t with
  | post =>
    apply steps_blindPost
    exact fun _ => rfl
  | comment =>
    apply steps_transition fun _ => trivial
    · exact untouched_comments fun _ => rfl
    · exact fun _ => untouched_posts fun _ => rfl

theorem steps_unblind (t : TargetType) (i : Uuid) (now : Timestamp) :
    ((moderationTarget t).unblind i now).Within (fun _ => True) view := by
  cases t with
  | post =>
    apply steps_blindPost
    exact fun _ => rfl
  | comment =>
    apply steps_transition fun _ => trivial
    · exact untouched_comments fun _ => rfl
    · exact fun _ => untouched_posts fun _ => rfl

theorem meets_blind (cfg : Config) (t : TargetType) (i : Uuid) (now : Timestamp) :
    MeetsAt spec cfg (.blind t i now) := by
  apply wp_once_answer (orNotFound_cases _) (fun _ _ _ => trivial) fun _ _ => trivial
  refine wp_aside view kept_begun (steps_setBlinded t i now) fun _ c' h' => ?_
  apply commits_of_moves
  exact fun w hw _ => moves_of_view hw.good.inv (h'.redo w.db) _

theorem meets_unblind (cfg : Config) (t : TargetType) (i : Uuid) (now : Timestamp) :
    MeetsAt spec cfg (.unblind t i now) := by
  apply wp_once_answer (orNotFound_cases _) (fun _ _ _ => trivial) fun _ _ => trivial
  refine wp_aside view kept_begun (steps_unblind t i now) fun _ c' h' => ?_
  apply commits_of_moves
  exact fun w hw _ => moves_of_view hw.good.inv (h'.redo w.db) _

end Blind

section Submit

def Bumped (t : TargetType) (i : Uuid) (d d' : Store) : Prop :=
  (∀ t' j, mark t' d' j = (mark t' d j).map fun m =>
    if t' = t ∧ j = i then { m with count := m.count + 1 } else m) ∧ d'.reports = d.reports

theorem mark_modify {t : TargetType} {values : (likeTarget t).Target → (likeTarget t).Target}
    {f : Mark → Mark} (hkey : ∀ a, (targets t).key (values a) = (targets t).key a)
    (hf : ∀ a, markOf t (values a) = f (markOf t a)) (i : Uuid) (d : Store) (t' : TargetType)
    (j : Uuid) :
    mark t' ((targets t).modify i values d) j =
      (mark t' d j).map fun m => if t' = t ∧ j = i then f m else m := by
  by_cases ht : t' = t
  · subst ht
    unfold mark
    rw [TableOf.get_modify hkey, Option.map_map, Option.map_map]
    congr 1
    funext a
    by_cases hj : j = i <;> simp [hj, hf]
  · have hid : (fun m : Mark => if t' = t ∧ j = i then f m else m) = id := by
      funext m
      simp [ht]
    rw [hid, Option.map_id_apply]
    exact congrFun (mark_put_other ht _ d) j

theorem wp_bump {K : Option β → Known → Prop} {t : TargetType} {i : Uuid}
    {conds : (likeTarget t).Target → Bool}
    {values : (likeTarget t).Target → (likeTarget t).Target}
    {hkey : ∀ a, (targets t).key (values a) = (targets t).key a}
    {returning : (likeTarget t).Target → β}
    (hcond : ∀ a, conds a = true → (targets t).key a = i)
    (hf : ∀ a, markOf t (values a) = { markOf t a with count := (markOf t a).count + 1 })
    (hlock : ∀ n f c', (∀ d, Bumped t i d (f d)) →
      spec.After q begun .incrementReportCount n f (fun _ => True) c' → ∀ k, K (some k) c')
    (hskip : ∀ c', K none c') :
    spec.wp q (updateOneReturning .incrementReportCount (targets t) conds values hkey returning) K
      begun := by
  apply wp_updateOneReturning (N := fun _ => True) hcond
  · exact ⟨kept_begun, fun _ => rfl, .true rfl, fun _ _ _ => trivial, fun _ _ _ _ _ _ _ => trivial⟩
  · intro w w' v c' _ _ _ _ _ ha
    apply hlock w.log.length _ c' _
      ⟨ha.past, ha.held, ha.redo, fun w hw => ⟨trivial, trivial⟩, ha.kept⟩
    intro d
    exact ⟨mark_modify (f := fun m => { m with count := m.count + 1 }) hkey hf i d, reports_put t _ d⟩
  · exact fun _ _ c' _ _ _ _ => hskip c'

theorem wp_incrementReportCount {K : Option Int → Known → Prop} (t : TargetType) (i : Uuid)
    (now : Timestamp)
    (hlock : ∀ n f c', (∀ d, Bumped t i d (f d)) →
      spec.After q begun .incrementReportCount n f (fun _ => True) c' → ∀ k, K (some k) c')
    (hskip : ∀ c', K none c') :
    spec.wp q ((moderationTarget t).incrementReportCount i now) K begun := by
  cases t with
  | post =>
    refine wp_bump (t := .post) (fun p hp => ?_) ?_ hlock hskip
    · simp only [Bool.and_eq_true, beq_iff_eq] at hp
      exact hp.1.1
    · exact fun _ => rfl
  | comment =>
    refine wp_bump (t := .comment) (fun c hc => ?_) ?_ hlock hskip
    · simp only [Bool.and_eq_true, beq_iff_eq] at hc
      exact hc.1.1
    · exact fun _ => rfl

theorem moves_submit {d e d' : Store} {r : Report} (h : Exact d) (hr : r.deletedAt = none)
    (hq : SubmitsTo q r.targetType r.targetId) (hb : Bumped r.targetType r.targetId d e)
    (hv : view d' = (fun t => mark t e, e.reports ++ [r])) : Moves q d d' := by
  have hm : ∀ t i, mark t d' i = mark t e i :=
    fun t i => congrFun (congrFun (congrArg Prod.fst hv) t) i
  have hreps : d'.reports = d.reports ++ [r] := (congrArg Prod.snd hv).trans (by rw [hb.2])
  refine ⟨fun t i m' hm' hal hau => ?_, fun t i m' hm' => ?_, fun x hx _ => ?_⟩
  · rw [hm, hb.1] at hm'
    obtain ⟨m, hmark, rfl⟩ := Option.map_eq_some_iff.mp hm'
    rw [reportsOn, hreps, List.countP_append, List.countP_singleton]
    by_cases ht : t = r.targetType ∧ i = r.targetId
    · rw [if_pos ht] at hal hau ⊢
      have hcount := h t i m hmark hal hau
      obtain ⟨rfl, rfl⟩ := ht
      have hlive : live r.targetType r.targetId r = true := by simp [live, hr]
      rw [hlive, if_pos rfl]
      show m.count + 1 = _
      rw [hcount]
      rfl
    · rw [if_neg ht] at hal hau ⊢
      have hcount := h t i m hmark hal hau
      have hlive : live t i r = false := by
        apply Bool.eq_false_iff.mpr
        intro hl
        simp only [live, Bool.and_eq_true, decide_eq_true_eq, beq_iff_eq] at hl
        exact ht ⟨hl.1.1.symm, hl.1.2.symm⟩
      rw [hlive, hcount]
      rfl
  · rw [hm, hb.1] at hm'
    obtain ⟨m, hmark, rfl⟩ := Option.map_eq_some_iff.mp hm'
    refine ⟨m, hmark, ?_, .inl ?_⟩
    · split <;> rfl
    · split <;> rfl
  · rw [hreps] at hx
    rcases List.mem_append.mp hx with hx | hx
    · exact .inl hx
    · rw [List.mem_singleton.mp hx]
      exact .inr hq

theorem view_putReports (l : List Report) (d : Store) :
    view (Tables.reports.put l d) = (fun t => mark t d, l) := by
  refine Prod.ext (funext fun t => ?_) rfl
  cases t <;> rfl

theorem view_addReport {d e : Store} {r : Report} (hb : Bumped t i d e)
    (hfree : Tables.reports.get d r.id = none) :
    view (Tables.reports.add r e) = (fun t => mark t e, e.reports ++ [r]) := by
  rw [TableOf.add_of_none]
  · exact view_putReports _ e
  · show Table.row Report.id e.reports r.id = none
    rw [hb.2]
    exact hfree

@[simp] theorem targetType_moderationTarget (t : TargetType) : (moderationTarget t).targetType = t := by
  cases t <;> rfl

theorem meets_submitReport (cfg : Config) (reporterId : Uuid) (t : TargetType) (i : Uuid)
    (reason : ReportReason) (reportId : Uuid) (now : Timestamp) :
    MeetsAt spec cfg (.submitReport reporterId t i reason reportId now) := by
  apply wp_once_transaction fun _ _ => trivial
  rw [Spec.wp_bind]
  apply wp_incrementReportCount
  · intro n f c₁ hf h₁ count
    rw [Spec.wp_bind]
    apply wp_insertRow (N := fun _ => True) fun _ _ _ => trivial
    · refine ⟨h₁.kept, fun d => ?_, .true rfl, fun _ _ _ => trivial, fun _ _ _ _ _ _ _ => trivial⟩
      show Table.row Report.id (c₁.redo d).reports _ = Table.row Report.id d.reports _
      rw [h₁.redo, (hf d).2]
    · intro w c₂ _ _ h₂
      refine wp_aside id h₂.kept (steps_references (R := SamePart id) (fun _ => rfl) trivial _ _)
        fun _ c₃ h₃ => ?_
      refine wp_aside view h₃.kept ?_ fun _ c₄ h₄ => ?_
      · split
        · exact (steps_setBlinded t i now).map _
        · trivial
      apply commits_of_moves
      intro w hw _
      have hfree := (h₂.fact w (h₃.fact w (h₄.fact w hw.fact))).2
      have hredo : c₃.redo w.db = Tables.reports.add _ (f w.db) :=
        (h₃.redo w.db).trans (by rw [h₂.redo, h₁.redo]; rfl)
      apply moves_submit (r := ⟨reportId, reporterId, (moderationTarget t).targetType, i, some reason.value,
        now, none⟩) hw.good.inv (e := f w.db) rfl
      · exact ⟨reporterId, reason, reportId, now, by rw [targetType_moderationTarget]⟩
      · rw [targetType_moderationTarget]
        exact hf w.db
      · rw [h₄.redo, hredo]
        exact view_addReport (hf w.db) hfree
  · exact fun _ _ _ => trivial

end Submit

section Reset

variable {t : TargetType} {i : Uuid} {now : Timestamp}

theorem kept_reset {F : World → Prop}
    (hF : ∀ w w' (c : Commit), spec.Good w → Effect c w.db → w'.db = c.db →
      ¬ SubmitsTo c.req t i → F w → F w')
    (past : List (Statement × Nat)) (held : List (Row × LockMode)) (redo : Store → Store)
    (hp : ∃ n, (.deleteByTarget, n) ∈ past) :
    spec.Kept (.resetReports t i now) { past := past, held := held, redo := redo, fact := F } := by
  intro past' held' hp' _ w w' hg _ hch hmay _ hf
  obtain ⟨c, rfl, he⟩ := hch
  obtain ⟨n, hn⟩ := hp
  exact hF w _ c hg he rfl (hmay t i now n rfl (hp' _ hn) c rfl) hf

def Dead (t : TargetType) (i : Uuid) (w : World) : Prop :=
  ∀ m, mark t w.db i = some m → m.alive = false

theorem kept_dead (past : List (Statement × Nat)) (held : List (Row × LockMode))
    (redo : Store → Store) :
    spec.Kept q { past := past, held := held, redo := redo, fact := Dead t i } := by
  intro past' held' _ _ w w' _ _ hch _ _ hf m' hm'
  obtain ⟨c, rfl, he⟩ := hch
  obtain ⟨m, hm, hal, _⟩ := he.targets t i m' hm'
  rw [← hal]
  exact hf m hm

structure Cleared (t : TargetType) (i : Uuid) (locked : List Row) (w : World) : Prop where
  only : Tables.reports.Locked (live t i) locked w.db
  all : ∀ r ∈ w.db.reports, live t i r = true → Row.report r.id ∈ locked

theorem live_of_effect {d : Store} {c' : Commit} {r : Report} (he : Effect c' d)
    (hq : ¬ SubmitsTo c'.req t i) (hr : r ∈ c'.db.reports) (hl : live t i r = true) :
    r ∈ d.reports := by
  simp only [live, Bool.and_eq_true, decide_eq_true_eq, beq_iff_eq] at hl
  obtain ⟨⟨rfl, rfl⟩, hlive⟩ := hl
  exact (he.reports r hr hlive).resolve_right hq

theorem wp_deleteByTarget {K : Unit → Known → Prop}
    (hK : ∀ n snap locked c', spec.After (.resetReports t i now) begun .deleteByTarget n
      ((Tables.reports.update (fun _ => live t i) (live t i)
        (fun _ r => { r with deletedAt := some now }) false fun _ _ => rfl).write snap locked)
      (Cleared t i locked) c' → K () c') :
    spec.wp (.resetReports t i now) (ReportsRepository.deleteByTarget t i now) K begun := by
  apply Spec.wp_rows (T := Tables.reports) (p := live t i) (fun _ => rfl) (fun _ _ => rfl)
    (fun _ h => by cases h) (fun _ => rfl) kept_begun
    (fun w w' => ∀ r ∈ w'.db.reports, live t i r = true → r ∈ w.db.reports) (fun _ _ _ hr _ => hr)
    (fun w n => kept_reset (fun w₁ w₂ c' _ he hd hq hf r hr hl => by
      rw [hd] at hr
      exact hf r (live_of_effect he hq hr hl) hl) _ _ _ ⟨n, List.mem_cons_self⟩)
    (fun k w => ∀ r ∈ w.db.reports, r.id = k → live t i r = false)
    (fun k n => kept_reset (fun w₁ w₂ c' _ he hd hq hf r hr hk => by
      rw [hd] at hr
      cases hl : live t i r with
      | false => rfl
      | true => rw [← hl, hf r (live_of_effect he hq hr hl) hk]) _ _ _ ⟨n, List.mem_cons_self⟩)
  · intro k w hw h r hr hk
    exact h r ((Tables.reports.get_eq_some hw.good.valid).mpr ⟨hr, hk⟩)
  · intro w w' locked hw hw' hB hsel hl hcov
    refine ⟨trivial, Cleared t i locked, ⟨hl, fun r hr hlive => ?_⟩, ?_, ?_⟩
    · apply (hcov r (hB r hr hlive) hlive).resolve_right
      intro hN
      rw [hN r hr rfl] at hlive
      cases hlive
    · intro past held hp hh w₁ w₂ hg hg' hch hmay hag hf
      refine ⟨?_, ?_⟩
      · have hst : spec.Stable (.resetReports t i now) past held fun w =>
            Tables.reports.Locked (live t i) locked w.db :=
          .of_locked (fun _ h => by cases h) fun l hl => hh l (List.mem_append_left _ hl)
        exact hst w₁ w₂ hg hg' hch hmay hag hf.only
      · obtain ⟨c', rfl, he⟩ := hch
        intro r hr hlive
        apply hf.all r (live_of_effect he _ hr hlive) hlive
        exact hmay t i now _ rfl (hp _ List.mem_cons_self) c' rfl
    · exact fun c' ha => hK _ _ _ c' ha

theorem moves_reset (now : Timestamp) {d d' : Store} {locked locked' : List Row} (h : Exact d) (hd : d.Valid)
    (hmark : ∀ t' j, mark t' d' j = (mark t' d j).map fun m =>
      if t' = t ∧ (targets t).row j ∈ locked' then { m with count := 0 } else m)
    (honly : ∀ r ∈ locked', r = (targets t).row i)
    (hzero : (targets t).row i ∈ locked' ∨ ∀ m, mark t d i = some m → m.alive = false)
    (hreps : d'.reports = Table.update (fun r => decide (Row.report r.id ∈ locked))
      (fun r => { r with deletedAt := some now }) d.reports)
    (hlocked : Tables.reports.Locked (live t i) locked d)
    (hall : ∀ r ∈ d.reports, live t i r = true → Row.report r.id ∈ locked) : Moves q d d' := by
  have hon : ∀ r ∈ d.reports, Row.report r.id ∈ locked → live t i r = true := by
    intro r hr hl
    obtain ⟨r', hget, hlive⟩ := hlocked r.id hl
    have hr' : Tables.reports.get d r.id = some r := (Tables.reports.get_eq_some hd).mpr ⟨hr, rfl⟩
    cases hr'.symm.trans hget
    exact hlive
  refine ⟨fun t' j m' hm' hal hau => ?_, fun t' j m' hm' => ?_, fun r hr hlive => ?_⟩
  · rw [hmark] at hm'
    obtain ⟨m, hm, rfl⟩ := Option.map_eq_some_iff.mp hm'
    rw [reportsOn, hreps, Table.update, List.countP_map]
    by_cases hti : t' = t ∧ j = i
    · obtain ⟨rfl, rfl⟩ := hti
      have hl : (targets t').row j ∈ locked' := by
        apply hzero.resolve_right
        intro hdead
        have hm0 := hdead m hm
        split at hal
        · exact absurd (hm0.symm.trans hal) (by decide)
        · exact absurd (hm0.symm.trans hal) (by decide)
      rw [if_pos ⟨rfl, hl⟩]
      symm
      rw [Int.natCast_eq_zero, List.countP_eq_zero]
      intro r hr
      by_cases hrl : Row.report r.id ∈ locked
      · simp [hrl, live]
      · have hnl : live t' j r = false := by
          cases hc : live t' j r with
          | false => rfl
          | true => exact absurd (hall r hr hc) hrl
        simp [hrl, hnl]
    · have hl : ¬ (t' = t ∧ (targets t).row j ∈ locked') := by
        rintro ⟨ht, hl⟩
        exact hti ⟨ht, (targets t).row_inj (honly _ hl)⟩
      rw [if_neg hl] at hal hau ⊢
      rw [h t' j m hm hal hau, reportsOn, Int.natCast_inj]
      apply List.countP_congr
      intro r hr
      by_cases hrl : Row.report r.id ∈ locked
      · have hlr := hon r hr hrl
        have hne : live t' j r = false := by
          apply Bool.eq_false_iff.mpr
          intro hc
          simp only [live, Bool.and_eq_true, decide_eq_true_eq, beq_iff_eq] at hc hlr
          exact hti ⟨hc.1.1.symm.trans hlr.1.1, hc.1.2.symm.trans hlr.1.2⟩
        rw [hne]
        simp [hrl, live]
      · simp [hrl]
  · rw [hmark] at hm'
    obtain ⟨m, hm, rfl⟩ := Option.map_eq_some_iff.mp hm'
    refine ⟨m, hm, ?_, .inl ?_⟩
    · split <;> rfl
    · split <;> rfl
  · rw [hreps] at hr
    obtain ⟨r₀, hr₀, rfl⟩ := Table.mem_update.mp hr
    by_cases hrl : Row.report r₀.id ∈ locked
    · simp [hrl] at hlive
    · simp [hrl]
      exact .inl hr₀

structure Zeroed (t : TargetType) (i : Uuid) (locked : List Row) (f : Store → Store) : Prop where
  only : ∀ r ∈ locked, r = (targets t).row i
  mark : ∀ d t' j, mark t' (f d) j = (mark t' d j).map fun m =>
    if t' = t ∧ (targets t).row j ∈ locked then { m with count := 0 } else m
  reports : ∀ d, (f d).reports = d.reports

theorem wp_resetCount {K : Option Uuid → Known → Prop}
    {conds : (likeTarget t).Target → Bool}
    {values : (likeTarget t).Target → (likeTarget t).Target}
    {hkey : ∀ a, (targets t).key (values a) = (targets t).key a}
    {returning : (likeTarget t).Target → Uuid}
    (hc : spec.Kept q c) (hcond : ∀ a, conds a = true → (targets t).key a = i)
    (hskip : ∀ a, conds a = false → (targets t).key a = i → (markOf t a).alive = false)
    (hf : ∀ a, markOf t (values a) = { markOf t a with count := 0 })
    (hmark : ∀ d, mark t (c.redo d) = mark t d)
    (hK : ∀ n f locked c' r, Zeroed t i locked f → spec.After q c .resetReports n (f ∘ c.redo)
        (fun w => (targets t).row i ∈ locked ∨ Dead t i w) c' → K r c') :
    spec.wp q (updateOneReturning .resetReports (targets t) conds values hkey returning) K c := by
  apply wp_updateOneUnless hcond hc (Dead t i) (kept_dead _ _ _) _ fun _ _ _ => trivial
  · intro n snap locked c' r honly ha
    refine hK n _ locked c' r ⟨honly, fun d => ?_, fun d => reports_put t _ d⟩ ha
    exact mark_update (s := fun _ => conds) (p := conds) (b := false)
      (f := fun m => { m with count := 0 }) (fun _ => hkey) (fun _ => hf) snap locked d
  · intro w hw h m hm
    rw [← hmark] at hm
    obtain ⟨a, ha, rfl⟩ := Option.map_eq_some_iff.mp hm
    exact hskip a (h a ha) ((targets t).get_key ha)

theorem meets_resetReports (cfg : Config) (t : TargetType) (i : Uuid) (now : Timestamp) :
    MeetsAt spec cfg (.resetReports t i now) := by
  apply wp_once_answer (orNotFound_cases _) (fun _ _ _ => trivial) fun _ _ => trivial
  rw [Spec.wp_bind, targetType_moderationTarget]
  apply wp_deleteByTarget
  intro n snap locked c₁ h₁
  -- what remains is the same for posts and comments
  have hcommit : ∀ n f locked' c₂ c₃, (∀ d, view (c₂.redo d) = view (c₁.redo d)) →
      (∀ w, c₂.fact w → c₁.fact w) → Zeroed t i locked' f →
      spec.After (.resetReports t i now) c₂ .resetReports n (f ∘ c₂.redo)
        (fun w => (targets t).row i ∈ locked' ∨ Dead t i w) c₃ →
      Commits spec (.resetReports t i now) c₃ := by
    intro n f locked' c₂ c₃ hv hfact hz h₃
    apply commits_of_moves
    intro w hw _
    have hf := h₃.fact w hw.fact
    have hcl := (h₁.fact w (hfact w hf.1)).2
    have hv₁ : view (c₁.redo w.db) = (fun t => mark t w.db,
        Table.update (fun r => decide (Row.report r.id ∈ locked))
          (fun r => { r with deletedAt := some now }) w.db.reports) := by
      rw [h₁.redo]
      exact view_putReports _ _
    apply moves_reset now hw.good.inv hw.good.valid _ hz.only hf.2 _ hcl.only hcl.all
    · intro t' j
      rw [h₃.redo, Function.comp_apply, hz.mark, mark_congr (hv w.db)]
      exact congrArg (Option.map _) (congrFun (congrFun (congrArg Prod.fst hv₁) t') j)
    · rw [h₃.redo, Function.comp_apply, hz.reports, reports_congr (hv w.db)]
      exact congrArg Prod.snd hv₁
  have hmark₁ : ∀ d t, mark t (c₁.redo d) = mark t d := by
    intro d t
    rw [h₁.redo]
    exact congrFun (congrArg Prod.fst (view_putReports _ d)) t
  cases t with
  | post =>
    show spec.wp _ (PostsRepository.resetReports i now) _ _
    rw [PostsRepository.resetReports, Spec.wp_bind]
    refine wp_resetCount (t := .post) (i := i) h₁.kept (fun p hp => ?_) (fun p hp hk => ?_) ?_
      (fun d => hmark₁ d _) ?_
    · simp only [Bool.and_eq_true, beq_iff_eq] at hp
      exact hp.1
    · have hid : p.id = i := hk
      simpa [hid, markOf] using hp
    · exact fun _ => rfl
    · intro n f locked' c₂ r hz ha
      exact hcommit n f locked' c₁ c₂ (fun _ => rfl) (fun _ h => h) hz ha
  | comment =>
    show spec.wp _ (CommentModeration.resetReports i now) _ _
    rw [CommentModeration.resetReports, Spec.wp_bind]
    refine wp_aside view h₁.kept (steps_unblind .comment i now) fun _ c₂ h₂ => ?_
    rw [CommentsRepository.resetReports, Spec.wp_bind]
    refine wp_resetCount (t := .comment) (i := i) h₂.kept (fun p hp => ?_) (fun p hp hk => ?_) ?_
      (fun d => ?_) ?_
    · simp only [Bool.and_eq_true, beq_iff_eq] at hp
      exact hp.1
    · have hid : p.id = i := hk
      simpa [hid, markOf] using hp
    · exact fun _ => rfl
    · rw [← hmark₁ d]
      exact funext (mark_congr (h₂.redo d) .comment)
    · intro n f locked' c₃ r hz ha
      exact hcommit n f locked' c₂ c₃ h₂.redo h₂.fact hz ha

end Reset

section Purge

variable {job : UserService.PurgeJob} {chunk : Nat} {t : TargetType}

def Forgotten (job : UserService.PurgeJob) (chunk : Nat) (t : TargetType) (locked : List Row)
    (w : World) : Prop :=
  ∀ i m a, mark t w.db i = some m → m.author = some a → a ∈ job.targetIds chunk →
    (targets t).row i ∈ locked

theorem author_of_effect {d : Store} {c' : Commit} (he : Effect c' d) (hm : mark t c'.db i = some m')
    (ha : m'.author = some a) : ∃ m, mark t d i = some m ∧ m.author = some a := by
  obtain ⟨m, hmark, _, hau⟩ := he.targets t i m' hm
  rcases hau with hau | hau
  · exact ⟨m, hmark, hau ▸ ha⟩
  · rw [ha] at hau
    cases hau

theorem Forgotten.stable (locked : List Row) :
    spec.Stable q past held (Forgotten job chunk t locked) := by
  intro w w' _ _ hch _ _ hf i m' a hm' ha hmem
  obtain ⟨c', rfl, he⟩ := hch
  obtain ⟨m, hm, ha'⟩ := author_of_effect he hm' ha
  exact hf i m a hm ha' hmem

structure Orphaned (job : UserService.PurgeJob) (chunk : Nat) (t : TargetType) (locked : List Row)
    (f : Store → Store) : Prop where
  mark : ∀ d t' j, mark t' (f d) j = (mark t' d j).map fun m =>
    if t' = t ∧ (targets t).row j ∈ locked then
      { m with author := UsersRepository.setNull (job.targetIds chunk) m.author } else m
  reports : ∀ d, (f d).reports = d.reports

theorem wp_forget (t : TargetType) (job : UserService.PurgeJob) (chunk : Nat) {K : Unit → Known → Prop} {conds : (likeTarget t).Target → Bool}
    {values : (likeTarget t).Target → (likeTarget t).Target}
    {hkey : ∀ a, (targets t).key (values a) = (targets t).key a} (hc : spec.Kept q c)
    (hcond : ∀ a, conds a = (markOf t a).author.any (job.targetIds chunk).contains)
    (hf : ∀ a, markOf t (values a) = { markOf t a with
      author := UsersRepository.setNull (job.targetIds chunk) (markOf t a).author })
    (hauthor : ∀ d i, (mark t (c.redo d) i).bind (·.author) = (mark t d i).bind (·.author))
    (hK : ∀ n f locked c', Orphaned job chunk t locked f →
      spec.After q c .cascade n (f ∘ c.redo) (Forgotten job chunk t locked) c' → K () c') :
    spec.wp q (updateRows .cascade (targets t) conds values hkey) K c := by
  have hown : ∀ w i m a, mark t w i = some m → m.author = some a → a ∈ job.targetIds chunk →
      ∃ x, (targets t).get (c.redo w) i = some x ∧ conds x = true := by
    intro w i m a hm ha hmem
    have h := hauthor w i
    rw [hm, Option.bind_some, ha] at h
    obtain ⟨m', hm', ha'⟩ := Option.bind_eq_some_iff.mp h
    obtain ⟨x, hx, rfl⟩ := Option.map_eq_some_iff.mp hm'
    refine ⟨x, hx, ?_⟩
    rw [hcond, ha']
    simpa using hmem
  apply Spec.wp_many (T := targets t) (p := conds) (fun _ => rfl) (fun _ _ => rfl) hc
    (fun w w' => ∀ i m' a, mark t w'.db i = some m' → m'.author = some a →
      ∃ m, mark t w.db i = some m ∧ m.author = some a)
    (fun _ _ i m a hm ha => ⟨m, hm, ha⟩)
    (fun w n past held' _ _ w₁ w₂ _ _ hch _ _ hf i m' a hm' ha => by
      obtain ⟨c', rfl, he⟩ := hch
      obtain ⟨m, hm, ha'⟩ := author_of_effect he hm' ha
      exact hf i m a hm ha')
    (fun _ _ => True) (fun _ _ => .const True) (fun _ _ _ _ => trivial)
    (fun i w => ∀ m a, mark t w.db i = some m → m.author = some a → a ∉ job.targetIds chunk)
    (fun i n past held' _ _ w₁ w₂ _ _ hch _ _ hf m' a hm' ha => by
      obtain ⟨c', rfl, he⟩ := hch
      obtain ⟨m, hm, ha'⟩ := author_of_effect he hm' ha
      exact hf m a hm ha')
  · intro i w _ h m a hm ha hmem
    obtain ⟨x, hx, hcx⟩ := hown w.db i m a hm ha hmem
    rw [h x hx] at hcx
    cases hcx
  · intro w w' locked hw _ hB _ _ hcov
    refine ⟨trivial, Forgotten job chunk t locked, ?_, ?_, ?_⟩
    · intro i m' a hm' ha hmem
      obtain ⟨m, hm, ha₀⟩ := hB i m' a hm' ha
      obtain ⟨x, hx, hcx⟩ := hown w.db i m a hm ha₀ hmem
      obtain ⟨hxm, rfl⟩ := ((targets t).get_eq_some hw.view).mp hx
      exact (hcov x hxm hcx).resolve_right fun hN => hN m' a hm' ha hmem
    · exact fun past held _ _ => Forgotten.stable locked
    · intro c' ha
      refine hK _ _ locked c' ⟨fun d => ?_, fun d => reports_put t _ d⟩ ha
      exact mark_update (s := fun _ => conds) (p := conds) (b := false)
        (f := fun m => { m with
          author := UsersRepository.setNull (job.targetIds chunk) m.author })
        (fun _ => hkey) (fun _ => hf) (c.redo w.db) locked d

theorem wp_deleteReports {K : Nat → Known → Prop} (hc : spec.Kept q c) {ids : List Uuid}
    (hreps : ∀ d, (c.redo d).reports = d.reports)
    (hK : ∀ n m locked c', spec.After q c .cascade n
      (Tables.reports.remove (fun r => decide (Row.report r.id ∈ locked)) ∘ c.redo)
      (fun w => Tables.reports.Locked (fun r => ids.contains r.reporterId) locked w.db) c' →
      K m c') :
    spec.wp q (deleteRows .cascade Tables.reports fun r => ids.contains r.reporterId) K c := by
  apply Spec.wp_rows (T := Tables.reports) (p := fun r => ids.contains r.reporterId) (fun _ => rfl)
    (fun _ _ => rfl) (fun _ h => by cases h) hreps hc (fun _ _ => True) (fun _ _ => trivial)
    (fun _ _ => .true rfl) (fun _ _ => True) (fun _ _ => .true rfl) (fun _ _ _ _ => trivial)
  intro w w' locked _ _ _ _ hl _
  refine ⟨trivial, _, hl, ?_, fun c' ha => hK _ _ _ c' ha⟩
  intro past held _ hh
  exact .of_locked (fun _ h => by cases h) fun l hl => hh l (List.mem_append_left _ hl)

def purged (posts comments : List Row) : TargetType → List Row
  | .post => posts
  | .comment => comments

theorem moves_purge (locked : TargetType → List Row) {d d' : Store} (h : Exact d) (hd : d.Valid)
    (hun : Unreported job chunk d) {gone : List Row}
    (hmark : ∀ t j, mark t d' j = (mark t d j).map fun m =>
      if (targets t).row j ∈ locked t then
        { m with author := UsersRepository.setNull (job.targetIds chunk) m.author } else m)
    (hforgot : ∀ t i m a, mark t d i = some m → m.author = some a → a ∈ job.targetIds chunk →
      (targets t).row i ∈ locked t)
    (hreps : d'.reports = Table.delete (fun r => decide (Row.report r.id ∈ gone)) d.reports)
    (hgone : Tables.reports.Locked (fun r => (job.targetIds chunk).contains r.reporterId) gone d) :
    Moves q d d' := by
  refine ⟨fun t i m' hm' hal hau => ?_, fun t i m' hm' => ?_, fun r hr _ => ?_⟩
  · rw [hmark] at hm'
    obtain ⟨m, hm, rfl⟩ := Option.map_eq_some_iff.mp hm'
    -- the author stays, so it is none of the accounts
    have hauthor : ∃ a, m.author = some a ∧ a ∉ job.targetIds chunk := by
      by_cases hl : (targets t).row i ∈ locked t
      · rw [if_pos hl] at hau
        obtain ⟨a, ha⟩ := Option.isSome_iff_exists.mp hau
        have ha := Option.filter_eq_some_iff.mp ha
        exact ⟨a, ha.1, by simpa using ha.2⟩
      · rw [if_neg hl] at hau
        obtain ⟨a, ha⟩ := Option.isSome_iff_exists.mp hau
        exact ⟨a, ha, fun hmem => hl (hforgot t i m a hm ha hmem)⟩
    obtain ⟨a, ha, hna⟩ := hauthor
    have halive : m.alive = true := by
      split at hal <;> exact hal
    have hcount : (if (targets t).row i ∈ locked t then { m with
        author := UsersRepository.setNull (job.targetIds chunk) m.author } else m).count =
          m.count := by
      split <;> rfl
    rw [hcount, h t i m hm halive (by rw [ha]; rfl), reportsOn, reportsOn, hreps, Table.delete,
      List.countP_filter, Int.natCast_inj]
    apply List.countP_congr
    intro r hr
    by_cases hl : live t i r = true
    · have hstay : Row.report r.id ∉ gone := by
        intro hg
        obtain ⟨r', hget, hrep⟩ := hgone r.id hg
        have hr' : Tables.reports.get d r.id = some r := (Tables.reports.get_eq_some hd).mpr ⟨hr, rfl⟩
        cases hr'.symm.trans hget
        simp only [live, Bool.and_eq_true, decide_eq_true_eq, beq_iff_eq] at hl
        obtain ⟨⟨rfl, rfl⟩, hlive⟩ := hl
        exact hna (hun r hr hlive (by simpa using hrep) m hm halive a ha)
      simp [hstay]
    · simp [hl]
  · rw [hmark] at hm'
    obtain ⟨m, hm, rfl⟩ := Option.map_eq_some_iff.mp hm'
    refine ⟨m, hm, ?_, ?_⟩
    · split <;> rfl
    · split
      · show UsersRepository.setNull _ _ = _ ∨ UsersRepository.setNull _ _ = _
        unfold UsersRepository.setNull
        cases m.author with
        | none => exact .inr rfl
        | some a =>
          rw [Option.filter_some]
          split
          · exact .inl rfl
          · exact .inr rfl
      · exact .inl rfl
  · rw [hreps] at hr
    exact .inl (Table.mem_delete.mp hr).1

theorem steps_decrement (t : TargetType) (ids : List Uuid) :
    (decrementCounterByLinkOwner t ids).Within (fun _ => True) view := by
  refine ⟨trivial, fun snap locked d => ?_, fun _ _ _ => trivial⟩
  apply view_update
  intro d a
  cases t <;> rfl

theorem meets_purge (cfg : Config) (job : UserService.PurgeJob) (chunk : Nat) :
    MeetsAt spec cfg (.purge job chunk) := by
  refine wp_purge cfg (fun _ _ => trivial) trivial (fun _ => trivial) (fun _ _ => True)
    (fun _ _ _ => trivial) (fun _ _ _ _ => .true rfl) ?_ ?_
  · intro n w₀ c₁ _ h₁
    apply commits_of_moves
    intro w hw _
    rw [h₁.redo]
    exact moves_of_view hw.good.inv rfl _
  · intro n w₀ c₁ _ _ h₁
    refine wp_aside view h₁.kept (steps_decrement .post _) fun _ c₂ h₂ => ?_
    refine wp_aside view h₂.kept (steps_decrement .comment _) fun _ c₃ h₃ => ?_
    have hv₃ : ∀ d, view (c₃.redo d) = view d := by
      intro d
      rw [h₃.redo, h₂.redo, h₁.redo]
      rfl
    rw [UsersRepository.purgeUsersByIds, Spec.wp_bind]
    refine wp_aside view h₃.kept ?_ fun _ c₄ h₄ => ?_
    · exact steps_deleteRows trivial (apart_view fun _ _ => ⟨rfl, rfl, rfl⟩) _
    rw [Spec.wp_bind]
    refine wp_aside view h₄.kept ?_ fun _ c₅ h₅ => ?_
    · exact steps_purgeOwned _ trivial (apart_view fun _ _ => ⟨rfl, rfl, rfl⟩)
        (apart_view fun _ _ => ⟨rfl, rfl, rfl⟩)
    rw [Spec.wp_bind, UsersRepository.forgetOwners, Spec.wp_bind]
    refine wp_aside view h₅.kept ?_ fun _ c₆ h₆ => ?_
    · apply steps_updateRows
      · trivial
      · exact Apart.untouched (apart_view fun _ _ => ⟨rfl, rfl, rfl⟩)
    have hv₆ : ∀ d, view (c₆.redo d) = view d := by
      intro d
      rw [h₆.redo, h₅.redo, h₄.redo, hv₃]
    rw [Spec.wp_bind]
    refine wp_forget .post job chunk h₆.kept ?_ ?_ ?_ ?_
    · exact fun _ => rfl
    · exact fun _ => rfl
    · intro d i
      rw [mark_congr (hv₆ d)]
    intro _ f locked c₇ hf h₇
    refine wp_forget .comment job chunk h₇.kept ?_ ?_ ?_ ?_
    · exact fun _ => rfl
    · exact fun _ => rfl
    · intro d i
      rw [h₇.redo, Function.comp_apply, hf.mark, mark_congr (hv₆ d)]
      cases mark .comment d i <;> rfl
    intro _ g locked' c₈ hg h₈
    have hr₈ : ∀ d, (c₈.redo d).reports = d.reports := by
      intro d
      rw [h₈.redo, Function.comp_apply, hg.reports, h₇.redo, Function.comp_apply, hf.reports,
        reports_congr (hv₆ d)]
    rw [Spec.wp_bind]
    refine wp_aside view h₈.kept ?_ fun _ c₉ h₉ => ?_
    · exact steps_deleteRows trivial (apart_view fun _ _ => ⟨rfl, rfl, rfl⟩) _
    rw [Spec.wp_bind]
    refine wp_aside view h₉.kept ?_ fun _ c₁₀ h₁₀ => ?_
    · exact steps_deleteRows trivial (apart_view fun _ _ => ⟨rfl, rfl, rfl⟩) _
    have hv₁₀ : ∀ d, view (c₁₀.redo d) = view (c₈.redo d) := by
      intro d
      rw [h₁₀.redo, h₉.redo]
    rw [Spec.wp_bind]
    refine wp_deleteReports h₁₀.kept (fun d => (reports_congr (hv₁₀ d)).trans (hr₈ d)) ?_
    intro _ _ gone c₁₁ h₁₁
    refine wp_aside view h₁₁.kept ?_ fun _ c₁₂ h₁₂ => ?_
    · apply (steps_purgeNotifications _ trivial (apart_view fun _ _ => ⟨rfl, rfl, rfl⟩)).bind
      intro _
      apply (steps_purgeRooms _ trivial (apart_view fun _ _ => ⟨rfl, rfl, rfl⟩)
        (apart_view fun _ _ => ⟨rfl, rfl, rfl⟩)).bind
      intro _
      exact (steps_deleteRows trivial (apart_view fun _ _ => ⟨rfl, rfl, rfl⟩) _).map _
    apply commits_of_moves
    intro w hw hadm
    have hf₁₁ := h₁₁.fact w (h₁₂.fact w hw.fact)
    have hf₈ := h₈.fact w (h₉.fact w (h₁₀.fact w hf₁₁.1))
    have hf₇ := h₇.fact w hf₈.1
    have hv : view (c₁₂.redo w.db) = (fun t => mark t (c₁₀.redo w.db),
        Table.delete (fun r => decide (Row.report r.id ∈ gone)) (c₁₀.redo w.db).reports) :=
      (h₁₂.redo w.db).trans (by rw [h₁₁.redo]; exact view_putReports _ _)
    apply moves_purge (purged locked locked')
      hw.good.inv hw.good.valid (hadm job chunk rfl) _ _ _ hf₁₁.2
    · intro t j
      have hm : mark t (c₁₂.redo w.db) j = mark t (c₈.redo w.db) j :=
        (congrFun (congrFun (congrArg Prod.fst hv) t) j).trans (mark_congr (hv₁₀ w.db) t j)
      rw [hm, h₈.redo, Function.comp_apply, hg.mark, h₇.redo, Function.comp_apply, hf.mark,
        mark_congr (hv₆ w.db), Option.map_map]
      congr 1
      funext m
      cases t with
      | post =>
        simp [purged]
        rfl
      | comment =>
        simp [purged]
        rfl
    · intro t
      cases t with
      | post => exact hf₇.2
      | comment => exact hf₈.2
    · rw [← hr₈ w.db, ← reports_congr (hv₁₀ w.db)]
      exact congrArg Prod.snd hv

end Purge

theorem meets (cfg : Config) : spec.Meets (program cfg) := by
  intro q hq
  cases q with
  | submitReport reporterId t i reason reportId now =>
    exact meets_submitReport cfg reporterId t i reason reportId now
  | resetReports t i now => exact meets_resetReports cfg t i now
  | blind t i now => exact meets_blind cfg t i now
  | unblind t i now => exact meets_unblind cfg t i now
  | purge job chunk => exact meets_purge cfg job chunk
  | _ => exact hq.elim

/-- A step of the runs: a purge commits only when no account of the chunk has a report on a target
that keeps its author, and from the deletion of the reports in `reset_reports` on no report on the
same target commits. -/
def Permitted (s : State) : Label Row Request → Prop
  | .begin _ q => Moderates q
  | .run i => ∀ tx note k, s.txs i = some tx → tx.prog = .commit note k →
    (∀ job chunk, tx.req = .purge job chunk → Unreported job chunk s.world.db) ∧
    ∀ j tx' t id now n, j ≠ i → s.txs j = some tx' → tx'.req = .resetReports t id now →
      (.deleteByTarget, n) ∈ tx'.past → ¬ SubmitsTo tx.req t id
  | _ => True

theorem admits_of_permitted (h : Permitted s a) : spec.Admits s a := by
  cases a with
  | begin i q => exact h
  | run i =>
    intro tx htx
    refine ⟨fun _ _ _ => trivial, fun note k hp => ⟨?_, ?_⟩, fun f k hp => ?_⟩
    · exact (h tx note k htx hp).1
    · rintro j tx' hne htx' t id now n hq hpast c hc
      obtain rfl : _ = c := List.singleton_inj.mp (List.append_cancel_left hc)
      exact (h tx note k htx hp).2 j tx' t id now n hne htx' hq hpast
    · intro j tx' _ _ t id now n _ _ c hc
      have hlen := congrArg List.length hc
      simp [World.call] at hlen
  | lock i r => trivial
  | abort i => trivial

def CountsExact (d : Store) : Prop :=
  (∀ p ∈ d.posts, p.deletedAt = none → p.userId ≠ none →
    p.reportCount = d.reports.countP (live .post p.id)) ∧
  ∀ c ∈ d.comments, c.deletedAt = none → c.authorId ≠ none →
    c.reportCount = d.reports.countP (live .comment c.id)

instance (d : Store) : Decidable (CountsExact d) := by
  unfold CountsExact
  infer_instance

theorem exact_iff {d : Store} (hd : d.Valid) : Exact d ↔ CountsExact d := by
  apply Iff.intro
  · intro h
    apply And.intro
    · intro p hp hdel hau
      have hget : mark .post d p.id = some (markOf .post p) :=
        congrArg (Option.map _) ((Tables.posts.get_eq_some hd).mpr ⟨hp, rfl⟩)
      exact h .post p.id _ hget (by simp [markOf, hdel]) (Option.isSome_iff_ne_none.mpr hau)
    · intro c hc hdel hau
      have hget : mark .comment d c.id = some (markOf .comment c) :=
        congrArg (Option.map _) ((Tables.comments.get_eq_some hd).mpr ⟨hc, rfl⟩)
      exact h .comment c.id _ hget (by simp [markOf, hdel]) (Option.isSome_iff_ne_none.mpr hau)
  · rintro ⟨hp, hc⟩ t i m hm hal hau
    obtain ⟨a, ha, rfl⟩ := Option.map_eq_some_iff.mp hm
    cases t with
    | post =>
      obtain ⟨hmem, rfl⟩ := (Tables.posts.get_eq_some hd).mp ha
      exact hp a hmem (Option.isNone_iff_eq_none.mp hal) (Option.isSome_iff_ne_none.mp hau)
    | comment =>
      obtain ⟨hmem, rfl⟩ := (Tables.comments.get_eq_some hd).mp ha
      exact hc a hmem (Option.isNone_iff_eq_none.mp hal) (Option.isSome_iff_ne_none.mp hau)

/-- Report counts are exact after every commit of a permitted run. -/
theorem reportCount_exact (cfg : Config) {db : Store} {ext : Outside}
    {run : List (Label Row Request)} {s : State} (hdb : db.Valid) (hok : CountsExact db)
    (hrun : Along (step cfg) Permitted (State.start db ext) run)
    (hs : exec (step cfg) (State.start db ext) run = some s) : CountsExact s.world.db := by
  have hgood : spec.Good { db := db, ext := ext, log := [] } := ⟨(exact_iff hdb).mpr hok, hdb⟩
  have hadm : Along (step cfg) spec.Admits (State.start db ext) run :=
    hrun.mono fun _ _ h => admits_of_permitted h
  have hsound := Spec.sound (meets cfg) hgood hadm hs
  exact (exact_iff hsound.good.valid).mp hsound.good.inv

section Runs

open Sample

def submitRun : List (Label Row Request) :=
  [.begin 0 (.submitReport 2 .post 10 .spam 20 7)] ++ stmt 0 [.post 10] ++ stmt 0 [.report 20] ++
    stmt 0 [.user 2] ++ [.run 0, .run 0]

theorem reportCount_exact_submitRun :
    ∃ s, exec (step config) (State.start store outside) submitRun = some s ∧
      CountsExact s.world.db := by
  have hsome : (exec (step config) (State.start store outside) submitRun).isSome = true := rfl
  obtain ⟨s, hs⟩ := Option.isSome_iff_exists.mp hsome
  refine ⟨s, hs, reportCount_exact config store_valid (by decide) ?_ hs⟩
  apply (along_alone (P := fun q => q = .submitReport 2 .post 10 .spam 20 7) (i := 0) _ _ _ _).mono
  · rintro s a ⟨hbegin, hnone, hreq⟩
    cases a with
    | begin i q =>
      rw [hbegin i q rfl]
      trivial
    | run i =>
      intro tx note k htx _
      refine ⟨fun job chunk hq => ?_, fun j tx' t id now n hne htx' => ?_⟩
      · cases (hreq tx htx).symm.trans hq
      · rw [hnone j hne] at htx'
        cases htx'
    | lock i r => trivial
    | abort i => trivial
  · rintro q rfl
    exact returns_once _
  · simp [submitRun, stmt, Label.slot]

def withdrawn (id : Uuid) : User := { user id with status := .withdrawn, deletedAt := some 0 }

def reportedStore : Store where
  users := [user 1, withdrawn 2]
  posts := [{ post 10 1 with reportCount := 1 }]
  reports := [{ id := 20, reporterId := 2, targetType := .post, targetId := 10, reason := some "스팸",
                createdAt := 0, deletedAt := none }]

def purgeJob : UserService.PurgeJob where
  olderThanDays := 0
  now _ := 1
  targetIds n := if n = 0 then [2] else []

def purgeRun : List (Label Row Request) :=
  [.begin 0 (.purge purgeJob 0), .run 0] ++ stmt 0 [] ++ stmt 0 [] ++ stmt 0 [.user 2] ++
    stmt 0 [] ++ stmt 0 [] ++ stmt 0 [] ++ stmt 0 [] ++ stmt 0 [] ++ stmt 0 [] ++ stmt 0 [] ++
    stmt 0 [.report 20] ++ stmt 0 [] ++ stmt 0 [] ++ stmt 0 [] ++ stmt 0 [] ++ stmt 0 [] ++
    [.run 0, .run 0, .run 0, .run 0, .run 0]

/-- A reset deletes the reports, then a report commits, then the count goes to zero. -/
def raceRun : List (Label Row Request) :=
  [.begin 1 (.submitReport 2 .post 10 .spam 20 7)] ++ stmt 1 [.post 10] ++ stmt 1 [.report 20] ++
    stmt 1 [.user 2] ++ [.begin 0 (.resetReports .post 10 8)] ++ stmt 0 [] ++ [.run 1, .run 1] ++
    stmt 0 [.post 10] ++ [.run 0, .run 0]

theorem reportCount_diverges :
    (CountsExact reportedStore ∧
      ∃ s, exec (step config) (State.start reportedStore outside) purgeRun = some s ∧
        (∀ i, s.txs i = none) ∧ ¬ CountsExact s.world.db) ∧
    CountsExact store ∧
      ∃ s, exec (step config) (State.start store outside) raceRun = some s ∧
        (∀ i, s.txs i = none) ∧ ¬ CountsExact s.world.db := by
  refine ⟨⟨by decide, _, rfl, ?_, by decide⟩, by decide, _, rfl, ?_, by decide⟩
  · rintro (_ | _)
    · rfl
    · rfl
  · rintro (_ | _ | _)
    · rfl
    · rfl
    · rfl

end Runs

end PuppyTalk.Backend.ReportCount
