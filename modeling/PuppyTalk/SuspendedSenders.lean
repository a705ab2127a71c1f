import PuppyTalk.StatusStaleness

namespace PuppyTalk.AccountAccess

open Backend.ChatService (ChatMessageSend)

variable {R : Type} [Field R] [LinearOrder R]

def setsStatus (c : Config) (s : State R) (a : Label R) : Option (Uuid × UserStatus) :=
  match move c s a with
  | some (_, .setStatus u status _, _) => some (u, status)
  | some (_, .withdraw u _, _) => some (u, .withdrawn)
  | _ => none

structure StoredInTime (d checkedAt now : R) : Prop where
  le : now ≤ checkedAt + (240 + d)

/-- What `assert_can_dm` does not look at: the sender is active when it runs, and the message is
stored within the given time after that. -/
def SenderActive (d : R) (s : State R) : Label R → Prop
  | .run p _ _ =>
    match s.phase p with
    | .sendCheck u _ _ => Active s.db u
    | _ => True
  | .store p _ _ _ _ =>
    match s.phase p with
    | .sendStore _ _ _ checkedAt => StoredInTime d checkedAt s.now
    | _ => True
  | _ => True

structure Silent (u : Uuid) (s : State R) : Prop where
  known : u ∈ s.ids
  inactive : ¬ Active s.db u

variable {s t : State R} {c : Config}

/-! ### Accounts -/

theorem inactive_update {db db' : Store} {f : User → User}
    (hkeep : ∀ w ∈ db.users, q w = false → w.id = u → w.deletedAt = none → w.status ≠ .active)
    (hf : ∀ w, q w = true → (f w).id = u → (f w).deletedAt = none → (f w).status ≠ .active)
    (hdb : db'.users = Table.update q f db.users) : ¬ Active db' u := by
  rintro ⟨v, hv, hid, hlive, hact⟩
  rw [hdb] at hv
  obtain ⟨w, hw, rfl⟩ := Table.mem_update.mp hv
  cases hq : q w with
  | true =>
    rw [hq] at hid hlive hact
    exact hf w hq hid hlive hact
  | false =>
    rw [hq] at hid hlive hact
    exact hkeep w hw hq hid hlive hact

theorem status_of_inactive {db : Store} (h : ¬ Active db u) (hw : w ∈ db.users) (hid : w.id = u)
    (hlive : w.deletedAt = none) : w.status ≠ .active := fun hact => h ⟨w, hw, hid, hlive, hact⟩

theorem liveRow_iff : liveRow u v = true ↔ v.id = u ∧ v.deletedAt = none := by
  simp [liveRow]

theorem setsStatus_setStatus (h : move c s a = some (p, .setStatus u status stamp, ph)) :
    setsStatus c s a = some (u, status) := by
  rw [setsStatus, h]

omit [LinearOrder R] in
theorem inactive_apply (h : ¬ Active s.db u) (hno : ∀ stamp, e ≠ .setStatus u .active stamp) :
    ¬ Active (s.apply c e).db u := by
  rcases apply_users c s e with hsame | ⟨v, status, stamp, rfl⟩ | ⟨v, stamp, rfl⟩
  · unfold Active
    rwa [hsame]
  · refine inactive_update (fun w hw _ => status_of_inactive h hw) (fun w hq hid _ => ?_)
      (apply_setStatus_users c s v status stamp)
    have hv : v = u := (liveRow_iff.mp hq).1.symm.trans hid
    subst hv
    exact fun hact => hno stamp (congrArg (Effect.setStatus v · stamp) hact)
  · obtain ⟨f, hf, hupd⟩ := apply_withdraw_users c s v stamp
    refine inactive_update (fun w hw _ => status_of_inactive h hw) (fun w _ _ hlive => ?_) hupd
    rw [(hf w).2] at hlive
    cases hlive

theorem inactive_environment {db db' : Store} (h : ¬ Active db u) (hu : u ∈ ids)
    (hkeep : keepsAccounts ids db db' = true) : ¬ Active db' u := by
  rintro ⟨v, hv, rfl, hlive, hact⟩
  simp only [keepsAccounts, Bool.and_eq_true, List.all_eq_true, Bool.or_eq_true,
    Bool.not_eq_true', List.any_eq_true, beq_iff_eq] at hkeep
  rcases hkeep.1 v hv with hnew | ⟨w, hw, ⟨hid, hstatus⟩, hdel⟩
  · rw [List.contains_iff_mem.mpr hu] at hnew
    cases hnew
  · exact h ⟨w, hw, hid, hdel.trans hlive, hstatus.trans hact⟩

theorem Silent.next (h : Silent u s) (hno : setsStatus c s a ≠ some (u, .active))
    (hs : step c s a = some t) : Silent u t := by
  rcases step_cases hs with ⟨d, -, -, rfl⟩ | ⟨db, -, hkeep, rfl⟩ | ⟨key, -, rfl⟩ | ⟨p, e, ph, hm, rfl⟩
  · exact ⟨h.known, h.inactive⟩
  · exact ⟨List.mem_append_left _ h.known, inactive_environment h.inactive h.known hkeep⟩
  · exact ⟨h.known, h.inactive⟩
  · refine ⟨(apply_ids c s e).symm ▸ h.known, inactive_apply h.inactive fun stamp he => ?_⟩
    subst he
    exact hno (setsStatus_setStatus hm)

theorem Silent.exec (h : Silent u s)
    (hno : Along (step c) (fun s a => setsStatus c s a ≠ some (u, .active)) s as)
    (hrun : PuppyTalk.exec (step c) s as = some t) : Silent u t :=
  exec_invariant (fun h hno hs => h.next hno hs) h hno hrun

omit [LinearOrder R] in
theorem inactive_deactivate
    (he : (∃ status stamp, e = .setStatus u status stamp ∧ status ≠ .active) ∨
      ∃ stamp, e = .withdraw u stamp) : ¬ Active (s.apply c e).db u := by
  have hother (w : User) (hq : liveRow u w = false) (hid : w.id = u) (hlive : w.deletedAt = none) :
      w.status ≠ .active := by
    rw [liveRow_iff.mpr ⟨hid, hlive⟩] at hq
    cases hq
  rcases he with ⟨status, stamp, rfl, hne⟩ | ⟨stamp, rfl⟩
  · exact inactive_update (fun w _ => hother w) (fun w _ _ _ => hne)
      (apply_setStatus_users c s u status stamp)
  · obtain ⟨f, hf, hupd⟩ := apply_withdraw_users c s u stamp
    refine inactive_update (fun w _ => hother w) (fun w _ _ hlive => ?_) hupd
    rw [(hf w).2] at hlive
    cases hlive

theorem setsStatus_cases (h : setsStatus c s a = some (u, status)) :
    ∃ p e ph, move c s a = some (p, e, ph) ∧
      ((∃ stamp, e = .setStatus u status stamp) ∨
        (status = .withdrawn ∧ ∃ stamp, e = .withdraw u stamp)) := by
  unfold setsStatus at h
  split at h
  · rename_i p v st stamp ph hm
    cases h
    exact ⟨p, _, ph, hm, .inl ⟨stamp, rfl⟩⟩
  · rename_i p v stamp ph hm
    cases h
    exact ⟨p, _, ph, hm, .inr ⟨rfl, stamp, rfl⟩⟩
  · cases h

omit [LinearOrder R] in
theorem apply_messages (h : m ∈ (s.apply c e).db.chatMessages) :
    m ∈ s.db.chatMessages ∨ ∃ rooms, e = .message rooms m := by
  cases e with
  | message rooms m' =>
    rcases List.mem_append.mp h with hold | hnew
    · exact .inl hold
    · rw [List.mem_singleton.mp hnew]
      exact .inr ⟨rooms, rfl⟩
  | withdraw u stamp =>
    simp only [State.apply, State.setDb] at h
    exact .inl h
  | _ => exact .inl h

theorem step_messages (hs : step c s a = some t) (hm : m ∈ t.db.chatMessages) :
    m ∈ s.db.chatMessages ∨ ∃ p rooms ph, move c s a = some (p, .message rooms m, ph) := by
  rcases step_cases hs with ⟨d, -, -, rfl⟩ | ⟨db, -, hkeep, rfl⟩ | ⟨key, -, rfl⟩ | ⟨p, e, ph, hmove, rfl⟩
  · exact .inl hm
  · simp only [keepsAccounts, Bool.and_eq_true, List.all_eq_true] at hkeep
    exact .inl (List.contains_iff_mem.mp (hkeep.2 m hm))
  · exact .inl hm
  · rcases apply_messages hm with hold | ⟨rooms, rfl⟩
    · exact .inl hold
    · exact .inr ⟨p, rooms, ph, hmove⟩

/-! ### Runs -/

variable [IsStrictOrderedRing R] {db : Store} {d : R}

omit [IsStrictOrderedRing R] in
theorem checked_of_senderActive (hrun : exec (step c) (.init db) bs = some s)
    (h : SenderActive d s a) : Checked (ActiveAt c db bs) s a := by
  cases a with
  | run p r stamp =>
    simp only [SenderActive] at h
    simp only [Checked]
    split
    · rename_i u roomCache payload hp
      rw [hp] at h
      exact .now hrun h
    · trivial
  | _ => trivial

theorem fresh_senders (hrun : exec (step c) (.init db) as = some s)
    (hd : Along (step c) (Prompt d) (.init db) as)
    (hsender : Along (step c) (SenderActive d) (.init db) as) :
    Fresh (ActiveAt c db as) (ActiveAt c db as) d s := by
  refine fresh_run (ActiveAt c db) (fun as a u t h => h.append [a]) ?_ hrun hd
  intro bs cs a r has hr
  rw [has] at hsender
  exact checked_of_senderActive hr (hsender.next hr)

theorem silent_of_setsStatus (hrun : exec (step c) (.init db) as = some s)
    (h : Fresh (ActiveAt c db as) (ActiveAt c db as) d s) (hp : Prompt d s a)
    (hv : SenderActive d s a) (hset : setsStatus c s a = some (u, status)) (hne : status ≠ .active)
    (hs : step c s a = some t) : Silent u t := by
  obtain ⟨p, e, ph, hm, he⟩ := setsStatus_cases hset
  obtain ⟨hg, -⟩ := move_fresh h (fun u hu => .now hrun hu) (fun u t ht => ht.le hrun) hp
    (checked_of_senderActive hrun hv) hm
  have hphase := h.phase p
  have hknown : u ∈ s.ids := by
    rcases he with ⟨stamp, rfl⟩ | ⟨-, stamp, rfl⟩
    · obtain ⟨revoke, hph⟩ := hg
      rwa [hph] at hphase
    · have hph : s.phase p = .withdrawDelete u := hg
      rwa [hph] at hphase
  have hinactive : ¬ Active (s.apply c e).db u := by
    apply inactive_deactivate
    rcases he with ⟨stamp, rfl⟩ | ⟨-, stamp, rfl⟩
    · exact .inl ⟨status, stamp, rfl, hne⟩
    · exact .inr ⟨stamp, rfl⟩
  obtain ⟨d', rfl, -, -⟩ | ⟨db', rfl, -, -⟩ | ⟨key, rfl, -⟩ | ⟨p', e', ph', hm', rfl⟩ := step_cases hs
  · cases hm
  · cases hm
  · cases hm
  · cases hm.symm.trans hm'
    exact ⟨(apply_ids c s e).symm ▸ hknown, hinactive⟩

theorem ActiveAt.before (hpre : exec (step c) (.init db) pre = some s) (ha : step c s a = some s₁)
    (hsilent : Silent u s₁)
    (hno : Along (step c) (fun s a => setsStatus c s a ≠ some (u, .active)) s₁ mid)
    (h : ActiveAt c db (pre ++ a :: mid) u time) : time ≤ s.now := by
  obtain ⟨bs, r, hbs, hr, rfl, hact⟩ := h
  have hpre' : pre ++ [a] <+: pre ++ a :: mid := ⟨mid, by simp⟩
  have hrun : exec (step c) (.init db) (pre ++ [a]) = some s₁ := by
    rw [exec_append, hpre]
    exact exec_one ha
  -- either the moment lies before the suspension, or the user was silent at it
  have hafter (cs : List (Label R)) (hcs : pre ++ [a] ++ cs = bs) : False := by
    subst hcs
    rw [exec_append, hrun] at hr
    obtain ⟨ds, hds⟩ := hbs
    have hmid : mid = cs ++ ds := by simpa using hds.symm
    rw [hmid] at hno
    exact (hsilent.exec hno.left hr).inactive hact
  rcases List.prefix_or_prefix_of_prefix hbs hpre' with hle | ⟨cs, hcs⟩
  · rcases List.prefix_concat_iff.mp hle with heq | ⟨cs, rfl⟩
    · exact (hafter [] (by rw [heq, List.append_nil])).elim
    · rw [exec_append, hr] at hpre
      exact exec_now hpre
  · exact (hafter cs hcs).elim

namespace Sample

def openSocket : List (Label ℚ) :=
  [.resolve 0 .socket Access.sampleToken, .run 0 .ok 0, .run 0 .ok 0, .run 0 .ok 0,
   .fill 0 .auth .ok, .fill 0 .status .ok, .connect 0 true]

def messageFrame : List (Label ℚ) := [.frame 0 .allowed (some ⟨2, "멍멍"⟩), .run 0 .ok 0]

def storeFrame : Label ℚ := .store 0 20 30 .ok 0

def beginSuspension : Label ℚ := .suspendUser 1 1

def commitSuspension : Label ℚ := .run 1 .ok 0

def afterSuspension : List (Label ℚ) := [.run 1 .ok 0, .run 1 .ok 0, .tick 241]

end Sample

open Sample (config openSocket messageFrame storeFrame beginSuspension commitSuspension
  afterSuspension)

end PuppyTalk.AccountAccess
