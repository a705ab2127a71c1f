import PuppyTalk.ProgramRules

namespace PuppyTalk.Backend.SignupToken

open Txn
open ImageLifecycle (SignUpRequest uploadTokenKey)

def Presents (token : String) : Request → Prop
  | .signup _ data _ _ _ => data.signupToken = some token
  | _ => False

def userOf (cfg : Config) (imageId userId : Uuid) (data : SignUpRequest) (now : Timestamp) : User where
  id := userId
  version := 1
  email := cfg.lower data.email
  password := data.hashedPassword
  nickname := data.nickname
  profileImageId := some imageId
  status := .active
  createdAt := now
  updatedAt := now
  deletedAt := none

def claimed (user : User) (imageId : Uuid) (d : Store) : Store :=
  { d with
    users := d.users ++ [user]
    images := Table.update (fun i => decide (i.id = imageId))
      (fun i => { i with uploaderId := some user.id }) d.images }

def Wins (cfg : Config) (imageId : Uuid) (first : Store) (c : Commit) : Prop :=
  (∃ i, Tables.images.get first imageId = some i ∧ i.uploaderId = none) ∧
    ∃ userId data getReply delReply now, c.req = .signup userId data getReply delReply now ∧
      c.db = claimed (userOf cfg imageId userId data now) imageId first

/-- At most one signup has committed. The database is the first one, or the one that this signup
left, and only this signup has returned. -/
def SingleUse (cfg : Config) (imageId : Uuid) (first : Store) (s : State) : Prop :=
  (s.world.log = [] ∧ s.world.db = first ∧ s.ended.countP (fun e => e.outcome.isReturned) = 0) ∨
    ∃ c, s.world.log = [c] ∧ s.world.db = c.db ∧ Wins cfg imageId first c ∧
      s.ended.countP (fun e => e.outcome.isReturned) ≤ 1 ∧
      ∀ e ∈ s.ended, e.outcome = .returned → e.req = c.req

/-- The token stands for its image as long as it is there, and the image has been taken at most
once. -/
def spec (cfg : Config) (token : String) (imageId : Uuid) (first : Store) : Spec where
  starts := Presents token
  inv w := (∀ i, w.ext.uploadTokens.get (uploadTokenKey token) = some i → i = imageId) ∧
    ((w.log = [] ∧ w.db = first) ∨ ∃ c, w.log = [c] ∧ w.db = c.db ∧ Wins cfg imageId first c)
  change w w' := w.log ≠ [] → w'.log = w.log
  reads _ _ _ := True
  adm _ _ _ := True
  may _ _ _ _ := True
  ends _ _ _ _ _ := True
  raised _ _ _ _ := True
  returned q _ log := ∃ c, log = [c] ∧ c.req = q

section Signup

variable {cfg : Config} {token : String} {imageId : Uuid} {first : Store} {q : Request} {c : Known}

theorem inv_call {w : World} (h : (spec cfg token imageId first).inv w) {f : Outside → Outside}
    (hf : ∀ x i, (f x).uploadTokens.get (uploadTokenKey token) = some i →
      x.uploadTokens.get (uploadTokenKey token) = some i) :
    (spec cfg token imageId first).inv (w.call f) :=
  ⟨fun i hi => h.1 i (hf _ i hi), h.2⟩

abbrev untouched (past : List (Statement × Nat)) : Known where
  past := past
  held := []
  redo := id
  fact _ := True

theorem wp_verifyUploadToken (getReply delReply : Reply) {K : Option Uuid → Known → Prop}
    {past : List (Statement × Nat)} (hnone : K none (untouched past))
    (hsome : K (some imageId) (untouched past)) :
    (spec cfg token imageId first).wp q (AuthService.verifyUploadToken token getReply delReply) K
      (untouched past) := by
  intro w hw
  refine ⟨inv_call hw.good.inv fun _ _ h => h, fun _ => rfl, fun _ => True, ⟨trivial, .const True⟩, ?_⟩
  dsimp only
  split
  · exact hnone
  · cases hget : w.ext.uploadTokens.get (uploadTokenKey token) with
    | none => exact hnone
    | some i =>
      have hi : i = imageId := hw.good.inv.1 i hget
      subst hi
      intro w' hw'
      refine ⟨inv_call hw'.good.inv fun x j => ?_, fun _ => rfl, fun _ => True,
        ⟨trivial, .const True⟩, ?_⟩
      · split
        · intro hj
          rw [KeyValue.get_del_self] at hj
          cases hj
        · exact id
      · show K _ _
        split
        · exact hnone
        · exact hsome

theorem wp_tokenImage {data : SignUpRequest} (htoken : token ≠ "")
    (hdata : data.signupToken = some token) (getReply delReply : Reply)
    {K : Option Uuid → Known → Prop} {past : List (Statement × Nat)}
    (hK : K (some imageId) (untouched past)) :
    (spec cfg token imageId first).wp q (AuthService.tokenImage data getReply delReply) K
      (untouched past) := by
  have hfilter : data.signupToken.filter (· ≠ "") = some token := by
    rw [hdata]
    simp [htoken]
  unfold AuthService.tokenImage
  rw [hfilter]
  show Spec.wp _ q (AuthService.verifyUploadToken token getReply delReply >>= _) K _
  rw [Spec.wp_bind]
  apply wp_verifyUploadToken
  · exact fun _ _ => trivial
  · dsimp only
    split
    · exact fun _ _ => trivial
    · exact hK

structure Created (cfg : Config) (token : String) (imageId : Uuid) (first : Store) (q : Request)
    (user : User) (c : Known) : Prop where
  kept : (spec cfg token imageId first).Kept q c
  free : ∀ w, c.fact w → Tables.users.get w.db user.id = none
  redo : ∀ d, Tables.users.get d user.id = none → c.redo d = { d with users := d.users ++ [user] }
  images : ∀ d, (c.redo d).images = d.images

theorem Created.after (h : Created cfg token imageId first q user c)
    (ha : (spec cfg token imageId first).After q c name n c.redo fact c') :
    Created cfg token imageId first q user c' where
  kept := ha.kept
  free w hw := h.free w (ha.fact w hw).1
  redo := by
    rw [ha.redo]
    exact h.redo
  images := by
    rw [ha.redo]
    exact h.images

theorem insertUser_write (user : User) (index : List Row) (taken : Store → Row → Bool) (snap : Store)
    (locked : List Row) (d : Store) :
    ((Tables.users.insert user index taken).write snap locked d).images = d.images := by
  show (if _ then _ else _ : Store).images = _
  split <;> rfl

theorem wp_createUser {userId : Uuid} {data : SignUpRequest} {now : Timestamp} {K : Unit → Known → Prop}
    {past : List (Statement × Nat)}
    (hK : ∀ c, Created cfg token imageId first q (userOf cfg imageId userId data now) c → K () c) :
    (spec cfg token imageId first).wp q (UsersRepository.createUser cfg userId data.email
      data.hashedPassword data.nickname (some imageId) now) K (untouched past) := by
  apply Spec.wp_insert (.true rfl) (fun _ => rfl) fun _ _ _ => trivial
  intro w w' locked c _ _ ha
  dsimp only
  split
  · exact fun _ _ => trivial
  · rename_i hemail
    split
    · exact fun _ _ => trivial
    · rename_i hnickname
      split
      · exact fun _ _ => trivial
      · rename_i hid
        have hall : ∀ r ∈ [Row.user userId, .email (cfg.lower data.email), .nickname data.nickname],
            r ∈ locked := by
          simp only [List.mem_cons, List.not_mem_nil, or_false, forall_eq_or_imp, forall_eq]
          exact ⟨not_not.mp hid, not_not.mp hemail, not_not.mp hnickname⟩
        have hcreated : Created cfg token imageId first q (userOf cfg imageId userId data now) c := by
          refine ⟨ha.kept, fun w hw => (ha.fact w hw).2 (hall _ List.mem_cons_self), fun d hd => ?_,
            fun d => ?_⟩
          · rw [ha.redo]
            exact TableOf.write_insert_all hall hd _
          · rw [ha.redo]
            exact insertUser_write ..
        apply wp_references (fun _ _ _ => trivial) (fun _ _ _ => trivial) (fun i => beq_iff_eq)
          hcreated.kept
        · intro d
          show (Table.row Image.id (c.redo d).images imageId).isSome = _
          rw [hcreated.images]
          rfl
        · exact fun w c' _ ha => hK c' (hcreated.after ha)

theorem claimed_eq (user : User) (imageId : Uuid) (d : Store) :
    Tables.images.modify imageId (fun i => { i with uploaderId := some user.id })
      { d with users := d.users ++ [user] } = claimed user imageId d := rfl

theorem uploader_claimed (h : Tables.images.get (claimed user imageId d) imageId = some i) :
    i.uploaderId = some user.id := by
  have hkey (i : Image) : Tables.images.key { i with uploaderId := some user.id } = i.id := rfl
  rw [← claimed_eq, TableOf.get_modify hkey] at h
  obtain ⟨j, -, rfl⟩ := Option.map_eq_some_iff.mp h
  rw [if_pos rfl]

theorem first_of_free {w : World} (h : (spec cfg token imageId first).inv w)
    (hi : Tables.images.get w.db imageId = some i) (hfree : i.uploaderId = none) :
    w.log = [] ∧ w.db = first := by
  rcases h.2 with h | ⟨c, _, hdb, _, _, _, _, _, _, _, hc⟩
  · exact h
  · rw [hdb, hc] at hi
    have hu := uploader_claimed hi
    rw [hfree] at hu
    cases hu

theorem wp_exists {f : Store → β} {K : β → Known → Prop} {past : List (Statement × Nat)}
    (hK : ∀ b n, K b (untouched ((name, n) :: past))) :
    (spec cfg token imageId first).wp q (query name f) K (untouched past) :=
  fun w _ _ _ => ⟨trivial, fun _ => True, ⟨trivial, .const True⟩, hK _ w.log.length⟩

theorem wp_attach {userId : Uuid} {data : SignUpRequest} {getReply delReply : Reply} {now : Timestamp}
    (hc : Created cfg token imageId first q (userOf cfg imageId userId data now) c)
    (hq : q = .signup userId data getReply delReply now) :
    (spec cfg token imageId first).wp q
      (AuthService.attachProfileImage userId (some imageId) >>= fun _ => .commit none (.pure none))
      ((spec cfg token imageId first).Finished q) c := by
  have hget (d : Store) : Tables.images.get (c.redo d) imageId = Tables.images.get d imageId := by
    show Table.row _ (c.redo d).images _ = _
    rw [hc.images]
    rfl
  show Spec.wp _ q ((AuthService.claimImageOwnership imageId userId >>= _) >>= _) _ c
  unfold AuthService.claimImageOwnership
  rw [Spec.wp_bind, Spec.wp_bind, Spec.wp_bind]
  have hrow : (spec cfg token imageId first).OneRow q .claimImageOwnership c Tables.images imageId
      (fun o => (o.map fun i => i.id == imageId && i.uploaderId.isNone && i.deletedAt.isNone).getD
        false) fun _ => True :=
    ⟨hc.kept, hget, .true rfl, fun _ _ _ => trivial, fun _ _ _ _ _ _ _ => trivial⟩
  apply wp_updateOneReturning _ hrow
  · intro w w' i c' _ _ hi _ _ ha
    simp only [Bool.and_eq_true, beq_iff_eq, Option.isNone_iff_eq_none] at hi
    intro w hw _
    obtain ⟨hfact, himage⟩ := ha.fact w hw.fact
    obtain ⟨hlog, hdb⟩ := first_of_free hw.good.inv himage hi.1.2
    have hredo : c'.redo w.db = claimed (userOf cfg imageId userId data now) imageId first := by
      rw [ha.redo, Function.comp_apply, hc.redo _ (hc.free w hfact), hdb]
      rfl
    have hlog' : (w.commit q none c'.past (c'.redo w.db)).log =
        [{ req := q, note := none, past := c'.past, db := c'.redo w.db }] := by
      show w.log ++ [_] = _
      rw [hlog]
      rfl
    refine ⟨⟨hw.good.inv.1, .inr ⟨_, hlog', rfl, ?_⟩⟩, fun h => absurd hlog h,
      fun w' => ∃ c, w'.log = [c] ∧ c.req = q, ⟨⟨_, hlog', rfl⟩, ?_⟩, nofun, ?_⟩
    · exact ⟨⟨i, hdb ▸ himage, hi.1.2⟩, userId, data, getReply, delReply, now, hq, hredo⟩
    · rintro w₁ w₂ _ _ hch _ _ ⟨c, hlog, hreq⟩
      refine ⟨c, ?_, hreq⟩
      rw [hch (by rw [hlog]; nofun), hlog]
    · exact fun w' hw' => hw'.fact
  · intro w w' c' _ _ _ _
    exact fun _ _ => trivial
  · intro i hi
    simp only [Bool.and_eq_true, beq_iff_eq] at hi
    exact hi.1.1

theorem meets_signup (htoken : token ≠ "") (userId : Uuid) {data : SignUpRequest}
    (hdata : data.signupToken = some token) (getReply delReply : Reply) (now : Timestamp) :
    MeetsAt (spec cfg token imageId first) cfg (.signup userId data getReply delReply now) := by
  show Spec.wp _ _ (AuthService.signup cfg userId data getReply delReply now >>= _) _ _
  rw [Spec.wp_bind]
  unfold AuthService.signup
  split
  · exact fun _ _ => trivial
  · unfold transaction
    rw [Spec.wp_bind, Spec.wp_bind]
    apply wp_exists
    intro emailTaken _
    split
    · exact fun _ _ => trivial
    · rw [Spec.wp_bind]
      apply wp_exists
      intro nicknameTaken _
      split
      · exact fun _ _ => trivial
      · rw [Spec.wp_bind]
        apply wp_tokenImage htoken hdata
        rw [Spec.wp_bind]
        apply wp_createUser
        intro c hc
        have h := wp_attach hc rfl
        rw [Spec.wp_bind] at h
        exact h

theorem meets (htoken : token ≠ "") : (spec cfg token imageId first).Meets (program cfg) := by
  intro q hq
  cases q with
  | signup userId data getReply delReply now => exact meets_signup htoken userId hq getReply delReply now
  | _ => exact hq.elim

end Signup

theorem pays_signup (cfg : Config) (h : Presents token q) : (program cfg q).Pays := by
  cases q with
  | signup userId data getReply delReply now =>
    apply Prog.Pays.bind
    unfold AuthService.signup
    split
    · trivial
    · exact Prog.pays_bind _ fun _ => trivial
  | _ => exact h.elim

/-- Whatever the order of the Redis commands and of the statements, one of the signups with an upload
token gets the image of the token, and all others leave nothing behind. -/
theorem signupToken_singleUse (cfg : Config) (db : Store) (ext : Outside) (hdb : db.Valid)
    (token : String) (htoken : token ≠ "") (imageId : Uuid)
    (hget : ext.uploadTokens.get (uploadTokenKey token) = some imageId)
    (run : List (Label Row Request)) (hrun : ∀ a ∈ run, ∀ i q, a = .begin i q → Presents token q)
    (s : State) (hs : exec (step cfg) (State.start db ext) run = some s) :
    SingleUse cfg imageId db s := by
  have hadmits : Along (step cfg) (spec cfg token imageId db).Admits (State.start db ext) run := by
    apply (Along.of_forall hrun _ _).mono
    intro s a ha
    cases a with
    | begin i q => exact ha i q rfl
    | run i => exact fun _ _ => ⟨fun _ _ _ => trivial, fun _ _ _ => ⟨trivial, fun _ _ _ _ => trivial⟩,
        fun _ _ _ _ _ _ _ => trivial⟩
    | lock => trivial
    | abort => trivial
  have hsound := Spec.sound (meets htoken) ⟨⟨fun i hi => (Option.some.inj (hget.symm.trans hi)).symm,
    .inl ⟨rfl, rfl⟩⟩, hdb⟩ hadmits hs
  have hcount : s.ended.countP (fun e => e.outcome.isReturned) ≤ s.world.log.length := by
    apply returned_le_commits (P := Presents token) _ (fun q hq => pays_signup cfg hq) hrun hs
    intro q hq
    cases q with
    | signup => exact returns_once _
    | _ => exact hq.elim
  rcases hsound.good.inv.2 with ⟨hlog, hfirst⟩ | ⟨c, hlog, hdb', hc⟩
  · rw [hlog] at hcount
    exact .inl ⟨hlog, hfirst, Nat.le_zero.mp hcount⟩
  · rw [hlog] at hcount
    refine .inr ⟨c, hlog, hdb', hc, hcount, fun e he ho => ?_⟩
    obtain ⟨_, hend⟩ := hsound.ended e he
    rw [ho, hlog] at hend
    obtain ⟨c', htake, hreq⟩ := hend
    have hmem : c' ∈ [c] := List.mem_of_mem_take (htake ▸ List.mem_singleton_self c')
    rw [← hreq, List.mem_singleton.mp hmem]

/-- Two signups with the token of image 30. Both read the token before one of them drops it, and the
second waits for the image until the first has committed. -/
def tokenRun : List (Label Row Request) :=
  let data (name : String) : SignUpRequest :=
    { email := name, hashedPassword := "", nickname := name, profileImageId := none
      signupToken := some "t" }
  List.flatten [[.begin 0 (.signup 3 (data "a") .ok .ok 7), .begin 1 (.signup 4 (data "b") .ok .ok 8)],
    [.run 0, .run 0, .run 0, .run 1, .run 1, .run 1, .run 0, .run 1],
    Sample.stmt 0 [.user 3, .email "a", .nickname "a"], Sample.stmt 0 [.image 30],
    Sample.stmt 1 [.user 4, .email "b", .nickname "b"], Sample.stmt 1 [.image 30],
    Sample.stmt 0 [.image 30], [.run 1, .run 0, .run 0, .lock 1 (.image 30), .run 1, .run 1]]

def tokenStore : Store :=
  { Sample.store with
    images := [{ id := 30, fileKey := "", fileUrl := "", contentType := none, size := none,
                 uploaderId := none, createdAt := 0, deletedAt := none }] }

def tokenOutside : Outside :=
  { Sample.outside with
    uploadTokens := KeyValue.set Sample.outside.uploadTokens (uploadTokenKey "t") 30 }

theorem tokenStore_valid : tokenStore.Valid := by
  constructor <;> decide

theorem signupToken_singleUse_tokenRun :
    ∃ s, exec (step Sample.config) (State.start tokenStore tokenOutside) tokenRun = some s ∧
      s.world.log.length = 1 ∧ s.ended.length = 2 ∧ SingleUse Sample.config 30 tokenStore s := by
  have hlen : (exec (step Sample.config) (State.start tokenStore tokenOutside) tokenRun).map
      (fun s => (s.world.log.length, s.ended.length)) = some (1, 2) := by decide +kernel
  obtain ⟨s, hs, hlen⟩ := Option.map_eq_some_iff.mp hlen
  obtain ⟨hlog, hended⟩ := Prod.mk.inj hlen
  refine ⟨s, hs, hlog, hended, ?_⟩
  apply signupToken_singleUse Sample.config tokenStore tokenOutside tokenStore_valid "t" (by decide) 30
    (KeyValue.get_set_self _ _ _) tokenRun _ s hs
  intro a ha i q hq
  subst hq
  simp only [tokenRun, Sample.stmt, List.flatten_cons, List.flatten_nil, List.mem_append, List.mem_cons,
    List.mem_map, List.not_mem_nil, or_false, reduceCtorEq, and_false, exists_false,
    Label.begin.injEq] at ha
  rcases ha with ⟨-, rfl⟩ | ⟨-, rfl⟩ <;> rfl

end PuppyTalk.Backend.SignupToken
