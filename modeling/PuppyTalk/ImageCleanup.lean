import PuppyTalk.ImageLifecycle

namespace PuppyTalk

open Table

theorem Db.references_iff {db : Db} : db.references i = true ↔
    (∃ u ∈ db.users, u.profileImageId = some i) ∨
    (∃ d ∈ db.dogProfiles, d.profileImageId = some i) ∨ ∃ p ∈ db.postImages, p.imageId = i := by
  simp [Db.references, or_assoc]

namespace ImageLifecycle

/-- Every reference points to a confirmed image that still has its uploader. -/
structure Owned (db : Db) : Prop where
  ids : Keyed Image.id db.images
  fileKeys : Keyed Image.fileKey db.images
  refs : ∀ i, db.references i = true →
    ∃ img ∈ db.images, img.id = i ∧ img.deletedAt = none ∧ img.uploaderId ≠ none

structure Attaches (db db' : Db) (ids : List Uuid) : Prop where
  images : db'.images = db.images
  refs : ∀ i, db'.references i = true → db.references i = true ∨ i ∈ ids

theorem Attaches.of_tables (himg : db'.images = db.images)
    (hu : ∀ u ∈ db'.users, ∀ i, u.profileImageId = some i →
      (∃ v ∈ db.users, v.profileImageId = some i) ∨ i ∈ as)
    (hd : ∀ d ∈ db'.dogProfiles, ∀ i, d.profileImageId = some i →
      (∃ e ∈ db.dogProfiles, e.profileImageId = some i) ∨ i ∈ as)
    (hp : ∀ p ∈ db'.postImages, (∃ q ∈ db.postImages, q.imageId = p.imageId) ∨ p.imageId ∈ as) :
    Attaches db db' as := by
  apply Attaches.mk himg
  intro i hi
  rw [Db.references_iff]
  rcases Db.references_iff.mp hi with ⟨u, hm, he⟩ | ⟨d, hm, he⟩ | ⟨p, hm, rfl⟩
  · exact (hu u hm i he).imp_left .inl
  · exact (hd d hm i he).imp_left fun h => .inr (.inl h)
  · exact (hp p hm).imp_left fun h => .inr (.inr h)

theorem Attaches.of_postImages (himg : db'.images = db.images) (hu : db'.users = db.users)
    (hd : db'.dogProfiles = db.dogProfiles)
    (hp : ∀ p ∈ db'.postImages, (∃ q ∈ db.postImages, q.imageId = p.imageId) ∨ p.imageId ∈ as) :
    Attaches db db' as := by
  apply Attaches.of_tables himg _ _ hp
  · intro u hm i he
    exact .inl ⟨u, hu ▸ hm, he⟩
  · intro d hm i he
    exact .inl ⟨d, hd ▸ hm, he⟩

theorem Attaches.trans (h : Attaches db db' as) (h' : Attaches db' db'' bs) :
    Attaches db db'' (as ++ bs) := by
  apply Attaches.mk (h'.images.trans h.images)
  intro i hi
  rw [List.mem_append]
  rcases h'.refs i hi with hi | hi
  · exact (h.refs i hi).imp_right .inl
  · exact .inr (.inr hi)

theorem Attaches.mono (h : Attaches db db' as) (hs : as ⊆ bs) : Attaches db db' bs :=
  ⟨h.images, fun i hi => (h.refs i hi).imp_right fun hm => hs hm⟩

theorem Owned.attach (h : Owned db) (ha : Attaches db db' as)
    (has : ∀ i ∈ as, ∃ img ∈ db.images, img.id = i ∧ img.deletedAt = none ∧ img.uploaderId ≠ none) :
    Owned db' := by
  apply Owned.mk
  · rw [ha.images]
    exact h.ids
  · rw [ha.images]
    exact h.fileKeys
  · intro i hi
    rw [ha.images]
    rcases ha.refs i hi with hi | hi
    · exact h.refs i hi
    · exact has i hi

theorem Owned.detach (h : Owned db) (ha : Attaches db db' []) : Owned db' :=
  h.attach ha fun _ hi => by cases hi

def AllOwned (db : Db) (ids : List Uuid) : Prop :=
  ∀ img ∈ db.images, img.id ∈ ids → img.uploaderId ≠ none

theorem assertImagesAttachable_ok (h : MediaRepository.assertImagesAttachable db ids = .ok ()) :
    ∀ i ∈ ids, ∃ img ∈ db.images, img.id = i ∧ img.deletedAt = none := by
  simp only [MediaRepository.assertImagesAttachable] at h
  split at h
  · rename_i hall
    intro i hi
    have := List.all_eq_true.mp hall i hi
    simpa [MediaRepository.attachable] using this
  · cases h

theorem Owned.attach_guarded (h : Owned db) (ha : Attaches db db' as)
    (hok : MediaRepository.assertImagesAttachable db as = .ok ()) (ho : AllOwned db as) :
    Owned db' := by
  apply h.attach ha
  intro i hi
  obtain ⟨img, himg, hid, hlive⟩ := assertImagesAttachable_ok hok i hi
  exact ⟨img, himg, hid, hlive, ho img himg (hid ▸ hi)⟩

theorem insertPostImages_attaches
    (h : PostsRepository.insertPostImages db postId ids rowIds now = .ok db') :
    Attaches db db' ids := by
  simp only [PostsRepository.insertPostImages] at h
  split at h
  · cases h
    apply Attaches.of_postImages (by rfl) (by rfl) (by rfl)
    intro p hp
    rcases List.mem_append.mp hp with hp | hp
    · exact .inl ⟨p, hp, rfl⟩
    · right
      obtain ⟨x, hx, rfl⟩ := List.mem_map.mp hp
      exact List.fst_mem_of_mem_zipIdx hx
  · cases h

theorem updatePostFields_attaches
    (h : PostsRepository.updatePostFields db postId data rowIds now = .ok (true, db')) :
    Attaches db db' (data.imageIds.getD []) := by
  simp only [PostsRepository.updatePostFields] at h
  split at h
  · cases h
  · split at h
    · cases h
    · split at h
      · cases h
      · split at h
        · cases h
          rename_i hnone
          rw [hnone]
          exact ⟨rfl, fun _ hi => .inl hi⟩
        · rename_i imageIds hsome
          rw [hsome, Option.getD_some]
          split at h
          · cases h
          · rename_i db₂ hins
            cases h
            have hadd := insertPostImages_attaches hins
            apply Attaches.mono (Attaches.trans (?_ : Attaches db _ []) hadd)
            · intro i hi
              exact List.mem_dedup.mp (List.mem_filter.mp hi).1
            · apply Attaches.of_postImages (by rfl) (by rfl) (by rfl)
              intro p hp
              exact .inl ⟨p, (List.mem_filter.mp hp).1, rfl⟩

theorem Owned.begin (h : Owned db) {block : Db → Except ApiException (α × Db)}
    (hb : ∀ a db', block db = .ok (a, db') → db.begin block = (.ok a, db') → Owned db') :
    Owned (db.begin block).2 := by
  cases hr : block db with
  | error e =>
    rw [Db.begin_error hr]
    exact h
  | ok r =>
    obtain ⟨a, db'⟩ := r
    rw [Db.begin_ok hr]
    exact hb a db' hr (Db.begin_ok hr)

theorem Owned.createPost (h : Owned db) (postId userId : Uuid) (title content : String)
    (imageIds : Option (List Uuid)) (categoryId : Option Nat) (rowIds : Nat → Uuid) (now : Timestamp)
    (ho : (∃ r, (PostService.createPost db postId userId title content imageIds categoryId rowIds
      now).1 = .ok r) → AllOwned db (imageIds.getD [])) :
    Owned (PostService.createPost db postId userId title content imageIds categoryId rowIds
      now).2 := by
  apply h.begin
  intro a db' hb hrun
  have hown := ho ⟨a, congrArg Prod.fst hrun⟩
  split at hb
  · cases hb
  · rename_i hok
    split at hb
    · cases hb
    · rename_i db₁ hcreate
      cases hb
      apply h.attach_guarded _ hok hown
      simp only [PostsRepository.createPost] at hcreate
      split at hcreate
      · cases hcreate
      · have hins := insertPostImages_attaches hcreate
        exact ⟨hins.images, hins.refs⟩

theorem softDelete_attaches (h : PostsRepository.softDelete db postId now = (true, db')) :
    Attaches db db' [] := by
  simp only [PostsRepository.softDelete, PostsRepository.updatePost, Db.updatePosts,
    updateReturning] at h
  split at h
  · cases h
  · rename_i hupd
    obtain ⟨-, rfl⟩ := Prod.mk.inj hupd
    cases h
    apply Attaches.of_postImages (by rfl) (by rfl) (by rfl)
    intro p hp
    exact .inl ⟨p, (List.mem_filter.mp hp).1, rfl⟩

theorem Owned.deletePost (h : Owned db) (postId : Uuid) (now : Timestamp) :
    Owned (PostService.deletePost db postId now).2 := by
  apply h.begin
  intro a db' hb _
  split at hb
  · cases hb
  · rename_i hdel
    cases hb
    have ha := softDelete_attaches hdel
    exact h.detach ⟨ha.images, ha.refs⟩

theorem Owned.updatePost (h : Owned db) (postId : Uuid) (data : PostsRepository.PostUpdateRequest)
    (rowIds : Nat → Uuid) (now : Timestamp)
    (ho : (∃ r, (PostService.updatePost db postId data rowIds now).1 = .ok r) →
      AllOwned db (data.imageIds.getD [])) :
    Owned (PostService.updatePost db postId data rowIds now).2 := by
  apply h.begin
  intro a db' hb hrun
  have hown := ho ⟨a, congrArg Prod.fst hrun⟩
  split at hb
  · cases hb
  · rename_i hok
    split at hb
    · cases hb
    · cases hb
    · rename_i db₁ hupdate
      cases hb
      apply h.attach_guarded _ hok hown
      exact updatePostFields_attaches hupdate

def DogRefs (base dogs : List DogProfile) (as : List Uuid) : Prop :=
  ∀ d ∈ dogs, ∀ i, d.profileImageId = some i →
    (∃ e ∈ base, e.profileImageId = some i) ∨ i ∈ as

theorem DogRefs.self (dogs : List DogProfile) (as : List Uuid) : DogRefs dogs dogs as :=
  fun d hd _ he => .inl ⟨d, hd, he⟩

theorem DogRefs.subset (h : DogRefs base dogs as) (hs : dogs' ⊆ dogs) : DogRefs base dogs' as :=
  fun d hd => h d (hs hd)

theorem DogRefs.update (h : DogRefs base dogs as) (p : DogProfile → Bool)
    (hf : ∀ d i, (f d).profileImageId = some i → d.profileImageId = some i ∨ i ∈ as) :
    DogRefs base (Table.update p f dogs) as := by
  intro d' hd' i he
  obtain ⟨d, hd, rfl⟩ := mem_update.mp hd'
  split at he
  · rcases hf d i he with he | hi
    · exact h d hd i he
    · exact .inr hi
  · exact h d hd i he

theorem updateRow_profileImageId (h : (DogService.updateRow now item d).profileImageId = some i) :
    d.profileImageId = some i ∨ item.profileImageId = some (some i) := by
  simp only [DogService.updateRow] at h
  cases hi : item.profileImageId with
  | none => exact .inl (by rwa [hi] at h)
  | some j =>
    rw [hi, Option.getD_some] at h
    exact .inr (congrArg some h)

theorem DogRefs.bulkUpdateByOwner (h : DogRefs base dogs as) (ownerId : Uuid) (now : Timestamp)
    (hitems : ∀ item ∈ items, ∀ i, item.profileImageId = some (some i) → i ∈ as) :
    DogRefs base (DogService.bulkUpdateByOwner dogs ownerId items now) as := by
  simp only [DogService.bulkUpdateByOwner]
  induction items generalizing dogs with
  | nil => exact h
  | cons item items ih =>
    have hitem := hitems item List.mem_cons_self
    have hrest (item') (hm : item' ∈ items) := hitems item' (List.mem_cons_of_mem _ hm)
    rw [List.foldl_cons]
    cases item.id with
    | none => exact ih h hrest
    | some dogId =>
      apply ih _ hrest
      apply h.update
      intro d i he
      exact (updateRow_profileImageId he).imp_right (hitem i)

theorem DogRefs.createMany (base : List DogProfile) (ownerId : Uuid)
    (items : List DogService.DogProfileUpsertItem) (newIds : Nat → Uuid) (now : Timestamp) :
    DogRefs base (DogService.createMany ownerId items newIds now)
      (DogService.attachedImageIds items) := by
  intro d hd i he
  right
  obtain ⟨x, hx, rfl⟩ := List.mem_map.mp hd
  rw [DogService.attachedImageIds, List.mem_filterMap]
  exact ⟨x.1, List.mem_of_mem_filter (List.fst_mem_of_mem_zipIdx hx), he⟩

theorem DogRefs.setRepresentative (h : DogRefs base dogs as) (ownerId dogId : Uuid)
    (now : Timestamp) : DogRefs base (DogService.setRepresentative dogs ownerId dogId now) as := by
  apply DogRefs.update
  · apply h.update
    exact fun d i he => .inl he
  · exact fun d i he => .inl he

theorem attachedImageIds_mem (hm : item ∈ items) (hi : item.profileImageId = some (some i)) :
    i ∈ DogService.attachedImageIds items := by
  rw [DogService.attachedImageIds, List.mem_filterMap]
  exact ⟨item, hm, by rw [hi]; rfl⟩

theorem upsertDogProfile_attaches
    (h : DogService.upsertDogProfile db ownerId items newIds now = .ok db') :
    Attaches db db' (DogService.attachedImageIds items) ∧
      MediaRepository.assertImagesAttachable db (DogService.attachedImageIds items) = .ok () := by
  simp only [DogService.upsertDogProfile] at h
  split at h
  · split at h
    · cases h
    · rename_i hok
      have hrefs : DogRefs db.dogProfiles (DogService.bulkUpdateByOwner db.dogProfiles ownerId items
          now ++ DogService.createMany ownerId items newIds now)
          (DogService.attachedImageIds items) := by
        intro d hd
        rcases List.mem_append.mp hd with hd | hd
        · exact (DogRefs.self _ _).bulkUpdateByOwner ownerId now
            (fun item hm i hi => attachedImageIds_mem hm hi) d hd
        · exact DogRefs.createMany _ ownerId items newIds now d hd
      have hof (dogs : List DogProfile) (hd : DogRefs db.dogProfiles dogs
          (DogService.attachedImageIds items)) :
          Attaches db { db with dogProfiles := dogs } (DogService.attachedImageIds items) :=
        .of_tables rfl (fun u hu i he => .inl ⟨u, hu, he⟩) hd fun p hp => .inl ⟨p, hp, rfl⟩
      split at h
      · cases h
        exact ⟨hof _ (hrefs.subset fun d hd => (List.mem_filter.mp hd).1), hok⟩
      · cases h
        apply And.intro (hof _ _) hok
        apply DogRefs.setRepresentative
        exact hrefs.subset fun d hd => (List.mem_filter.mp hd).1
  · cases h

theorem updateUsers_attaches (db : Db) (p : User → Bool) (f : User → User) (as : List Uuid)
    (hf : ∀ u i, (f u).profileImageId = some i → u.profileImageId = some i ∨ i ∈ as) :
    Attaches db (UsersRepository.updateUsers db p f).2 as := by
  apply Attaches.of_tables (by rfl)
  · intro u' hu' i he
    obtain ⟨u, hu, rfl⟩ := mem_update.mp hu'
    split at he
    · exact (hf u i he).imp_left fun he => ⟨u, hu, he⟩
    · exact .inl ⟨u, hu, he⟩
  · exact fun d hd i he => .inl ⟨d, hd, he⟩
  · exact fun p hp => .inl ⟨p, hp, rfl⟩

theorem AllOwned.left (h : AllOwned db (as ++ bs)) : AllOwned db as :=
  fun img hm hi => h img hm (List.mem_append_left _ hi)

theorem AllOwned.right (h : AllOwned db (as ++ bs)) : AllOwned db bs :=
  fun img hm hi => h img hm (List.mem_append_right _ hi)

theorem updates_profileImageId {data : UserService.UpdateUserRequest}
    (h : (data.updates now u).profileImageId = some i) :
    u.profileImageId = some i ∨ i ∈ data.imageChange.join.toList := by
  simp only [UserService.UpdateUserRequest.updates] at h
  cases hc : data.imageChange with
  | none => exact .inl (by simpa only [hc, Option.getD_none] using h)
  | some j =>
    rw [hc, Option.getD_some] at h
    rw [h]
    exact .inr (List.mem_singleton_self i)

theorem Owned.updateUserProfile (h : Owned db) (userId : Uuid) (data : UserService.UpdateUserRequest)
    (newDogIds : Nat → Uuid) (now : Timestamp)
    (ho : (∃ r, (UserService.updateUserProfile db userId data newDogIds now).1 = .ok r) →
      AllOwned db data.attached) :
    Owned (UserService.updateUserProfile db userId data newDogIds now).2 := by
  apply h.begin
  intro a db' hb hrun
  have hown := ho ⟨a, congrArg Prod.fst hrun⟩
  split at hb
  · cases hb
  split at hb
  · cases hb
  split at hb
  · cases hb
  rename_i hok
  split at hb
  · cases hb
  have hset := updateUsers_attaches db (fun u => u.id == userId && u.deletedAt.isNone)
    (data.updates now) data.imageChange.join.toList fun u i => updates_profileImageId
  have h₁ := h.attach_guarded hset hok hown.left
  split at hb
  · cases hb
    exact h₁
  · rename_i items hdogs
    simp only at hb
    split at hb
    · cases hb
    · rename_i db₂ hup
      cases hb
      obtain ⟨hatt, hok₂⟩ := upsertDogProfile_attaches hup
      apply h₁.attach_guarded hatt hok₂
      have hright := hown.right
      rw [hdogs] at hright
      exact hright

theorem Owned.deleteUser (h : Owned db) (userId : Uuid) (now : Timestamp) :
    Owned (UserService.deleteUser db userId now).2 := by
  apply h.begin
  intro a db' hb _
  split at hb
  · cases hb
  split at hb
  · cases hb
  · rename_i hdel
    cases hb
    simp only [UsersRepository.deleteUser] at hdel
    split at hdel
    · cases hdel
    · apply h.detach
      obtain rfl : _ = db' := congrArg Prod.snd hdel
      apply updateUsers_attaches
      intro u i he
      cases he

theorem Owned.updateImages (h : Owned db) {p : Image → Bool} {f : Image → Image}
    (himg : db'.images = Table.update p f db.images)
    (hf : ∀ i, (f i).id = i.id ∧ (f i).fileKey = i.fileKey)
    (hrefs : ∀ i, db'.references i = true → ∃ img ∈ db.images, img.id = i ∧
      (if p img then f img else img).deletedAt = none ∧
      (if p img then f img else img).uploaderId ≠ none) : Owned db' := by
  apply Owned.mk
  · rw [himg]
    exact h.ids.update fun i => (hf i).1
  · rw [himg]
    exact h.fileKeys.update fun i => (hf i).2
  · intro i hi
    obtain ⟨img, hm, hid, hlive, hown⟩ := hrefs i hi
    rw [himg]
    exact ⟨_, mem_update.mpr ⟨img, hm, rfl⟩, (key_update (fun i => (hf i).1) img).trans hid,
      hlive, hown⟩

theorem softDelete_references (h : (MediaRepository.softDeleteImageIfOwned db imageId userId now) =
      (true, db')) (hi : db'.references i = true) : db.references i = true ∧ i ≠ imageId := by
  simp only [MediaRepository.softDeleteImageIfOwned, updateReturning] at h
  split at h
  · cases h
  · cases h
    have hcut (o : Option Uuid) (b : Bool) (hb : b = (o == some imageId))
        (he : (if b then none else o) = some i) : o = some i ∧ i ≠ imageId := by
      cases b with
      | true => cases he
      | false =>
        simp only [Bool.false_eq_true, if_false] at he
        subst o
        exact ⟨rfl, by simpa using hb.symm⟩
    rcases Db.references_iff.mp hi with ⟨u', hu', he⟩ | ⟨d', hd', he⟩ | ⟨q, hq, rfl⟩
    · obtain ⟨u, hu, rfl⟩ := mem_update.mp hu'
      rw [apply_ite User.profileImageId] at he
      obtain ⟨he, hne⟩ := hcut _ _ rfl he
      exact ⟨Db.references_iff.mpr (.inl ⟨u, hu, he⟩), hne⟩
    · obtain ⟨d, hd, rfl⟩ := mem_update.mp hd'
      rw [apply_ite DogProfile.profileImageId] at he
      obtain ⟨he, hne⟩ := hcut _ _ rfl he
      exact ⟨Db.references_iff.mpr (.inr (.inl ⟨d, hd, he⟩)), hne⟩
    · obtain ⟨hq, hne⟩ := List.mem_filter.mp hq
      exact ⟨Db.references_iff.mpr (.inr (.inr ⟨q, hq, rfl⟩)), by simpa using hne⟩

theorem Owned.deleteImage (h : Owned db) (imageId userId : Uuid) (now : Timestamp) :
    Owned (deleteImage db imageId userId now).2 := by
  apply h.begin
  intro a db' hb _
  split at hb
  · cases hb
  · rename_i hdel
    cases hb
    have himg : db'.images = Table.update
        (fun i => i.id == imageId && i.uploaderId == some userId && i.deletedAt.isNone)
        (fun i => { i with deletedAt := some now }) db.images := by
      simp only [MediaRepository.softDeleteImageIfOwned, updateReturning] at hdel
      split at hdel <;> cases hdel
      rfl
    apply h.updateImages himg fun _ => ⟨rfl, rfl⟩
    intro i hi
    obtain ⟨hi, hne⟩ := softDelete_references hdel hi
    obtain ⟨img, hm, hid, hlive, hown⟩ := h.refs i hi
    have hp : ¬ (img.id == imageId && img.uploaderId == some userId && img.deletedAt.isNone) =
        true := by
      simp [hid, hne]
    exact ⟨img, hm, hid, by rw [if_neg hp]; exact hlive, by rw [if_neg hp]; exact hown⟩

def SurvivingRef (db : Db) (userIds : List Uuid) (i : Uuid) : Prop :=
  (∃ u ∈ db.users, u.id ∉ userIds ∧ u.profileImageId = some i) ∨
  (∃ d ∈ db.dogProfiles, d.ownerId ∉ userIds ∧ d.profileImageId = some i) ∨
  ∃ p ∈ db.postImages, p.imageId = i

theorem purge_references (db : Db) (userIds : List Uuid) (i : Uuid) :
    (UsersRepository.purgeUsersByIds (UserService.decrementLikeCounts db userIds) userIds).references
      i = true ↔ SurvivingRef db userIds i := by
  rw [Db.references_iff]
  simp only [UsersRepository.purgeUsersByIds, UserService.decrementLikeCounts, delete,
    List.mem_filter, SurvivingRef, Bool.not_eq_true', List.contains_eq_mem, decide_eq_false_iff_not,
    and_assoc]

theorem SurvivingRef.references (h : SurvivingRef db userIds i) : db.references i = true := by
  rw [Db.references_iff]
  rcases h with ⟨u, hu, -, he⟩ | ⟨d, hd, -, he⟩ | hp
  · exact .inl ⟨u, hu, he⟩
  · exact .inr (.inl ⟨d, hd, he⟩)
  · exact .inr (.inr hp)

def PurgeKeepsOwners (db : Db) (userIds : List Uuid) : Prop :=
  ∀ img ∈ db.images, ∀ u ∈ userIds, img.uploaderId = some u → ¬ SurvivingRef db userIds img.id

theorem purgeChunk_some (h : UserService.purgeChunk db older targetIds now = some db') :
    db' = UsersRepository.purgeUsersByIds (UserService.decrementLikeCounts db targetIds) targetIds := by
  simp only [UserService.purgeChunk] at h
  split at h
  · exact (Option.some.inj h).symm
  · cases h

theorem Owned.purge (h : Owned db) (hk : PurgeKeepsOwners db targetIds)
    (hs : UserService.purgeChunk db older targetIds now = some db') : Owned db' := by
  cases purgeChunk_some hs
  apply h.updateImages (p := fun _ => true) (f := fun i => { i with
    uploaderId := i.uploaderId.filter fun u => !targetIds.contains u }) (by rfl) fun _ => ⟨rfl, rfl⟩
  intro i hi
  have hsurv := (purge_references db targetIds i).mp hi
  obtain ⟨img, hm, hid, hlive, hown⟩ := h.refs i hsurv.references
  subst hid
  obtain ⟨u, hu⟩ := Option.ne_none_iff_exists'.mp hown
  have hnot : u ∉ targetIds := fun hmem => hk img hm u hmem hu hsurv
  exact ⟨img, hm, rfl, hlive, by simp [hu, hnot]⟩

theorem createUser_ok
    (h : UsersRepository.createUser lower db userId email hashed nickname image now = .ok db') :
    db'.images = db.images ∧ ∀ i, db'.references i = true → db.references i = true ∨ image = some i := by
  simp only [UsersRepository.createUser] at h
  split at h
  · cases h
  split at h
  · cases h
  split at h
  · cases h
    apply And.intro rfl
    intro i hi
    rw [Db.references_iff]
    rcases Db.references_iff.mp hi with ⟨u, hu, he⟩ | hd | hp
    · rcases List.mem_append.mp hu with hu | hu
      · exact .inl (.inl ⟨u, hu, he⟩)
      · cases List.mem_singleton.mp hu
        exact .inr he
    · exact .inl (.inr (.inl hd))
    · exact .inl (.inr (.inr hp))
  · cases h

/-- The row that `claim_image_ownership` takes over. -/
def claimable (imageId : Uuid) (i : Image) : Bool :=
  i.id == imageId && i.uploaderId.isNone && i.deletedAt.isNone

theorem claimImageOwnership_true
    (h : MediaRepository.claimImageOwnership db imageId userId = (true, db')) :
    (∃ img ∈ db.images, claimable imageId img = true) ∧
    db'.images = Table.update (claimable imageId) (fun i => { i with uploaderId := some userId })
      db.images ∧ ∀ i, db'.references i = db.references i := by
  simp only [MediaRepository.claimImageOwnership, updateReturning] at h
  obtain ⟨hsome, rfl⟩ := Prod.mk.inj h
  rw [Option.isSome_map] at hsome
  obtain ⟨img, hfind⟩ := Option.isSome_iff_exists.mp hsome
  exact ⟨⟨img, List.mem_of_find?_eq_some hfind, List.find?_some hfind⟩, rfl, fun _ => rfl⟩

theorem Owned.signupBlock (h : Owned db)
    (hb : signupBlock c db userId data image now = .ok (a, db')) : Owned db' := by
  simp only [ImageLifecycle.signupBlock] at hb
  split at hb
  · cases hb
  rename_i db₁ hcreate
  obtain ⟨himg, hrefs⟩ := createUser_ok hcreate
  split at hb
  · cases hb
    apply h.detach ⟨himg, _⟩
    intro i hi
    exact (hrefs i hi).imp_right fun he => by cases he
  split at hb
  · cases hb
  · rename_i imageId _ db₂ hclaim
    cases hb
    obtain ⟨⟨img₀, hm₀, hp₀⟩, himg₂, hrefs₂⟩ := claimImageOwnership_true hclaim
    rw [himg] at hm₀ himg₂
    apply h.updateImages himg₂ fun _ => ⟨rfl, rfl⟩
    intro i hi
    rw [hrefs₂] at hi
    rcases hrefs i hi with hi | hi
    · obtain ⟨img, hm, hid, hlive, hown⟩ := h.refs i hi
      apply Exists.intro img
      split
      · exact ⟨hm, hid, hlive, Option.some_ne_none _⟩
      · exact ⟨hm, hid, hlive, hown⟩
    · cases hi
      apply Exists.intro img₀
      rw [if_pos hp₀]
      simp only [claimable, Bool.and_eq_true, beq_iff_eq, Option.isNone_iff_eq_none] at hp₀
      exact ⟨hm₀, hp₀.1.1, hp₀.2, Option.some_ne_none _⟩

theorem Owned.signup (h : Owned s.db) (c : Settings) (userId : Uuid) (data : SignUpRequest) :
    Owned (signup c s userId data).2.db := by
  simp only [ImageLifecycle.signup]
  split
  · exact h
  split
  · exact h
  split
  · exact h
  split
  · exact h.begin fun _ _ hb _ => h.signupBlock hb
  split
  · exact h
  split
  · exact h
  · exact h.begin fun _ _ hb _ => h.signupBlock hb

theorem Owned.append (h : Owned db) (hid : ∀ i ∈ db.images, i.id ≠ n.id)
    (hkey : ∀ i ∈ db.images, i.fileKey ≠ n.fileKey) (himg : db'.images = db.images ++ [n])
    (hrefs : ∀ i, db'.references i = db.references i) : Owned db' := by
  apply Owned.mk
  · rw [himg]
    exact h.ids.append hid
  · rw [himg]
    exact h.fileKeys.append hkey
  · intro i hi
    rw [hrefs] at hi
    rw [himg]
    obtain ⟨img, hm, hrest⟩ := h.refs i hi
    exact ⟨img, List.mem_append_left _ hm, hrest⟩

theorem Owned.confirm (h : Owned db) (imageId : Uuid) (size : Option Nat)
    (contentType : Option String) :
    Owned (MediaRepository.confirmReservedImage db imageId size contentType).2 := by
  have himg : (MediaRepository.confirmReservedImage db imageId size contentType).2.images =
      Table.update (fun i => i.id == imageId && i.deletedAt.isSome)
        (fun i => { i with deletedAt := none, size := size, contentType := contentType })
        db.images := rfl
  apply h.updateImages himg fun _ => ⟨rfl, rfl⟩
  intro i hi
  obtain ⟨img, hm, hid, hlive, hown⟩ := h.refs i hi
  apply Exists.intro img
  split
  · exact ⟨hm, hid, rfl, hown⟩
  · exact ⟨hm, hid, hlive, hown⟩

theorem Owned.upload (h : Owned s.db) (hs : upload s u reached = some s') : Owned s'.db := by
  simp only [ImageLifecycle.upload] at hs
  split at hs
  · cases hs
  rename_i hguard
  simp only [Bool.or_eq_true, List.any_eq_true, beq_iff_eq, not_or, not_exists, not_and] at hguard
  have hres : Owned (MediaRepository.createReservedImage s.db u.imageId u.destKey u.fileUrl
      (some u.contentType) (some u.size) u.uploaderId s.now) := by
    apply h.append _ _ (by rfl) fun _ => by rfl
    · exact fun i hi => (hguard.1.1 i hi).1
    · exact fun i hi => (hguard.1.1 i hi).2
  cases reached with
  | reserved =>
    cases hs
    exact hres
  | promoted =>
    cases hs
    exact hres
  | confirmed =>
    cases hs
    exact hres.confirm u.imageId (some u.size) (some u.contentType)

theorem deleteImagesByIds_references (h : (MediaRepository.deleteImagesByIds db ids).references i =
    true) : db.references i = true ∧ i ∉ ids := by
  have hkeep (o : Option Uuid) (he : (o.filter fun i => !ids.contains i) = some i) :
      o = some i ∧ i ∉ ids := by
    simpa [Option.filter_eq_some_iff] using he
  rw [Db.references_iff]
  rcases Db.references_iff.mp h with ⟨u', hu', he⟩ | ⟨d', hd', he⟩ | ⟨p, hp, rfl⟩
  · obtain ⟨u, hu, rfl⟩ := List.mem_map.mp hu'
    obtain ⟨he, hn⟩ := hkeep _ he
    exact ⟨.inl ⟨u, hu, he⟩, hn⟩
  · obtain ⟨d, hd, rfl⟩ := List.mem_map.mp hd'
    obtain ⟨he, hn⟩ := hkeep _ he
    exact ⟨.inr (.inl ⟨d, hd, he⟩), hn⟩
  · obtain ⟨hp, hn⟩ := List.mem_filter.mp hp
    exact ⟨.inr (.inr ⟨p, hp, rfl⟩), by simpa using hn⟩

theorem Owned.deleteImagesByIds (h : Owned db) (gone : List Uuid) :
    Owned (MediaRepository.deleteImagesByIds db gone) := by
  have hsub : List.Sublist (MediaRepository.deleteImagesByIds db gone).images db.images :=
    List.filter_sublist
  apply Owned.mk
  · exact List.Nodup.sublist (hsub.map _) h.ids
  · exact List.Nodup.sublist (hsub.map _) h.fileKeys
  · intro i hi
    obtain ⟨hi, hn⟩ := deleteImagesByIds_references hi
    obtain ⟨img, hm, hid, hrest⟩ := h.refs i hi
    exact ⟨img, List.mem_filter.mpr ⟨hm, by simp [hid, hn]⟩, hid, hrest⟩

theorem cleanupPage_mem (h : img ∈ MediaRepository.cleanupPage rows afterId limit) : img ∈ rows := by
  have hs := List.mem_of_mem_take h
  rw [List.mem_insertionSort] at hs
  exact (List.mem_filter.mp hs).1

theorem Owned.fetch_unreferenced (h : Owned s.db) (c : Settings) (kind : CleanupKind)
    (afterId : Option Uuid) (hm : img ∈ fetch c s kind afterId) :
    img ∈ s.db.images ∧ s.db.references img.id = false := by
  cases kind with
  | expiredSignup =>
    obtain ⟨hmem, hp⟩ := List.mem_filter.mp (cleanupPage_mem hm)
    apply And.intro hmem
    cases hr : s.db.references img.id with
    | false => rfl
    | true =>
      obtain ⟨img', hm', hid, -, hown⟩ := h.refs img.id hr
      rw [h.ids.eq hm' hmem hid] at hown
      simp only [MediaRepository.expiredSignup, Bool.and_eq_true, Option.isNone_iff_eq_none] at hp
      exact absurd hp.1.1 hown
  | abandoned =>
    obtain ⟨hmem, hp⟩ := List.mem_filter.mp (cleanupPage_mem hm)
    simp only [MediaRepository.abandoned, MediaRepository.unreferenced, Bool.and_eq_true,
      Bool.not_eq_true'] at hp
    exact ⟨hmem, hp.2⟩
  | reclaimable =>
    obtain ⟨hmem, hp⟩ := List.mem_filter.mp (cleanupPage_mem hm)
    simp only [MediaRepository.reclaimable, MediaRepository.unreferenced, Bool.and_eq_true,
      Bool.not_eq_true'] at hp
    exact ⟨hmem, hp.2⟩

def DestroysInUse (c : Settings) (s : State) : Label → Prop
  | .cleanupBatch kind storage => ∃ s', step c s (.cleanupBatch kind storage) = some s' ∧
      ∃ img ∈ s.db.images, s.db.references img.id = true ∧
        ((∀ img' ∈ s'.db.images, img'.id ≠ img.id) ∨
          (img.fileKey ∈ s.objects ∧ img.fileKey ∉ s'.objects))
  | _ => False

theorem Owned.not_destroysInUse (h : Owned s.db) (c : Settings) (a : Label) :
    ¬ DestroysInUse c s a := by
  cases a with
  | cleanupBatch kind storage =>
    rintro ⟨s', hs, img, hm, href, hgone⟩
    simp only [step, ImageLifecycle.cleanupBatch] at hs
    split at hs
    · cases hs
    rename_i lastId hpass
    cases hs
    have hspared (img' : Image) (hm' : img' ∈ fetch c s kind lastId) : img' ≠ img := by
      rintro rfl
      rw [(h.fetch_unreferenced c kind lastId hm').2] at href
      cases href
    rcases hgone with hrow | ⟨hobj, hnot⟩
    · apply hrow img _ rfl
      apply List.mem_filter.mpr
      apply And.intro hm
      simp only [List.contains_eq_mem, List.mem_map, List.mem_filter, Bool.not_eq_true',
        decide_eq_false_iff_not, not_exists, not_and, and_imp]
      intro img' hm' _ hid
      exact hspared img' hm' (h.ids.eq (h.fetch_unreferenced c kind lastId hm').1 hm hid)
    · apply hnot
      apply List.mem_filter.mpr
      apply And.intro hobj
      simp only [List.contains_eq_mem, List.mem_map, List.mem_filter, Bool.not_eq_true',
        decide_eq_false_iff_not, not_exists, not_and, and_imp]
      intro img' hm' _ hkey
      exact hspared img' hm' (h.fileKeys.eq (h.fetch_unreferenced c kind lastId hm').1 hm hkey)
  | _ => exact id

/-- An image keeps its uploader while it is in use: an accepted request attaches no image without
one, and no purge takes it from an image that stays referenced. -/
def KeepsOwners (c : Settings) (s : State) : Label → Prop
  | .createPost postId userId title content imageIds categoryId rowIds =>
    (∃ r, (PostService.createPost s.db postId userId title content imageIds categoryId rowIds
      s.now).1 = .ok r) → AllOwned s.db (imageIds.getD [])
  | .updatePost postId data rowIds =>
    (∃ r, (PostService.updatePost s.db postId data rowIds s.now).1 = .ok r) →
      AllOwned s.db (data.imageIds.getD [])
  | .updateUserProfile userId data newDogIds =>
    (∃ r, (UserService.updateUserProfile s.db userId data newDogIds s.now).1 = .ok r) →
      AllOwned s.db data.attached
  | .purge targetIds =>
    (UserService.purgeChunk s.db c.purgeOlderThanDays targetIds s.now).isSome →
      PurgeKeepsOwners s.db targetIds
  | _ => True

theorem Owned.step (h : Owned s.db) (hk : KeepsOwners c s a)
    (hs : ImageLifecycle.step c s a = some s') : Owned s'.db := by
  cases a with
  | tick d => cases hs; exact h
  | upload u reached => exact h.upload hs
  | tokenExpired token => cases hs; exact h
  | signup userId data =>
    simp only [ImageLifecycle.step] at hs
    split at hs
    · cases hs
    · cases hs
      exact h.signup c userId data
  | createPost postId userId title content imageIds categoryId rowIds =>
    cases hs
    exact h.createPost postId userId title content imageIds categoryId rowIds s.now hk
  | updatePost postId data rowIds =>
    cases hs
    exact h.updatePost postId data rowIds s.now hk
  | deletePost postId =>
    cases hs
    exact h.deletePost postId s.now
  | updateUserProfile userId data newDogIds =>
    cases hs
    exact h.updateUserProfile userId data newDogIds s.now hk
  | deleteImage imageId userId =>
    cases hs
    exact h.deleteImage imageId userId s.now
  | deleteUser userId =>
    cases hs
    exact h.deleteUser userId s.now
  | purge targetIds =>
    obtain ⟨db', hdb, rfl⟩ := Option.map_eq_some_iff.mp hs
    exact h.purge (hk (by rw [hdb]; rfl)) hdb
  | startPass kind =>
    simp only [ImageLifecycle.step] at hs
    split at hs
    · cases hs; exact h
    · cases hs
  | abortPass kind => cases hs; exact h
  | cleanupBatch kind storage =>
    simp only [ImageLifecycle.step, ImageLifecycle.cleanupBatch] at hs
    split at hs
    · cases hs
    · cases hs
      exact h.deleteImagesByIds _

theorem owned_init : Owned State.init.db :=
  ⟨keyed_nil _, keyed_nil _, fun _ hi => by cases hi⟩

/-- In every run in which images in use keep their uploader no cleanup batch deletes the row or the
object of an image in use. -/
theorem cleanup_spares_images_in_use (c : Settings)
    (h : Along (step c) (KeepsOwners c) State.init as) :
    Along (step c) (fun s a => ¬ DestroysInUse c s a) State.init as := by
  apply Along.of_invariant (I := fun s => Owned s.db) _ _ owned_init h
  · intro s a s' hown hk hs
    exact hown.step hk hs
  · intro s a hown _
    exact hown.not_destroysInUse c a

def sampleSignUp : SignUpRequest where
  email := "a@b.kr"
  hashedPassword := "hash"
  nickname := "보리"
  profileImageId := none
  signupToken := none

def sampleUpload : Upload where
  imageId := 7
  destKey := "post/7.jpg"
  fileUrl := "/media/post/7.jpg"
  contentType := "image/jpeg"
  size := 10
  uploaderId := some 1
  signupToken := none

def postWithImage : List Label :=
  [.signup 1 sampleSignUp, .upload sampleUpload .confirmed,
   .createPost 3 1 "산책" "오늘 산책" (some [7]) none fun n => n]

def cleanupAfterMonth : List Label :=
  [.tick 2678400000000,
   .startPass .expiredSignup, .cleanupBatch .expiredSignup fun _ => .deleted,
   .startPass .abandoned, .cleanupBatch .abandoned fun _ => .deleted,
   .startPass .reclaimable, .cleanupBatch .reclaimable fun _ => .deleted]

theorem cleanup_spares_images_in_use_postWithImage :
    (exec (step (.default id)) State.init (postWithImage ++ cleanupAfterMonth)).isSome ∧
    Along (step (.default id)) (KeepsOwners (.default id)) State.init
      (postWithImage ++ cleanupAfterMonth) ∧
    Along (step (.default id)) (fun s a => ¬ DestroysInUse (.default id) s a) State.init
      (postWithImage ++ cleanupAfterMonth) := by
  have hkeeps : Along (step (.default id)) (KeepsOwners (.default id)) State.init
      (postWithImage ++ cleanupAfterMonth) := by
    -- only the post attaches an image, and user 1 has uploaded it
    apply And.intro trivial
    intro s₁ h₁
    cases h₁
    apply And.intro trivial
    intro s₂ h₂
    cases h₂
    apply And.intro
    · intro _ img hm _
      cases List.mem_singleton.mp hm
      exact Option.some_ne_none 1
    intro s₃ h₃
    repeat
      first
      | exact trivial
      | apply And.intro trivial
        intro _ _
  exact ⟨by rfl, hkeeps, cleanup_spares_images_in_use (Settings.default id) hkeeps⟩

/-- The author leaves and is purged after a month; the post stays and still shows the image. -/
def authorPurged : List Label :=
  [.deleteUser 1, .tick 2678400000000, .purge [1], .startPass .expiredSignup]

/-- After the purge the image has no uploader and counts as one that no signup has claimed. -/
theorem cleanup_destroys_image_in_use : ¬ ∀ c as,
    Along (step c) (fun s a => ¬ DestroysInUse c s a) State.init as := by
  intro h
  have hrun : ∃ s s', exec (step (.default id)) State.init (postWithImage ++ authorPurged) = some s ∧
      step (.default id) s (.cleanupBatch .expiredSignup fun _ => .deleted) = some s' ∧
      s.db.images.map (·.id) = [7] ∧ s.db.references 7 = true ∧ s'.db.images = [] := by
    exact ⟨_, _, rfl, rfl, rfl, rfl, rfl⟩
  obtain ⟨s, s', he, hs, hids, href, hgone⟩ := hrun
  have hnot := (h (Settings.default id) (postWithImage ++ authorPurged ++
    [.cleanupBatch .expiredSignup fun _ => .deleted])).next he
  obtain ⟨img, hm, hid⟩ := List.mem_map.mp (hids ▸ List.mem_singleton_self 7)
  apply hnot
  apply Exists.intro s'
  exact ⟨hs, img, hm, hid ▸ href, .inl fun img' hm' => by rw [hgone] at hm'; cases hm'⟩

end ImageLifecycle

end PuppyTalk
