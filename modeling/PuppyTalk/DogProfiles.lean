import Mathlib.Data.List.Induction
import PuppyTalk.Accounts

namespace PuppyTalk

section Index

theorem oneRepresentative_iff : OneRepresentative dogs ↔
    dogs.Pairwise fun a b => a.isRepresentative = true → b.isRepresentative = true →
      a.ownerId ≠ b.ownerId := by
  unfold OneRepresentative Table.Keyed List.Nodup
  rw [List.pairwise_map, List.pairwise_filter]

theorem OneRepresentative.update (h : OneRepresentative dogs) {p : DogProfile → Bool}
    {f : DogProfile → DogProfile} (ho : ∀ d, (f d).ownerId = d.ownerId)
    (hf : ∀ d, (f d).isRepresentative = true → d.isRepresentative = true) :
    OneRepresentative (Table.update p f dogs) := by
  rw [oneRepresentative_iff] at h ⊢
  rw [Table.update, List.pairwise_map]
  have hrow : ∀ d, (if p d then f d else d).isRepresentative = true → d.isRepresentative = true := by
    intro d
    split
    · exact hf d
    · exact id
  apply h.imp
  intro a b hab ha hb
  rw [Table.key_update ho, Table.key_update ho]
  exact hab (hrow a ha) (hrow b hb)

theorem OneRepresentative.append (h : OneRepresentative dogs) (hg : g.isRepresentative = false) :
    OneRepresentative (dogs ++ [g]) := by
  unfold OneRepresentative at h ⊢
  rwa [List.filter_append, List.filter_cons_of_neg (by simp [hg]), List.filter_nil, List.append_nil]

theorem OneRepresentative.delete (h : OneRepresentative dogs) (p : DogProfile → Bool) :
    OneRepresentative (Table.delete p dogs) :=
  h.sublist ((List.filter_sublist.filter _).map _)

theorem OneRepresentative.raise (h : OneRepresentative dogs)
    (hids : Table.Keyed DogProfile.id dogs)
    (hnone : ∀ d ∈ dogs, d.ownerId = ownerId → d.isRepresentative = false) (dogId : Uuid)
    (now : Timestamp) :
    OneRepresentative (Table.update (fun d => d.id == dogId && d.ownerId == ownerId)
      (fun d => { d with isRepresentative := true, updatedAt := now }) dogs) := by
  rw [oneRepresentative_iff] at h ⊢
  rw [Table.update, List.pairwise_map]
  have hne : dogs.Pairwise fun a b => a.id ≠ b.id := List.pairwise_map.mp hids
  apply (h.and hne).imp_of_mem
  rintro a b ha hb ⟨hab, hid⟩ ha' hb' ho
  have hrow : ∀ d ∈ dogs, (if d.id == dogId && d.ownerId == ownerId then
      { d with isRepresentative := true, updatedAt := now } else d).isRepresentative = true →
        d.ownerId = ownerId → d.id = dogId := by
    intro d hd hflag howner
    split at hflag
    · rename_i hm
      exact beq_iff_eq.mp (Bool.and_eq_true _ _ ▸ hm).1
    · rw [hnone d hd howner] at hflag
      cases hflag
  have hkeep : ∀ d : DogProfile, d.ownerId ≠ ownerId →
      (if d.id == dogId && d.ownerId == ownerId then
        { d with isRepresentative := true, updatedAt := now } else d) = d := by
    intro d hd
    rw [if_neg]
    rw [Bool.and_eq_true, beq_iff_eq, beq_iff_eq]
    exact fun h => hd h.2
  have howner : ∀ d : DogProfile, (if d.id == dogId && d.ownerId == ownerId then
      { d with isRepresentative := true, updatedAt := now } else d).ownerId = d.ownerId := by
    intro d
    split <;> rfl
  rw [howner, howner] at ho
  by_cases hmine : a.ownerId = ownerId
  · exact hid ((hrow a ha ha' hmine).trans (hrow b hb hb' (ho.symm.trans hmine)).symm)
  · rw [hkeep a hmine] at ha'
    rw [hkeep b (ho ▸ hmine)] at hb'
    exact hab ha' hb' ho

end Index

namespace DogService

def replaceStatements (ownerId : Uuid) (items : List DogProfileUpsertItem) (newIds : Nat → Uuid)
    (now : Timestamp) (existing : List Uuid) : List (List DogProfile → List DogProfile) :=
  let created := createMany ownerId items newIds now
  let requested := updateIds items ++ created.map (·.id)
  (items.filterMap fun item => item.id.map fun dogId =>
      Table.update (fun d => d.ownerId == ownerId && d.id == dogId) (updateRow now item)) ++
    (created.map fun g dogs => dogs ++ [g]) ++
    [Table.delete fun d => d.ownerId == ownerId && existing.contains d.id &&
      !requested.contains d.id]

def chooseStatements (ownerId : Uuid) (now : Timestamp) :
    Option Uuid → List (List DogProfile → List DogProfile)
  | none => []
  | some dogId =>
    [Table.update (·.ownerId == ownerId) fun d => { d with isRepresentative := false },
      Table.update (fun d => d.id == dogId && d.ownerId == ownerId)
        fun d => { d with isRepresentative := true, updatedAt := now }]

def upsertStatements (ownerId : Uuid) (items : List DogProfileUpsertItem) (newIds : Nat → Uuid)
    (now : Timestamp) (existing : List Uuid) : List (List DogProfile → List DogProfile) :=
  replaceStatements ownerId items newIds now existing ++
    chooseStatements ownerId now (representative items (createMany ownerId items newIds now))

def getIdsByOwnerId (dogs : List DogProfile) (ownerId : Uuid) : List Uuid :=
  (dogs.filter (·.ownerId == ownerId)).map (·.id)

def states : List (List DogProfile → List DogProfile) → List DogProfile → List (List DogProfile)
  | [], dogs => [dogs]
  | f :: fs, dogs => dogs :: states fs (f dogs)

def updated (ownerId : Uuid) (items : List DogProfileUpsertItem) (now : Timestamp)
    (d : DogProfile) : DogProfile :=
  if d.ownerId = ownerId then
    (items.filter fun item => item.id = some d.id).foldl (fun d item => updateRow now item d) d
  else d

theorem foldl_updateRow_id (now : Timestamp) (l : List DogProfileUpsertItem) (d : DogProfile) :
    (l.foldl (fun d item => updateRow now item d) d).id = d.id := by
  induction l generalizing d with
  | nil => rfl
  | cons item l ih => exact ih _

theorem foldl_updateRow_ownerId (now : Timestamp) (l : List DogProfileUpsertItem)
    (d : DogProfile) : (l.foldl (fun d item => updateRow now item d) d).ownerId = d.ownerId := by
  induction l generalizing d with
  | nil => rfl
  | cons item l ih => exact ih _

@[simp] theorem updated_id (ownerId : Uuid) (items : List DogProfileUpsertItem) (now : Timestamp)
    (d : DogProfile) : (updated ownerId items now d).id = d.id := by
  rw [updated]
  split
  · exact foldl_updateRow_id ..
  · rfl

@[simp] theorem updated_ownerId (ownerId : Uuid) (items : List DogProfileUpsertItem)
    (now : Timestamp) (d : DogProfile) : (updated ownerId items now d).ownerId = d.ownerId := by
  rw [updated]
  split
  · exact foldl_updateRow_ownerId ..
  · rfl

theorem bulkUpdateByOwner_eq (dogs : List DogProfile) (ownerId : Uuid)
    (items : List DogProfileUpsertItem) (now : Timestamp) :
    bulkUpdateByOwner dogs ownerId items now = dogs.map (updated ownerId items now) := by
  induction items using List.reverseRecOn with
  | nil =>
    refine (List.map_congr_left fun d _ => ?_).trans (List.map_id dogs) |>.symm
    simp [updated]
  | append_singleton items item ih =>
    rw [bulkUpdateByOwner] at ih ⊢
    rw [List.foldl_append, ih, List.foldl_cons, List.foldl_nil]
    cases hid : item.id with
    | none =>
      apply List.map_congr_left
      intro d _
      simp [updated, hid]
    | some dogId =>
      dsimp only
      rw [Table.update, List.map_map]
      apply List.map_congr_left
      intro d _
      have hmatch : (dogId = d.id) ↔ item.id = some d.id := by rw [hid, Option.some.injEq]
      by_cases ho : d.ownerId = ownerId
      · by_cases hd : dogId = d.id
        · simp [updated, ho, hmatch.mp hd, hd, foldl_updateRow_id, foldl_updateRow_ownerId]
        · have hne : ¬ item.id = some d.id := fun h => hd (hmatch.mpr h)
          simp [updated, ho, hne, Ne.symm hd, foldl_updateRow_id]
      · simp [updated, ho]

section Fold

variable (now : Timestamp) (l : List DogProfileUpsertItem) (item : DogProfileUpsertItem)
variable (d : DogProfile)

theorem foldl_updateRow_append :
    (l ++ [item]).foldl (fun d item => updateRow now item d) d =
      updateRow now item (l.foldl (fun d item => updateRow now item d) d) := by
  rw [List.foldl_append, List.foldl_cons, List.foldl_nil]

theorem foldl_updateRow_image :
    (l.foldl (fun d item => updateRow now item d) d).profileImageId =
      ((l.filterMap (·.profileImageId)).getLast?).getD d.profileImageId := by
  induction l using List.reverseRecOn with
  | nil => rfl
  | append_singleton l item ih =>
    rw [foldl_updateRow_append, List.filterMap_append, updateRow]
    cases h : item.profileImageId with
    | none => simp [h, ih]
    | some image => simp [h]

end Fold

structure HasFields (item : DogProfileUpsertItem) (g : DogProfile) : Prop where
  name : g.name = item.name
  breed : g.breed = item.breed
  gender : g.gender = item.gender
  birthDate : g.birthDate = item.birthDate

theorem foldl_updateRow_fields {l : List DogProfileUpsertItem} (h : l.getLast? = some item)
    (now : Timestamp) (d : DogProfile) :
    HasFields item (l.foldl (fun d item => updateRow now item d) d) ∧
      (l.foldl (fun d item => updateRow now item d) d).isRepresentative = false := by
  obtain ⟨init, rfl⟩ := List.getLast?_eq_some_iff.mp h
  rw [foldl_updateRow_append]
  exact ⟨⟨rfl, rfl, rfl, rfl⟩, rfl⟩

section Created

variable (ownerId : Uuid) (items : List DogProfileUpsertItem) (newIds : Nat → Uuid)
variable (now : Timestamp)

def newItems : List DogProfileUpsertItem := items.filter (·.id.isNone)

theorem createMany_getElem? (n : Nat) :
    (createMany ownerId items newIds now)[n]? = (newItems items)[n]?.map fun item =>
      { id := newIds n, ownerId := ownerId, name := item.name, breed := item.breed,
        gender := item.gender, birthDate := item.birthDate,
        profileImageId := item.profileImageId.join, isRepresentative := false, createdAt := now,
        updatedAt := now } := by
  rw [createMany, List.getElem?_map, List.getElem?_zipIdx, newItems]
  cases (items.filter (·.id.isNone))[n]? <;> simp

variable {ownerId items newIds now}

theorem mem_createMany (hg : g ∈ createMany ownerId items newIds now) :
    ∃ n item, (newItems items)[n]? = some item ∧ g.id = newIds n ∧ g.ownerId = ownerId ∧
      g.isRepresentative = false := by
  obtain ⟨n, hn⟩ := List.mem_iff_getElem?.mp hg
  rw [createMany_getElem?, Option.map_eq_some_iff] at hn
  obtain ⟨item, hitem, rfl⟩ := hn
  exact ⟨n, item, hitem, rfl, rfl, rfl⟩

theorem createMany_ids : (createMany ownerId items newIds now).map (·.id) =
    (List.range (newItems items).length).map newIds := by
  apply List.ext_getElem?
  intro n
  rw [List.getElem?_map, createMany_getElem?, List.getElem?_map, Option.map_map]
  by_cases hn : n < (newItems items).length
  · rw [List.getElem?_range hn, List.getElem?_eq_getElem hn]
    rfl
  · rw [List.getElem?_eq_none (by omega), List.getElem?_eq_none (by simp; omega)]
    rfl

end Created

section Representative

def pick (created : List DogProfile) (acc : Option Uuid × Nat) (item : DogProfileUpsertItem) :
    Option Uuid × Nat :=
  match item.id with
  | some dogId => (if item.isRepresentative then some dogId else acc.1, acc.2)
  | none => (if item.isRepresentative then created[acc.2]?.map (·.id) else acc.1, acc.2 + 1)

theorem representative_eq (items : List DogProfileUpsertItem) (created : List DogProfile) :
    representative items created = (items.foldl (pick created) (none, 0)).1 := rfl

theorem foldl_pick_snd (created : List DogProfile) (items : List DogProfileUpsertItem)
    (acc : Option Uuid × Nat) :
    (items.foldl (pick created) acc).2 = acc.2 + (newItems items).length := by
  induction items generalizing acc with
  | nil => rfl
  | cons item items ih =>
    rw [List.foldl_cons, ih, pick]
    cases h : item.id with
    | some dogId => simp [newItems, h]
    | none =>
      simp [newItems, h]
      omega

theorem foldl_pick_unflagged (created : List DogProfile) (items : List DogProfileUpsertItem)
    (acc : Option Uuid × Nat) (h : ∀ item ∈ items, item.isRepresentative = false) :
    (items.foldl (pick created) acc).1 = acc.1 := by
  induction items generalizing acc with
  | nil => rfl
  | cons item items ih =>
    rw [List.foldl_cons, ih _ fun x hx => h x (List.mem_cons_of_mem _ hx), pick]
    cases item.id <;> simp [h item List.mem_cons_self]

theorem representative_last (hitems : items = before ++ item :: after)
    (hflag : item.isRepresentative = true) (hafter : ∀ x ∈ after, x.isRepresentative = false) :
    representative items (createMany ownerId items newIds now) =
      some (item.id.getD (newIds (newItems before).length)) := by
  subst hitems
  rw [representative_eq, List.foldl_append, List.foldl_cons, foldl_pick_unflagged _ _ _ hafter, pick]
  cases hid : item.id with
  | some dogId => simp [hflag]
  | none =>
    have hget : (newItems (before ++ item :: after))[(newItems before).length]? = some item := by
      simp [newItems, hid]
    dsimp only
    rw [if_pos hflag, foldl_pick_snd, Nat.zero_add, createMany_getElem?, hget]
    rfl

end Representative

section Table

variable (ownerId : Uuid) (items : List DogProfileUpsertItem) (newIds : Nat → Uuid)
variable (now : Timestamp)

def kept (dogs : List DogProfile) : List DogProfile :=
  (dogs.filter fun d => d.ownerId != ownerId || (updateIds items).contains d.id).map
      (updated ownerId items now) ++ createMany ownerId items newIds now

def marked (chosen : Option Uuid) (g : DogProfile) : DogProfile :=
  if g.ownerId = ownerId then
    match chosen with
    | none => g
    | some dogId =>
      if g.id = dogId then { g with isRepresentative := true, updatedAt := now }
      else { g with isRepresentative := false }
  else g

theorem setRepresentative_eq (dogs : List DogProfile) (dogId : Uuid) :
    setRepresentative dogs ownerId dogId now = dogs.map (marked ownerId now (some dogId)) := by
  rw [setRepresentative, Table.update, Table.update, List.map_map]
  apply List.map_congr_left
  intro g _
  by_cases ho : g.ownerId = ownerId <;> by_cases hd : g.id = dogId <;> simp [marked, ho, hd]

variable {ownerId items newIds now}

theorem marked_eq (chosen : Option Uuid) (g : DogProfile) :
    ∃ flag time, marked ownerId now chosen g =
      { g with isRepresentative := flag, updatedAt := time } := by
  unfold marked
  split
  · cases chosen with
    | none => exact ⟨g.isRepresentative, g.updatedAt, rfl⟩
    | some dogId =>
      dsimp only
      split
      · exact ⟨true, now, rfl⟩
      · exact ⟨false, g.updatedAt, rfl⟩
  · exact ⟨g.isRepresentative, g.updatedAt, rfl⟩

@[simp] theorem marked_id (chosen : Option Uuid) (g : DogProfile) :
    (marked ownerId now chosen g).id = g.id := by
  obtain ⟨flag, time, he⟩ := @marked_eq ownerId now chosen g
  rw [he]

@[simp] theorem marked_ownerId (chosen : Option Uuid) (g : DogProfile) :
    (marked ownerId now chosen g).ownerId = g.ownerId := by
  obtain ⟨flag, time, he⟩ := @marked_eq ownerId now chosen g
  rw [he]

@[simp] theorem marked_profileImageId (chosen : Option Uuid) (g : DogProfile) :
    (marked ownerId now chosen g).profileImageId = g.profileImageId := by
  obtain ⟨flag, time, he⟩ := @marked_eq ownerId now chosen g
  rw [he]

theorem HasFields.marked (h : HasFields item g) (chosen : Option Uuid) :
    HasFields item (marked ownerId now chosen g) := by
  obtain ⟨flag, time, he⟩ := @marked_eq ownerId now chosen g
  rw [he]
  exact ⟨h.name, h.breed, h.gender, h.birthDate⟩

theorem marked_of_ne (chosen : Option Uuid) (h : g.ownerId ≠ ownerId) :
    marked ownerId now chosen g = g := if_neg h

theorem marked_isRepresentative (chosen : Option Uuid) (ho : g.ownerId = ownerId)
    (hflag : g.isRepresentative = false) :
    (marked ownerId now chosen g).isRepresentative = true ↔ chosen = some g.id := by
  unfold marked
  rw [if_pos ho]
  cases chosen with
  | none => simp [hflag]
  | some dogId =>
    by_cases hd : g.id = dogId
    · simp [hd]
    · simp [hd, Ne.symm hd]

theorem delete_eq (dogs : List DogProfile)
    (hfresh : ∀ n, ∀ d ∈ dogs, d.id ≠ newIds n) :
    Table.delete (fun d => d.ownerId == ownerId &&
        ((dogs.filter (·.ownerId == ownerId)).map (·.id)).contains d.id &&
        !(updateIds items ++ (createMany ownerId items newIds now).map (·.id)).contains d.id)
      (bulkUpdateByOwner dogs ownerId items now ++ createMany ownerId items newIds now) =
        kept ownerId items newIds now dogs := by
  rw [Table.delete, List.filter_append, bulkUpdateByOwner_eq, kept, List.filter_map]
  congr 1
  · congr 1
    apply List.filter_congr
    intro d hd
    simp only [Function.comp_apply, updated_ownerId, updated_id]
    have hnew : d.id ∉ (createMany ownerId items newIds now).map (·.id) := by
      rw [createMany_ids, List.mem_map]
      rintro ⟨n, -, hn⟩
      exact hfresh n d hd hn.symm
    by_cases ho : d.ownerId = ownerId
    · have hmem : d.id ∈ (dogs.filter (·.ownerId == ownerId)).map (·.id) :=
        List.mem_map_of_mem (List.mem_filter.mpr ⟨hd, beq_iff_eq.mpr ho⟩)
      rw [List.contains_iff_mem.mpr hmem, List.contains_append, List.contains_eq_mem d.id (_ : List Uuid)]
      simp [ho, hnew]
    · rw [bne, beq_eq_false_iff_ne.mpr ho]
      rfl
  · apply List.filter_eq_self.mpr
    intro g hg
    obtain ⟨n, item, -, hid, -, -⟩ := mem_createMany hg
    have hnot : g.id ∉ (dogs.filter (·.ownerId == ownerId)).map (·.id) := by
      intro hmem
      obtain ⟨d, hd, he⟩ := List.mem_map.mp hmem
      exact hfresh n d (List.mem_filter.mp hd).1 (he.trans hid)
    rw [Bool.not_eq_true', Bool.and_eq_false_iff, Bool.and_eq_false_iff]
    exact .inl (.inr (by simpa using hnot))

theorem upsertDogProfile_ok (hfresh : ∀ n, ∀ d ∈ db.dogProfiles, d.id ≠ newIds n)
    (h : upsertDogProfile db ownerId items newIds now = .ok db') :
    (∀ i ∈ updateIds items, ∃ d ∈ db.dogProfiles, d.ownerId = ownerId ∧ d.id = i) ∧
      db'.dogProfiles = (kept ownerId items newIds now db.dogProfiles).map
        (marked ownerId now (representative items (createMany ownerId items newIds now))) := by
  rw [upsertDogProfile] at h
  split at h
  · rename_i hids
    constructor
    · intro i hi
      have hmem := List.contains_iff_mem.mp (List.all_eq_true.mp hids i hi)
      obtain ⟨d, hd, rfl⟩ := List.mem_map.mp hmem
      obtain ⟨hd, ho⟩ := List.mem_filter.mp hd
      exact ⟨d, hd, beq_iff_eq.mp ho, rfl⟩
    · split at h
      · cases h
      · dsimp only at h
        rw [delete_eq db.dogProfiles hfresh] at h
        split at h
        · cases h
          rename_i hnone
          rw [hnone]
          refine ((List.map_congr_left fun g _ => ?_).trans (List.map_id _)).symm
          simp [marked]
        · cases h
          rename_i hsome
          rw [hsome, setRepresentative_eq]
  · cases h

theorem mem_kept : g ∈ kept ownerId items newIds now dogs ↔
    (∃ d ∈ dogs, (d.ownerId ≠ ownerId ∨ d.id ∈ updateIds items) ∧
      g = updated ownerId items now d) ∨ g ∈ createMany ownerId items newIds now := by
  rw [kept, List.mem_append]
  refine or_congr ?_ Iff.rfl
  simp only [List.mem_map, List.mem_filter, Bool.or_eq_true, bne_iff_ne, List.contains_iff_mem]
  constructor
  · rintro ⟨d, ⟨hd, hk⟩, rfl⟩
    exact ⟨d, hd, hk, rfl⟩
  · rintro ⟨d, hd, hk, rfl⟩
    exact ⟨d, ⟨hd, hk⟩, rfl⟩

def itemsFor (items : List DogProfileUpsertItem) (dogId : Uuid) : List DogProfileUpsertItem :=
  items.filter fun item => item.id = some dogId

theorem updated_of_owner (items : List DogProfileUpsertItem) (now : Timestamp)
    (ho : d.ownerId = ownerId) : updated ownerId items now d =
      (itemsFor items d.id).foldl (fun d item => updateRow now item d) d := if_pos ho

theorem itemsFor_getLast (h : i ∈ updateIds items) :
    ∃ item, (itemsFor items i).getLast? = some item := by
  obtain ⟨item, hitem, hid⟩ := List.mem_filterMap.mp h
  have hmem : item ∈ itemsFor items i := List.mem_filter.mpr ⟨hitem, decide_eq_true hid⟩
  exact ⟨_, List.getLast?_eq_some_getLast (List.ne_nil_of_mem hmem)⟩

theorem kept_unflagged (hg : g ∈ kept ownerId items newIds now dogs) (ho : g.ownerId = ownerId) :
    g.isRepresentative = false := by
  rcases mem_kept.mp hg with ⟨d, -, hk, rfl⟩ | hg
  · rw [updated_ownerId] at ho
    obtain ⟨item, hitem⟩ := itemsFor_getLast (hk.resolve_left fun h => h ho)
    rw [updated_of_owner items now ho]
    exact (foldl_updateRow_fields hitem now d).2
  · obtain ⟨n, item, -, -, -, hflag⟩ := mem_createMany hg
    exact hflag

theorem kept_keyed (hids : Table.Keyed DogProfile.id dogs) (hinj : Function.Injective newIds)
    (hfresh : ∀ n, ∀ d ∈ dogs, d.id ≠ newIds n) (ownerId : Uuid) (items : List DogProfileUpsertItem)
    (now : Timestamp) :
    Table.Keyed DogProfile.id (kept ownerId items newIds now dogs) := by
  unfold Table.Keyed
  rw [kept, List.map_append, List.map_map, createMany_ids, List.nodup_append]
  have hsame : DogProfile.id ∘ updated ownerId items now = DogProfile.id := by
    funext d
    exact updated_id ..
  rw [hsame]
  refine ⟨hids.sublist (List.filter_sublist.map _), List.nodup_range.map hinj, ?_⟩
  intro i hi j hj
  obtain ⟨d, hd, rfl⟩ := List.mem_map.mp hi
  obtain ⟨n, -, rfl⟩ := List.mem_map.mp hj
  exact hfresh n d (List.mem_filter.mp hd).1

end Table

structure Replaced (dogs dogs' : List DogProfile) (ownerId : Uuid)
    (items : List DogProfileUpsertItem) (newIds : Nat → Uuid) : Prop where
  keyed : Table.Keyed DogProfile.id dogs'
  others : dogs'.filter (fun d => d.ownerId ≠ ownerId) = dogs.filter fun d => d.ownerId ≠ ownerId
  owned : ∀ i, (∃ g ∈ dogs', g.ownerId = ownerId ∧ g.id = i) ↔
    i ∈ updateIds items ∨ ∃ n < (newItems items).length, i = newIds n
  named : ∀ g ∈ dogs', g.ownerId = ownerId → ∀ item,
    (itemsFor items g.id).getLast? = some item → HasFields item g
  image : ∀ d ∈ dogs, ∀ g ∈ dogs', g.ownerId = ownerId → g.id = d.id →
    g.profileImageId =
      (((itemsFor items g.id).filterMap (·.profileImageId)).getLast?).getD d.profileImageId
  created : ∀ n item, (newItems items)[n]? = some item →
    ∃ g ∈ dogs', g.ownerId = ownerId ∧ g.id = newIds n ∧ HasFields item g ∧
      g.profileImageId = item.profileImageId.join
  unflagged : (∀ item ∈ items, item.isRepresentative = false) →
    ∀ g ∈ dogs', g.ownerId = ownerId → g.isRepresentative = false
  flagged : ∀ before item after, items = before ++ item :: after →
    item.isRepresentative = true → (∀ x ∈ after, x.isRepresentative = false) →
      ∀ g ∈ dogs', g.ownerId = ownerId →
        (g.isRepresentative = true ↔ g.id = item.id.getD (newIds (newItems before).length))

theorem filter_map_filter {p q : α → Bool} {f : α → α} (hp : ∀ a, p (f a) = p a)
    (hq : ∀ a, p a = true → q a = true) (hf : ∀ a, p a = true → f a = a) (l : List α) :
    ((l.filter q).map f).filter p = l.filter p := by
  induction l with
  | nil => rfl
  | cons a l ih =>
    cases hpa : p a with
    | true => simp [hq a hpa, hf a hpa, hpa, ih]
    | false =>
      cases hqa : q a with
      | true => simp [hqa, hp, hpa, ih]
      | false => simp [hqa, hpa, ih]

section Replacement

variable {ownerId : Uuid} {items : List DogProfileUpsertItem} {newIds : Nat → Uuid}
variable {now : Timestamp} {dogs : List DogProfile}

theorem kept_others (ownerId : Uuid) (items : List DogProfileUpsertItem) (newIds : Nat → Uuid)
    (now : Timestamp) (dogs : List DogProfile) :
    (kept ownerId items newIds now dogs).filter (fun d => d.ownerId ≠ ownerId) =
      dogs.filter fun d => d.ownerId ≠ ownerId := by
  have hnew : (createMany ownerId items newIds now).filter (fun d => d.ownerId ≠ ownerId) = [] := by
    apply List.filter_eq_nil_iff.mpr
    intro g hg hne
    obtain ⟨n, item, -, -, ho, -⟩ := mem_createMany hg
    exact of_decide_eq_true hne ho
  rw [kept, List.filter_append, hnew, List.append_nil]
  apply filter_map_filter
  · intro d
    rw [updated_ownerId]
  · intro d hne
    rw [Bool.or_eq_true, bne_iff_ne]
    exact .inl (of_decide_eq_true hne)
  · intro d hne
    exact if_neg (of_decide_eq_true hne)

theorem kept_owned (hnamed : ∀ i ∈ updateIds items, ∃ d ∈ dogs, d.ownerId = ownerId ∧ d.id = i)
    (now : Timestamp) (i : Uuid) :
    (∃ g ∈ kept ownerId items newIds now dogs, g.ownerId = ownerId ∧ g.id = i) ↔
      i ∈ updateIds items ∨ ∃ n < (newItems items).length, i = newIds n := by
  constructor
  · rintro ⟨g, hg, ho, rfl⟩
    rcases mem_kept.mp hg with ⟨d, -, hk, rfl⟩ | hg
    · rw [updated_ownerId] at ho
      rw [updated_id]
      exact .inl (hk.resolve_left fun h => h ho)
    · obtain ⟨n, item, hitem, hid, -, -⟩ := mem_createMany hg
      exact .inr ⟨n, (List.getElem?_eq_some_iff.mp hitem).1, hid⟩
  · rintro (hi | ⟨n, hn, rfl⟩)
    · obtain ⟨d, hd, ho, rfl⟩ := hnamed i hi
      exact ⟨updated ownerId items now d, mem_kept.mpr (.inl ⟨d, hd, .inr hi, rfl⟩),
        (updated_ownerId ..).trans ho, updated_id ..⟩
    · have hget := createMany_getElem? ownerId items newIds now n
      rw [List.getElem?_eq_getElem hn] at hget
      exact ⟨_, mem_kept.mpr (.inr (List.mem_of_getElem? hget)), rfl, rfl⟩

theorem kept_named (hg : g ∈ kept ownerId items newIds now dogs) (ho : g.ownerId = ownerId)
    (hfresh : ∀ n, newIds n ∉ updateIds items) (hitem : (itemsFor items g.id).getLast? = some item) :
    ∃ d ∈ dogs, d.ownerId = ownerId ∧ g = updated ownerId items now d := by
  rcases mem_kept.mp hg with ⟨d, hd, -, rfl⟩ | hg
  · exact ⟨d, hd, (updated_ownerId ..).symm.trans ho, rfl⟩
  · obtain ⟨n, item', -, hid, -, -⟩ := mem_createMany hg
    have hmem := List.mem_filter.mp (List.mem_of_getLast? hitem)
    refine absurd (List.mem_filterMap.mpr ⟨item, hmem.1, ?_⟩) (hfresh n)
    exact (of_decide_eq_true hmem.2).trans (congrArg some hid)

end Replacement

theorem replaced_of_ok (hids : Table.Keyed DogProfile.id db.dogProfiles)
    (hinj : Function.Injective newIds) (hfresh : ∀ n, ∀ d ∈ db.dogProfiles, d.id ≠ newIds n)
    (h : upsertDogProfile db ownerId items newIds now = .ok db') :
    Replaced db.dogProfiles db'.dogProfiles ownerId items newIds := by
  obtain ⟨hnamed, hdogs⟩ := upsertDogProfile_ok hfresh h
  have hnew : ∀ n, newIds n ∉ updateIds items := by
    intro n hn
    obtain ⟨d, hd, -, hid⟩ := hnamed _ hn
    exact hfresh n d hd hid
  have hrow : ∀ g ∈ db'.dogProfiles, ∃ k ∈ kept ownerId items newIds now db.dogProfiles,
      g = marked ownerId now (representative items (createMany ownerId items newIds now)) k := by
    intro g hg
    rw [hdogs] at hg
    obtain ⟨k, hk, rfl⟩ := List.mem_map.mp hg
    exact ⟨k, hk, rfl⟩
  constructor
  case keyed =>
    rw [hdogs]
    unfold Table.Keyed
    rw [List.map_map]
    refine (congrArg List.Nodup (List.map_congr_left fun g _ => ?_)).mpr
      (kept_keyed hids hinj hfresh ownerId items now)
    exact marked_id ..
  case others =>
    rw [hdogs]
    have hall := filter_map_filter (p := fun d => decide (d.ownerId ≠ ownerId)) (q := fun _ => true)
      (f := marked ownerId now (representative items (createMany ownerId items newIds now)))
      (fun d => by rw [marked_ownerId]) (fun _ _ => rfl)
      (fun d hd => marked_of_ne _ (of_decide_eq_true hd))
      (kept ownerId items newIds now db.dogProfiles)
    rw [List.filter_true] at hall
    exact hall.trans (kept_others ownerId items newIds now db.dogProfiles)
  case owned =>
    intro i
    rw [← kept_owned hnamed now i, hdogs]
    constructor
    · rintro ⟨g, hg, ho, rfl⟩
      obtain ⟨k, hk, rfl⟩ := List.mem_map.mp hg
      exact ⟨k, hk, (marked_ownerId ..).symm.trans ho, (marked_id ..).symm⟩
    · rintro ⟨k, hk, ho, rfl⟩
      exact ⟨_, List.mem_map_of_mem hk, (marked_ownerId ..).trans ho, marked_id ..⟩
  case named =>
    intro g hg ho item hitem
    obtain ⟨k, hk, rfl⟩ := hrow g hg
    rw [marked_ownerId] at ho
    rw [marked_id] at hitem
    obtain ⟨d, hd, hdo, rfl⟩ := kept_named hk ho hnew hitem
    rw [updated_id] at hitem
    rw [updated_of_owner items now hdo]
    exact (foldl_updateRow_fields hitem now d).1.marked _
  case image =>
    intro d hd g hg ho hid
    obtain ⟨k, hk, rfl⟩ := hrow g hg
    rw [marked_ownerId] at ho
    rw [marked_id] at hid
    rw [marked_profileImageId, marked_id]
    rcases mem_kept.mp hk with ⟨e, he, -, rfl⟩ | hk
    · rw [updated_ownerId] at ho
      rw [updated_id] at hid ⊢
      obtain rfl := hids.eq he hd hid
      rw [updated_of_owner items now ho]
      exact foldl_updateRow_image ..
    · obtain ⟨n, item, -, hn, -, -⟩ := mem_createMany hk
      exact absurd (hid.symm.trans hn) (hfresh n d hd)
  case created =>
    intro n item hitem
    have hget := createMany_getElem? ownerId items newIds now n
    rw [hitem] at hget
    refine ⟨_, hdogs ▸ List.mem_map_of_mem (mem_kept.mpr (.inr (List.mem_of_getElem? hget))),
      (marked_ownerId ..), marked_id .., ?_, marked_profileImageId ..⟩
    exact HasFields.marked ⟨rfl, rfl, rfl, rfl⟩ _
  case unflagged =>
    intro hitems g hg ho
    obtain ⟨k, hk, rfl⟩ := hrow g hg
    rw [marked_ownerId] at ho
    rw [← Bool.not_eq_true, marked_isRepresentative _ ho (kept_unflagged hk ho), representative_eq,
      foldl_pick_unflagged _ _ _ hitems]
    exact nofun
  case flagged =>
    intro before item after hsplit hflag hafter g hg ho
    obtain ⟨k, hk, rfl⟩ := hrow g hg
    rw [marked_ownerId] at ho
    rw [marked_isRepresentative _ ho (kept_unflagged hk ho), marked_id,
      representative_last hsplit hflag hafter, Option.some.injEq, eq_comm]

section Statements

theorem mem_states_append {fs gs : List (List DogProfile → List DogProfile)} :
    t ∈ states (fs ++ gs) dogs ↔ t ∈ states fs dogs ∨ t ∈ states gs (fs.foldl (fun t f => f t) dogs) := by
  induction fs generalizing dogs with
  | nil =>
    cases gs <;> simp [states]
  | cons f fs ih =>
    rw [List.cons_append, states, states, List.mem_cons, List.mem_cons, ih, List.foldl_cons, or_assoc]

theorem states_inv {P : List DogProfile → Prop} {fs : List (List DogProfile → List DogProfile)}
    (hf : ∀ f ∈ fs, ∀ t, P t → P (f t)) (h : P dogs) (ht : t ∈ states fs dogs) : P t := by
  induction fs generalizing dogs with
  | nil =>
    rw [List.mem_singleton.mp ht]
    exact h
  | cons f fs ih =>
    rcases List.mem_cons.mp ht with rfl | ht
    · exact h
    · exact ih (fun g hg => hf g (List.mem_cons_of_mem _ hg)) (hf f List.mem_cons_self _ h) ht

theorem states_getLast (fs : List (List DogProfile → List DogProfile)) (dogs : List DogProfile) :
    (states fs dogs).getLast? = some (fs.foldl (fun t f => f t) dogs) := by
  induction fs generalizing dogs with
  | nil => rfl
  | cons f fs ih => rw [states, List.getLast?_cons, ih, List.foldl_cons, Option.getD_some]

theorem foldl_insert (created dogs : List DogProfile) :
    (created.map fun g (t : List DogProfile) => t ++ [g]).foldl (fun t f => f t) dogs =
      dogs ++ created := by
  induction created generalizing dogs with
  | nil => exact (List.append_nil dogs).symm
  | cons g created ih =>
    rw [List.map_cons, List.foldl_cons, ih, List.append_assoc]
    rfl

theorem foldl_updates (ownerId : Uuid) (items : List DogProfileUpsertItem) (now : Timestamp)
    (dogs : List DogProfile) :
    (items.filterMap fun item => item.id.map fun dogId =>
      Table.update (fun d => d.ownerId == ownerId && d.id == dogId)
        (updateRow now item)).foldl (fun t f => f t) dogs =
      bulkUpdateByOwner dogs ownerId items now := by
  rw [List.foldl_filterMap, bulkUpdateByOwner]
  congr 1
  funext t item
  cases item.id <;> rfl

theorem foldl_replaceStatements (dogs : List DogProfile)
    (hfresh : ∀ n, ∀ d ∈ dogs, d.id ≠ newIds n) :
    (replaceStatements ownerId items newIds now (getIdsByOwnerId dogs ownerId)).foldl
      (fun t f => f t) dogs = kept ownerId items newIds now dogs := by
  rw [replaceStatements, List.foldl_append, List.foldl_append, foldl_updates, foldl_insert]
  exact delete_eq dogs hfresh

theorem foldl_upsertStatements (hfresh : ∀ n, ∀ d ∈ db.dogProfiles, d.id ≠ newIds n)
    (h : upsertDogProfile db ownerId items newIds now = .ok db') :
    (upsertStatements ownerId items newIds now (getIdsByOwnerId db.dogProfiles ownerId)).foldl
      (fun t f => f t) db.dogProfiles = db'.dogProfiles := by
  rw [upsertStatements, List.foldl_append, foldl_replaceStatements _ hfresh,
    (upsertDogProfile_ok hfresh h).2]
  cases representative items (createMany ownerId items newIds now) with
  | none =>
    refine ((List.map_congr_left fun g _ => ?_).trans (List.map_id _)).symm
    simp [marked]
  | some dogId => exact setRepresentative_eq ..

theorem replaceStatements_oneRepresentative {existing : List Uuid}
    (hf : f ∈ replaceStatements ownerId items newIds now existing) (h : OneRepresentative t) :
    OneRepresentative (f t) := by
  rw [replaceStatements, List.mem_append, List.mem_append, List.mem_filterMap, List.mem_map,
    List.mem_singleton] at hf
  rcases hf with (⟨item, -, hf⟩ | ⟨g, hg, rfl⟩) | rfl
  · obtain ⟨dogId, -, rfl⟩ := Option.map_eq_some_iff.mp hf
    exact h.update (fun _ => rfl) fun _ => nofun
  · obtain ⟨n, item, -, -, -, hflag⟩ := mem_createMany hg
    exact h.append hflag
  · exact h.delete _

theorem states_oneRepresentative {dogs : List DogProfile} (hids : Table.Keyed DogProfile.id dogs)
    (hone : OneRepresentative dogs) (hinj : Function.Injective newIds)
    (hfresh : ∀ n, ∀ d ∈ dogs, d.id ≠ newIds n)
    (ht : t ∈ states (upsertStatements ownerId items newIds now (getIdsByOwnerId dogs ownerId))
      dogs) : OneRepresentative t := by
  have hreplace : ∀ t ∈ states (replaceStatements ownerId items newIds now
      (getIdsByOwnerId dogs ownerId)) dogs, OneRepresentative t :=
    fun t ht => states_inv (fun f hf t => replaceStatements_oneRepresentative hf) hone ht
  rw [upsertStatements, mem_states_append] at ht
  rcases ht with ht | ht
  · exact hreplace t ht
  · have hkept := hreplace _ (List.mem_of_getLast? (states_getLast _ _))
    rw [foldl_replaceStatements _ hfresh] at ht hkept
    cases hchosen : representative items (createMany ownerId items newIds now) with
    | none =>
      rw [hchosen] at ht
      rwa [List.mem_singleton.mp ht]
    | some dogId =>
      rw [hchosen] at ht
      have hlower := hkept.update (p := fun d => d.ownerId == ownerId)
        (f := fun d => { d with isRepresentative := false }) (fun _ => rfl) fun _ => nofun
      simp only [chooseStatements, states, List.mem_cons, List.not_mem_nil, or_false] at ht
      rcases ht with rfl | rfl | rfl
      · exact hkept
      · exact hlower
      · refine hlower.raise ?_ ?_ dogId now
        · exact (kept_keyed hids hinj hfresh ownerId items now).update fun _ => rfl
        · intro d hd ho
          obtain ⟨e, -, rfl⟩ := Table.mem_update.mp hd
          by_cases he : (e.ownerId == ownerId) = true
          · rw [if_pos he]
          · rw [if_neg he] at ho
            exact absurd (beq_iff_eq.mpr ho) he

end Statements

def twoDogs : Db where
  dogProfiles := [(50, true), (51, false)].map fun (id, flag) => {
    id := id, ownerId := 1, name := "보리", breed := "푸들", gender := .female, birthDate := 0,
    profileImageId := none, isRepresentative := flag, createdAt := 0, updatedAt := 0 }

def newDogs : List DogProfileUpsertItem :=
  [(some 51, "초코", true), (none, "바둑", true), (some 51, "두부", false)].map
    fun (id, name, flag) => {
      id := id, name := name, breed := "말티즈", gender := .male, birthDate := 0,
      profileImageId := none, isRepresentative := flag }

end DogService

end PuppyTalk
