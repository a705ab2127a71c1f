import PuppyTalk.CursorLists
import PuppyTalk.EditTransactions

namespace PuppyTalk

section Strip

theorem rdropWhile_cons (q : α → Bool) (c : α) (l : List α) :
    (c :: l).rdropWhile q =
      if l.rdropWhile q = [] ∧ q c = true then [] else c :: l.rdropWhile q := by
  simp only [List.rdropWhile, List.reverse_cons, List.dropWhile_append, List.isEmpty_iff,
    List.reverse_eq_nil_iff]
  by_cases hl : l.reverse.dropWhile q = []
  · cases hc : q c <;> simp [hl, hc]
  · simp [hl]

theorem rdropWhile_cons_of_neg {q : α → Bool} (hc : q c = false) (l : List α) :
    (c :: l).rdropWhile q = c :: l.rdropWhile q := by
  rw [rdropWhile_cons, if_neg]
  simp [hc]

theorem dropWhile_rdropWhile (p q : α → Bool) (l : List α) :
    (l.rdropWhile q).dropWhile p = (l.dropWhile p).rdropWhile q := by
  induction l with
  | nil => rfl
  | cons c l ih =>
    cases hp : p c with
    | false =>
      rw [List.dropWhile_cons_of_neg (by simp [hp]), rdropWhile_cons]
      split
      · rfl
      · rw [List.dropWhile_cons_of_neg (by simp [hp])]
    | true =>
      rw [List.dropWhile_cons_of_pos hp, ← ih, rdropWhile_cons]
      split
      next hnil =>
        rw [hnil.1]
      next => rw [List.dropWhile_cons_of_pos hp]

theorem stripChars_eq (l : List Char) :
    stripChars l = (l.dropWhile Python.isSpace).rdropWhile Python.isSpace := rfl

theorem stripChars_rdropWhile (l : List Char) :
    stripChars (l.rdropWhile Python.isSpace) = stripChars l := by
  rw [stripChars_eq, dropWhile_rdropWhile, stripChars_eq]
  exact List.rdropWhile_idempotent ..

theorem rdropWhile_eq (l : List Char) :
    ∃ m, (∀ c ∈ m, Python.isSpace c = true) ∧ l.rdropWhile Python.isSpace = m ++ stripChars l := by
  refine ⟨(l.rdropWhile Python.isSpace).takeWhile Python.isSpace, ?_, ?_⟩
  · exact fun c hc => List.mem_takeWhile_imp hc
  · rw [stripChars_eq, ← dropWhile_rdropWhile, List.takeWhile_append_dropWhile]

theorem stripChars_cons (hc : Python.isSpace c = false) (l : List Char) :
    stripChars (c :: l) = c :: l.rdropWhile Python.isSpace := by
  rw [stripChars_eq, List.dropWhile_cons_of_neg (by simp [hc]), rdropWhile_cons_of_neg hc]

end Strip

namespace Backend

/-- What `str.lower` does to the characters of names, and to marks and blanks in front of a text. -/
structure Lowers (lower : String → String) : Prop where
  name : ∀ s : String, (∀ c ∈ s.toList, hashtagAllowed c = true) → lower s = s
  mark : ∀ c l, c = '#' ∨ Python.isSpace c = true →
    (lower (String.ofList (c :: l))).toList = c :: (lower (String.ofList l)).toList

section Normalize

variable {lower : String → String}

def tagText (v : String) : List Char :=
  let s := stripChars v.toList
  if s.head? = some '#' then stripChars (s.drop 1) else s

theorem hashtagAllowed_iff : hashtagAllowed c = true ↔
    (48 ≤ c.toNat ∧ c.toNat ≤ 57 ∨ 97 ≤ c.toNat ∧ c.toNat ≤ 122) ∨
      0xAC00 ≤ c.toNat ∧ c.toNat ≤ 0xD7A3 ∨ c.toNat = 95 := by
  have hunder : c = '_' ↔ c.toNat = 95 := by
    rw [← Char.toNat_inj]
    rfl
  simp only [hashtagAllowed, Bool.or_eq_true, Bool.and_eq_true, decide_eq_true_iff, beq_iff_eq,
    hunder, Char.le_def, UInt32.le_iff_toNat_le]
  exact or_assoc

theorem isSpace_of_allowed (h : hashtagAllowed c = true) : Python.isSpace c = false := by
  rw [hashtagAllowed_iff] at h
  simp only [Python.isSpace, Bool.or_eq_false_iff, Bool.and_eq_false_iff, decide_eq_false_iff_not,
    beq_eq_false_iff_ne]
  omega

theorem hashtagAllowed_mark (h : c = '#' ∨ Python.isSpace c = true) : hashtagAllowed c = false := by
  rcases h with rfl | h
  · decide
  · rw [← Bool.not_eq_true]
    intro ha
    rw [isSpace_of_allowed ha] at h
    cases h

theorem startsWith_mark (s : String) : s.startsWith "#" = true ↔ s.toList.head? = some '#' := by
  rw [String.startsWith_string_iff]
  cases s.toList with
  | nil => simp
  | cons c l => simp [eq_comm]

theorem normalizeHashtag_toList (lower : String → String) (v : String) :
    (normalizeHashtag lower v).toList =
      ((lower (String.ofList (tagText v))).toList.filter hashtagAllowed).take 50 := by
  have htext : (if (Python.strip v).startsWith "#" then
        Python.strip (String.ofList ((Python.strip v).toList.drop 1)) else Python.strip v) =
      String.ofList (tagText v) := by
    apply String.toList_injective
    simp only [startsWith_mark, strip_toList, tagText, String.toList_ofList]
    split
    · rw [strip_toList, String.toList_ofList]
    · exact strip_toList v
  have hfilter (l : List Char) :
      (l.filter fun c => !Python.isSpace c).filter hashtagAllowed = l.filter hashtagAllowed := by
    rw [List.filter_filter]
    refine List.filter_congr fun c _ => ?_
    cases ha : hashtagAllowed c with
    | false => rfl
    | true => rw [isSpace_of_allowed ha]; rfl
  simp only [normalizeHashtag, htext, hfilter, String.toList_ofList]

theorem normalizeHashtag_allowed (lower : String → String) (v : String) :
    ∀ c ∈ (normalizeHashtag lower v).toList, hashtagAllowed c = true := by
  intro c hc
  rw [normalizeHashtag_toList] at hc
  exact (List.mem_filter.mp (List.mem_of_mem_take hc)).2

theorem normalizeHashtag_length (lower : String → String) (v : String) :
    (normalizeHashtag lower v).toList.length ≤ 50 := by
  rw [normalizeHashtag_toList, List.length_take]
  exact Nat.min_le_left ..

theorem normalizeHashtag_name (hlower : Lowers lower)
    (hall : ∀ c ∈ n.toList, hashtagAllowed c = true) (hlen : n.toList.length ≤ 50) :
    normalizeHashtag lower n = n := by
  have hplain : stripChars n.toList = n.toList :=
    stripChars_of_plain fun c hc => isSpace_of_allowed (hall c hc)
  have htext : tagText n = n.toList := by
    rw [tagText, hplain]
    refine if_neg fun hmark => ?_
    have hc := hall '#' (List.mem_of_mem_head? (Option.mem_def.mpr hmark))
    exact absurd hc (by decide)
  apply String.toList_injective
  rw [normalizeHashtag_toList, htext, String.ofList_toList, hlower.name n hall,
    List.filter_eq_self.mpr hall, List.take_of_length_le hlen]

theorem normalizeHashtags_snoc (lower : String → String) (raw : List String) (v : String) :
    normalizeHashtags lower (raw ++ [v]) =
      if normalizeHashtag lower v = "" ∨ normalizeHashtag lower v ∈ normalizeHashtags lower raw
      then normalizeHashtags lower raw
      else normalizeHashtags lower raw ++ [normalizeHashtag lower v] := by
  rw [normalizeHashtags, List.foldl_append]
  rfl

theorem mem_normalizeHashtags {raw : List String} :
    n ∈ normalizeHashtags lower raw ↔ n ≠ "" ∧ n ∈ raw.map (normalizeHashtag lower) := by
  induction raw using List.reverseRecOn with
  | nil => simp [normalizeHashtags]
  | append_singleton raw v ih =>
    rw [normalizeHashtags_snoc, List.map_append, List.map_singleton, List.mem_append,
      List.mem_singleton, and_or_left, ← ih]
    split
    next hskip =>
      refine (or_iff_left_of_imp ?_).symm
      rintro ⟨hne, rfl⟩
      exact hskip.resolve_left hne
    next hnew =>
      rw [List.mem_append, List.mem_singleton]
      refine or_congr_right ⟨fun he => ⟨?_, he⟩, fun he => he.2⟩
      exact he ▸ fun hempty => hnew (.inl hempty)

theorem normalizeHashtags_sorted (lower : String → String) (raw : List String) :
    (normalizeHashtags lower raw).Pairwise fun a b =>
      (raw.map (normalizeHashtag lower)).idxOf a < (raw.map (normalizeHashtag lower)).idxOf b := by
  induction raw using List.reverseRecOn with
  | nil => exact .nil
  | append_singleton raw v ih =>
    have hold : ∀ n ∈ normalizeHashtags lower raw,
        ((raw ++ [v]).map (normalizeHashtag lower)).idxOf n =
          (raw.map (normalizeHashtag lower)).idxOf n := by
      intro n hn
      rw [List.map_append]
      exact List.idxOf_append_of_mem (mem_normalizeHashtags.mp hn).2
    have hpairs := ih.imp_of_mem fun ha hb hab => (hold _ ha).symm ▸ (hold _ hb).symm ▸ hab
    rw [normalizeHashtags_snoc]
    split
    next => exact hpairs
    next hnew =>
      obtain ⟨hne, hnot⟩ := not_or.mp hnew
      have hfirst : normalizeHashtag lower v ∉ raw.map (normalizeHashtag lower) :=
        fun hmem => hnot (mem_normalizeHashtags.mpr ⟨hne, hmem⟩)
      refine List.pairwise_append.mpr ⟨hpairs, List.pairwise_singleton _ _, fun a ha b hb => ?_⟩
      rw [List.mem_singleton.mp hb, hold a ha, List.map_append,
        List.idxOf_append_of_notMem hfirst]
      exact (List.idxOf_lt_length_of_mem (mem_normalizeHashtags.mp ha).2).trans_le
        (Nat.le_add_right _ _)

theorem normalizeHashtags_nodup (lower : String → String) (raw : List String) :
    (normalizeHashtags lower raw).Nodup :=
  (normalizeHashtags_sorted lower raw).imp fun hlt he => (he ▸ hlt).ne rfl

theorem normalizeHashtags_names (names : List String) (hnodup : names.Nodup)
    (hnames : ∀ n ∈ names, normalizeHashtag lower n = n ∧ n ≠ "") :
    normalizeHashtags lower names = names := by
  induction names using List.reverseRecOn with
  | nil => rfl
  | append_singleton names n ih =>
    rw [List.nodup_append] at hnodup
    have hih := ih hnodup.1 fun m hm => hnames m (List.mem_append_left _ hm)
    obtain ⟨hname, hne⟩ := hnames n (List.mem_append_right _ List.mem_cons_self)
    have hnot : n ∉ names := fun hn => hnodup.2.2 n hn n List.mem_cons_self rfl
    rw [normalizeHashtags_snoc, hih, hname, if_neg (not_or.mpr ⟨hne, hnot⟩)]

theorem normalizeHashtags_idempotent (hlower : Lowers lower) (raw : List String) :
    normalizeHashtags lower (normalizeHashtags lower raw) = normalizeHashtags lower raw := by
  refine normalizeHashtags_names _ (normalizeHashtags_nodup lower raw) fun n hn => ?_
  obtain ⟨hne, hmem⟩ := mem_normalizeHashtags.mp hn
  obtain ⟨v, -, rfl⟩ := List.mem_map.mp hmem
  exact ⟨normalizeHashtag_name hlower (normalizeHashtag_allowed lower v)
    (normalizeHashtag_length lower v), hne⟩

end Normalize

section Search

open PuppyTalk.PostsRepository (ParsedSearch validateSearchQuery emptyHashtagMessage searchMatch
  hashtagMatchExists getAllPosts postVisible)

def tagQuery (r : String) : String := if r.startsWith "#" then r else "#" ++ r

def bareTag (r : String) : String := String.ofList (stripChars (r.toList.dropWhile (· == '#')))

variable {u : Unicode} {r : String}

theorem tagQuery_toList (r : String) :
    ∃ l, (tagQuery r).toList = '#' :: l ∧
      l.dropWhile (· == '#') = r.toList.dropWhile (· == '#') := by
  by_cases hmark : r.startsWith "#" = true
  · rw [tagQuery, if_pos hmark]
    rw [startsWith_mark] at hmark
    cases hr : r.toList with
    | nil =>
      rw [hr] at hmark
      cases hmark
    | cons c l =>
      rw [hr] at hmark
      cases hmark
      exact ⟨l, rfl, (List.dropWhile_cons_of_pos rfl).symm⟩
  · rw [tagQuery, if_neg hmark, String.toList_append]
    exact ⟨r.toList, rfl, rfl⟩

theorem validateSearchQuery_tagQuery (u : Unicode) (r : String) :
    validateSearchQuery u (some (tagQuery r)) =
      if u.lower (bareTag r) = "" then .error (.invalidRequest emptyHashtagMessage)
      else .ok (some { tag := some (u.lower (bareTag r)), tokens := [] }) := by
  obtain ⟨l, hquery, hdrop⟩ := tagQuery_toList r
  have hstrip : (Python.strip (tagQuery r)).toList = '#' :: l.rdropWhile Python.isSpace := by
    rw [strip_toList, hquery, stripChars_cons (by decide)]
  have hne : Python.strip (tagQuery r) ≠ "" := by
    intro he
    rw [he] at hstrip
    cases hstrip
  have hbare : Python.strip (String.ofList
      ((Python.strip (tagQuery r)).toList.dropWhile (· == '#'))) = bareTag r := by
    apply String.toList_injective
    rw [strip_toList, String.toList_ofList, hstrip, List.dropWhile_cons_of_pos (by rfl),
      dropWhile_rdropWhile, stripChars_rdropWhile, hdrop, bareTag, String.toList_ofList]
  have hhead : (Python.strip (tagQuery r)).toList.head? = some '#' := by
    rw [hstrip]
    rfl
  simp only [validateSearchQuery, Option.getD_some, if_neg hne, if_pos hhead, hbare]

theorem filter_lower_append (hlower : Lowers lower) (m l : List Char)
    (hm : ∀ c ∈ m, c = '#' ∨ Python.isSpace c = true) :
    (lower (String.ofList (m ++ l))).toList.filter hashtagAllowed =
      (lower (String.ofList l)).toList.filter hashtagAllowed := by
  induction m with
  | nil => rfl
  | cons c m ih =>
    have hc := hm c List.mem_cons_self
    rw [List.cons_append, hlower.mark c _ hc,
      List.filter_cons_of_neg (by simp [hashtagAllowed_mark hc])]
    exact ih fun c hc => hm c (List.mem_cons_of_mem _ hc)

theorem rdropWhile_marks (l : List Char) :
    ∃ m, (∀ c ∈ m, c = '#' ∨ Python.isSpace c = true) ∧
      l.rdropWhile Python.isSpace = m ++ stripChars (l.dropWhile (· == '#')) := by
  induction l with
  | nil => exact ⟨[], nofun, rfl⟩
  | cons c l ih =>
    by_cases hc : c = '#'
    · subst hc
      obtain ⟨m, hm, he⟩ := ih
      refine ⟨'#' :: m, ?_, ?_⟩
      · intro c hc
        rcases List.mem_cons.mp hc with rfl | hc
        · exact .inl rfl
        · exact hm c hc
      · rw [rdropWhile_cons_of_neg (by decide), he, List.dropWhile_cons_of_pos rfl,
          List.cons_append]
    · obtain ⟨m, hm, he⟩ := rdropWhile_eq (c :: l)
      refine ⟨m, fun c hc => .inr (hm c hc), ?_⟩
      rw [he, List.dropWhile_cons_of_neg (by simpa using hc)]

/-- The two normalisers read the same text up to marks and blanks in front of it, unless a mark
stands behind leading blanks. -/
theorem tagText_cases (r : String) :
    (∃ m, (∀ c ∈ m, c = '#' ∨ Python.isSpace c = true) ∧ tagText r = m ++ (bareTag r).toList) ∨
      (bareTag r).toList.head? = some '#' := by
  rw [bareTag, String.toList_ofList]
  by_cases hmark : r.toList.head? = some '#'
  · left
    obtain ⟨l, hr⟩ : ∃ l, r.toList = '#' :: l := List.head?_eq_some_iff.mp hmark
    have htext : tagText r = stripChars l := by
      rw [tagText, hr, stripChars_cons (by decide), List.head?_cons, if_pos rfl, List.drop_one,
        List.tail_cons, stripChars_rdropWhile]
    rw [htext, hr, List.dropWhile_cons_of_pos rfl]
    -- behind the first mark there may be more of them
    by_cases hmore : l.head? = some '#'
    · obtain ⟨l', rfl⟩ := List.head?_eq_some_iff.mp hmore
      rw [stripChars_cons (by decide), ← rdropWhile_cons_of_neg (by decide)]
      exact rdropWhile_marks _
    · have hkeep : l.dropWhile (· == '#') = l := by
        cases l with
        | nil => rfl
        | cons c l => exact List.dropWhile_cons_of_neg (by simpa using hmore)
      exact ⟨[], nofun, by rw [hkeep, List.nil_append]⟩
  · have hkeep : r.toList.dropWhile (· == '#') = r.toList := by
      cases hr : r.toList with
      | nil => rfl
      | cons c l =>
        rw [hr] at hmark
        exact List.dropWhile_cons_of_neg (by simpa using hmark)
    rw [hkeep]
    by_cases hblank : (stripChars r.toList).head? = some '#'
    · exact .inr hblank
    · exact .inl ⟨[], nofun, if_neg hblank⟩

def Plain (lower : String → String) (r : String) : Prop :=
  (∀ c ∈ (lower (bareTag r)).toList, hashtagAllowed c = true) ∧
    (lower (bareTag r)).toList.length ≤ 50

theorem lower_eq_normalize_iff (hlower : Lowers lower) (r : String)
    (hne : normalizeHashtag lower r ≠ "") :
    (lower (bareTag r) = normalizeHashtag lower r ∧ lower (bareTag r) ≠ "") ↔ Plain lower r := by
  constructor
  · rintro ⟨he, -⟩
    unfold Plain
    rw [he]
    exact ⟨normalizeHashtag_allowed lower r, normalizeHashtag_length lower r⟩
  · rintro ⟨hall, hlen⟩
    rcases tagText_cases r with ⟨m, hm, htext⟩ | hmark
    · have he : normalizeHashtag lower r = lower (bareTag r) := by
        apply String.toList_injective
        rw [normalizeHashtag_toList, htext, filter_lower_append hlower m _ hm,
          String.ofList_toList, List.filter_eq_self.mpr hall, List.take_of_length_le hlen]
      exact ⟨he.symm, he ▸ hne⟩
    · -- the mark behind the blanks stays in the search and is not allowed in a name
      obtain ⟨l, hl⟩ := List.head?_eq_some_iff.mp hmark
      have hlow := hlower.mark '#' l (.inl rfl)
      rw [← hl, String.ofList_toList] at hlow
      rw [hlow] at hall
      exact absurd (hall '#' List.mem_cons_self) (by decide)

/-- The post can be found under the raw tag: the query is read as a search for its name, and every
visible post that has the names of a list with the tag in it is in the answer. -/
def FoundBy (u : Unicode) (r : String) : Prop :=
  ∃ search, validateSearchQuery u (some (tagQuery r)) = .ok (some search) ∧
    search = { tag := some (normalizeHashtag u.lower r), tokens := [] } ∧
    ∀ (raw : List String) (d : Store) (viewer : Option Uuid), r ∈ raw → ∀ p ∈ d.posts,
      postVisible d.toDb viewer p = true →
      (∀ n ∈ normalizeHashtags u.lower raw, { postId := p.id, hashtag := n } ∈ d.postHashtags) →
      p ∈ getAllPosts u d d.posts.length none (some search) none viewer

theorem mem_getAllPosts {search : Option ParsedSearch} {d : Store} {viewer : Option Uuid}
    (hp : p ∈ d.posts) (hv : postVisible d.toDb viewer p = true)
    (hs : searchMatch u d search p = true) :
    p ∈ getAllPosts u d d.posts.length none search none viewer := by
  rw [getAllPosts, List.take_of_length_le, Paging.mem_orderBy, List.mem_filter]
  · exact ⟨hp, by simp [hv, hs]⟩
  · rw [Paging.length_orderBy]
    exact (List.length_filter_le _ _).trans (Nat.le_succ _)

/-- A post is found by its own hashtag exactly if the raw tag, without the marks in front of it and
the blanks around it, is in lower case a text that a name may hold. -/
theorem foundBy_iff (u : Unicode) (hlower : Lowers u.lower) (r : String)
    (hne : normalizeHashtag u.lower r ≠ "") : FoundBy u r ↔ Plain u.lower r := by
  rw [← lower_eq_normalize_iff hlower r hne, FoundBy, validateSearchQuery_tagQuery]
  constructor
  · rintro ⟨search, hquery, rfl, -⟩
    split at hquery
    next => cases hquery
    next hbare =>
      have htag := congrArg ParsedSearch.tag (Option.some.inj (Except.ok.inj hquery))
      exact ⟨Option.some.inj htag, hbare⟩
  · rintro ⟨he, hbare⟩
    rw [if_neg hbare]
    refine ⟨_, rfl, by rw [he], fun raw d viewer hr p hp hv hlinks => mem_getAllPosts hp hv ?_⟩
    have hname : normalizeHashtag u.lower r ∈ normalizeHashtags u.lower raw :=
      mem_normalizeHashtags.mpr ⟨hne, List.mem_map_of_mem hr⟩
    simp only [searchMatch, hashtagMatchExists, List.any_eq_true]
    exact ⟨_, hlinks _ hname, by simp [he]⟩

def asciiText : Unicode where
  lower := Python.lower
  isDigit := Char.isDigit
  fold := Char.toLower

theorem toLower_of_not_upper {c : Char} (h : c.toNat < 65 ∨ 90 < c.toNat) : c.toLower = c := by
  have hnot : ¬ ('A'.val ≤ c.val ∧ c.val ≤ 'Z'.val) := by
    rintro ⟨ha, hz⟩
    rw [UInt32.le_iff_toNat_le] at ha hz
    have ha' : 65 ≤ c.toNat := ha
    have hz' : c.toNat ≤ 90 := hz
    omega
  unfold Char.toLower
  split
  next hup => exact absurd hup hnot
  next => rfl

theorem lowers_ascii : Lowers Python.lower where
  name s hall := by
    apply String.toList_injective
    rw [Python.lower, String.toList_ofList]
    refine (List.map_congr_left fun c hc => ?_).trans (List.map_id _)
    have hc' := hashtagAllowed_iff.mp (hall c hc)
    exact toLower_of_not_upper (by omega)
  mark c l hc := by
    have hkeep : c.toLower = c := by
      rcases hc with rfl | hc
      · rfl
      · simp only [Python.isSpace, Bool.or_eq_true, Bool.and_eq_true, decide_eq_true_iff,
          beq_iff_eq] at hc
        exact toLower_of_not_upper (by omega)
    simp only [Python.lower, String.toList_ofList, List.map_cons, hkeep]

theorem plain_sample : Plain asciiText.lower "##Walk" := by
  have hlower : asciiText.lower (bareTag "##Walk") = "walk" := by decide +kernel
  have hallowed : "walk".toList.all hashtagAllowed = true := by decide +kernel
  unfold Plain
  rw [hlower]
  exact ⟨List.all_eq_true.mp hallowed, by decide⟩

theorem foundBy_iff_ascii : FoundBy asciiText "##Walk" := by
  have hne : normalizeHashtag asciiText.lower "##Walk" ≠ "" := by decide +kernel
  exact (foundBy_iff asciiText lowers_ascii "##Walk" hne).mpr plain_sample

/-- The blank inside the tag is dropped for the name and kept for the search. -/
theorem foundBy_diverges :
    normalizeHashtags Python.lower ["산책 코스"] = ["산책코스"] ∧
      validateSearchQuery asciiText (some (tagQuery "산책 코스")) =
        .ok (some { tag := some "산책 코스", tokens := [] }) := by
  decide +kernel

end Search

end Backend

end PuppyTalk
