import PuppyTalk.Python
import PuppyTalk.UuidText

namespace PuppyTalk

/-- What Python's Unicode tables say of `\w` and `str.lower`; on ASCII they are fixed. -/
structure UnicodeTables where
  isWord : Char → Bool
  lower : String → String
  isWord_ascii : ∀ c : Char, c.toNat < 128 → isWord c = (c.isAlphanum || c == '_')
  lower_ascii : ∀ s : String, (∀ c ∈ s.toList, c.toNat < 128) → lower s = Python.lower s

/-- `str.lstrip("/")`. -/
def Python.lstripSlash (s : String) : String := String.ofList (s.toList.dropWhile (· = '/'))

namespace Storage

def mediaPrefix : String := "media/"

def pendingKeyPrefix : String := "pending/"

/-- The loop of `_strip_redundant_media_prefixes`. -/
def dropMedia (k : List Char) : List Char :=
  if mediaPrefix.toList <+: k then dropMedia ((k.drop 6).dropWhile (· = '/')) else k
termination_by k.length
decreasing_by
  rename_i h
  have hlen := h.length_le
  have hdrop := (List.dropWhile_sublist (· = '/') (l := k.drop 6)).length_le
  simp only [mediaPrefix, String.length_toList, List.length_drop] at hlen hdrop ⊢
  have : "media/".length = 6 := rfl
  omega

def stripRedundantMediaPrefixes (key : String) : String :=
  String.ofList (dropMedia (Python.lstripSlash (Python.strip key)).toList)

/-- `_s3_object_key`, which raises on a key without a body. -/
def s3ObjectKey (key : String) : Option String :=
  let body := stripRedundantMediaPrefixes key
  if body = "" then none else some (mediaPrefix ++ body)

/-- `[0-9a-f]`. -/
def isHex (c : Char) : Bool := ('0' ≤ c && c ≤ '9') || ('a' ≤ c && c ≤ 'f')

/-- `[\w.\-]`. -/
def isNameChar (T : UnicodeTables) (c : Char) : Bool := T.isWord c || c == '.' || c == '-'

/-- `_PENDING_KEY_RE` up to its last class, one class for each character. -/
def pendingKeyClasses : List (Char → Bool) :=
  pendingKeyPrefix.toList.map (fun x c => c == x) ++
    (List.replicate 8 isHex ++ (· == '-') :: (List.replicate 4 isHex ++ (· == '-') :: (· == '7') ::
      (List.replicate 3 isHex ++ (· == '-') :: (fun c => "89ab".toList.contains c) ::
        (List.replicate 3 isHex ++ (· == '-') :: (List.replicate 12 isHex ++ [(· == '/')])))))

def matchClasses : List (Char → Bool) → List Char → Option (List Char)
  | [], l => some l
  | p :: ps, c :: l => if p c then matchClasses ps l else none
  | _ :: _, [] => none

/-- `_PENDING_KEY_RE.fullmatch`. -/
def pendingKeyMatches (T : UnicodeTables) (k : String) : Bool :=
  match matchClasses pendingKeyClasses k.toList with
  | some rest => !rest.isEmpty && rest.all (isNameChar T)
  | none => false

def isValidPendingFileKey (T : UnicodeTables) (fileKey : String) : Bool :=
  pendingKeyMatches T (Python.lstripSlash (Python.strip fileKey))

end Storage

namespace ImagePolicy

inductive UploadError where
  | invalidFileType
  | invalidImageFile
  | storageError
  deriving DecidableEq, Repr

def contentTypeExt (ct : String) : Option String :=
  if ct = "image/jpeg" then some "jpg"
  else if ct = "image/png" then some "png"
  else if ct = "image/webp" then some "webp"
  else none

def normalizeContentType (T : UnicodeTables) (contentType : String) : String :=
  T.lower (Python.strip (String.ofList (contentType.toList.takeWhile (· ≠ ';'))))

/-- `validate_image_content_type`; `allowed` is `ALLOWED_IMAGE_TYPES`. -/
def validateImageContentType (T : UnicodeTables) (allowed : List String) (contentType : String) :
    Except UploadError String :=
  let ct := normalizeContentType T contentType
  if ct ∈ allowed ∧ (contentTypeExt ct).isSome then .ok ct else .error .invalidFileType

def basename (path : String) : String := String.ofList (path.toList.rtakeWhile (· ≠ '/'))

/-- `base.rsplit(".", 1)[0]`. -/
def beforeLastDot (base : List Char) : List Char :=
  if '.' ∈ base then (base.rdropWhile (· ≠ '.')).dropLast else base

/-- `re.sub(r"[^\w.\-]", "_", ...)[:100]`. -/
def safeChars (T : UnicodeTables) (l : List Char) : List Char :=
  (l.map fun c => if Storage.isNameChar T c then c else '_').take 100

def stemOf (T : UnicodeTables) (base : String) : String :=
  if safeChars T (beforeLastDot base.toList) = [] then "upload"
  else String.ofList (safeChars T (beforeLastDot base.toList))

def sanitizePresignFilename (T : UnicodeTables) (allowed : List String)
    (filename contentType : String) : Except UploadError String := do
  let ct ← validateImageContentType T allowed contentType
  let base := basename (Python.strip filename)
  if base = "" ∨ base = "." ∨ base = ".." then throw .invalidImageFile
  pure (stemOf T base ++ "." ++ (contentTypeExt ct).getD "")

def buildPendingFileKey (uploadId : Uuid) (filename : String) : String :=
  Storage.pendingKeyPrefix ++ uploadId.text ++ "/" ++ filename

end ImagePolicy

namespace MediaService

open ImagePolicy Storage

structure PresignUploadResponse where
  url : String
  fields : List (String × String)
  fileKey : String
  deriving DecidableEq, Repr

/-- `issue_presigned_upload`; `presignedPost` is what S3 answers for an object key and a content
type, `none` if it raises, and `uploadId` is what `new_uuid7` returns. -/
def issuePresignedUpload (T : UnicodeTables) (allowed : List String)
    (presignedPost : String → String → Option (String × List (String × String))) (uploadId : Uuid)
    (filename contentType : String) : Except UploadError PresignUploadResponse := do
  let contentType ← validateImageContentType T allowed contentType
  let safeName ← sanitizePresignFilename T allowed filename contentType
  let fileKey := buildPendingFileKey uploadId safeName
  match (s3ObjectKey fileKey).bind fun key => presignedPost key contentType with
  | none => throw .storageError
  | some (url, fields) => pure { url := url, fields := fields, fileKey := fileKey }

/-- The `file_key` of a confirm request, after its validation. -/
def confirmFileKey (v : String) : Option String :=
  if 1 ≤ Python.len v ∧ Python.len v ≤ 255 then
    let k := Python.lstripSlash (Python.strip v)
    if k = "" then none else some k
  else none

/-- `_reserved_upload` up to the check of its key. -/
def reservedUploadKey (T : UnicodeTables) (fileKey : String) : Option String :=
  let key := Python.lstripSlash (Python.strip fileKey)
  if isValidPendingFileKey T key then some key else none

end MediaService

/-! ### Pending keys -/

structure IsUuid7 (u : Uuid) : Prop where
  lt : u < 2 ^ 128
  version : u / 2 ^ 76 % 16 = 7
  variant : u / 2 ^ 62 % 4 = 2

namespace Storage

theorem matchClasses_append {ps : List (Char → Bool)} (h : matchClasses ps l = some [])
    (qs : List (Char → Bool)) (m : List Char) :
    matchClasses (ps ++ qs) (l ++ m) = matchClasses qs m := by
  induction ps generalizing l with
  | nil =>
    cases h
    rfl
  | cons p ps ih =>
    cases l with
    | nil => cases h
    | cons c l =>
      simp only [matchClasses] at h
      split at h
      · rename_i hc
        simp only [List.cons_append, matchClasses, if_pos hc]
        exact ih h
      · cases h

theorem matchClasses_cons {p : Char → Bool} (h : p c = true) (ps : List (Char → Bool))
    (l : List Char) : matchClasses (p :: ps) (c :: l) = matchClasses ps l := if_pos h

theorem matchClasses_replicate {p : Char → Bool} (hp : ∀ c ∈ l, p c = true) :
    matchClasses (List.replicate l.length p) l = some [] := by
  induction l with
  | nil => rfl
  | cons c l ih =>
    rw [List.length_cons, List.replicate_succ, matchClasses_cons (hp c List.mem_cons_self)]
    exact ih fun d hd => hp d (List.mem_cons_of_mem _ hd)

theorem matchClasses_literal (t : List Char) :
    matchClasses (t.map fun x c => c == x) t = some [] := by
  induction t with
  | nil => rfl
  | cons c t ih =>
    rw [List.map_cons, matchClasses_cons (p := fun d => d == c) (beq_self_eq_true c)]
    exact ih

theorem isHex_digitChar : ∀ d < 16, isHex (Nat.digitChar d) = true := by
  decide

theorem hexDigits_isHex (k n : Nat) : ∀ c ∈ hexDigits k n, isHex c = true := by
  intro c hc
  obtain ⟨d, hd, rfl⟩ := hexDigits_mem k n c hc
  exact isHex_digitChar d hd

theorem matchClasses_hexDigits (k n : Nat) (qs : List (Char → Bool)) (m : List Char) :
    matchClasses (List.replicate k isHex ++ qs) (hexDigits k n ++ m) = matchClasses qs m := by
  have h := matchClasses_replicate (hexDigits_isHex k n)
  rw [hexDigits_length] at h
  exact matchClasses_append h qs m

theorem variant_places (x : Nat) (h : x / 4 % 4 = 2) : x % 16 / 4 = 2 := by
  omega

theorem variant_digit : ∀ d < 16, d / 4 = 2 → "89ab".toList.contains (Nat.digitChar d) = true := by
  decide

theorem matchClasses_pending (h : IsUuid7 u) (name : List Char) :
    matchClasses pendingKeyClasses
      (pendingKeyPrefix.toList ++ ((Uuid.text u).toList ++ '/' :: name)) = some name := by
  have hversion : hexDigits 4 (u / 16 ^ 16) = '7' :: hexDigits 3 (u / 16 ^ 16) := by
    rw [hexDigits_add 1 3]
    have hd : u / 16 ^ 16 / 16 ^ 3 % 16 = 7 := by
      rw [Nat.div_div_eq_div_mul]
      exact h.version
    simp only [hexDigits, hd]
    rfl
  have hvariant : ∃ d, d < 16 ∧ d / 4 = 2 ∧
      hexDigits 4 (u / 16 ^ 12) = Nat.digitChar d :: hexDigits 3 (u / 16 ^ 12) := by
    refine ⟨u / 16 ^ 12 / 16 ^ 3 % 16, Nat.mod_lt _ (by decide), ?_, ?_⟩
    · refine variant_places _ ?_
      rw [Nat.div_div_eq_div_mul, Nat.div_div_eq_div_mul]
      exact h.variant
    · rw [hexDigits_add 1 3]
      rfl
  obtain ⟨d, hd, hd4, hvariant⟩ := hvariant
  rw [Uuid.text_groups h.lt, hversion, hvariant]
  unfold pendingKeyClasses
  simp only [List.append_assoc, List.cons_append]
  rw [matchClasses_append (matchClasses_literal _), matchClasses_hexDigits, matchClasses_cons rfl,
    matchClasses_hexDigits, matchClasses_cons rfl, matchClasses_cons rfl, matchClasses_hexDigits,
    matchClasses_cons rfl, matchClasses_cons (variant_digit d hd hd4), matchClasses_hexDigits,
    matchClasses_cons rfl, matchClasses_hexDigits]
  rfl

theorem lstripSlash_toList (s : String) :
    (Python.lstripSlash s).toList = s.toList.dropWhile (· = '/') := String.toList_ofList

theorem strip_lstrip_eq_self {s : String} (hhead : ∀ c ∈ s.toList.head?, Python.isSpace c = false ∧ c ≠ '/')
    (hlast : ∀ c ∈ s.toList.getLast?, Python.isSpace c = false) :
    Python.lstripSlash (Python.strip s) = s := by
  have hstrip : Python.strip s = s := by
    apply String.toList_injective
    rw [strip_toList, stripChars_eq_self (fun c hc => (hhead c hc).1) hlast]
  apply String.toList_injective
  rw [hstrip, lstripSlash_toList]
  cases hs : s.toList with
  | nil => rfl
  | cons c l =>
    refine List.dropWhile_cons_of_neg ?_
    simpa using (hhead c (by rw [hs]; rfl)).2

theorem isNameChar_ascii (T : UnicodeTables) (hc : c.toNat < 128) :
    isNameChar T c = (c.isAlphanum || c == '_' || c == '.' || c == '-') := by
  rw [isNameChar, T.isWord_ascii c hc]

theorem not_isNameChar_slash (T : UnicodeTables) : isNameChar T '/' = false := by
  rw [isNameChar_ascii T (by decide)]
  decide

end Storage

namespace ImagePolicy

open Storage

theorem contentTypeExt_chars (h : contentTypeExt ct = some ext) :
    ext.toList ≠ [] ∧ ext.toList.length ≤ 4 ∧
      ∀ c ∈ ext.toList, c.toNat < 128 ∧ c.isAlphanum = true ∧ Python.isSpace c = false := by
  unfold contentTypeExt at h
  split at h
  · cases h
    simp [Python.isSpace]
  split at h
  · cases h
    simp [Python.isSpace]
  split at h
  · cases h
    simp [Python.isSpace]
  · cases h

theorem safeChars_spec (T : UnicodeTables) (l : List Char) :
    (safeChars T l).length ≤ 100 ∧ ∀ c ∈ safeChars T l, isNameChar T c = true := by
  refine ⟨List.length_take_le _ _, fun c hc => ?_⟩
  obtain ⟨d, -, rfl⟩ := List.mem_map.mp (List.mem_of_mem_take hc)
  split
  · assumption
  · rw [isNameChar_ascii T (by decide)]
    rfl

theorem stemOf_spec (T : UnicodeTables) (base : String) :
    (stemOf T base).toList.length ≤ 100 ∧ ∀ c ∈ (stemOf T base).toList, isNameChar T c = true := by
  unfold stemOf
  split
  · refine ⟨by decide, fun c hc => ?_⟩
    have hascii : ∀ c ∈ "upload".toList, c.toNat < 128 ∧ c.isAlphanum = true := by simp
    rw [isNameChar_ascii T (hascii c hc).1, (hascii c hc).2]
    rfl
  · rw [String.toList_ofList]
    exact safeChars_spec T _

theorem validateImageContentType_eq_ok
    (h : validateImageContentType T allowed contentType = .ok ct) :
    ct = normalizeContentType T contentType ∧ ∃ ext, contentTypeExt ct = some ext := by
  unfold validateImageContentType at h
  simp only at h
  split at h
  · rename_i hct
    cases h
    exact ⟨rfl, Option.isSome_iff_exists.mp hct.2⟩
  · cases h

theorem normalizeContentType_of_ext (T : UnicodeTables) (h : contentTypeExt ct = some ext) :
    normalizeContentType T ct = ct := by
  have hcases : ct = "image/jpeg" ∨ ct = "image/png" ∨ ct = "image/webp" := by
    by_contra hne
    simp only [not_or] at hne
    simp [contentTypeExt, hne] at h
  have hself {s : String} (htake : s.toList.takeWhile (· ≠ ';') = s.toList)
      (hplain : ∀ c ∈ s.toList, Python.isSpace c = false) (hascii : ∀ c ∈ s.toList, c.toNat < 128)
      (hlower : Python.lower s = s) : normalizeContentType T s = s := by
    rw [normalizeContentType, htake, String.ofList_toList, strip_of_plain hplain,
      T.lower_ascii s hascii, hlower]
  rcases hcases with rfl | rfl | rfl
  · exact hself (by simp) (by simp [Python.isSpace]) (by simp) (by decide)
  · exact hself (by simp) (by simp [Python.isSpace]) (by simp) (by decide)
  · exact hself (by simp) (by simp [Python.isSpace]) (by simp) (by decide)

theorem sanitizePresignFilename_spec
    (h : sanitizePresignFilename T allowed filename contentType = .ok name) :
    ∃ stem ext, contentTypeExt (normalizeContentType T contentType) = some ext ∧
      name = stem ++ "." ++ ext ∧ name.toList.length ≤ 105 ∧
      ∀ c ∈ name.toList, isNameChar T c = true := by
  unfold sanitizePresignFilename at h
  cases hv : validateImageContentType T allowed contentType with
  | error e =>
    rw [hv] at h
    cases h
  | ok ct =>
    obtain ⟨rfl, ext, hext⟩ := validateImageContentType_eq_ok hv
    simp only [hv, bind, Except.bind] at h
    split at h
    · cases h
    simp only [hext, Option.getD_some, pure, Except.pure, Except.ok.injEq] at h
    subst h
    obtain ⟨-, hlen, hchars⟩ := contentTypeExt_chars hext
    obtain ⟨hstem, hname⟩ := stemOf_spec T (basename (Python.strip filename))
    refine ⟨_, ext, hext, rfl, ?_, fun c hc => ?_⟩
    · simp only [String.toList_append, List.length_append]
      have hdot : ".".toList.length = 1 := rfl
      omega
    · simp only [String.toList_append, List.mem_append] at hc
      rcases hc with (hc | hc) | hc
      · exact hname c hc
      · obtain rfl : c = '.' := by simpa using hc
        rw [isNameChar_ascii T (by decide)]
        rfl
      · rw [isNameChar_ascii T (hchars c hc).1, (hchars c hc).2.1]
        rfl

end ImagePolicy

/-! ### Object keys -/

namespace Storage

theorem dropMedia_spec (k : List Char) :
    ¬ mediaPrefix.toList <+: dropMedia k ∧ dropMedia k <:+ k ∧
      ((∀ c ∈ k.head?, c ≠ '/') → ∀ c ∈ (dropMedia k).head?, c ≠ '/') := by
  fun_induction dropMedia k with
  | case1 k h ih =>
    obtain ⟨hpre, hsuf, hhead⟩ := ih
    refine ⟨hpre, hsuf.trans ((List.dropWhile_suffix _).trans (List.drop_suffix _ _)), fun _ => ?_⟩
    refine hhead fun c hc => ?_
    simpa using dropWhile_head hc
  | case2 k h => exact ⟨h, List.suffix_refl k, id⟩

theorem dropMedia_of_not (h : ¬ mediaPrefix.toList <+: k) : dropMedia k = k := by
  rw [dropMedia, if_neg h]

theorem dropMedia_prefix (h : ¬ mediaPrefix.toList <+: body) (hhead : ∀ c ∈ body.head?, c ≠ '/') :
    dropMedia (mediaPrefix.toList ++ body) = body := by
  rw [dropMedia, if_pos (List.prefix_append _ _)]
  have hdrop : (mediaPrefix.toList ++ body).drop 6 = body := List.drop_left' rfl
  have hslash : body.dropWhile (· = '/') = body := by
    cases body with
    | nil => rfl
    | cons c l => exact List.dropWhile_cons_of_neg (by simpa using hhead c rfl)
  rw [hdrop, hslash, dropMedia_of_not h]

theorem stripRedundantMediaPrefixes_toList (key : String) :
    (stripRedundantMediaPrefixes key).toList =
      dropMedia ((stripChars key.toList).dropWhile (· = '/')) := by
  rw [stripRedundantMediaPrefixes, String.toList_ofList, lstripSlash_toList, strip_toList]

theorem getLast_of_suffix {a b : List Char} (h : a <:+ b) (hc : c ∈ a.getLast?) : c ∈ b.getLast? := by
  obtain ⟨t, rfl⟩ := h
  rw [List.getLast?_append, Option.mem_def.mp hc]
  rfl

theorem s3ObjectKey_spec (h : s3ObjectKey key = some o) :
    ∃ body, o = mediaPrefix ++ body ∧ ¬ mediaPrefix.toList <+: body.toList ∧
      s3ObjectKey o = some o := by
  unfold s3ObjectKey at h
  simp only at h
  split at h
  · cases h
  rename_i hne
  cases h
  have hbody := stripRedundantMediaPrefixes_toList key
  obtain ⟨hpre, hsuf, hhead⟩ := dropMedia_spec ((stripChars key.toList).dropWhile (· = '/'))
  rw [← hbody] at hpre hsuf hhead
  have hslash : ∀ c ∈ (stripRedundantMediaPrefixes key).toList.head?, c ≠ '/' :=
    hhead fun c hc => by simpa using dropWhile_head hc
  have hlast : ∀ c ∈ (stripRedundantMediaPrefixes key).toList.getLast?, Python.isSpace c = false :=
    fun c hc => stripChars_getLast _ c
      (getLast_of_suffix (hsuf.trans (List.dropWhile_suffix _)) hc)
  refine ⟨_, rfl, hpre, ?_⟩
  generalize stripRedundantMediaPrefixes key = body at *
  have hself : Python.lstripSlash (Python.strip (mediaPrefix ++ body)) = mediaPrefix ++ body := by
    refine strip_lstrip_eq_self (fun c hc => ?_) fun c hc => ?_
    · obtain rfl : 'm' = c := by simpa [mediaPrefix] using hc
      decide
    · rw [String.toList_append, List.getLast?_append] at hc
      cases hb : body.toList.getLast? with
      | none => exact absurd (String.toList_eq_nil_iff.mp (List.getLast?_eq_none_iff.mp hb)) hne
      | some d =>
        rw [hb] at hc
        exact hlast c (hb.trans hc)
  have hagain : stripRedundantMediaPrefixes (mediaPrefix ++ body) = body := by
    rw [stripRedundantMediaPrefixes, hself, String.toList_append, dropMedia_prefix hpre hslash,
      String.ofList_toList]
  unfold s3ObjectKey
  simp only [hagain, if_neg hne]

end Storage

namespace MediaService

open ImagePolicy Storage

theorem issuePresignedUpload_spec
    (h : issuePresignedUpload T allowed presignedPost uploadId filename contentType = .ok resp) :
    ∃ name ext, resp.fileKey = buildPendingFileKey uploadId name ∧
      contentTypeExt (normalizeContentType T contentType) = some ext ∧
      (∃ stem, name = stem ++ "." ++ ext) ∧ name.toList.length ≤ 105 ∧
      ∀ c ∈ name.toList, isNameChar T c = true := by
  unfold issuePresignedUpload at h
  cases hv : validateImageContentType T allowed contentType with
  | error e =>
    rw [hv] at h
    cases h
  | ok ct =>
    obtain ⟨rfl, ext, hext⟩ := validateImageContentType_eq_ok hv
    cases hs : sanitizePresignFilename T allowed filename (normalizeContentType T contentType) with
    | error e =>
      simp only [hv, hs, bind, Except.bind] at h
      cases h
    | ok name =>
      obtain ⟨stem, ext', hext', hname, hlen, hchars⟩ := sanitizePresignFilename_spec hs
      rw [normalizeContentType_of_ext T hext, hext] at hext'
      cases hext'
      simp only [hv, hs, bind, Except.bind] at h
      refine ⟨name, ext, ?_, hext, ⟨stem, hname⟩, hlen, hchars⟩
      split at h
      · cases h
      · simp only [pure, Except.pure, Except.ok.injEq] at h
        rw [← h]

theorem pendingFileKey_strip (u : Uuid) (stem : String) (h : contentTypeExt ct = some ext) :
    Python.lstripSlash (Python.strip (buildPendingFileKey u (stem ++ "." ++ ext))) =
      buildPendingFileKey u (stem ++ "." ++ ext) := by
  obtain ⟨hne, -, hchars⟩ := contentTypeExt_chars h
  have hlast : (buildPendingFileKey u (stem ++ "." ++ ext)).toList.getLast? = ext.toList.getLast? := by
    simp only [buildPendingFileKey, String.toList_append, List.getLast?_append]
    cases hx : ext.toList.getLast? with
    | none => exact absurd (List.getLast?_eq_none_iff.mp hx) hne
    | some c => rfl
  refine strip_lstrip_eq_self (fun c hc => ?_) fun c hc => ?_
  · obtain rfl : 'p' = c := by simpa [buildPendingFileKey, pendingKeyPrefix] using hc
    decide
  · rw [hlast] at hc
    exact (hchars c (List.mem_of_mem_getLast? hc)).2.2

theorem s3ObjectKey_pendingFileKey (u : Uuid) (stem : String) (h : contentTypeExt ct = some ext) :
    s3ObjectKey (buildPendingFileKey u (stem ++ "." ++ ext)) =
      some (mediaPrefix ++ buildPendingFileKey u (stem ++ "." ++ ext)) := by
  have hnot : ¬ mediaPrefix.toList <+: (buildPendingFileKey u (stem ++ "." ++ ext)).toList := by
    simp [mediaPrefix, buildPendingFileKey, pendingKeyPrefix]
  have hself : stripRedundantMediaPrefixes (buildPendingFileKey u (stem ++ "." ++ ext)) =
      buildPendingFileKey u (stem ++ "." ++ ext) := by
    rw [stripRedundantMediaPrefixes, pendingFileKey_strip u stem h, dropMedia_of_not hnot,
      String.ofList_toList]
  have hne : buildPendingFileKey u (stem ++ "." ++ ext) ≠ "" := by
    intro he
    have htext := congrArg String.toList he
    simp [buildPendingFileKey, pendingKeyPrefix] at htext
  unfold s3ObjectKey
  simp only [hself, if_neg hne]

theorem text_length (h : IsUuid7 u) : (Uuid.text u).toList.length = 36 := by
  simp [Uuid.text_groups h.lt]

theorem pendingFileKey_len (h : IsUuid7 u) (name : String) :
    Python.len (buildPendingFileKey u name) = 45 + name.toList.length := by
  have hpre : pendingKeyPrefix.toList.length = 8 := rfl
  have hsep : "/".toList.length = 1 := rfl
  simp only [Python.len, buildPendingFileKey, String.toList_append, List.length_append,
    text_length h, hpre, hsep]

theorem slash_not_mem_text (h : IsUuid7 u) : '/' ∉ (Uuid.text u).toList := by
  have hdigit (k n : Nat) : '/' ∉ hexDigits k n := fun hc => by
    have hhex := hexDigits_isHex k n _ hc
    revert hhex
    decide
  simp [Uuid.text_groups h.lt, hdigit]

theorem isValidPendingFileKey_issued (hu : IsUuid7 u) (h : contentTypeExt ct = some ext)
    (hname : ∀ c ∈ (stem ++ "." ++ ext).toList, isNameChar T c = true) :
    isValidPendingFileKey T (buildPendingFileKey u (stem ++ "." ++ ext)) = true := by
  have hkey : (buildPendingFileKey u (stem ++ "." ++ ext)).toList = pendingKeyPrefix.toList ++
      ((Uuid.text u).toList ++ '/' :: (stem ++ "." ++ ext).toList) := by
    simp [buildPendingFileKey]
  unfold isValidPendingFileKey pendingKeyMatches
  rw [pendingFileKey_strip u stem h, hkey, matchClasses_pending hu]
  simp only [Bool.and_eq_true, Bool.not_eq_true', List.all_eq_true]
  exact ⟨by simp, hname⟩

/-- Every issued key can be confirmed: it passes the request's validation and the check for pending
keys unchanged, is made of the upload id and one file name with the extension of its content type,
and is the key of one object; and the object key of every storage key has the prefix exactly once and
is its own object key. -/
theorem issued_key_confirmable (T : UnicodeTables) (allowed : List String)
    (presignedPost : String → String → Option (String × List (String × String))) :
    (∀ uploadId filename contentType resp, IsUuid7 uploadId →
      issuePresignedUpload T allowed presignedPost uploadId filename contentType = .ok resp →
      confirmFileKey resp.fileKey = some resp.fileKey ∧
      isValidPendingFileKey T resp.fileKey = true ∧
      reservedUploadKey T resp.fileKey = some resp.fileKey ∧
      (∃ stem ext, contentTypeExt (normalizeContentType T contentType) = some ext ∧
        resp.fileKey = "pending/" ++ Uuid.text uploadId ++ "/" ++ (stem ++ "." ++ ext) ∧
        '/' ∉ (Uuid.text uploadId).toList ∧ '/' ∉ (stem ++ "." ++ ext).toList) ∧
      s3ObjectKey resp.fileKey = some (mediaPrefix ++ resp.fileKey)) ∧
    ∀ key o, s3ObjectKey key = some o → ∃ body, o = mediaPrefix ++ body ∧
      ¬ mediaPrefix.toList <+: body.toList ∧ s3ObjectKey o = some o := by
  refine ⟨?_, fun key o => s3ObjectKey_spec⟩
  intro uploadId filename contentType resp hu h
  obtain ⟨_, ext, hkey, hext, ⟨stem, rfl⟩, hlen, hchars⟩ := issuePresignedUpload_spec h
  rw [hkey]
  have hstrip := pendingFileKey_strip uploadId stem hext
  have hvalid := isValidPendingFileKey_issued hu hext hchars
  refine ⟨?_, hvalid, ?_, ⟨stem, ext, hext, rfl, slash_not_mem_text hu, fun hc => ?_⟩,
    s3ObjectKey_pendingFileKey uploadId stem hext⟩
  · have hsize := pendingFileKey_len hu (stem ++ "." ++ ext)
    have hrange : 1 ≤ Python.len (buildPendingFileKey uploadId (stem ++ "." ++ ext)) ∧
        Python.len (buildPendingFileKey uploadId (stem ++ "." ++ ext)) ≤ 255 := by omega
    unfold confirmFileKey
    simp only [if_pos hrange, hstrip]
    refine if_neg fun he => ?_
    rw [he] at hsize
    change 0 = _ at hsize
    omega
  · unfold reservedUploadKey
    simp only [hstrip, hvalid, if_true]
  · have hslash := hchars _ hc
    rw [not_isNameChar_slash] at hslash
    cases hslash

theorem issuePresignedUpload_ok (u : Uuid)
    (hvalid : validateImageContentType T allowed contentType = .ok ct)
    (hname : sanitizePresignFilename T allowed filename ct = .ok (stem ++ "." ++ ext))
    (hext : contentTypeExt ct = some ext) (url : String) (fields : List (String × String)) :
    issuePresignedUpload T allowed (fun _ _ => some (url, fields)) u filename contentType =
      .ok ⟨url, fields, buildPendingFileKey u (stem ++ "." ++ ext)⟩ := by
  unfold issuePresignedUpload
  simp only [hvalid, hname, bind, Except.bind, s3ObjectKey_pendingFileKey _ _ hext]
  rfl

def asciiTables : UnicodeTables where
  isWord c := c.isAlphanum || c == '_'
  lower := Python.lower
  isWord_ascii _ _ := rfl
  lower_ascii _ _ := rfl

theorem issued_key_confirmable_dog :
    ∃ resp, issuePresignedUpload asciiTables ["image/png"] (fun _ _ => some ("https://s3", []))
        (7 * 2 ^ 76 + 2 * 2 ^ 62) "dog.png" "image/png" = .ok resp ∧
      confirmFileKey resp.fileKey = some resp.fileKey ∧
      isValidPendingFileKey asciiTables resp.fileKey = true := by
  have hext : contentTypeExt "image/png" = some "png" := rfl
  have hvalid : validateImageContentType asciiTables ["image/png"] "image/png" = .ok "image/png" := by
    unfold validateImageContentType
    simp only [normalizeContentType_of_ext asciiTables hext]
    rfl
  have hname : sanitizePresignFilename asciiTables ["image/png"] "dog.png" "image/png" =
      .ok (stemOf asciiTables "dog.png" ++ "." ++ "png") := by
    have hbase : basename (Python.strip "dog.png") = "dog.png" := rfl
    unfold sanitizePresignFilename
    simp only [hvalid, hbase, hext, bind, Except.bind]
    rfl
  have hissued := issuePresignedUpload_ok (7 * 2 ^ 76 + 2 * 2 ^ 62) hvalid hname hext "https://s3" []
  have hid : IsUuid7 (7 * 2 ^ 76 + 2 * 2 ^ 62) := ⟨by decide, by decide, by decide⟩
  obtain ⟨hconfirm, hpending, -⟩ := (issued_key_confirmable _ _ _).1 _ _ _ _ hid hissued
  exact ⟨_, hissued, hconfirm, hpending⟩

end MediaService

end PuppyTalk
