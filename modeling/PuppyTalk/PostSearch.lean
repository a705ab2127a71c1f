import PuppyTalk.PostsRepository
import PuppyTalk.Python
import PuppyTalk.Store

namespace PuppyTalk

/-- What the search takes from Unicode: `str.lower`, `str.isdigit` on a character, and how `ILIKE`
folds a character. -/
structure Unicode where
  lower : String → String
  isDigit : Char → Bool
  fold : Char → Char

inductive LikeAtom where
  | anySequence
  | anyChar
  | char (c : Char)
  deriving DecidableEq

def likeAtoms : List Char → List LikeAtom
  | '\\' :: c :: pattern => .char c :: likeAtoms pattern
  | '%' :: pattern => .anySequence :: likeAtoms pattern
  | '_' :: pattern => .anyChar :: likeAtoms pattern
  | c :: pattern => .char c :: likeAtoms pattern
  | [] => []

def ilike (fold : Char → Char) : List LikeAtom → List Char → Bool
  | [], text => text.isEmpty
  | .anySequence :: pattern, [] => ilike fold pattern []
  | .anySequence :: pattern, c :: text =>
    ilike fold pattern (c :: text) || ilike fold (.anySequence :: pattern) text
  | .anyChar :: pattern, _ :: text => ilike fold pattern text
  | .char p :: pattern, c :: text => fold p == fold c && ilike fold pattern text
  | _ :: _, [] => false
termination_by pattern text => pattern.length + text.length

/-- The pattern as SQL defines it: an escape that no special character follows is an error. -/
def readPattern : List Char → Option (List LikeAtom)
  | [] => some []
  | '\\' :: c :: pattern =>
    if c = '\\' ∨ c = '%' ∨ c = '_' then (readPattern pattern).map (.char c :: ·) else none
  | ['\\'] => none
  | '%' :: pattern => (readPattern pattern).map (.anySequence :: ·)
  | '_' :: pattern => (readPattern pattern).map (.anyChar :: ·)
  | c :: pattern => (readPattern pattern).map (.char c :: ·)

def like (pattern : List LikeAtom) (text : List Char) : Bool := ilike id pattern text

namespace PostsRepository

def postSearchMinTokenLen : Nat := 3

def postSearchMinTokenLenHangul : Nat := 2

def postSearchMinTokenLenDigit : Nat := 2

/-- A validated search: an exact hashtag, or words that must all be found. -/
structure ParsedSearch where
  tag : Option String
  tokens : List String
  deriving DecidableEq, Repr

def minTokenLength (u : Unicode) (token : String) : Nat :=
  if token.toList.any fun c => '가' ≤ c && c ≤ '힣' then postSearchMinTokenLenHangul
  else if !token.toList.isEmpty && token.toList.all u.isDigit then postSearchMinTokenLenDigit
  else postSearchMinTokenLen

def isTokenTooShort (u : Unicode) (token : String) : Bool :=
  Python.len token < minTokenLength u token

def emptyHashtagMessage : String := "검색할 해시태그를 입력해주세요."

def shortTokenMessage : String :=
  "검색어는 공백으로 구분된 각 단어가 최소 2글자(한글·숫자) 또는 3글자(영문) 이상이어야 합니다."

/-- `str.split` at white space. -/
def splitWords (s : String) : List String :=
  ((s.toList.splitOnP Python.isSpace).filter fun w => !w.isEmpty).map String.ofList

def validateSearchQuery (u : Unicode) (q : Option String) :
    Except ApiException (Option ParsedSearch) :=
  let stripped := Python.strip (q.getD "")
  if stripped = "" then .ok none
  else if stripped.toList.head? = some '#' then
    let tagName := u.lower (Python.strip (String.ofList (stripped.toList.dropWhile (· == '#'))))
    if tagName = "" then .error (.invalidRequest emptyHashtagMessage)
    else .ok (some { tag := some tagName, tokens := [] })
  else
    let tokens := splitWords stripped
    if tokens.any (isTokenTooShort u) then .error (.invalidRequest shortTokenMessage)
    else .ok (some { tag := none, tokens := tokens })

/-- `str.replace` of one character. -/
def replaceChar (c : Char) (new token : List Char) : List Char :=
  token.flatMap fun x => if x = c then new else [x]

def escapeIlikeToken (token : List Char) : List Char :=
  replaceChar '_' ['\\', '_'] (replaceChar '%' ['\\', '%'] (replaceChar '\\' ['\\', '\\'] token))

/-- The pattern of `_token_match_clause`. -/
def tokenPattern (token : String) : List Char := '%' :: escapeIlikeToken token.toList ++ ['%']

/-- `ILIKE '%token%'`. -/
def contains (u : Unicode) (token text : String) : Bool :=
  ilike u.fold (likeAtoms (tokenPattern token)) text.toList

def hashtagMatchExists (d : Store) (p : Post) (name : String → Bool) : Bool :=
  d.postHashtags.any fun h => h.postId == p.id && name h.hashtag

/-- `_token_match_clause`. -/
def tokenMatch (u : Unicode) (d : Store) (p : Post) (token : String) : Bool :=
  contains u token p.title || contains u token p.content ||
    hashtagMatchExists d p (contains u token)

/-- `_apply_post_list_search_filter`. -/
def searchMatch (u : Unicode) (d : Store) (search : Option ParsedSearch) (p : Post) : Bool :=
  match search with
  | none => true
  | some { tag := some tag, .. } => hashtagMatchExists d p (· == tag)
  | some { tag := none, tokens } => tokens.all (tokenMatch u d p)

end PostsRepository

section Patterns

open PostsRepository

variable {fold : Char → Char}

/-- Each special character is escaped once: the backslash goes first, and what a replacement puts in
is none of the characters that come after it. -/
theorem escapeIlikeToken_cons (c : Char) (token : List Char) :
    escapeIlikeToken (c :: token) =
      (if c = '\\' ∨ c = '%' ∨ c = '_' then ['\\', c] else [c]) ++ escapeIlikeToken token := by
  have happend (x : Char) (new a b : List Char) :
      replaceChar x new (a ++ b) = replaceChar x new a ++ replaceChar x new b :=
    List.flatMap_append ..
  have hone : escapeIlikeToken [c] = if c = '\\' ∨ c = '%' ∨ c = '_' then ['\\', c] else [c] := by
    by_cases hb : c = '\\'
    · subst hb
      decide
    · by_cases hp : c = '%'
      · subst hp
        decide
      · by_cases hu : c = '_'
        · subst hu
          decide
        · simp [escapeIlikeToken, replaceChar, hb, hp, hu]
  rw [← hone, ← List.singleton_append, escapeIlikeToken, happend, happend, happend]
  rfl

theorem likeAtoms_escape (token pattern : List Char) :
    likeAtoms (escapeIlikeToken token ++ pattern) =
      token.map LikeAtom.char ++ likeAtoms pattern := by
  induction token with
  | nil => rfl
  | cons c token ih =>
    rw [escapeIlikeToken_cons, List.append_assoc, List.map_cons, List.cons_append, ← ih]
    split
    · rfl
    · rename_i h
      simp only [not_or] at h
      rw [List.singleton_append, likeAtoms.eq_def]
      split <;> simp_all

theorem ilike_chars (token : List Char) (pattern : List LikeAtom) (text : List Char) :
    ilike fold (token.map LikeAtom.char ++ pattern) text = true ↔
      ∃ start rest, text = start ++ rest ∧ start.map fold = token.map fold ∧
        ilike fold pattern rest = true := by
  induction token generalizing text with
  | nil => simp
  | cons c token ih =>
    cases text with
    | nil => simp [ilike]
    | cons t text =>
      rw [List.map_cons, List.cons_append, ilike, Bool.and_eq_true, ih, beq_iff_eq]
      constructor
      · rintro ⟨hc, start, rest, rfl, hs, hr⟩
        exact ⟨t :: start, rest, rfl, by simp [hc, hs], hr⟩
      · rintro ⟨start, rest, he, hs, hr⟩
        cases start with
        | nil => simp at hs
        | cons s start =>
          simp only [List.cons_append, List.cons.injEq] at he
          obtain ⟨rfl, rfl⟩ := he
          simp only [List.map_cons, List.cons.injEq] at hs
          exact ⟨hs.1.symm, start, rest, rfl, hs.2, hr⟩

theorem ilike_anySequence (pattern : List LikeAtom) (text : List Char) :
    ilike fold (.anySequence :: pattern) text = true ↔
      ∃ start rest, text = start ++ rest ∧ ilike fold pattern rest = true := by
  induction text with
  | nil =>
    rw [ilike]
    constructor
    · intro h
      exact ⟨[], [], rfl, h⟩
    · rintro ⟨start, rest, he, h⟩
      rwa [(List.nil_eq_append_iff.mp he).2] at h
  | cons c text ih =>
    rw [ilike, Bool.or_eq_true, ih]
    constructor
    · rintro (h | ⟨start, rest, rfl, h⟩)
      · exact ⟨[], _, rfl, h⟩
      · exact ⟨c :: start, rest, rfl, h⟩
    · rintro ⟨start, rest, he, h⟩
      cases start with
      | nil => exact .inl (he ▸ h)
      | cons s start =>
        simp only [List.cons_append, List.cons.injEq] at he
        exact .inr ⟨start, rest, he.2, h⟩

theorem ilike_literal (token text : List Char) :
    ilike fold (.anySequence :: (token.map LikeAtom.char ++ [.anySequence])) text = true ↔
      token.map fold <:+: text.map fold := by
  rw [ilike_anySequence]
  constructor
  · rintro ⟨before, rest, he, h⟩
    obtain ⟨start, after, rfl, hs, -⟩ := (ilike_chars _ _ _).mp h
    rw [he, List.map_append, List.map_append, hs]
    exact ⟨before.map fold, after.map fold, List.append_assoc _ _ _⟩
  · rintro ⟨before, after, he⟩
    obtain ⟨l, l₃, hl, hl₁, rfl⟩ := List.map_eq_append_iff.mp he.symm
    obtain ⟨l₁, l₂, rfl, rfl, hl₂⟩ := List.map_eq_append_iff.mp hl₁
    refine ⟨l₁, l₂ ++ l₃, by rw [hl, List.append_assoc], ?_⟩
    rw [ilike_chars]
    refine ⟨l₂, l₃, rfl, hl₂, ?_⟩
    rw [ilike_anySequence]
    exact ⟨l₃, [], (List.append_nil _).symm, by simp [ilike]⟩

theorem contains_iff (u : Unicode) (token text : String) :
    contains u token text = true ↔
      token.toList.map u.fold <:+: text.toList.map u.fold := by
  rw [contains, tokenPattern, List.cons_append, likeAtoms, likeAtoms_escape]
  exact ilike_literal _ _

theorem readPattern_escape (token pattern : List Char) :
    readPattern (escapeIlikeToken token ++ pattern) =
      (readPattern pattern).map (token.map LikeAtom.char ++ ·) := by
  induction token with
  | nil => exact Option.map_id'.symm
  | cons c token ih =>
    rw [escapeIlikeToken_cons, List.append_assoc]
    have hcons : (readPattern pattern).map ((c :: token).map LikeAtom.char ++ ·) =
        (readPattern (escapeIlikeToken token ++ pattern)).map (.char c :: ·) := by
      rw [ih, Option.map_map]
      rfl
    rw [hcons]
    split
    · rename_i h
      rw [List.cons_append, List.singleton_append, readPattern, if_pos h]
    · rename_i h
      simp only [not_or] at h
      rw [List.singleton_append, readPattern.eq_def]
      split <;> simp_all

theorem readPattern_tokenPattern (token : String) :
    readPattern (tokenPattern token) =
      some (.anySequence :: (token.toList.map LikeAtom.char ++ [.anySequence])) := by
  rw [tokenPattern, List.cons_append, readPattern, readPattern_escape]
  rfl

/-- Search treats user text literally: the pattern of a word is well formed, and it matches exactly
the texts that contain the word. -/
theorem like_tokenPattern_iff (token text : String) :
    ∃ pattern, readPattern (tokenPattern token) = some pattern ∧
      (like pattern text.toList = true ↔ token.toList <:+: text.toList) := by
  refine ⟨_, readPattern_tokenPattern token, ?_⟩
  rw [like, ilike_literal, List.map_id, List.map_id]

end Patterns

end PuppyTalk
