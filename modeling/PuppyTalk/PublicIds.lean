import PuppyTalk.Python
import PuppyTalk.UuidText

namespace PuppyTalk

/-- The `ValueError`s of `ids.py`. -/
inductive PublicIdError where
  | emptyBase62
  | invalidBase62Char
  | base62Overflow
  | emptySub
  | publicIdType
  | publicIdEmpty
  deriving DecidableEq, Repr

def PublicIdError.message : PublicIdError → String
  | .emptyBase62 => "empty_base62"
  | .invalidBase62Char => "invalid_base62_char"
  | .base62Overflow => "base62_overflow"
  | .emptySub => "empty_sub"
  | .publicIdType => "public_id_type"
  | .publicIdEmpty => "public_id_empty"

def base62 : List Char := "0123456789ABCDEFGHIJKLMNOPQRSTUVWXYZabcdefghijklmnopqrstuvwxyz".toList

/-- `_BASE62_INDEX.get`. -/
def base62Index (c : Char) : Option Nat := base62.idxOf? c

/-- `_BASE62[r]`. -/
def base62Char (r : Nat) : Char := base62.getD r '0'

/-- The division loop of `uuid_to_base62`. -/
def base62Digits (n : Nat) (out : List Char) : List Char :=
  if n = 0 then out else base62Digits (n / 62) (out ++ [base62Char (n % 62)])

def uuidToBase62 (u : Uuid) : String :=
  if u = 0 then String.ofList [base62Char 0] else String.ofList (base62Digits u []).reverse

/-- The loop of `base62_to_uuid`, which stops at the first number of more than 128 bits. -/
def base62Number : List Char → Nat → Except PublicIdError Nat
  | [], n => .ok n
  | c :: s, n =>
    match base62Index c with
    | none => .error .invalidBase62Char
    | some idx =>
      if 128 < (n * 62 + idx).size then .error .base62Overflow else base62Number s (n * 62 + idx)

def base62ToUuid (s : String) : Except PublicIdError Uuid :=
  if Python.strip s = "" then .error .emptyBase62 else base62Number (Python.strip s).toList 0

/-- `str.replace(pattern, "")`. -/
def removeAll (pattern : List Char) : List Char → List Char
  | [] => []
  | c :: s =>
    if pattern.isPrefixOf (c :: s) then removeAll pattern (s.drop (pattern.length - 1))
    else c :: removeAll pattern s
termination_by s => s.length
decreasing_by
  · simp only [List.length_drop, List.length_cons]
    omega
  · simp

/-- The digits that `UUID` reads from a text: without `urn:`, `uuid:`, braces around them and
hyphens. -/
def uuidDigits (s : String) : List Char :=
  let hex := removeAll "uuid:".toList (removeAll "urn:".toList s.toList)
  let isBrace (c : Char) : Bool := c = '{' || c = '}'
  removeAll "-".toList ((hex.dropWhile isBrace).rdropWhile isBrace)

def hexDigit (c : Char) : Option Nat :=
  if '0' ≤ c ∧ c ≤ '9' then some (c.toNat - 48)
  else if 'a' ≤ c ∧ c ≤ 'f' then some (c.toNat - 87)
  else if 'A' ≤ c ∧ c ≤ 'F' then some (c.toNat - 55)
  else none

/-- `UUID(s)` of a text, or nothing where it raises. -/
def uuidOfText (s : String) : Option Uuid :=
  let digits := uuidDigits s
  if digits.length = 32 ∧ digits.all fun c => (hexDigit c).isSome then
    some (digits.foldl (fun n c => 16 * n + (hexDigit c).getD 0) 0)
  else none

def jwtSubToUuid (sub : Option String) : Except PublicIdError Uuid :=
  let raw := Python.strip (sub.getD "")
  if raw = "" then .error .emptySub
  else
    match uuidOfText raw with
    | some u => .ok u
    | none => base62ToUuid raw

inductive PublicIdValue where
  | uuid (u : Uuid)
  | str (s : String)
  | other

def parsePublicIdValue : PublicIdValue → Except PublicIdError Uuid
  | .uuid u => .ok u
  | .other => .error .publicIdType
  | .str v =>
    let s := Python.strip v
    if s = "" then .error .publicIdEmpty
    else
      match uuidOfText s with
      | some u => .ok u
      | none => base62ToUuid s

/-! ### Base 62 -/

theorem base62_nodup : base62.Nodup := by
  decide +kernel

theorem base62_length : base62.length = 62 := by
  decide

theorem base62Index_base62Char (hr : r < 62) : base62Index (base62Char r) = some r := by
  rw [← base62_length] at hr
  have hchar : base62Char r = base62[r] := List.getD_eq_getElem base62 '0' hr
  refine List.idxOf?_eq_some_iff.mpr ⟨hr, hchar.symm, fun j hj he => ?_⟩
  rw [hchar] at he
  exact hj.ne ((base62_nodup.getElem_inj_iff).mp he)

theorem base62Index_eq_some (h : base62Index c = some i) : i < 62 ∧ base62Char i = c := by
  obtain ⟨hi, hc, -⟩ := List.idxOf?_eq_some_iff.mp h
  exact ⟨base62_length ▸ hi, (List.getD_eq_getElem base62 '0' hi).trans hc⟩

theorem mem_base62 : c ∈ base62 ↔ ∃ i, base62Index c = some i := by
  rw [← Option.isSome_iff_exists, ← Option.ne_none_iff_isSome, base62Index, Ne,
    List.idxOf?_eq_none_iff, not_not]

theorem base62_plain (hc : c ∈ base62) : Python.isSpace c = false := by
  have hrange : ∀ n ∈ base62.map Char.toNat, 33 ≤ n ∧ n ≤ 126 := by decide +kernel
  obtain ⟨hge, hle⟩ := hrange c.toNat (List.mem_map_of_mem hc)
  exact isSpace_eq_false hge hle

def base62Value (l : List Char) : Nat :=
  Nat.ofDigits 62 (l.map fun c => (base62Index c).getD 0).reverse

theorem base62Value_cons (c : Char) (l : List Char) :
    base62Value (c :: l) = (base62Index c).getD 0 * 62 ^ l.length + base62Value l := by
  simp only [base62Value, List.map_cons, List.reverse_cons, Nat.ofDigits_append,
    Nat.ofDigits_singleton, List.length_reverse, List.length_map]
  ring

theorem base62Number_eq_ok {n m : Nat} {s : List Char} (hn : n < 2 ^ 128) :
    base62Number s n = .ok m ↔
      (∀ c ∈ s, c ∈ base62) ∧ m = n * 62 ^ s.length + base62Value s ∧ m < 2 ^ 128 := by
  induction s generalizing n with
  | nil =>
    simp only [base62Number, List.not_mem_nil, false_implies, implies_true, true_and,
      List.length_nil, pow_zero, mul_one]
    constructor
    · intro h
      cases h
      exact ⟨rfl, hn⟩
    · rintro ⟨rfl, -⟩
      rfl
  | cons c s ih =>
    simp only [base62Number, List.forall_mem_cons]
    cases hc : base62Index c with
    | none =>
      have hmem : c ∉ base62 := List.idxOf?_eq_none_iff.mp hc
      simp [hmem]
    | some i =>
      have hmem : c ∈ base62 := mem_base62.mpr ⟨i, hc⟩
      have hval : n * 62 ^ (s.length + 1) + base62Value (c :: s) =
          (n * 62 + i) * 62 ^ s.length + base62Value s := by
        rw [base62Value_cons, hc]
        simp only [Option.getD_some]
        ring
      simp only [List.length_cons, hval, hmem, true_and]
      by_cases hbig : 128 < (n * 62 + i).size
      · rw [if_pos hbig]
        have hge : 2 ^ 128 ≤ n * 62 + i := Nat.lt_size.mp hbig
        have hpow : n * 62 + i ≤ (n * 62 + i) * 62 ^ s.length :=
          Nat.le_mul_of_pos_right _ (Nat.pow_pos (by decide))
        simp only [reduceCtorEq, false_iff]
        rintro ⟨-, rfl, hlt⟩
        omega
      · rw [if_neg hbig, ih (Nat.size_le.mp (not_lt.mp hbig))]

theorem base62Digits_eq (n : Nat) (out : List Char) :
    base62Digits n out = out ++ (Nat.digits 62 n).map base62Char := by
  induction n using Nat.strongRecOn generalizing out with
  | ind n ih =>
    rw [base62Digits]
    split
    · rename_i hn
      simp [hn]
    · rename_i hn
      have hpos : 0 < n := Nat.pos_of_ne_zero hn
      rw [ih (n / 62) (Nat.div_lt_self hpos (by decide)), Nat.digits_def' (by decide) hpos,
        List.map_cons, List.append_assoc]
      rfl

theorem uuidToBase62_toList (hu : u ≠ 0) :
    (uuidToBase62 u).toList = ((Nat.digits 62 u).map base62Char).reverse := by
  rw [uuidToBase62, if_neg hu, base62Digits_eq, List.nil_append, String.toList_ofList]

theorem uuidToBase62_mem (u : Uuid) : ∀ c ∈ (uuidToBase62 u).toList, c ∈ base62 := by
  intro c hc
  by_cases hu : u = 0
  · subst hu
    rw [uuidToBase62, if_pos rfl, String.toList_ofList, List.mem_singleton] at hc
    rw [hc]
    decide
  · rw [uuidToBase62_toList hu, List.mem_reverse, List.mem_map] at hc
    obtain ⟨r, hr, rfl⟩ := hc
    exact mem_base62.mpr ⟨r, base62Index_base62Char (Nat.digits_lt_base (by decide) hr)⟩

theorem base62Value_uuidToBase62 (u : Uuid) : base62Value (uuidToBase62 u).toList = u := by
  by_cases hu : u = 0
  · subst hu
    decide
  · have hdigits : (Nat.digits 62 u).map (fun r => (base62Index (base62Char r)).getD 0) =
        (Nat.digits 62 u).map id :=
      List.map_congr_left fun r hr => by
        rw [base62Index_base62Char (Nat.digits_lt_base (by decide) hr)]
        rfl
    rw [uuidToBase62_toList hu, base62Value, List.map_reverse, List.reverse_reverse, List.map_map,
      Function.comp_def, hdigits, List.map_id, Nat.ofDigits_digits]

theorem uuidToBase62_length (hu : u < 2 ^ 128) : (uuidToBase62 u).toList.length ≤ 22 := by
  by_cases h0 : u = 0
  · subst h0
    decide
  · rw [uuidToBase62_toList h0, List.length_reverse, List.length_map,
      Nat.digits_length_le_iff (by decide)]
    exact hu.trans (by decide)

theorem uuidToBase62_ne (u : Uuid) : (uuidToBase62 u).toList ≠ [] := by
  by_cases h0 : u = 0
  · subst h0
    decide
  · rw [uuidToBase62_toList h0]
    simpa [Nat.digits_ne_nil_iff_ne_zero] using h0

theorem digits_ofDigits_append_zeros {b : Nat} (hb : 1 < b) {l : List Nat} (h : ∀ d ∈ l, d < b) :
    ∃ k, l = Nat.digits b (Nat.ofDigits b l) ++ List.replicate k 0 := by
  induction l with
  | nil => exact ⟨0, by simp⟩
  | cons d l ih =>
    obtain ⟨k, hk⟩ := ih fun e he => h e (List.mem_cons_of_mem d he)
    rw [Nat.ofDigits_cons]
    by_cases hzero : d = 0 ∧ Nat.ofDigits b l = 0
    · obtain ⟨rfl, hl⟩ := hzero
      refine ⟨k + 1, ?_⟩
      rw [hl] at hk ⊢
      simpa [List.replicate_succ] using hk
    · refine ⟨k, ?_⟩
      rw [Nat.digits_add b hb d _ (h d List.mem_cons_self) (by tauto), List.cons_append,
        ← hk]

/-! ### The text of a UUID -/

theorem removeAll_of_not_mem {s : List Char} (hx : x ∈ pattern) (hs : x ∉ s) :
    removeAll pattern s = s := by
  induction s with
  | nil => rw [removeAll]
  | cons c s ih =>
    have hpre : pattern.isPrefixOf (c :: s) = false := by
      rw [Bool.eq_false_iff]
      intro h
      exact hs ((List.isPrefixOf_iff_prefix.mp h).subset hx)
    rw [removeAll, hpre, ih fun h => hs (List.mem_cons_of_mem c h)]
    rfl

theorem removeAll_sublist (pattern s : List Char) : (removeAll pattern s).Sublist s := by
  fun_induction removeAll pattern s with
  | case1 => exact .refl _
  | case2 c s hpre ih => exact (ih.trans (List.drop_sublist ..)).cons c
  | case3 c s hpre ih => exact ih.cons_cons c

theorem removeAll_singleton (x : Char) (s : List Char) : removeAll [x] s = s.filter (· ≠ x) := by
  induction s with
  | nil => rw [removeAll, List.filter_nil]
  | cons c s ih =>
    by_cases hc : c = x
    · subst hc
      simp [removeAll, ih]
    · have hpre : [x].isPrefixOf (c :: s) = false := by simp [List.isPrefixOf, Ne.symm hc]
      simp [removeAll, hpre, hc, ih]

theorem uuidDigits_length (s : String) : (uuidDigits s).length ≤ s.toList.length := by
  have hsub : (uuidDigits s).Sublist s.toList :=
    (removeAll_sublist ..).trans <| (List.rdropWhile_prefix ..).sublist.trans <|
      (List.dropWhile_sublist _).trans <| (removeAll_sublist ..).trans (removeAll_sublist ..)
  exact hsub.length_le

theorem uuidOfText_of_short (h : s.toList.length < 32) : uuidOfText s = none := by
  have hlen := uuidDigits_length s
  exact if_neg fun hd => by omega

def HexChar (c : Char) : Prop := ∃ n < 16, c = Nat.digitChar n

theorem toDigits_mem (n : Nat) : ∀ c ∈ Nat.toDigits 16 n, HexChar c := by
  induction n using Nat.strongRecOn with
  | ind n ih =>
    intro c hc
    by_cases hn : n < 16
    · rw [Nat.toDigits_of_lt_base hn, List.mem_singleton] at hc
      exact ⟨n, hn, hc⟩
    · rw [Nat.toDigits_of_base_le (by decide) (by omega), List.mem_append, List.mem_singleton] at hc
      rcases hc with hc | hc
      · exact ih (n / 16) (by omega) c hc
      · exact ⟨_, Nat.mod_lt n (by decide), hc⟩

theorem HexChar.ne (h : HexChar c) : c ≠ '-' ∧ c ≠ ':' ∧ c ≠ '{' ∧ c ≠ '}' := by
  obtain ⟨n, hn, rfl⟩ := h
  revert n
  decide

theorem HexChar.hexDigit (h : HexChar c) : hexDigit c = some (hexDigitValue c) := by
  obtain ⟨n, hn, rfl⟩ := h
  revert n
  decide

theorem Uuid.hex_mem (u : Uuid) : ∀ c ∈ u.hex, HexChar c := by
  intro c hc
  rcases List.mem_append.mp hc with hc | hc
  · exact ⟨0, by decide, (List.mem_replicate.mp hc).2⟩
  · exact toDigits_mem u c hc

theorem Uuid.hex_length_eq (hu : u < 2 ^ 128) : (Uuid.hex u).length = 32 := by
  have hle : (Nat.toDigits 16 u).length ≤ 32 :=
    (Nat.length_toDigits_le_iff (by decide) (by decide)).mpr (hu.trans_eq (by decide))
  simp only [Uuid.hex, List.length_append, List.length_replicate]
  omega

theorem Uuid.text_toList (u : Uuid) :
    u.text.toList = u.hex.take 8 ++ '-' :: ((u.hex.drop 8).take 4 ++ '-' :: ((u.hex.drop 12).take 4 ++
      '-' :: ((u.hex.drop 16).take 4 ++ '-' :: u.hex.drop 20))) := String.toList_ofList

theorem Uuid.hex_piece (u : Uuid) (k n : Nat) : (u.hex.drop k).take n ⊆ u.hex := fun _ h =>
  List.mem_of_mem_drop (List.mem_of_mem_take h)

theorem Uuid.text_mem (u : Uuid) : ∀ c ∈ u.text.toList, HexChar c ∨ c = '-' := by
  intro c hc
  have hdigit {l : List Char} (hl : l ⊆ u.hex) (h : c ∈ l) : HexChar c ∨ c = '-' :=
    .inl (u.hex_mem c (hl h))
  simp only [u.text_toList, List.mem_append, List.mem_cons] at hc
  rcases hc with h | h | h | h | h | h | h | h | h
  · exact hdigit (List.take_subset 8 _) h
  · exact .inr h
  · exact hdigit (u.hex_piece 8 4) h
  · exact .inr h
  · exact hdigit (u.hex_piece 12 4) h
  · exact .inr h
  · exact hdigit (u.hex_piece 16 4) h
  · exact .inr h
  · exact hdigit (List.drop_subset 20 _) h

theorem Uuid.text_plain (u : Uuid) : ∀ c ∈ u.text.toList, Python.isSpace c = false := by
  intro c hc
  rcases u.text_mem c hc with ⟨n, hn, rfl⟩ | rfl
  · have hrange : ∀ n < 16, 33 ≤ (Nat.digitChar n).toNat ∧ (Nat.digitChar n).toNat ≤ 126 := by decide
    exact isSpace_eq_false (hrange n hn).1 (hrange n hn).2
  · rfl

theorem Uuid.text_filter (u : Uuid) : u.text.toList.filter (· ≠ '-') = u.hex := by
  have hplain {l : List Char} (hl : l ⊆ u.hex) : l.filter (· ≠ '-') = l := by
    exact List.filter_eq_self.mpr fun c hc => decide_eq_true (u.hex_mem c (hl hc)).ne.1
  have hjoin (k n : Nat) : (u.hex.drop k).take n ++ u.hex.drop (k + n) = u.hex.drop k := by
    rw [← List.drop_drop]
    exact List.take_append_drop n _
  simp only [u.text_toList, List.filter_append, List.filter_cons, ne_eq, not_true_eq_false,
    decide_false, Bool.false_eq_true, if_false]
  rw [hplain (List.take_subset 8 _), hplain (u.hex_piece 8 4), hplain (u.hex_piece 12 4), hplain (u.hex_piece 16 4),
    hplain (List.drop_subset 20 _), hjoin 16 4, hjoin 12 4, hjoin 8 4]
  exact List.take_append_drop 8 _

theorem Uuid.text_ne (u : Uuid) : ∀ c ∈ u.text.toList, c ≠ ':' ∧ c ≠ '{' ∧ c ≠ '}' := by
  intro c hc
  rcases u.text_mem c hc with h | rfl
  · exact h.ne.2
  · decide

theorem Uuid.uuidDigits_text (u : Uuid) : uuidDigits u.text = u.hex := by
  have hdrop (l : List Char) (hl : ∀ c ∈ l, c ∈ u.text.toList) :
      l.dropWhile (fun c => c = '{' || c = '}') = l := by
    cases l with
    | nil => rfl
    | cons c l =>
      obtain ⟨-, hopen, hclose⟩ := u.text_ne c (hl c List.mem_cons_self)
      exact List.dropWhile_cons_of_neg (by simp [hopen, hclose])
  have hrdrop : u.text.toList.rdropWhile (fun c => c = '{' || c = '}') = u.text.toList := by
    rw [List.rdropWhile, hdrop _ fun c hc => List.mem_reverse.mp hc, List.reverse_reverse]
  have hcolon : ':' ∉ u.text.toList := fun h => (u.text_ne _ h).1 rfl
  rw [uuidDigits, removeAll_of_not_mem (by decide) hcolon, removeAll_of_not_mem (by decide) hcolon,
    hdrop _ fun _ hc => hc, hrdrop]
  exact (removeAll_singleton '-' _).trans u.text_filter

theorem uuidOfText_text (hu : u < 2 ^ 128) : uuidOfText (Uuid.text u) = some u := by
  have hall : (Uuid.hex u).all (fun c => (hexDigit c).isSome) = true := by
    refine List.all_eq_true.mpr fun c hc => ?_
    rw [(u.hex_mem c hc).hexDigit]
    rfl
  have hvalue : (Uuid.hex u).foldl (fun n c => 16 * n + (hexDigit c).getD 0) 0 = u := by
    calc (Uuid.hex u).foldl (fun n c => 16 * n + (hexDigit c).getD 0) 0
        = hexValue (Uuid.hex u) := by
          refine List.foldl_ext _ _ _ fun n c hc => ?_
          rw [(u.hex_mem c hc).hexDigit]
          rfl
      _ = u := by rw [Uuid.hex, hexValue_pad, hexValue_toDigits]
  rw [uuidOfText, u.uuidDigits_text, if_pos ⟨Uuid.hex_length_eq hu, hall⟩, hvalue]

/-! ### Public ids -/

theorem base62ToUuid_eq_ok :
    base62ToUuid s = .ok u ↔ Python.strip s ≠ "" ∧ (∀ c ∈ (Python.strip s).toList, c ∈ base62) ∧
      u = base62Value (Python.strip s).toList ∧ u < 2 ^ 128 := by
  rw [base62ToUuid]
  split
  · rename_i h
    simp [h]
  · rename_i h
    rw [base62Number_eq_ok (by decide), Nat.zero_mul, Nat.zero_add]
    simp only [ne_eq, h, not_false_eq_true, true_and]

theorem strip_uuidToBase62 (u : Uuid) : Python.strip (uuidToBase62 u) = uuidToBase62 u :=
  strip_of_plain fun c hc => base62_plain (uuidToBase62_mem u c hc)

theorem base62ToUuid_uuidToBase62 (hu : u < 2 ^ 128) : base62ToUuid (uuidToBase62 u) = .ok u := by
  rw [base62ToUuid_eq_ok, strip_uuidToBase62]
  refine ⟨fun h => uuidToBase62_ne u ?_, uuidToBase62_mem u, (base62Value_uuidToBase62 u).symm, hu⟩
  rw [h]
  rfl

theorem uuidOfText_uuidToBase62 (hu : u < 2 ^ 128) : uuidOfText (uuidToBase62 u) = none :=
  uuidOfText_of_short ((uuidToBase62_length hu).trans_lt (by decide))

theorem parse_of_strip (ht : Python.strip v = t) (hne : t ≠ "")
    (h : uuidOfText t = some u ∨ uuidOfText t = none ∧ base62ToUuid t = .ok u) :
    parsePublicIdValue (.str v) = .ok u ∧ jwtSubToUuid (some v) = .ok u := by
  simp only [parsePublicIdValue, jwtSubToUuid, Option.getD_some, ht, if_neg hne]
  rcases h with h | ⟨hnone, h⟩
  · rw [h]
    exact ⟨rfl, rfl⟩
  · rw [hnone]
    exact ⟨h, h⟩

theorem uuidToBase62_of_base62ToUuid (h : base62ToUuid s = .ok u) :
    ∃ k, (Python.strip s).toList = List.replicate k '0' ++ (uuidToBase62 u).toList := by
  obtain ⟨hne, hmem, hu, -⟩ := base62ToUuid_eq_ok.mp h
  have hindex (c : Char) (hc : c ∈ (Python.strip s).toList) :
      (base62Index c).getD 0 < 62 ∧ base62Char ((base62Index c).getD 0) = c := by
    obtain ⟨i, hi⟩ := mem_base62.mp (hmem c hc)
    rw [hi]
    exact base62Index_eq_some hi
  have hdigits : ∀ d ∈ ((Python.strip s).toList.map fun c => (base62Index c).getD 0).reverse,
      d < 62 := by
    intro d hd
    obtain ⟨c, hc, rfl⟩ := List.mem_map.mp (List.mem_reverse.mp hd)
    exact (hindex c hc).1
  obtain ⟨k, hk⟩ := digits_ofDigits_append_zeros (by decide) hdigits
  have htext : (Python.strip s).toList =
      List.replicate k '0' ++ ((Nat.digits 62 u).map base62Char).reverse := by
    calc (Python.strip s).toList
        = ((Python.strip s).toList.map fun c => (base62Index c).getD 0).map base62Char := by
          rw [List.map_map]
          exact (List.map_id _).symm.trans (List.map_congr_left fun c hc => (hindex c hc).2.symm)
      _ = (((Nat.digits 62 u) ++ List.replicate k 0).map base62Char).reverse := by
          rw [hu, base62Value, ← hk, List.map_reverse, List.reverse_reverse]
      _ = List.replicate k '0' ++ ((Nat.digits 62 u).map base62Char).reverse := by
          rw [List.map_append, List.reverse_append, List.map_replicate, List.reverse_replicate]
          rfl
  by_cases hzero : u = 0
  · subst hzero
    have hpos : k ≠ 0 := by
      rintro rfl
      exact hne (String.toList_eq_nil_iff.mp (by simpa using htext))
    obtain ⟨n, rfl⟩ := Nat.exists_eq_succ_of_ne_zero hpos
    refine ⟨n, ?_⟩
    rw [htext, Nat.digits_zero, List.replicate_succ']
    simp [uuidToBase62, base62Char]
    rfl
  · exact ⟨k, by rw [htext, uuidToBase62_toList hzero]⟩

/-- Public ids round-trip: both forms of a UUID are read back, also with blanks around them, and the
two forms are never confused; a text in base 62 is read exactly if it has a value of 128 bits, and
is then the form of that value up to zeros in front. -/
theorem publicId_round_trip :
    (∀ u < 2 ^ 128, ∀ before after : String, (∀ c ∈ before.toList, Python.isSpace c = true) →
      (∀ c ∈ after.toList, Python.isSpace c = true) → ∀ t ∈ [uuidToBase62 u, Uuid.text u],
        parsePublicIdValue (.str (before ++ t ++ after)) = .ok u ∧
        jwtSubToUuid (some (before ++ t ++ after)) = .ok u) ∧
    (∀ u < 2 ^ 128, Python.len (uuidToBase62 u) ≤ 22 ∧ uuidOfText (uuidToBase62 u) = none) ∧
    (∀ s, (∃ u, base62ToUuid s = .ok u) ↔ Python.strip s ≠ "" ∧
      (∀ c ∈ (Python.strip s).toList, c ∈ base62) ∧
      base62Value (Python.strip s).toList < 2 ^ 128) ∧
    ∀ s u, base62ToUuid s = .ok u →
      ∃ k, (Python.strip s).toList = List.replicate k '0' ++ (uuidToBase62 u).toList := by
  refine ⟨?_, fun u hu => ⟨uuidToBase62_length hu, uuidOfText_uuidToBase62 hu⟩, ?_,
    fun s u => uuidToBase62_of_base62ToUuid⟩
  · intro u hu before after hbefore hafter t ht
    simp only [List.mem_cons, List.not_mem_nil, or_false] at ht
    rcases ht with rfl | rfl
    · have hplain : ∀ c ∈ (uuidToBase62 u).toList, Python.isSpace c = false :=
        fun c hc => base62_plain (uuidToBase62_mem u c hc)
      refine parse_of_strip (strip_surrounded hbefore hafter hplain) (fun h => uuidToBase62_ne u ?_)
        (.inr ⟨uuidOfText_uuidToBase62 hu, base62ToUuid_uuidToBase62 hu⟩)
      rw [h]
      rfl
    · refine parse_of_strip (strip_surrounded hbefore hafter (Uuid.text_plain u)) (fun h => ?_)
        (.inl (uuidOfText_text hu))
      have hnone : uuidOfText (Uuid.text u) = none := by
        rw [h]
        exact uuidOfText_of_short (by decide)
      rw [uuidOfText_text hu] at hnone
      cases hnone
  · intro s
    simp only [base62ToUuid_eq_ok]
    constructor
    · rintro ⟨u, hne, hmem, hval, hlt⟩
      exact ⟨hne, hmem, hval ▸ hlt⟩
    · rintro ⟨hne, hmem, hlt⟩
      exact ⟨_, hne, hmem, rfl, hlt⟩

theorem publicId_round_trip_blank :
    parsePublicIdValue (.str (" " ++ uuidToBase62 62 ++ "")) = .ok 62 ∧
      jwtSubToUuid (some (" " ++ uuidToBase62 62 ++ "")) = .ok 62 := by
  apply publicId_round_trip.1 62 (by decide)
  · intro c hc
    rw [List.mem_singleton.mp hc]
    rfl
  · exact fun c hc => absurd hc List.not_mem_nil
  · exact List.mem_cons_self

end PuppyTalk
