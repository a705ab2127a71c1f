import PuppyTalk.Decimal
import PuppyTalk.UuidText

namespace PuppyTalk.UlidMigration

/-- `alph`, the digits of a ULID. -/
def alph : List Char := "0123456789ABCDEFGHJKMNPQRSTVWXYZ".toList

def hexAlph : List Char := "0123456789abcdef".toList

inductive MigrationError where
  | invalidLength
  | invalidChar (c : Char)
  deriving DecidableEq, Repr

def MigrationError.message : MigrationError → String
  | .invalidLength => "invalid ulid length"
  | .invalidChar c => "invalid ulid char " ++ c.toString

/-- A turn of the first loop; `upper` and `strpos` find a digit in either letter case. -/
def accumulate (acc : Decimal) (c : Char) : Except MigrationError Decimal :=
  match alph.idxOf? c.toUpper with
  | none => .error (.invalidChar c.toUpper)
  | some idx => .ok ((acc.mul (.ofNat 32)).add (.ofNat idx))

def hexLoop : Nat → Decimal → List Char → List Char
  | 0, _, fullHex => fullHex
  | j + 1, work, fullHex =>
    let d := (work.mod (.ofNat 16)).toInt
    hexLoop j (work.div (.ofNat 16)).trunc (hexAlph.getD d '0' :: fullHex)

def uuidText (fullHex : List Char) : List Char :=
  fullHex.take 8 ++ '-' :: ((fullHex.drop 8).take 4 ++ '-' :: ((fullHex.drop 12).take 4 ++ '-' ::
    ((fullHex.drop 16).take 4 ++ '-' :: (fullHex.drop 20).take 12)))

def castUuid (text : List Char) : Uuid := hexValue (text.filter (· ≠ '-'))

/-- `puppytalk_ulid_to_uuid`; `powerScale` is the scale that `power(2::numeric, 128)` has. -/
def puppytalkUlidToUuid (powerScale : Nat) (s : String) : Except MigrationError Uuid := do
  if s.toList.length ≠ 26 then throw .invalidLength
  let acc ← s.toList.foldlM accumulate (.ofNat 0)
  let work := acc.mod (.whole (2 ^ 128) powerScale)
  pure (castUuid (uuidText (hexLoop 32 work [])))

def ulidValue (s : String) : Nat :=
  s.toList.foldl (fun n c => n * 32 + (alph.idxOf? c.toUpper).getD 0) 0

def IsUlid (s : String) : Prop := s.toList.length = 26 ∧ ∀ c ∈ s.toList, c.toUpper ∈ alph

theorem isUlid_of_all (hlen : s.toList.length = 26)
    (h : (s.toList.all fun c => alph.contains c.toUpper) = true) : IsUlid s :=
  ⟨hlen, fun c hc => List.contains_iff_mem.mp (List.all_eq_true.mp h c hc)⟩

/-! ### The two loops on whole numbers -/

theorem foldlM_accumulate {l : List Char} (h : ∀ c ∈ l, c.toUpper ∈ alph) (n : Nat) :
    l.foldlM accumulate (.ofNat n) =
      .ok (.ofNat (l.foldl (fun n c => n * 32 + (alph.idxOf? c.toUpper).getD 0) n)) := by
  induction l generalizing n with
  | nil => rfl
  | cons c l ih =>
    have hc := h c List.mem_cons_self
    obtain ⟨idx, hidx⟩ := Option.isSome_iff_exists.mp (List.isSome_idxOf?.mpr hc)
    have hstep : accumulate (.ofNat n) c = .ok (.ofNat (n * 32 + idx)) := by
      simp only [accumulate, hidx, Decimal.mul_ofNat, Decimal.add_ofNat]
    rw [List.foldlM_cons, hstep, List.foldl_cons, hidx]
    exact ih (fun d hd => h d (List.mem_cons_of_mem _ hd)) _

/-- What a turn of the second loop leaves: from 17 · 10¹⁶ on, a quotient of numbers without decimal
places is rounded to a whole number. -/
def shifted (scale x : Nat) : Nat :=
  if scale = 0 ∧ 17 * 10 ^ 16 ≤ x then (x + 8) / 16 else x / 16

theorem trunc_div_sixteen (x scale : Nat) :
    ((Decimal.whole x scale).div (.ofNat 16)).trunc = .whole (shifted scale x) 0 := by
  rw [Decimal.trunc_div_whole x scale (by decide) (by decide), Decimal.whole_zero]
  congr 1
  have hzero := Decimal.divScale_whole x scale (y := 16) (by decide) (by decide)
  have hround : Decimal.roundDiv x 16 = (x + 8) / 16 := by
    rw [Decimal.roundDiv]
    omega
  unfold shifted
  rw [hround]
  exact if_congr (hzero.trans Iff.rfl) rfl rfl

theorem digit_whole (x scale : Nat) :
    ((Decimal.whole x scale).mod (.ofNat 16)).toInt = x % 16 := by
  rw [← Decimal.whole_zero, Decimal.mod_whole, Decimal.toInt_whole]

def emitted : Nat → Nat → Nat → Nat
  | 0, _, _ => 0
  | n + 1, scale, x => x % 16 + 16 * emitted n 0 (shifted scale x)

theorem hexValue_cons (c : Char) (l : List Char) :
    hexValue (c :: l) = hexDigitValue c * 16 ^ l.length + hexValue l := by
  have hfold (n : Nat) : l.foldl (fun n c => 16 * n + hexDigitValue c) n =
      n * 16 ^ l.length + hexValue l := by
    induction l generalizing n with
    | nil => simp [hexValue]
    | cons d l ih =>
      rw [hexValue, List.foldl_cons, List.foldl_cons, ih, ih, List.length_cons, Nat.pow_succ]
      ring
  rw [hexValue, List.foldl_cons, hfold, Nat.mul_zero, Nat.zero_add]

theorem hexAlph_digit : ∀ d < 16, hexDigitValue (hexAlph.getD d '0') = d ∧ hexAlph.getD d '0' ≠ '-' := by
  decide

theorem hexLoop_whole (n scale x : Nat) (fullHex : List Char) :
    hexValue (hexLoop n (.whole x scale) fullHex) =
      emitted n scale x * 16 ^ fullHex.length + hexValue fullHex := by
  induction n generalizing scale x fullHex with
  | zero => simp [hexLoop, emitted]
  | succ n ih =>
    have hdigit := (hexAlph_digit (x % 16) (Nat.mod_lt x (by decide))).1
    rw [hexLoop, trunc_div_sixteen, digit_whole, ih, hexValue_cons, hdigit, emitted, List.length_cons,
      Nat.pow_succ]
    ring

theorem hexLoop_spec (n scale x : Nat) {fullHex : List Char} (h : '-' ∉ fullHex) :
    (hexLoop n (.whole x scale) fullHex).length = n + fullHex.length ∧
      '-' ∉ hexLoop n (.whole x scale) fullHex := by
  induction n generalizing scale x fullHex with
  | zero => exact ⟨(Nat.zero_add _).symm, h⟩
  | succ n ih =>
    have hdigit := (hexAlph_digit (x % 16) (Nat.mod_lt x (by decide))).2
    rw [hexLoop, trunc_div_sixteen, digit_whole]
    have hnot : '-' ∉ hexAlph.getD (x % 16) '0' :: fullHex := by
      simp only [List.mem_cons, not_or]
      exact ⟨hdigit.symm, h⟩
    obtain ⟨hlen, hmem⟩ := ih 0 (shifted scale x) hnot
    refine ⟨?_, hmem⟩
    rw [hlen, List.length_cons]
    omega

theorem castUuid_uuidText (hlen : l.length = 32) (h : '-' ∉ l) : castUuid (uuidText l) = hexValue l := by
  have hkeep {m : List Char} (hm : m ⊆ l) : m.filter (· ≠ '-') = m := by
    rw [List.filter_eq_self]
    intro c hc
    simpa using fun he : c = '-' => h (he ▸ hm hc)
  have hpiece (k n : Nat) : (l.drop k).take n ⊆ l := fun c hc =>
    List.mem_of_mem_drop (List.mem_of_mem_take hc)
  have htake : l.take 8 ⊆ l := fun c hc => List.mem_of_mem_take hc
  have hlast : (l.drop 20).take 12 = l.drop 20 := List.take_of_length_le (by simp [hlen])
  have hjoin (k : Nat) : (l.drop k).take 4 ++ l.drop (k + 4) = l.drop k := by
    rw [← List.drop_drop]
    exact List.take_append_drop 4 _
  have hdash (m : List Char) : ('-' :: m).filter (· ≠ '-') = m.filter (· ≠ '-') := by simp
  unfold castUuid uuidText
  rw [hlast]
  simp only [List.filter_append, hdash]
  rw [hkeep htake, hkeep (hpiece 8 4), hkeep (hpiece 12 4), hkeep (hpiece 16 4),
    hkeep (List.drop_subset 20 l), hjoin 16, hjoin 12, hjoin 8, List.take_append_drop]

theorem puppytalkUlidToUuid_eq (h : IsUlid s) (powerScale : Nat) :
    puppytalkUlidToUuid powerScale s =
      .ok (emitted 32 powerScale (ulidValue s % 2 ^ 128)) := by
  have hwork : (Decimal.ofNat (ulidValue s)).mod (.whole (2 ^ 128) powerScale) =
      .whole (ulidValue s % 2 ^ 128) powerScale := by
    rw [← Decimal.whole_zero, Decimal.mod_whole, Nat.zero_max]
  obtain ⟨hlen, hdash⟩ := hexLoop_spec 32 powerScale (ulidValue s % 2 ^ 128) (List.not_mem_nil (a := '-'))
  have hvalue := hexLoop_whole 32 powerScale (ulidValue s % 2 ^ 128) []
  unfold puppytalkUlidToUuid
  rw [if_neg (not_not.mpr h.1), foldlM_accumulate h.2]
  change Except.ok (castUuid (uuidText (hexLoop 32
    ((Decimal.ofNat (ulidValue s)).mod (.whole (2 ^ 128) powerScale)) []))) = _
  rw [hwork, castUuid_uuidText hlen hdash, hvalue]
  simp [hexValue]

/-! ### Which values are kept -/

def Carries (x k : Nat) : Prop := 17 * 10 ^ 16 ≤ x / 16 ^ k ∧ 8 ≤ x / 16 ^ k % 16

theorem carries_succ (x k : Nat) : Carries x (k + 1) ↔ Carries (x / 16) k := by
  have hplace : x / 16 ^ (k + 1) = x / 16 / 16 ^ k := by
    rw [Nat.pow_succ', Nat.div_div_eq_div_mul]
  rw [Carries, Carries, hplace]

theorem shifted_of_carries (h : Carries x 0) : shifted 0 x = x / 16 + 1 := by
  rw [Carries, Nat.pow_zero, Nat.div_one] at h
  rw [shifted, if_pos ⟨rfl, h.1⟩]
  omega

theorem shifted_of_not_carries (h : scale = 0 → ¬ Carries x 0) : shifted scale x = x / 16 := by
  rw [Carries, Nat.pow_zero, Nat.div_one] at h
  unfold shifted
  split
  · rename_i hs
    have hlt := h hs.1
    omega
  · rfl

theorem emitted_succ_iff (n scale x : Nat) : emitted (n + 1) scale x = x % 16 ^ (n + 1) ↔
    emitted n 0 (shifted scale x) = x / 16 % 16 ^ n := by
  rw [emitted, Nat.pow_succ', Nat.mod_mul]
  omega

theorem emitted_carried (n x : Nat) : emitted n 0 (x + 1) = x % 16 ^ n ↔ n = 0 := by
  cases n with
  | zero => simp [emitted, Nat.mod_one]
  | succ n =>
    refine ⟨fun h => ?_, nofun⟩
    have hmod := congrArg (· % 16) h
    simp only [emitted, Nat.pow_succ', Nat.mod_mul_right_mod] at hmod
    omega

/-- The digits are those of the number exactly if none before the last makes a quotient round up. -/
theorem emitted_zero_iff (n x : Nat) :
    emitted n 0 x = x % 16 ^ n ↔ ∀ k, k + 1 < n → ¬ Carries x k := by
  induction n generalizing x with
  | zero => simp [emitted, Nat.mod_one]
  | succ n ih =>
    rw [emitted_succ_iff]
    by_cases hc : Carries x 0
    · rw [shifted_of_carries hc, emitted_carried]
      constructor
      · rintro rfl k hk
        omega
      · intro h
        by_contra hn
        exact h 0 (by omega) hc
    · rw [shifted_of_not_carries fun _ => hc, ih]
      constructor
      · intro h k hk
        cases k with
        | zero => exact hc
        | succ k => exact fun hk' => h k (by omega) ((carries_succ x k).mp hk')
      · exact fun h k hk hk' => h (k + 1) (by omega) ((carries_succ x k).mpr hk')

theorem emitted_iff (n scale x : Nat) : emitted n scale x = x % 16 ^ n ↔
    ∀ k, k + 1 < n → scale = 0 ∨ 0 < k → ¬ Carries x k := by
  by_cases hs : scale = 0
  · simp only [hs, emitted_zero_iff, true_or, true_implies]
  · cases n with
    | zero => simp [emitted, Nat.mod_one]
    | succ n =>
      rw [emitted_succ_iff, shifted_of_not_carries (absurd · hs), emitted_zero_iff]
      constructor
      · rintro h (_ | k) hk hpos
        · omega
        · exact fun hk' => h k (by omega) ((carries_succ x k).mp hk')
      · exact fun h k hk hk' => h (k + 1) (by omega) (.inr (by omega)) ((carries_succ x k).mpr hk')

theorem Carries.lt (h : Carries x k) (hx : x < 2 ^ 128) : k + 1 < 32 := by
  by_contra hk
  have hpow : 16 ^ 31 ≤ 16 ^ k := Nat.pow_le_pow_right (by decide) (by omega)
  have hdiv : x / 16 ^ k ≤ x / 16 ^ 31 := Nat.div_le_div_left hpow (by decide)
  have hsmall : x / 16 ^ 31 < 16 := by
    rw [Nat.div_lt_iff_lt_mul (by decide)]
    exact hx
  have hlarge := h.1
  omega

/-- The migration keeps the value of a ULID of at most 128 bits exactly if none of its hexadecimal
digits that stand before a rest of at least 17 · 10¹⁶ is 8 or more; the last digit is exempt where
`power` has decimal places. -/
theorem ulid_value_kept_iff (powerScale : Nat) (s : String) (h : IsUlid s)
    (hv : ulidValue s < 2 ^ 128) :
    puppytalkUlidToUuid powerScale s = .ok (ulidValue s) ↔
      ∀ k, powerScale = 0 ∨ 0 < k → 17 * 10 ^ 16 ≤ ulidValue s / 16 ^ k →
        ulidValue s / 16 ^ k % 16 < 8 := by
  have hmod : ulidValue s % 16 ^ 32 = ulidValue s := Nat.mod_eq_of_lt hv
  have hiff := emitted_iff 32 powerScale (ulidValue s)
  rw [hmod] at hiff
  rw [puppytalkUlidToUuid_eq h, Nat.mod_eq_of_lt hv, Except.ok.injEq, hiff]
  constructor
  · intro hk k hpos hlarge
    by_contra hdigit
    have hc : Carries (ulidValue s) k := ⟨hlarge, not_lt.mp hdigit⟩
    exact hk k (hc.lt hv) hpos hc
  · intro hk k _ hpos hc
    exact absurd (hk k hpos hc.1) (not_lt.mpr hc.2)

theorem ulid_value_kept_iff_one :
    IsUlid "00000000000000000000000001" ∧
      puppytalkUlidToUuid 0 "00000000000000000000000001" = .ok 1 := by
  have hulid : IsUlid "00000000000000000000000001" := isUlid_of_all rfl rfl
  have hvalue : ulidValue "00000000000000000000000001" = 1 := by decide
  have hiff := ulid_value_kept_iff 0 _ hulid (by rw [hvalue]; decide)
  rw [hvalue] at hiff
  refine ⟨hulid, hiff.mpr fun k _ hk => ?_⟩
  have hle : 1 / 16 ^ k ≤ 1 := Nat.div_le_self _ _
  omega

/-- Two ULIDs that follow each other, and their UUIDs in the reverse order. -/
theorem ulid_order_reversed :
    ulidValue "0000010000000000000000007Z" = 2 ^ 100 + 255 ∧
    ulidValue "00000100000000000000000080" = 2 ^ 100 + 256 ∧
    puppytalkUlidToUuid 0 "0000010000000000000000007Z" = .ok (2 ^ 100 + 271) ∧
    puppytalkUlidToUuid 16 "0000010000000000000000007Z" = .ok (2 ^ 100 + 511) ∧
    puppytalkUlidToUuid 0 "00000100000000000000000080" = .ok (2 ^ 100 + 256) ∧
    puppytalkUlidToUuid 16 "00000100000000000000000080" = .ok (2 ^ 100 + 256) := by
  have hfirst : ulidValue "0000010000000000000000007Z" = 2 ^ 100 + 255 := by decide
  have hsecond : ulidValue "00000100000000000000000080" = 2 ^ 100 + 256 := by decide
  have hulid : IsUlid "0000010000000000000000007Z" := isUlid_of_all rfl rfl
  have hulid' : IsUlid "00000100000000000000000080" := isUlid_of_all rfl rfl
  rw [puppytalkUlidToUuid_eq hulid, puppytalkUlidToUuid_eq hulid, puppytalkUlidToUuid_eq hulid',
    puppytalkUlidToUuid_eq hulid', hfirst, hsecond]
  decide

end PuppyTalk.UlidMigration
