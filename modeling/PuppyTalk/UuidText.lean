import Mathlib
import PuppyTalk.Common

namespace PuppyTalk

def hexDigitValue (c : Char) : Nat :=
  if c.toNat < 58 then c.toNat - 48 else c.toNat - 87

def hexValue (l : List Char) : Nat := l.foldl (fun n c => 16 * n + hexDigitValue c) 0

theorem hexDigitValue_digitChar : ∀ n < 16, hexDigitValue (Nat.digitChar n) = n := by
  decide

theorem hexValue_toDigits (n : Nat) : hexValue (Nat.toDigits 16 n) = n := by
  induction n using Nat.strongRecOn with
  | ind n ih =>
    by_cases hn : n < 16
    · rw [Nat.toDigits_of_lt_base hn]
      exact (Nat.zero_add _).trans (hexDigitValue_digitChar n hn)
    · have hlast := hexDigitValue_digitChar (n % 16) (Nat.mod_lt n (by decide))
      rw [Nat.toDigits_of_base_le (by decide) (by omega), hexValue, List.foldl_append]
      have hih := ih (n / 16) (by omega)
      simp only [hexValue] at hih
      simp only [hih, List.foldl_cons, List.foldl_nil, hlast]
      omega

theorem hexValue_pad (k : Nat) (l : List Char) : hexValue (List.replicate k '0' ++ l) = hexValue l := by
  induction k with
  | zero => rfl
  | succ k ih => exact ih

def Uuid.hex (u : Uuid) : List Char :=
  let digits := Nat.toDigits 16 u
  List.replicate (32 - digits.length) '0' ++ digits

/-- `str(UUID)`. -/
def Uuid.text (u : Uuid) : String :=
  let hex := u.hex
  String.ofList (hex.take 8 ++ '-' :: ((hex.drop 8).take 4 ++ '-' :: ((hex.drop 12).take 4 ++
    '-' :: ((hex.drop 16).take 4 ++ '-' :: hex.drop 20))))

theorem Uuid.hex_injective (h : Uuid.hex u = Uuid.hex v) : u = v := by
  have hv := congrArg hexValue h
  rwa [Uuid.hex, Uuid.hex, hexValue_pad, hexValue_pad, hexValue_toDigits, hexValue_toDigits] at hv

theorem Uuid.hex_length (u : Uuid) : 32 ≤ u.hex.length := by
  simp only [Uuid.hex, List.length_append, List.length_replicate]
  omega

theorem cut_inj {x y a b : List Char} (hx : n ≤ x.length) (hy : n ≤ y.length)
    (h : x.take n ++ '-' :: a = y.take n ++ '-' :: b) : x.take n = y.take n ∧ a = b := by
  obtain ⟨ht, hrest⟩ := List.append_inj h (by simp [hx, hy])
  exact ⟨ht, (List.cons.inj hrest).2⟩

theorem Uuid.text_injective : Function.Injective Uuid.text := by
  intro u v h
  have hu := u.hex_length
  have hv := v.hex_length
  apply Uuid.hex_injective
  have hl := String.ofList_inj.mp h
  obtain ⟨h₁, hl⟩ := cut_inj (by omega) (by omega) hl
  obtain ⟨h₂, hl⟩ := cut_inj (by simp; omega) (by simp; omega) hl
  obtain ⟨h₃, hl⟩ := cut_inj (by simp; omega) (by simp; omega) hl
  obtain ⟨h₄, hl⟩ := cut_inj (by simp; omega) (by simp; omega) hl
  have hjoin (l : List Char) : l.take 8 ++ ((l.drop 8).take 4 ++ ((l.drop 12).take 4 ++
      ((l.drop 16).take 4 ++ l.drop 20))) = l := by
    have hd (k : Nat) : (l.drop k).take 4 ++ l.drop (k + 4) = l.drop k := by
      rw [← List.drop_drop]
      exact List.take_append_drop 4 _
    rw [hd 16, hd 12, hd 8, List.take_append_drop]
  rw [← hjoin u.hex, ← hjoin v.hex, h₁, h₂, h₃, h₄, hl]

/-! ### Digits by place -/

def hexDigits : Nat → Nat → List Char
  | 0, _ => []
  | k + 1, n => hexDigits k (n / 16) ++ [Nat.digitChar (n % 16)]

@[simp] theorem hexDigits_length (k n : Nat) : (hexDigits k n).length = k := by
  induction k generalizing n with
  | zero => rfl
  | succ k ih => simp [hexDigits, ih]

theorem hexDigits_add (j k n : Nat) :
    hexDigits (j + k) n = hexDigits j (n / 16 ^ k) ++ hexDigits k n := by
  induction k generalizing n with
  | zero => simp [hexDigits]
  | succ k ih =>
    rw [← Nat.add_assoc, hexDigits, hexDigits, ih, List.append_assoc, Nat.div_div_eq_div_mul,
      Nat.pow_succ']

theorem hexDigits_mem (k n : Nat) : ∀ c ∈ hexDigits k n, ∃ d < 16, c = Nat.digitChar d := by
  induction k generalizing n with
  | zero => exact nofun
  | succ k ih =>
    intro c hc
    rcases List.mem_append.mp hc with hc | hc
    · exact ih _ c hc
    · exact ⟨n % 16, Nat.mod_lt n (by decide), List.mem_singleton.mp hc⟩

theorem hexDigits_zero (k : Nat) : hexDigits k 0 = List.replicate k '0' := by
  induction k with
  | zero => rfl
  | succ k ih =>
    rw [hexDigits, Nat.zero_div, ih, List.replicate_succ']
    rfl

theorem pad_toDigits (k : Nat) {n : Nat} (hn : n < 16 ^ (k + 1)) :
    List.replicate (k + 1 - (Nat.toDigits 16 n).length) '0' ++ Nat.toDigits 16 n =
      hexDigits (k + 1) n := by
  induction k generalizing n with
  | zero =>
    have hlt : n < 16 := by simpa using hn
    rw [Nat.toDigits_of_lt_base hlt, hexDigits, Nat.mod_eq_of_lt hlt]
    rfl
  | succ k ih =>
    by_cases hlt : n < 16
    · rw [Nat.toDigits_of_lt_base hlt, hexDigits, Nat.mod_eq_of_lt hlt, Nat.div_eq_of_lt hlt,
        hexDigits_zero]
      rfl
    · have hdiv : n / 16 < 16 ^ (k + 1) := by
        rw [Nat.div_lt_iff_lt_mul (by decide), ← Nat.pow_succ]
        exact hn
      rw [Nat.toDigits_of_base_le (by decide) (by omega), hexDigits, ← ih hdiv, List.length_append,
        List.length_singleton, Nat.add_sub_add_right, List.append_assoc]

theorem Uuid.hex_eq (hu : u < 2 ^ 128) : Uuid.hex u = hexDigits 32 u :=
  pad_toDigits 31 hu

theorem Uuid.text_groups (hu : u < 2 ^ 128) :
    (Uuid.text u).toList = hexDigits 8 (u / 16 ^ 24) ++ '-' :: (hexDigits 4 (u / 16 ^ 20) ++ '-' ::
      (hexDigits 4 (u / 16 ^ 16) ++ '-' :: (hexDigits 4 (u / 16 ^ 12) ++ '-' :: hexDigits 12 u))) := by
  have hhex : Uuid.hex u = hexDigits 8 (u / 16 ^ 24) ++ (hexDigits 4 (u / 16 ^ 20) ++
      (hexDigits 4 (u / 16 ^ 16) ++ (hexDigits 4 (u / 16 ^ 12) ++ hexDigits 12 u))) := by
    rw [Uuid.hex_eq hu, hexDigits_add 8 24, hexDigits_add 4 20, hexDigits_add 4 16,
      hexDigits_add 4 12]
  have hcut (k m : Nat) (l : List Char) :
      (hexDigits k m ++ l).take k = hexDigits k m ∧ (hexDigits k m ++ l).drop k = l :=
    ⟨List.take_left' (hexDigits_length k m), List.drop_left' (hexDigits_length k m)⟩
  have hdrop (l : List Char) : l.drop 12 = (l.drop 8).drop 4 ∧ l.drop 16 = ((l.drop 8).drop 4).drop 4 ∧
      l.drop 20 = (((l.drop 8).drop 4).drop 4).drop 4 := by
    simp only [List.drop_drop, and_self]
  unfold Uuid.text
  rw [String.toList_ofList, hhex]
  simp only [(hdrop _).1, (hdrop _).2.1, (hdrop _).2.2, (hcut _ _ _).1, (hcut _ _ _).2]

end PuppyTalk
