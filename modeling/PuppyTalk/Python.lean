import Mathlib

namespace PuppyTalk.Python

/-- `str.isspace` on one character. -/
def isSpace (c : Char) : Bool :=
  (9 ≤ c.toNat && c.toNat ≤ 13) || (28 ≤ c.toNat && c.toNat ≤ 32) ||
  c.toNat == 0x85 || c.toNat == 0xA0 || c.toNat == 0x1680 ||
  (0x2000 ≤ c.toNat && c.toNat ≤ 0x200A) || c.toNat == 0x2028 || c.toNat == 0x2029 ||
  c.toNat == 0x202F || c.toNat == 0x205F || c.toNat == 0x3000

def strip (s : String) : String :=
  String.ofList ((s.toList.dropWhile isSpace).reverse.dropWhile isSpace).reverse

/-- `bytes.lower`, which changes the ASCII letters. -/
def lower (s : String) : String := String.ofList (s.toList.map Char.toLower)

/-- `s.split(",")[0]`. -/
def beforeComma (s : String) : String := String.ofList (s.toList.takeWhile (· ≠ ','))

/-- `str.rstrip` of a character. -/
def rstripChar (c : Char) (s : String) : String := String.ofList (s.toList.rdropWhile (· = c))

/-- `len` of a string: its number of code points. -/
def len (s : String) : Nat := s.toList.length

end PuppyTalk.Python

namespace PuppyTalk

theorem isSpace_eq_false (h : 33 ≤ c.toNat) (h' : c.toNat ≤ 126) : Python.isSpace c = false := by
  simp only [Python.isSpace, Bool.or_eq_false_iff, Bool.and_eq_false_iff, decide_eq_false_iff_not,
    beq_eq_false_iff_ne]
  omega

/-- `str.strip` on the characters. -/
def stripChars (l : List Char) : List Char :=
  ((l.dropWhile Python.isSpace).reverse.dropWhile Python.isSpace).reverse

theorem strip_toList (s : String) : (Python.strip s).toList = stripChars s.toList :=
  String.toList_ofList

theorem stripChars_eq_self (hhead : ∀ c ∈ l.head?, Python.isSpace c = false)
    (hlast : ∀ c ∈ l.getLast?, Python.isSpace c = false) : stripChars l = l := by
  have hdrop {m : List Char} (hm : ∀ c ∈ m.head?, Python.isSpace c = false) :
      m.dropWhile Python.isSpace = m := by
    cases m with
    | nil => rfl
    | cons c m => exact List.dropWhile_cons_of_neg (by simp [hm c rfl])
  have hrev : ∀ c ∈ l.reverse.head?, Python.isSpace c = false := by
    rwa [List.head?_reverse]
  rw [stripChars, hdrop hhead, hdrop hrev, List.reverse_reverse]

theorem stripChars_of_plain (h : ∀ c ∈ l, Python.isSpace c = false) : stripChars l = l :=
  stripChars_eq_self (fun c hc => h c (List.mem_of_mem_head? hc))
    fun c hc => h c (List.mem_of_mem_getLast? hc)

theorem strip_of_plain (h : ∀ c ∈ s.toList, Python.isSpace c = false) : Python.strip s = s := by
  apply String.toList_injective
  rw [strip_toList, stripChars_of_plain h]

theorem dropWhile_head {p : α → Bool} {l : List α} (hc : c ∈ (l.dropWhile p).head?) :
    p c = false := by
  have h := List.head?_dropWhile_not p l
  rwa [Option.mem_def.mp hc] at h

theorem stripChars_getLast (l : List Char) :
    ∀ c ∈ (stripChars l).getLast?, Python.isSpace c = false := by
  intro c hc
  rw [stripChars, List.getLast?_reverse] at hc
  exact dropWhile_head hc

theorem strip_surrounded {before t after : String}
    (hbefore : ∀ c ∈ before.toList, Python.isSpace c = true)
    (hafter : ∀ c ∈ after.toList, Python.isSpace c = true)
    (ht : ∀ c ∈ t.toList, Python.isSpace c = false) : Python.strip (before ++ t ++ after) = t := by
  have hkeep (l m : List Char) (hl : ∀ c ∈ l, Python.isSpace c = false) (hne : l ≠ []) :
      (l ++ m).dropWhile Python.isSpace = l ++ m := by
    cases l with
    | nil => exact absurd rfl hne
    | cons c l => exact List.dropWhile_cons_of_neg (by simp [hl c List.mem_cons_self])
  apply String.toList_injective
  rw [strip_toList, String.toList_append, String.toList_append, stripChars, List.append_assoc,
    List.dropWhile_append_of_pos hbefore]
  by_cases hne : t.toList = []
  · rw [hne, List.nil_append, List.dropWhile_eq_nil_iff.mpr hafter]
    rfl
  · have hrev := hkeep t.toList.reverse [] (fun c hc => ht c (List.mem_reverse.mp hc))
      (mt List.reverse_eq_nil_iff.mp hne)
    rw [List.append_nil] at hrev
    rw [hkeep _ _ ht hne, List.reverse_append,
      List.dropWhile_append_of_pos fun c hc => hafter c (List.mem_reverse.mp hc), hrev,
      List.reverse_reverse]

end PuppyTalk
