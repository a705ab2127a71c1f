import Mathlib

namespace PuppyTalk

abbrev RedisHash (φ : Type) := List (φ × Int)

namespace RedisHash

variable {φ : Type} [DecidableEq φ]

def hincrby (f : φ) (n : Int) : RedisHash φ → RedisHash φ
  | [] => [(f, n)]
  | (g, m) :: h => if g = f then (g, m + n) :: h else (g, m) :: hincrby f n h

def hget (f : φ) (h : RedisHash φ) : Option Int := (h.find? (·.1 = f)).map Prod.snd

def count (f : φ) : RedisHash φ → Int
  | [] => 0
  | (g, m) :: h => (if g = f then m else 0) + count f h

@[simp] theorem count_nil (f : φ) : count f [] = 0 := rfl

theorem count_cons (f : φ) (e : φ × Int) (h : RedisHash φ) :
    count f (e :: h) = (if e.1 = f then e.2 else 0) + count f h := rfl

theorem count_hincrby (f g : φ) (n : Int) (h : RedisHash φ) :
    count f (hincrby g n h) = (if g = f then n else 0) + count f h := by
  induction h with
  | nil => rfl
  | cons e h ih =>
    simp only [hincrby]
    split
    · rename_i heq
      simp only [count_cons, heq]
      split <;> omega
    · simp only [count_cons, ih]
      omega

theorem count_nonneg {h : RedisHash φ} (hh : ∀ e ∈ h, 0 ≤ e.2) (f : φ) : 0 ≤ count f h := by
  induction h with
  | nil => exact Int.le_refl 0
  | cons e h ih =>
    have hhead := hh e List.mem_cons_self
    have htail := ih fun e he => hh e (List.mem_cons_of_mem _ he)
    rw [count_cons]
    split <;> omega

theorem hincrby_nonneg {h : RedisHash φ} (hh : ∀ e ∈ h, 0 ≤ e.2) (hn : 0 ≤ n)
    (f : φ) : ∀ e ∈ hincrby f n h, 0 ≤ e.2 := by
  induction h with
  | nil => simpa [hincrby] using hn
  | cons e h ih =>
    have hhead := hh e List.mem_cons_self
    have htail := fun e he => hh e (List.mem_cons_of_mem _ he)
    simp only [hincrby]
    split
    · intro e' he'
      rcases List.mem_cons.mp he' with rfl | he'
      · exact Int.add_nonneg hhead hn
      · exact htail e' he'
    · intro e' he'
      rcases List.mem_cons.mp he' with rfl | he'
      · exact hhead
      · exact ih htail e' he'

end RedisHash

theorem sum_map_set {l : List α} (g : α → Int) (h : l[i]? = some a) (b : α) :
    ((l.set i b).map g).sum = (l.map g).sum - g a + g b := by
  induction l generalizing i with
  | nil => cases h
  | cons c l ih =>
    cases i with
    | zero =>
      cases h
      simp only [List.set_cons_zero, List.map_cons, List.sum_cons]
      omega
    | succ i =>
      have hih := ih h
      simp only [List.set_cons_succ, List.map_cons, List.sum_cons, hih]
      omega

end PuppyTalk
