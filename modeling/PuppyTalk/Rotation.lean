import Mathlib.Data.List.Nodup

namespace PuppyTalk.Rotation

/-- What happens to slots that each hold one token: a token is stored or deleted, or it is accepted,
with or without a successor in its place. -/
inductive Event (κ δ : Type) where
  | stored (k : κ) (d : δ)
  | deleted (k : κ)
  | rotated (k : κ) (old new : δ)
  | accepted (k : κ) (d : δ)
  deriving DecidableEq, Repr

variable {κ δ : Type}

def Event.write : Event κ δ → Option (κ × δ)
  | .stored k d => some (k, d)
  | .rotated k _ d => some (k, d)
  | _ => none

def Event.accept : Event κ δ → Option (κ × δ)
  | .rotated k d _ => some (k, d)
  | .accepted k d => some (k, d)
  | _ => none

def written (log : List (Event κ δ)) : List (κ × δ) := log.filterMap Event.write

def acceptances (log : List (Event κ δ)) : List (κ × δ) := log.filterMap Event.accept

def tokens (log : List (Event κ δ)) : List δ := (written log).map Prod.snd

theorem tokens_cons (e : Event κ δ) (log : List (Event κ δ)) :
    tokens (e :: log) = (e.write.map Prod.snd).toList ++ tokens log := by
  cases e <;> rfl

theorem tokens_append (newer log : List (Event κ δ)) :
    tokens (newer ++ log) = tokens newer ++ tokens log := by
  simp [tokens, written]

variable [DecidableEq κ]

def current (k : κ) : List (Event κ δ) → Option δ
  | [] => none
  | .stored k' d :: log => if k' = k then some d else current k log
  | .deleted k' :: log => if k' = k then none else current k log
  | .rotated k' _ d :: log => if k' = k then some d else current k log
  | .accepted _ _ :: log => current k log

def lastWritten (k : κ) (log : List (Event κ δ)) : Option δ :=
  ((written log).find? (·.1 = k)).map Prod.snd

def Valid : List (Event κ δ) → Prop
  | [] => True
  | .stored _ d :: log => d ∉ tokens log ∧ Valid log
  | .deleted _ :: log => Valid log
  | .rotated k old new :: log => current k log = some old ∧ new ∉ tokens log ∧ Valid log
  | .accepted _ _ :: _ => False

variable {log newer older : List (Event κ δ)} {e : Event κ δ} {k : κ} {d : δ}

theorem Valid.tail (h : Valid (e :: log)) : Valid log := by
  cases e with
  | stored => exact h.2
  | deleted => exact h
  | rotated => exact h.2.2
  | accepted => exact h.elim

theorem Valid.of_append (h : Valid (newer ++ log)) : Valid log := by
  induction newer with
  | nil => exact h
  | cons e newer ih => exact ih h.tail

theorem Valid.tokens_nodup (h : Valid log) : (tokens log).Nodup := by
  induction log with
  | nil => exact List.nodup_nil
  | cons e log ih =>
    cases e with
    | stored k d => exact List.nodup_cons.mpr ⟨h.1, ih h.2⟩
    | deleted => exact ih h
    | rotated k old new => exact List.nodup_cons.mpr ⟨h.2.1, ih h.2.2⟩
    | accepted => exact h.elim

theorem current_append (h : current k (newer ++ log) = some d) :
    d ∈ tokens newer ∨ current k log = some d := by
  induction newer with
  | nil => exact .inr h
  | cons e newer ih =>
    rw [tokens_cons, List.mem_append, or_assoc]
    cases e with
    | stored k' d' =>
      simp only [List.cons_append, current] at h
      split at h
      · cases h
        exact .inl (List.mem_singleton_self d)
      · exact .inr (ih h)
    | deleted k' =>
      simp only [List.cons_append, current] at h
      split at h
      · cases h
      · exact .inr (ih h)
    | rotated k' old new =>
      simp only [List.cons_append, current] at h
      split at h
      · cases h
        exact .inl (List.mem_singleton_self d)
      · exact .inr (ih h)
    | accepted => exact .inr (ih h)

theorem current_mem (h : current k log = some d) : d ∈ tokens log := by
  rw [← List.append_nil log] at h
  rcases current_append h with h | h
  · exact h
  · cases h

theorem lastWritten_write (h : e.write = some (k', d)) :
    lastWritten k (e :: log) = if k' = k then some d else lastWritten k log := by
  simp only [lastWritten, written, List.filterMap_cons, h, List.find?_cons]
  split
  · simp_all
  · simp_all

theorem current_lastWritten (h : current k log = some d) : lastWritten k log = some d := by
  induction log with
  | nil => cases h
  | cons e log ih =>
    cases e with
    | stored k' d' =>
      rw [lastWritten_write (by rfl)]
      simp only [current] at h
      split
      · simpa [*] using h
      · exact ih (by simpa [*] using h)
    | deleted k' =>
      simp only [current] at h
      split at h
      · cases h
      · exact ih h
    | rotated k' old new =>
      rw [lastWritten_write (by rfl)]
      simp only [current] at h
      split
      · simpa [*] using h
      · exact ih (by simpa [*] using h)
    | accepted => exact ih h

theorem Valid.current_inj (h : Valid log) (hk : current k log = some d)
    (hk' : current k' log = some d) : k = k' := by
  induction log with
  | nil => cases hk
  | cons e log ih =>
    cases e with
    | stored k₀ d₀ =>
      simp only [current] at hk hk'
      split at hk <;> split at hk'
      · simp_all
      · cases hk
        exact absurd (current_mem hk') h.1
      · cases hk'
        exact absurd (current_mem hk) h.1
      · exact ih h.2 hk hk'
    | deleted k₀ =>
      simp only [current] at hk hk'
      split at hk
      · cases hk
      split at hk'
      · cases hk'
      · exact ih h hk hk'
    | rotated k₀ old new =>
      simp only [current] at hk hk'
      split at hk <;> split at hk'
      · simp_all
      · cases hk
        exact absurd (current_mem hk') h.2.1
      · cases hk'
        exact absurd (current_mem hk) h.2.1
      · exact ih h.2.2 hk hk'
    | accepted => exact h.elim

theorem Valid.spent (h : Valid log) (hd : (k, d) ∈ acceptances log) :
    d ∈ tokens log ∧ ∀ k', current k' log ≠ some d := by
  induction log with
  | nil => cases hd
  | cons e log ih =>
    cases e with
    | stored k₀ d₀ =>
      obtain ⟨hmem, hno⟩ := ih h.2 hd
      apply And.intro (List.mem_cons_of_mem _ hmem)
      intro k' hk'
      simp only [current] at hk'
      split at hk'
      · cases hk'
        exact h.1 hmem
      · exact hno k' hk'
    | deleted k₀ =>
      obtain ⟨hmem, hno⟩ := ih h hd
      apply And.intro hmem
      intro k' hk'
      simp only [current] at hk'
      split at hk'
      · cases hk'
      · exact hno k' hk'
    | rotated k₀ old new =>
      obtain ⟨hcur, hfresh, hvalid⟩ := h
      rcases List.mem_cons.mp hd with he | hd
      · -- the token that this event takes out of its slot
        cases he
        apply And.intro (List.mem_cons_of_mem _ (current_mem hcur))
        intro k' hk'
        simp only [current] at hk'
        split at hk'
        · cases hk'
          exact hfresh (current_mem hcur)
        · rename_i hne
          exact hne (hvalid.current_inj hcur hk')
      · obtain ⟨hmem, hno⟩ := ih hvalid hd
        apply And.intro (List.mem_cons_of_mem _ hmem)
        intro k' hk'
        simp only [current] at hk'
        split at hk'
        · cases hk'
          exact hfresh hmem
        · exact hno k' hk'
    | accepted => exact h.elim

theorem Valid.accepted_nodup (h : Valid log) : ((acceptances log).map Prod.snd).Nodup := by
  induction log with
  | nil => exact List.nodup_nil
  | cons e log ih =>
    cases e with
    | stored => exact ih h.2
    | deleted => exact ih h
    | rotated k₀ old new =>
      apply List.nodup_cons.mpr
      apply And.intro _ (ih h.2.2)
      intro hmem
      obtain ⟨⟨k', d⟩, hd, rfl⟩ := List.mem_map.mp hmem
      exact (h.2.2.spent hd).2 k₀ h.1
    | accepted => exact h.elim

theorem Valid.accept_current (h : Valid (e :: log)) (he : e.accept = some (k, d)) :
    current k log = some d := by
  cases e with
  | rotated k₀ old new =>
    cases he
    exact h.1
  | accepted => exact h.elim
  | _ => cases he

theorem Valid.accept_lastWritten (h : Valid (newer ++ e :: older)) (he : e.accept = some (k, d)) :
    lastWritten k older = some d :=
  current_lastWritten (h.of_append.accept_current he)

/-- A token that was written before its slot was emptied is not accepted afterwards. -/
theorem Valid.accept_after_deleted (h : Valid (newer ++ e :: (mid ++ .deleted k :: older)))
    (he : e.accept = some (k, d)) : d ∉ tokens older := by
  have hcur := h.of_append.accept_current he
  have hnodup := h.of_append.tail.tokens_nodup
  rw [tokens_append] at hnodup
  rcases current_append hcur with hmid | hdel
  · intro hold
    exact (List.nodup_append.mp hnodup).2.2 d hmid d hold rfl
  · simp [current] at hdel

end PuppyTalk.Rotation
