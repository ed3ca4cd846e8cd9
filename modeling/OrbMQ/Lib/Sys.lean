import Mathlib

/-!
# Transition systems and their runs

A system is a step function: an action leads from a state to the next one, or cannot be taken. A
concurrent program is one whose actions say which thread moves and what its environment does.

* `run step s acts`: the state after some actions.
* `run_invariant`: what holds at the start and is kept by every step holds after every run.
* `run_history`: the same for a property that also speaks about the actions so far.
* `record step note`: the system with a history variable, which `note` updates in every step. It
  takes the same steps (`run_record`).
* `Inevitable R P s`: every run of `R` from `s` comes to `P`. `inevitable_of_rank` proves it with a rank that
  every step lowers.
-/

namespace Sys

variable {σ α : Type} {step : σ → α → Option σ}

/-- The state after some actions; `none` if one of them cannot be taken. -/
def run (step : σ → α → Option σ) (s : σ) (acts : List α) : Option σ := acts.foldlM step s

@[simp] theorem run_nil (s : σ) : run step s [] = some s := rfl

theorem run_append (s : σ) (acts acts' : List α) :
    run step s (acts ++ acts') = (run step s acts).bind fun s' => run step s' acts' :=
  List.foldlM_append

theorem run_trans {s₁ s₂ s₃ : σ} {acts acts' : List α} (h : run step s₁ acts = some s₂)
    (h' : run step s₂ acts' = some s₃) : run step s₁ (acts ++ acts') = some s₃ := by
  rw [run_append, h]
  exact h'

theorem run_singleton {s s' : σ} {a : α} (h : step s a = some s') : run step s [a] = some s' := by
  simp [run, h]

theorem run_cons {s₁ s₂ s₃ : σ} {a : α} {acts : List α} (h : step s₁ a = some s₂) (h' : run step s₂ acts = some s₃) :
    run step s₁ (a :: acts) = some s₃ :=
  run_trans (run_singleton h) h'

theorem run_snoc (s : σ) (acts : List α) (a : α) :
    run step s (acts ++ [a]) = (run step s acts).bind fun s' => step s' a := by
  rw [run_append]
  congr 1
  funext s'
  simp [run]

/-- An invariant over the actions so far and the state that they lead to. -/
theorem run_history {I : List α → σ → Prop} {s₀ : σ} (init : I [] s₀)
    (keep : ∀ acts s a s', run step s₀ acts = some s → I acts s → step s a = some s' → I (acts ++ [a]) s')
    {acts : List α} {s : σ} (h : run step s₀ acts = some s) : I acts s := by
  induction acts using List.reverseRecOn generalizing s with
  | nil =>
    cases h
    exact init
  | append_singleton acts a ih =>
    rw [run_snoc] at h
    obtain ⟨s', hs', hstep⟩ := Option.bind_eq_some_iff.mp h
    exact keep acts s' a s hs' (ih hs') hstep

/-- An invariant of the states. -/
theorem run_invariant {I : σ → Prop} {s₀ : σ} (init : I s₀)
    (keep : ∀ s a s', I s → step s a = some s' → I s') {acts : List α} {s : σ}
    (h : run step s₀ acts = some s) : I s :=
  run_history (I := fun _ s => I s) init (fun _ s a s' _ hi hs => keep s a s' hi hs) h

/-- A system that takes the same steps, and maybe more. -/
theorem run_mono {step' : σ → α → Option σ} (hstep : ∀ s a s', step s a = some s' → step' s a = some s') {s s' : σ}
    {acts : List α} (h : run step s acts = some s') : run step' s acts = some s' := by
  refine run_history (I := fun acts s' => run step' s acts = some s') rfl (fun acts s₁ a s₂ _ hi hs => ?_) h
  exact run_trans hi (run_singleton (hstep s₁ a s₂ hs))

/-- A run that is given: each of its steps can be taken. -/
theorem run_total {I : List α → σ → Prop} {s₀ : σ} (acts : List α) (init : I [] s₀)
    (keep : ∀ done a rest s, acts = done ++ a :: rest → I done s → ∃ s', step s a = some s' ∧ I (done ++ [a]) s') :
    ∃ s, run step s₀ acts = some s ∧ I acts s := by
  induction acts using List.reverseRecOn with
  | nil => exact ⟨s₀, rfl, init⟩
  | append_singleton acts a ih =>
    obtain ⟨s, hs, hi⟩ := ih fun done b rest s e => keep done b (rest ++ [a]) s (by simp [e])
    obtain ⟨s', hs', hi'⟩ := keep acts a [] s rfl hi
    exact ⟨s', run_trans hs (run_singleton hs'), hi'⟩

/-- The same action again and again. -/
theorem run_replicate {I : Nat → σ → Prop} {s₀ : σ} {a : α} (init : I 0 s₀) (n : Nat)
    (keep : ∀ k < n, ∀ s, I k s → ∃ s', step s a = some s' ∧ I (k + 1) s') :
    ∃ s, run step s₀ (List.replicate n a) = some s ∧ I n s := by
  induction n with
  | zero => exact ⟨s₀, rfl, init⟩
  | succ n ih =>
    obtain ⟨s, hs, hi⟩ := ih fun k hk => keep k (Nat.lt_succ_of_lt hk)
    obtain ⟨s', hs', hi'⟩ := keep n (Nat.lt_succ_self n) s hi
    refine ⟨s', ?_, hi'⟩
    rw [List.replicate_succ', run_snoc, hs]
    exact hs'

/-! ## History variables -/

variable {γ : Type} {note : σ → α → γ → γ}

/-- The system with a history variable: `note s a` updates it when `a` is taken in `s`. -/
def record (step : σ → α → Option σ) (note : σ → α → γ → γ) (s : σ × γ) (a : α) : Option (σ × γ) :=
  (step s.1 a).map fun s' => (s', note s.1 a s.2)

theorem record_eq_some {s s' : σ} {g g' : γ} {a : α} :
    record step note (s, g) a = some (s', g') ↔ step s a = some s' ∧ note s a g = g' := by
  simp [record]

/-- The history variable blocks no run. -/
theorem run_record {s s' : σ} {acts : List α} (h : run step s acts = some s') (g : γ) :
    ∃ g', run (record step note) (s, g) acts = some (s', g') := by
  refine run_history (I := fun acts s' => ∃ g', run (record step note) (s, g) acts = some (s', g'))
    ⟨g, rfl⟩ ?_ h
  rintro acts s₁ a s₂ - ⟨g₁, h₁⟩ hstep
  refine ⟨note s₁ a g₁, ?_⟩
  rw [run_snoc, h₁]
  exact record_eq_some.mpr ⟨hstep, rfl⟩

/-- The history variable adds no run. -/
theorem run_of_record {s s' : σ} {g g' : γ} {acts : List α}
    (h : run (record step note) (s, g) acts = some (s', g')) : run step s acts = some s' := by
  refine run_history (I := fun acts t => run step s acts = some t.1) rfl ?_ h
  rintro acts ⟨s₁, g₁⟩ a ⟨s₂, g₂⟩ - h₁ hstep
  rw [run_snoc, h₁]
  exact (record_eq_some.mp hstep).1

/-! ## What every run comes to -/

/-- Every run of `R` from a state comes to `P`: it cannot stop before, and it cannot go on forever. -/
inductive Inevitable (R : σ → σ → Prop) (P : σ → Prop) : σ → Prop
  | here {s : σ} : P s → Inevitable R P s
  | later {s : σ} : (∃ s', R s s') → (∀ s', R s s' → Inevitable R P s') → Inevitable R P s

/-- It is enough that a step is there until `P` holds, and that every step lowers a rank. -/
theorem inevitable_of_rank {ρ : Type} [LT ρ] [WellFoundedLT ρ] {R : σ → σ → Prop} {P I : σ → Prop} (rank : σ → ρ)
    (progress : ∀ s, I s → P s ∨ ∃ s', R s s') (lower : ∀ s s', I s → R s s' → I s' ∧ rank s' < rank s) {s : σ}
    (h : I s) : Inevitable R P s := by
  induction hr : rank s using WellFoundedLT.induction generalizing s with
  | _ r ih =>
    subst hr
    obtain hp | hnext := progress s h
    · exact .here hp
    · refine .later hnext fun s' hs => ?_
      obtain ⟨hi, hlt⟩ := lower s s' h hs
      exact ih (rank s') hlt hi rfl

end Sys
