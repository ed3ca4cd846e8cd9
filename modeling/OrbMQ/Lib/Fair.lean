import OrbMQ.Lib.Sys

/-!
# Fair runs

An infinite run of a system, and what its scheduler owes to a thread: that it is not passed over forever.

* `Trace step x acts`: the states of an infinite run and its actions. It may stand still.
* `Fair step A x acts`: again and again, an action of `A` is taken, or none of them can be taken.
* `Trace.eventually`: a fair run comes to `P`, if some thread can always take a step towards it, and the others take
  nothing back.
* `history`: a history variable along an infinite run. `Trace.record`, `Fair.record`: the run is one of the system with
  the variable, and as fair as it was.
* `trace_of_run`, `fair_of_run`: a run that stops where `A` can do nothing is a fair one.
-/

namespace Sys

variable {σ α : Type} {step : σ → α → Option σ} {x : Nat → σ} {acts : Nat → Option α}

structure Trace (step : σ → α → Option σ) (x : Nat → σ) (acts : Nat → Option α) : Prop where
  takes : ∀ n a, acts n = some a → step (x n) a = some (x (n + 1))
  rests : ∀ n, acts n = none → x (n + 1) = x n

/-- Weak fairness for the actions of `A`. -/
def Fair (step : σ → α → Option σ) (A : α → Prop) (x : Nat → σ) (acts : Nat → Option α) : Prop :=
  ∀ n, ∃ m ≥ n, (∃ a, acts m = some a ∧ A a) ∨ ∀ a, A a → step (x m) a = none

theorem Trace.invariant {I : σ → Prop} (h : Trace step x acts) (init : I (x 0))
    (keep : ∀ s a s', I s → step s a = some s' → I s') (n : Nat) : I (x n) := by
  induction n with
  | zero => exact init
  | succ n ih =>
    cases ha : acts n with
    | none => exact h.rests n ha ▸ ih
    | some a => exact keep _ a _ ih (h.takes n a ha)

/-- At every state that is not yet in `P`, the threads of `help s` can take a step. Such a step lowers the rank, and
every other step lowers it too, or keeps both the rank and who has to move. -/
theorem Trace.eventually {η ρ : Type} [LT ρ] [WellFoundedLT ρ] {I P : σ → Prop} {A : η → α → Prop} (rank : σ → ρ)
    (help : σ → η) (h : Trace step x acts) (fair : ∀ t, Fair step (A t) x acts) (inv : ∀ n, I (x n))
    (enabled : ∀ s, I s → ¬ P s → ∃ a s', A (help s) a ∧ step s a = some s')
    (lower : ∀ s a s', I s → I s' → ¬ P s → step s a = some s' →
      P s' ∨ rank s' < rank s ∨ rank s' = rank s ∧ help s' = help s ∧ ¬ A (help s) a)
    (n : Nat) : ∃ m ≥ n, P (x m) := by
  induction hr : rank (x n) using WellFoundedLT.induction generalizing n with
  | _ r ih =>
    subst hr
    by_contra hnever
    have hnot : ∀ m ≥ n, ¬ P (x m) := fun m hm hp => hnever ⟨m, hm, hp⟩
    -- A lower rank would lead to `P`.
    have hrank : ∀ m ≥ n, ¬ rank (x m) < rank (x n) := fun m hm hlt => by
      obtain ⟨m', hm', hp⟩ := ih _ hlt m rfl
      exact hnot m' (Nat.le_trans hm hm') hp
    -- So everything stays as it is, until the fair thread moves.
    have hstay : ∀ k, rank (x (n + k)) = rank (x n) ∧ help (x (n + k)) = help (x n) ∧
        ∀ a, acts (n + k) = some a → ¬ A (help (x n)) a := by
      intro k
      have hmoves : ∀ k, rank (x (n + k)) = rank (x n) → help (x (n + k)) = help (x n) → ∀ a,
          acts (n + k) = some a → rank (x (n + k + 1)) = rank (x n) ∧ help (x (n + k + 1)) = help (x n) ∧
            ¬ A (help (x n)) a := by
        intro k hk hh a ha
        obtain hp | hlt | ⟨he, hsame, hA⟩ :=
          lower _ a _ (inv _) (inv _) (hnot (n + k) (Nat.le_add_right _ _)) (h.takes (n + k) a ha)
        · exact absurd hp (hnot _ (by omega))
        · exact absurd (hk ▸ hlt) (hrank _ (by omega))
        · exact ⟨he.trans hk, hsame.trans hh, hh ▸ hA⟩
      have hsame : rank (x (n + k)) = rank (x n) ∧ help (x (n + k)) = help (x n) := by
        induction k with
        | zero => exact ⟨rfl, rfl⟩
        | succ k ihk =>
          cases ha : acts (n + k) with
          | none => rw [← Nat.add_assoc, h.rests _ ha]; exact ihk
          | some a =>
            obtain ⟨h1, h2, -⟩ := hmoves k ihk.1 ihk.2 a ha
            exact ⟨h1, h2⟩
      exact ⟨hsame.1, hsame.2, fun a ha => (hmoves k hsame.1 hsame.2 a ha).2.2⟩
    obtain ⟨m, hm, hfair⟩ := fair (help (x n)) n
    obtain ⟨k, rfl⟩ := Nat.exists_eq_add_of_le hm
    obtain ⟨-, hh, hA⟩ := hstay k
    obtain ⟨a, ha, hAa⟩ | hnone := hfair
    · exact hA a ha hAa
    · obtain ⟨a, s', hAa, hs'⟩ := enabled _ (inv (n + k)) (hnot _ hm)
      rw [hh] at hAa
      rw [hnone a hAa] at hs'
      cases hs'

/-! ## Runs with a history -/

section History

variable {γ : Type}

/-- What a history variable is at every moment of an infinite run. -/
def history (note : σ → α → γ → γ) (x : Nat → σ) (acts : Nat → Option α) (g₀ : γ) : Nat → γ
  | 0 => g₀
  | n + 1 => (acts n).elim (history note x acts g₀ n) fun a => note (x n) a (history note x acts g₀ n)

theorem Trace.record (h : Trace step x acts) (note : σ → α → γ → γ) (g₀ : γ) :
    Trace (Sys.record step note) (fun n => (x n, history note x acts g₀ n)) acts := by
  refine ⟨fun n a ha => record_eq_some.mpr ⟨h.takes n a ha, ?_⟩, fun n hn => ?_⟩
  · rw [history, ha]
    rfl
  · rw [history, hn, h.rests n hn]
    rfl

theorem Fair.record {A : α → Prop} (h : Fair step A x acts) (note : σ → α → γ → γ) (g₀ : γ) :
    Fair (Sys.record step note) A (fun n => (x n, history note x acts g₀ n)) acts := by
  intro n
  obtain ⟨m, hm, hact | hnone⟩ := h n
  · exact ⟨m, hm, .inl hact⟩
  · refine ⟨m, hm, .inr fun a ha => ?_⟩
    rw [Sys.record, hnone a ha]
    rfl

end History

/-! ## Runs that stop -/

/-- The states of a run, which stays at its end. -/
def states (step : σ → α → Option σ) (s : σ) (acts : List α) (n : Nat) : σ := (run step s (acts.take n)).getD s

variable {s s' : σ} {done : List α}

theorem states_of_le (h : run step s done = some s') {n : Nat} (hn : done.length ≤ n) : states step s done n = s' := by
  rw [states, List.take_of_length_le hn, h]
  rfl

theorem trace_of_run (h : run step s done = some s') : Trace step (states step s done) fun n => done[n]? := by
  refine ⟨fun n a ha => ?_, fun n hn => ?_⟩
  · obtain ⟨hlt, rfl⟩ := List.getElem?_eq_some_iff.mp ha
    have hsplit : done = done.take n ++ done[n] :: done.drop (n + 1) := by
      rw [List.getElem_cons_drop, List.take_append_drop]
    rw [hsplit, run_append] at h
    obtain ⟨s₁, h₁, h₂⟩ := Option.bind_eq_some_iff.mp h
    obtain ⟨s₂, hstep, -⟩ := Option.bind_eq_some_iff.mp h₂
    have hsnoc : run step s (done.take (n + 1)) = some s₂ := by
      rw [List.take_succ_eq_append_getElem hlt, run_snoc, h₁]
      exact hstep
    rw [states, states, h₁, hsnoc]
    exact hstep
  · have hn := List.getElem?_eq_none_iff.mp hn
    rw [states_of_le h hn, states_of_le h (Nat.le_succ_of_le hn)]

theorem fair_of_run (h : run step s done = some s') {A : α → Prop} (hnone : ∀ a, A a → step s' a = none) :
    Fair step A (states step s done) fun n => done[n]? := by
  refine fun n => ⟨max n done.length, le_max_left _ _, .inr fun a ha => ?_⟩
  rw [states_of_le h (le_max_right _ _)]
  exact hnone a ha

end Sys
