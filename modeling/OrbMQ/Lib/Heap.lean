import Mathlib

/-!
# Heaps

A program that allocates cells and writes them one at a time. A heap keeps its writes in order, so that every state
between two of them is a heap too: the one after the first few writes (`replay`).

* `Only F h h'`: from `h` to `h'`, only cells of `F` and new cells were written. It composes (`Only.trans`), and
  leaves every other cell as it was (`Only.cells`).
-/

structure Heap (κ : Type) where
  cells : Nat → κ
  /-- The cells from here on are free. -/
  next : Nat := 0
  /-- The writes so far. No program reads it. -/
  log : List (Nat × κ) := []

namespace Heap

variable {κ : Type} {h h' h'' : Heap κ} {F G : Set Nat} {p q : Nat}

def write (p : Nat) (v : κ) (h : Heap κ) : Heap κ :=
  ⟨Function.update h.cells p v, max h.next (p + 1), h.log ++ [(p, v)]⟩

/-- A new cell. -/
def alloc (v : κ) (h : Heap κ) : Nat × Heap κ := (h.next, h.write h.next v)

/-- The heap after some more writes. -/
def replay (ws : List (Nat × κ)) (h : Heap κ) : Heap κ := ws.foldl (fun h w => h.write w.1 w.2) h

@[simp] theorem cells_write (p q : Nat) (v : κ) (h : Heap κ) :
    (h.write p v).cells q = if q = p then v else h.cells q := Function.update_apply _ _ _ _

theorem next_write (p : Nat) (v : κ) (h : Heap κ) : (h.write p v).next = max h.next (p + 1) := rfl

theorem next_write_of_lt (hp : p < h.next) (v : κ) : (h.write p v).next = h.next := by
  rw [next_write]
  omega

@[simp] theorem replay_nil (h : Heap κ) : h.replay [] = h := rfl

@[simp] theorem replay_cons (w : Nat × κ) (ws : List (Nat × κ)) (h : Heap κ) :
    h.replay (w :: ws) = (h.write w.1 w.2).replay ws := rfl

theorem replay_append (ws ws' : List (Nat × κ)) (h : Heap κ) : h.replay (ws ++ ws') = (h.replay ws).replay ws' :=
  List.foldl_append

theorem log_replay (ws : List (Nat × κ)) (h : Heap κ) : (h.replay ws).log = h.log ++ ws := by
  induction ws generalizing h with
  | nil => simp
  | cons w ws ih => simp [ih, write]

theorem next_le_replay (ws : List (Nat × κ)) (h : Heap κ) : h.next ≤ (h.replay ws).next := by
  induction ws generalizing h with
  | nil => exact Nat.le_refl _
  | cons w ws ih =>
    have hw : h.next ≤ (h.write w.1 w.2).next := le_max_left _ _
    exact hw.trans (ih _)

theorem cells_replay {ws : List (Nat × κ)} (hp : ∀ w ∈ ws, w.1 ≠ p) (h : Heap κ) :
    (h.replay ws).cells p = h.cells p := by
  induction ws generalizing h with
  | nil => rfl
  | cons w ws ih =>
    rw [replay_cons, ih fun w' hw' => hp w' (List.mem_cons_of_mem _ hw'), cells_write,
      if_neg (hp w List.mem_cons_self).symm]

/-! ## What a program writes -/

/-- From `h` to `h'`, only cells of `F` and new cells were written. -/
def Only (F : Set Nat) (h h' : Heap κ) : Prop := ∃ ws, h' = h.replay ws ∧ ∀ w ∈ ws, w.1 ∈ F ∨ h.next ≤ w.1

namespace Only

theorem refl (F : Set Nat) (h : Heap κ) : Only F h h := ⟨[], rfl, by simp⟩

theorem next_le (ho : Only F h h') : h.next ≤ h'.next := by
  obtain ⟨ws, rfl, -⟩ := ho
  exact next_le_replay ws h

theorem trans (ho : Only F h h') (ho' : Only G h' h'') (hG : ∀ x ∈ G, x ∈ F ∨ h.next ≤ x) : Only F h h'' := by
  have hn := ho.next_le
  obtain ⟨ws, rfl, hws⟩ := ho
  obtain ⟨ws', rfl, hws'⟩ := ho'
  refine ⟨ws ++ ws', (replay_append ws ws' h).symm, fun w hw => ?_⟩
  obtain hw | hw := List.mem_append.mp hw
  · exact hws w hw
  · obtain hx | hx := hws' w hw
    · exact hG _ hx
    · exact .inr (hn.trans hx)

theorem write (hp : p ∈ F ∨ h.next ≤ p) (v : κ) : Only F h (h.write p v) := ⟨[(p, v)], rfl, by simpa using hp⟩

theorem mono (ho : Only F h h') (hF : ∀ x ∈ F, x ∈ G ∨ h.next ≤ x) : Only G h h' :=
  (refl G h).trans ho hF

/-- The other cells stay as they were. -/
theorem cells (ho : Only F h h') (hp : p < h.next) (hF : p ∉ F) : h'.cells p = h.cells p := by
  obtain ⟨ws, rfl, hws⟩ := ho
  refine cells_replay (fun w hw e => ?_) h
  obtain hx | hx := hws w hw
  · exact hF (e ▸ hx)
  · omega

end Only

end Heap
