import Mathlib

/-!
# Pools with a limit

A pool has members, and some of them are pending. A new member is pending; it can join while there is room for one more
member and for one more pending one. A pending member can settle, and any member can leave.

`Pool` carries its limits, so there is no pool beyond them. A program that keeps a counter in the place of the set of
pending members is right if it counts them: `card_pending_join` and `card_pending_settle` say how the counter has to
change. To the pending members it is the same whether one of them settles or leaves.
-/

/-- Members, some of them pending, with a limit for each. -/
structure Pool (κ : Type) (limit pendingLimit : Nat) where
  members : Finset κ
  pending : Finset κ
  pending_sub : pending ⊆ members
  members_le : members.card ≤ limit
  pending_le : pending.card ≤ pendingLimit

namespace Pool

variable {κ : Type} [DecidableEq κ] {m n : Nat}

def empty : Pool κ m n := ⟨∅, ∅, by simp, by simp, by simp⟩

/-- There is room for one more. -/
def Open (p : Pool κ m n) : Prop := p.members.card < m ∧ p.pending.card < n

def join (p : Pool κ m n) (k : κ) (h : p.Open) : Pool κ m n where
  members := insert k p.members
  pending := insert k p.pending
  pending_sub := Finset.insert_subset_insert k p.pending_sub
  members_le := (Finset.card_insert_le k p.members).trans h.1
  pending_le := (Finset.card_insert_le k p.pending).trans h.2

/-- Nothing happens to a member that is not pending. -/
def settle (p : Pool κ m n) (k : κ) : Pool κ m n where
  members := p.members
  pending := p.pending.erase k
  pending_sub := (Finset.erase_subset k p.pending).trans p.pending_sub
  members_le := p.members_le
  pending_le := (Finset.card_le_card (Finset.erase_subset k p.pending)).trans p.pending_le

def leave (p : Pool κ m n) (k : κ) : Pool κ m n where
  members := p.members.erase k
  pending := p.pending.erase k
  pending_sub := Finset.erase_subset_erase k p.pending_sub
  members_le := (Finset.card_le_card (Finset.erase_subset k p.members)).trans p.members_le
  pending_le := (Finset.card_le_card (Finset.erase_subset k p.pending)).trans p.pending_le

/-- One step of a pool. -/
inductive Step (p : Pool κ m n) : Pool κ m n → Prop
  | join {k : κ} (new : k ∉ p.members) (room : p.Open) : Step p (p.join k room)
  | settle (k : κ) : Step p (p.settle k)
  | leave (k : κ) : Step p (p.leave k)

omit [DecidableEq κ] in
theorem pending_le_members (p : Pool κ m n) : p.pending.card ≤ p.members.card := Finset.card_le_card p.pending_sub

theorem card_pending_join (p : Pool κ m n) {k : κ} (new : k ∉ p.members) (room : p.Open) :
    (p.join k room).pending.card = p.pending.card + 1 :=
  Finset.card_insert_of_notMem fun h => new (p.pending_sub h)

theorem card_pending_settle (p : Pool κ m n) (k : κ) :
    (p.settle k).pending.card + (if k ∈ p.pending then 1 else 0) = p.pending.card := by
  by_cases h : k ∈ p.pending
  · rw [if_pos h]
    exact Finset.card_erase_add_one h
  · rw [if_neg h]
    exact congrArg Finset.card (Finset.erase_eq_of_notMem h)

end Pool
