import HornMachine.Proofs.Heap.Chain
import Mathlib.Data.Finset.Card
import Mathlib.Data.Finset.Range

/-!
This module contains the heaps on which no references run in a circle. References may lead upwards on such
a heap, or even past its end. Nothing that an operation does to it closes a circle.
-/

namespace HornMachine

namespace Heap

/--
The cells can be ranked such that every reference leads to a lower rank, apart from those of free cells.
-/
def Acyclic (heap : Heap) : Prop :=
  ∃ rank : Nat → Nat, ∀ {addr target : Nat}, heap[addr]? = some (.ref target) → target ≠ addr →
    rank target < rank addr

variable {heap heap' : Heap}

theorem Leads.eq_of_ref {root target : Nat} (h : heap.Leads root root)
    (hcell : heap[root]? = some (.ref target)) : target = root := by
  by_contra hne
  rcases h.root_cases with hfree | ⟨id, hconst⟩
  . exact not_isFree_of_ref hcell hne hfree
  . rw [IsConst, hcell] at hconst
    simp at hconst

theorem acyclic_empty : Acyclic #[] :=
  ⟨id, by simp⟩

theorem steps_le_of_follow {rank : Nat → Nat} {addr steps origin : Nat}
    (hrank : ∀ {addr target : Nat}, heap[addr]? = some (.ref target) → target ≠ addr →
      rank target < rank addr)
    (h : heap.follow addr steps = .error (.cyclicReference origin))
    : steps ≤ ((Finset.range heap.size).filter fun a => rank a ≤ rank addr).card := by
  induction steps generalizing addr with
  | zero => exact Nat.zero_le _
  | succ steps ih =>
    unfold follow at h
    split at h
    . simp at h
    . contradiction
    . next target hcell =>
      split at h
      . contradiction
      . next hne =>
        have hlt := hrank hcell hne
        apply Nat.succ_le_of_lt
        apply Nat.lt_of_le_of_lt (ih h)
        -- the cell itself is among those at its rank, and not among those at the rank of its target
        apply Finset.card_lt_card
        rw [Finset.ssubset_iff_of_subset]
        . refine ⟨addr, ?_, ?_⟩
          . have haddr : addr < heap.size := (Array.getElem?_eq_some_iff.mp hcell).1
            simp [haddr]
          . simp [hlt]
        . intro a ha
          simp only [Finset.mem_filter] at ha ⊢
          exact ⟨ha.1, ha.2.trans (Nat.le_of_lt hlt)⟩

namespace Acyclic

theorem root_ne (h : heap.Acyclic) (addr origin : Nat)
    : heap.root addr ≠ .error (.cyclicReference origin) := by
  rcases h with ⟨rank, hrank⟩
  intro hcyclic
  have hsteps := steps_le_of_follow hrank hcyclic
  have hcard := Finset.card_filter_le (Finset.range heap.size) fun a => rank a ≤ rank addr
  rw [Finset.card_range] at hcard
  omega

theorem of_subset (h : heap.Acyclic)
    (hsub : ∀ {addr target : Nat}, heap'[addr]? = some (.ref target) → target ≠ addr →
      heap[addr]? = some (.ref target)) : heap'.Acyclic := by
  rcases h with ⟨rank, hrank⟩
  exact ⟨rank, fun hcell hne => hrank (hsub hcell hne) hne⟩

theorem redirect {root : Nat} (h : heap.Acyclic) (hroot : heap.Leads root root)
    (hsub : ∀ {addr target : Nat}, heap'[addr]? = some (.ref target) → target ≠ addr →
      heap[addr]? = some (.ref target) ∨ target = root) : heap'.Acyclic := by
  rcases h with ⟨rank, hrank⟩
  -- the root gets a rank below all others
  refine ⟨fun a => if a = root then 0 else rank a + 1, ?_⟩
  intro addr target hcell hne
  dsimp only
  rcases hsub hcell hne with hold | rfl
  . have haddr : addr ≠ root := by
      rintro rfl
      exact hne (hroot.eq_of_ref hold)
    have := hrank hold hne
    rw [if_neg haddr]
    split <;> omega
  . rw [if_pos rfl, if_neg (Ne.symm hne)]
    exact Nat.succ_pos _

theorem push {cell : Cell} (h : heap.Acyclic)
    (hcell : ∀ target, cell = .ref target → target = heap.size ∨ heap.Leads target target)
    : Acyclic (heap.push cell) := by
  have hpushed : ∀ {addr target : Nat}, (heap.push cell)[addr]? = some (.ref target) →
      heap[addr]? = some (.ref target) ∨ (addr = heap.size ∧ cell = .ref target) := by
    intro addr target haddr
    rw [Array.getElem?_push] at haddr
    split at haddr
    . next heq => exact .inr ⟨heq, Option.some.inj haddr⟩
    . exact .inl haddr
  by_cases hroot : ∃ root, cell = .ref root ∧ heap.Leads root root
  . rcases hroot with ⟨root, rfl, hleads⟩
    apply h.redirect hleads
    intro addr target haddr _
    rcases hpushed haddr with hold | ⟨_, heq⟩
    . exact .inl hold
    . exact .inr (Cell.ref.inj heq).symm
  . apply h.of_subset
    intro addr target haddr hne
    rcases hpushed haddr with hold | ⟨hsize, heq⟩
    . exact hold
    . rcases hcell target heq with htarget | hleads
      . rw [htarget, hsize] at hne
        contradiction
      . exact absurd ⟨target, heq, hleads⟩ hroot

theorem take (h : heap.Acyclic) (n : Nat) : Acyclic (heap.take n) := by
  apply h.of_subset
  intro addr target haddr _
  rw [getElem?_take] at haddr
  split at haddr
  . exact haddr
  . contradiction

end Acyclic

end Heap

end HornMachine
