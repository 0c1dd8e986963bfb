import HornMachine.Proofs.Heap.Acyclic
import Mathlib.Data.Nat.Find

/-!
This module contains the heaps on which every chain of references ends. The references may lead upwards on
such a heap, but not past its end and not in a circle, so that the bounded walk along them finds the root.
-/

namespace HornMachine

namespace Heap

def Grounded (heap : Heap) : Prop :=
  ∀ addr < heap.size, ∃ root, heap.Leads addr root

variable {heap heap' : Heap} {addr root : Nat}

theorem Leads.exists_follow (h : heap.Leads addr root)
    : ∃ steps, heap.follow addr steps = .ok root := by
  induction h with
  | free h =>
    rw [IsFree] at h
    exact ⟨1, by simp [follow, h]⟩
  | const h =>
    rw [IsConst] at h
    exact ⟨1, by simp [follow, h]⟩
  | step hcell hne _ ih =>
    rcases ih with ⟨steps, hsteps⟩
    exact ⟨steps + 1, by simp [follow, hcell, hne, hsteps]⟩

theorem Leads.follow_cases (h : heap.Leads addr root) (steps : Nat)
    : heap.follow addr steps = .ok root ∨
      ∃ origin, heap.follow addr steps = .error (.cyclicReference origin) := by
  induction h generalizing steps with
  | free h =>
    rw [IsFree] at h
    cases steps with
    | zero => exact .inr ⟨_, rfl⟩
    | succ steps => simp [follow, h]
  | const h =>
    rw [IsConst] at h
    cases steps with
    | zero => exact .inr ⟨_, rfl⟩
    | succ steps => simp [follow, h]
  | step hcell hne _ ih =>
    cases steps with
    | zero => exact .inr ⟨_, rfl⟩
    | succ steps => simpa [follow, hcell, hne] using ih steps

namespace Grounded

theorem acyclic (h : heap.Grounded) : heap.Acyclic := by
  classical
  -- the rank of a cell is the number of steps that the shortest walk to its root takes
  refine ⟨fun a => if hends : ∃ steps root, heap.follow a steps = .ok root then Nat.find hends else 0, ?_⟩
  intro addr target hcell hne
  rcases h addr (Array.getElem?_eq_some_iff.mp hcell).1 with ⟨root, hleads⟩
  rcases hleads.exists_follow with ⟨steps, hsteps⟩
  have hends : ∃ steps root, heap.follow addr steps = .ok root := ⟨steps, root, hsteps⟩
  rcases Nat.find_spec hends with ⟨root', hroot'⟩
  dsimp only
  rw [dif_pos hends]
  match hfind : Nat.find hends with
  | 0 =>
    rw [hfind] at hroot'
    contradiction
  | steps' + 1 =>
    rw [hfind] at hroot'
    simp only [follow, hcell, if_neg hne] at hroot'
    have hends' : ∃ steps root, heap.follow target steps = .ok root := ⟨steps', root', hroot'⟩
    rw [dif_pos hends']
    have := Nat.find_min' hends' ⟨root', hroot'⟩
    omega

theorem root_eq (h : heap.Grounded) (hleads : heap.Leads addr root)
    : heap.root addr = .ok root := by
  rcases hleads.follow_cases (heap.size + 1) with hroot | ⟨origin, hcyclic⟩
  . exact hroot
  . exact absurd hcyclic (h.acyclic.root_ne addr origin)

theorem exists_root (h : heap.Grounded) (haddr : addr < heap.size)
    : ∃ root, heap.root addr = .ok root ∧ heap.Leads addr root := by
  rcases h addr haddr with ⟨root, hleads⟩
  exact ⟨root, h.root_eq hleads, hleads⟩

theorem of_leads (h : heap.Grounded) (newRoot : Nat → Nat) (hsize : heap'.size = heap.size)
    (hleads : ∀ {a root : Nat}, heap.Leads a root → heap'.Leads a (newRoot root))
    : heap'.Grounded := by
  intro addr haddr
  rcases h addr (hsize ▸ haddr) with ⟨root, hroot⟩
  exact ⟨_, hleads hroot⟩

end Grounded

theorem grounded_iff : heap.Grounded ↔ ∀ addr < heap.size, (heap.root addr).isOk = true := by
  constructor
  . intro h addr haddr
    rcases h.exists_root haddr with ⟨root, hroot, _⟩
    rw [hroot]
    rfl
  . intro h addr haddr
    match hroot : heap.root addr with
    | .ok root => exact ⟨root, .of_root hroot⟩
    | .error fault =>
      have := h addr haddr
      rw [hroot] at this
      contradiction

instance : Decidable heap.Grounded :=
  decidable_of_iff' _ grounded_iff

end Heap

end HornMachine
