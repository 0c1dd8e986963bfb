import HornMachine.Heap

/-!
This module contains the chains of references on a heap: where they lead to, and how this changes when a
free cell gets a value or a cell is made to refer to its root directly.
-/

namespace HornMachine

namespace Heap

def IsFree (heap : Heap) (addr : Nat) : Prop :=
  heap[addr]? = some (.ref addr)

def IsConst (heap : Heap) (addr : Nat) (id : Nat) : Prop :=
  heap[addr]? = some (.const id)

theorem not_isFree_of_ref {heap : Heap} {addr target : Nat} (h : heap[addr]? = some (.ref target))
    (hne : target ≠ addr) : ¬heap.IsFree addr := by
  intro hfree
  rw [IsFree, h] at hfree
  simp only [Option.some.injEq, Cell.ref.injEq] at hfree
  exact hne hfree

/--
Following the references from an address ends at a root, which is a constant or a free cell.
-/
inductive Leads (heap : Heap) : (addr root : Nat) → Prop where
  | free {addr : Nat} (h : heap.IsFree addr) : Leads heap addr addr
  | const {addr id : Nat} (h : heap.IsConst addr id) : Leads heap addr addr
  | step {addr target root : Nat} (hcell : heap[addr]? = some (.ref target)) (hne : target ≠ addr)
      (h : Leads heap target root) : Leads heap addr root

namespace Leads

variable {heap : Heap} {addr root : Nat}

theorem root_cases (h : heap.Leads addr root) : heap.IsFree root ∨ ∃ id, heap.IsConst root id := by
  induction h with
  | free h => exact .inl h
  | const h => exact .inr ⟨_, h⟩
  | step _ _ _ ih => exact ih

theorem root_self (h : heap.Leads addr root) : heap.Leads root root := by
  rcases h.root_cases with h | ⟨_, h⟩
  . exact .free h
  . exact .const h

theorem lt_size (h : heap.Leads addr root) : addr < heap.size := by
  cases h with
  | free h => exact (Array.getElem?_eq_some_iff.mp h).1
  | const h => exact (Array.getElem?_eq_some_iff.mp h).1
  | step h _ _ => exact (Array.getElem?_eq_some_iff.mp h).1

theorem root_lt_size (h : heap.Leads addr root) : root < heap.size :=
  h.root_self.lt_size

theorem unique {root' : Nat} (h : heap.Leads addr root) (h' : heap.Leads addr root')
    : root = root' := by
  induction h with
  | free h =>
    cases h' with
    | free _ => rfl
    | const _ => rfl
    | step hcell hne _ => exact absurd h (not_isFree_of_ref hcell hne)
  | const h =>
    cases h' with
    | free _ => rfl
    | const _ => rfl
    | step hcell _ _ =>
      rw [IsConst, hcell] at h
      simp at h
  | step hcell hne _ ih =>
    cases h' with
    | free h => exact absurd h (not_isFree_of_ref hcell hne)
    | const h =>
      rw [IsConst, hcell] at h
      simp at h
    | step hcell' _ h' =>
      rw [hcell] at hcell'
      simp only [Option.some.injEq, Cell.ref.injEq] at hcell'
      apply ih
      rw [hcell']
      exact h'

theorem self_congr {heap' : Heap} (h : heap.Leads root root) (heq : heap'[root]? = heap[root]?)
    : heap'.Leads root root := by
  rcases h.root_cases with hcell | ⟨id, hcell⟩
  . apply free
    rw [IsFree, heq]
    exact hcell
  . have hcell' : heap'.IsConst root id := by
      rw [IsConst, heq]
      exact hcell
    exact const hcell'

theorem of_follow {steps : Nat} (h : heap.follow addr steps = .ok root) : heap.Leads addr root := by
  induction steps generalizing addr with
  | zero => simp [follow] at h
  | succ steps ih =>
    unfold follow at h
    split at h
    . contradiction
    . next id hcell =>
      cases h
      exact .const hcell
    . next target hcell =>
      split at h
      . next heq =>
        cases h
        apply free
        rw [IsFree, hcell, heq]
      . next hne => exact .step hcell hne (ih h)

theorem of_root (h : heap.root addr = .ok root) : heap.Leads addr root :=
  of_follow h

end Leads

theorem getElem?_take {heap : Heap} {n i : Nat} : (heap.take n)[i]? = if i < n then heap[i]? else none := by
  simp only [Array.take_eq_extract, Array.getElem?_extract]
  split
  . rw [if_pos (by omega), Nat.zero_add]
  . split
    . exact (Array.getElem?_eq_none (by omega)).symm
    . rfl

structure Written (heap : Heap) (addr : Nat) (cell : Cell) (heap' : Heap) : Prop where
  size_eq : heap'.size = heap.size
  getElem?_eq : ∀ i, heap'[i]? = if i = addr then some cell else heap[i]?

theorem exists_write {heap : Heap} {addr : Nat} (cell : Cell) (h : addr < heap.size)
    : ∃ heap', heap.write addr cell = .ok heap' ∧ heap.Written addr cell heap' := by
  refine ⟨heap.set addr cell h, ?_, by simp, ?_⟩
  . simp [write, h]
  . intro i
    rw [Array.getElem?_set]
    split
    . next heq => simp [heq]
    . next hne => simp [Ne.symm hne]

namespace Written

variable {heap heap' : Heap} {addr : Nat} {cell : Cell}

theorem getElem?_self (h : heap.Written addr cell heap') : heap'[addr]? = some cell := by
  simp [h.getElem?_eq]

theorem getElem?_ne (h : heap.Written addr cell heap') {i : Nat} (hne : i ≠ addr)
    : heap'[i]? = heap[i]? := by
  simp [h.getElem?_eq, hne]

theorem leads_const {a root id : Nat} (h : heap.Written addr (.const id) heap')
    (hfree : heap.IsFree addr) (hleads : heap.Leads a root) : heap'.Leads a root := by
  induction hleads with
  | free hcell =>
    next a =>
    by_cases heq : a = addr
    . rw [heq]
      exact .const h.getElem?_self
    . exact Leads.self_congr (.free hcell) (h.getElem?_ne heq)
  | const hcell =>
    next a _ =>
    by_cases heq : a = addr
    . rw [heq]
      exact .const h.getElem?_self
    . exact Leads.self_congr (.const hcell) (h.getElem?_ne heq)
  | step hcell hne _ ih =>
    apply Leads.step _ hne ih
    rw [h.getElem?_ne]
    . exact hcell
    . intro heq
      rw [heq] at hcell hne
      exact not_isFree_of_ref hcell hne hfree

theorem leads_ref {a low root : Nat} (h : heap.Written addr (.ref low) heap')
    (hfree : heap.IsFree addr) (hlow : heap.Leads low low) (hne : low ≠ addr)
    (hleads : heap.Leads a root) : heap'.Leads a (if root = addr then low else root) := by
  have hlow' : heap'.Leads low low := hlow.self_congr (h.getElem?_ne hne)
  -- a chain cannot run through the written cell, which was free, but it can end there
  induction hleads with
  | free hcell =>
    split
    . next heq =>
      rw [heq]
      exact .step h.getElem?_self hne hlow'
    . next heq => exact Leads.self_congr (.free hcell) (h.getElem?_ne heq)
  | const hcell =>
    split
    . next heq =>
      rw [heq]
      exact .step h.getElem?_self hne hlow'
    . next heq => exact Leads.self_congr (.const hcell) (h.getElem?_ne heq)
  | step hcell hne _ ih =>
    apply Leads.step _ hne ih
    rw [h.getElem?_ne]
    . exact hcell
    . intro heq
      rw [heq] at hcell hne
      exact not_isFree_of_ref hcell hne hfree

theorem leads_collapse {a root root' : Nat} (h : heap.Written addr (.ref root) heap')
    (haddr : heap.Leads addr root) (hne : addr ≠ root) (hleads : heap.Leads a root')
    : heap'.Leads a root' := by
  have hroot : heap'.Leads root root := haddr.root_self.self_congr (h.getElem?_ne (Ne.symm hne))
  induction hleads with
  | free hcell =>
    apply Leads.self_congr (.free hcell) (h.getElem?_ne _)
    intro heq
    rw [heq] at hcell
    exact hne (Leads.unique (.free hcell) haddr)
  | const hcell =>
    apply Leads.self_congr (.const hcell) (h.getElem?_ne _)
    intro heq
    rw [heq] at hcell
    exact hne (Leads.unique (.const hcell) haddr)
  | step hcell hne' hleads ih =>
    next a _ _ =>
    by_cases heq : a = addr
    . rw [heq] at hcell hne' ⊢
      -- the cell leads to the same root as before, only in a single step
      rw [Leads.unique (.step hcell hne' hleads) haddr]
      exact .step h.getElem?_self (Ne.symm hne) hroot
    . apply Leads.step _ hne' ih
      rw [h.getElem?_ne heq]
      exact hcell

end Written

section Access

variable {heap : Heap} {addr : Nat}

theorem IsFree.lt_size (h : heap.IsFree addr) : addr < heap.size :=
  (Array.getElem?_eq_some_iff.mp h).1

theorem IsConst.not_isFree {addr id : Nat} (h : heap.IsConst addr id) : ¬heap.IsFree addr := by
  rw [IsFree, h]
  simp

theorem IsConst.ne_of_isFree {addr addr' id : Nat} (h : heap.IsConst addr id)
    (hfree : heap.IsFree addr') : addr ≠ addr' := by
  rintro rfl
  exact h.not_isFree hfree

theorem cell_eq_ok {cell : Cell} (h : heap[addr]? = some cell)
    : heap.cell addr = .ok cell := by
  simp [Heap.cell, h]

theorem isFree_eq_ok {cell : Cell} (h : heap[addr]? = some cell)
    : heap.isFree addr = .ok (cell == .ref addr) := by
  unfold isFree
  rw [cell_eq_ok h]
  rfl

theorem constantAt_free (h : heap.IsFree addr) : heap.constantAt addr = .ok none := by
  unfold constantAt
  rw [cell_eq_ok h]
  rfl

theorem constantAt_const {addr id : Nat} (h : heap.IsConst addr id)
    : heap.constantAt addr = .ok (some id) := by
  unfold constantAt
  rw [cell_eq_ok h]
  rfl

theorem exists_bindFree (cell : Cell) (operation : String) (h : heap.IsFree addr)
    : ∃ heap', heap.bindFree addr cell operation = .ok heap' ∧ heap.Written addr cell heap' := by
  rcases exists_write cell h.lt_size with ⟨heap', hwrite, hwritten⟩
  refine ⟨heap', ?_, hwritten⟩
  unfold bindFree
  rw [isFree_eq_ok h]
  simpa [bind, Except.bind] using hwrite

theorem lt_size_of_relative {offset : Int} (h : heap.relative offset = .ok addr) : addr < heap.size := by
  unfold relative at h
  split at h
  . next i hi =>
    cases h
    exact fromTop?_lt hi
  . contradiction

end Access

end Heap

end HornMachine
