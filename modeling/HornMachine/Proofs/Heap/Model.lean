import HornMachine.Interner.Basic
import HornMachine.Proofs.Heap.Grounded
import HornMachine.Proofs.Interner.Growth
import HornMachine.Proofs.Logic.Atom
import Mathlib.Logic.Relation
import Mathlib.Order.Bounds.Defs

/-!
This module contains the meaning of a heap: the assignments of values to its addresses that give every
constant cell its constant and every reference the value of its target. A heap on which every chain of
references ends has such a model for every assignment of values to its free cells, and no others.
-/

namespace HornMachine

def Cell.Holds [Domain D] (symbols : SymbolTable) (v : Nat → D) (addr : Nat) : Cell → Prop
  | .const id => ∀ name, symbols.get? id = some name → v addr = Domain.const name
  | .ref target => v addr = v target

namespace Heap

def Models [Domain D] (symbols : SymbolTable) (heap : Heap) (v : Nat → D) : Prop :=
  ∀ (addr : Nat) (cell : Cell), heap[addr]? = some cell → cell.Holds symbols v addr

/--
All references lead to roots and all constants have names.
-/
structure Closed (symbols : SymbolTable) (heap : Heap) : Prop where
  grounded : heap.Grounded
  named : ∀ {addr id : Nat}, heap[addr]? = some (.const id) → ∃ name, symbols.get? id = some name

/--
References do not lead upwards and all constants have names.
-/
structure Valid (symbols : SymbolTable) (heap : Heap) : Prop where
  le_of_ref : ∀ {addr target : Nat}, heap[addr]? = some (.ref target) → target ≤ addr
  named : ∀ {addr id : Nat}, heap[addr]? = some (.const id) → ∃ name, symbols.get? id = some name

/--
The value of an address if the free cells have the values `free`.
-/
def value [Domain D] (symbols : SymbolTable) (heap : Heap) (free : Nat → D) (addr : Nat) : D :=
  match heap.root addr with
  | .error _ => free addr
  | .ok root =>
    match heap[root]? with
    | some (.const id) =>
      match symbols.get? id with
      | some name => Domain.const name
      | none => free root
    | _ => free root

variable {symbols symbols' : SymbolTable} {heap : Heap}

theorem Leads.eq_of_models [Domain D] {v : Nat → D} {addr root : Nat} (h : heap.Leads addr root)
    (hv : heap.Models symbols v) : v addr = v root := by
  induction h with
  | free _ => rfl
  | const _ => rfl
  | step hcell _ _ ih =>
    rw [← ih]
    exact hv _ _ hcell

theorem Models.eq_const [Domain D] {v : Nat → D} {addr id : Nat} {name : String}
    (hv : heap.Models symbols v) (hcell : heap.IsConst addr id) (hid : symbols.get? id = some name)
    : v addr = Domain.const name :=
  hv _ _ hcell name hid

theorem Models.mono [Domain D] {v : Nat → D} (hsym : symbols ≤ symbols')
    (hv : heap.Models symbols' v) : heap.Models symbols v := by
  intro addr cell hcell
  have := hv addr cell hcell
  cases cell with
  | const id =>
    intro name hid
    exact this name (hsym id name hid)
  | ref _ => exact this

namespace Closed

theorem mono (hclosed : heap.Closed symbols) (hsym : symbols ≤ symbols') : heap.Closed symbols' where
  grounded := hclosed.grounded
  named h := by
    rcases hclosed.named h with ⟨name, hname⟩
    exact ⟨name, hsym _ _ hname⟩

theorem models_mono [Domain D] {v : Nat → D} (hclosed : heap.Closed symbols)
    (hsym : symbols ≤ symbols') (hv : heap.Models symbols v) : heap.Models symbols' v := by
  intro addr cell hcell
  have := hv addr cell hcell
  cases cell with
  | const id =>
    intro name hid
    rcases hclosed.named hcell with ⟨name', hname'⟩
    have heq := hsym _ _ hname'
    rw [hid] at heq
    cases heq
    exact this name hname'
  | ref _ => exact this

theorem models_iff [Domain D] {v : Nat → D} (hclosed : heap.Closed symbols)
    (hsym : symbols ≤ symbols') : heap.Models symbols' v ↔ heap.Models symbols v := by
  constructor
  . exact Models.mono hsym
  . exact hclosed.models_mono hsym

theorem value_eq_root [Domain D] (hclosed : heap.Closed symbols) (free : Nat → D) {addr root : Nat}
    (h : heap.Leads addr root) : heap.value symbols free addr = heap.value symbols free root := by
  unfold value
  rw [hclosed.grounded.root_eq h, hclosed.grounded.root_eq h.root_self]

theorem value_mono [Domain D] (hclosed : heap.Closed symbols) (hle : symbols ≤ symbols')
    (free : Nat → D) (addr : Nat)
    : heap.value symbols' free addr = heap.value symbols free addr := by
  unfold value
  split
  . rfl
  . next root _ =>
    match hcell : heap[root]? with
    | none => rfl
    | some (.ref _) => rfl
    | some (.const id) =>
      rcases hclosed.named hcell with ⟨name, hname⟩
      simp only [hname, hle id name hname]

theorem models_iff_leads [Domain D] {v : Nat → D} (hclosed : heap.Closed symbols)
    : heap.Models symbols v ↔
      (∀ addr root : Nat, heap.Leads addr root → v addr = v root) ∧
        ∀ (root id : Nat) (name : String), heap.IsConst root id → symbols.get? id = some name →
          v root = Domain.const name := by
  constructor
  . intro hv
    exact ⟨fun _ _ h => h.eq_of_models hv, fun _ _ _ hconst hname => hv.eq_const hconst hname⟩
  . rintro ⟨hleads, hconst⟩ addr cell hcell
    cases cell with
    | const id => exact fun name hname => hconst addr id name hcell hname
    | ref target =>
      by_cases heq : target = addr
      . rw [heq]
        rfl
      . rcases hclosed.grounded addr (Array.getElem?_eq_some_iff.mp hcell).1 with ⟨root, haddr⟩
        show v addr = v target
        rw [hleads addr root haddr]
        cases haddr with
        | free hfree => exact absurd hfree (not_isFree_of_ref hcell heq)
        | const hconst' =>
          rw [IsConst, hcell] at hconst'
          simp at hconst'
        | step hcell' _ htarget =>
          rw [hcell] at hcell'
          cases hcell'
          exact (hleads target root htarget).symm

theorem value_root [Domain D] (hclosed : heap.Closed symbols) {v : Nat → D} {root : Nat}
    (hroot : heap.Leads root root)
    (hv : ∀ id name, heap.IsConst root id → symbols.get? id = some name → v root = Domain.const name)
    : heap.value symbols v root = v root := by
  unfold value
  rw [hclosed.grounded.root_eq hroot]
  rcases hroot.root_cases with hcell | ⟨id, hcell⟩
  . rw [IsFree] at hcell
    simp [hcell]
  . rcases hclosed.named hcell with ⟨name, hname⟩
    rw [hv id name hcell hname]
    rw [IsConst] at hcell
    simp [hcell, hname]

theorem models_value [Domain D] (hclosed : heap.Closed symbols) (free : Nat → D)
    : heap.Models symbols (heap.value symbols free) := by
  rw [hclosed.models_iff_leads]
  constructor
  . intro addr root hleads
    exact hclosed.value_eq_root free hleads
  . intro root id name hconst hname
    unfold value
    rw [hclosed.grounded.root_eq (.const hconst)]
    rw [IsConst] at hconst
    simp [hconst, hname]

theorem value_free [Domain D] (hclosed : heap.Closed symbols) (free : Nat → D) {addr : Nat}
    (h : heap.IsFree addr) : heap.value symbols free addr = free addr := by
  apply hclosed.value_root (.free h)
  intro id name hconst _
  rw [IsFree, hconst] at h
  simp at h

theorem value_eq_of_models [Domain D] (hclosed : heap.Closed symbols) {v : Nat → D}
    (hv : heap.Models symbols v) {addr : Nat} (haddr : addr < heap.size)
    : heap.value symbols v addr = v addr := by
  rcases hclosed.grounded addr haddr with ⟨root, hleads⟩
  rw [hclosed.value_eq_root v hleads, hleads.eq_of_models hv]
  apply hclosed.value_root hleads.root_self
  intro id name hcell hname
  exact hv.eq_const hcell hname

end Closed

namespace Valid

theorem mono (hvalid : heap.Valid symbols) (hsym : symbols ≤ symbols') : heap.Valid symbols' where
  le_of_ref := hvalid.le_of_ref
  named h := by
    rcases hvalid.named h with ⟨name, hname⟩
    exact ⟨name, hsym _ _ hname⟩

theorem root_le (hvalid : heap.Valid symbols) {addr root : Nat} (h : heap.Leads addr root)
    : root ≤ addr := by
  induction h with
  | free _ => exact Nat.le_refl _
  | const _ => exact Nat.le_refl _
  | step hcell _ _ ih =>
    have := hvalid.le_of_ref hcell
    omega

theorem grounded (hvalid : heap.Valid symbols) : heap.Grounded := by
  intro addr haddr
  induction addr using Nat.strongRecOn with
  | ind addr ih =>
    match hcell : heap[addr]? with
    | none =>
      rw [Array.getElem?_eq_none_iff] at hcell
      omega
    | some (.const id) => exact ⟨addr, .const hcell⟩
    | some (.ref target) =>
      by_cases heq : target = addr
      . exact ⟨addr, .free (heq ▸ hcell)⟩
      . have := hvalid.le_of_ref hcell
        rcases ih target (by omega) (by omega) with ⟨root, hroot⟩
        exact ⟨root, .step hcell heq hroot⟩

theorem closed (hvalid : heap.Valid symbols) : heap.Closed symbols :=
  ⟨hvalid.grounded, hvalid.named⟩

theorem exists_root (hvalid : heap.Valid symbols) {addr : Nat} (haddr : addr < heap.size)
    : ∃ root, heap.root addr = .ok root ∧ heap.Leads addr root :=
  hvalid.grounded.exists_root haddr

theorem root_eq (hvalid : heap.Valid symbols) {addr root : Nat} (h : heap.Leads addr root)
    : heap.root addr = .ok root :=
  hvalid.grounded.root_eq h

end Valid

theorem Valid.take (hvalid : heap.Valid symbols) (n : Nat) : Valid symbols (heap.take n) where
  le_of_ref h := by
    rw [getElem?_take] at h
    split at h
    . exact hvalid.le_of_ref h
    . contradiction
  named h := by
    rw [getElem?_take] at h
    split at h
    . exact hvalid.named h
    . contradiction

theorem Models.take [Domain D] {v : Nat → D} (hv : heap.Models symbols v) (n : Nat)
    : Models symbols (heap.take n) v := by
  intro addr cell hcell
  rw [getElem?_take] at hcell
  split at hcell
  . exact hv addr cell hcell
  . contradiction

theorem Valid.leads_take (hvalid : heap.Valid symbols) {n addr root : Nat} (haddr : addr < n)
    (h : heap.Leads addr root) : Leads (heap.take n) addr root := by
  induction h with
  | free h =>
    apply Leads.free
    rw [IsFree, getElem?_take, if_pos haddr]
    exact h
  | const h =>
    apply Leads.const
    rw [IsConst, getElem?_take, if_pos haddr]
    exact h
  | step hcell hne _ ih =>
    have := hvalid.le_of_ref hcell
    apply Leads.step _ hne
    . apply ih
      omega
    . rw [getElem?_take, if_pos haddr]
      exact hcell

theorem Valid.exists_models_of_take [Domain D] (hvalid : heap.Valid symbols) {n : Nat} {v : Nat → D}
    (hv : Models symbols (heap.take n) v)
    : ∃ v' : Nat → D, heap.Models symbols v' ∧ ∀ addr < heap.size, addr < n → v' addr = v addr := by
  refine ⟨heap.value symbols v, hvalid.closed.models_value v, ?_⟩
  intro addr haddr hlt
  rcases hvalid.exists_root haddr with ⟨root, _, hleads⟩
  -- references lead downwards, so nothing in the lower part depends on the cells that were taken off
  have htake := hvalid.leads_take hlt hleads
  have hle := hvalid.root_le hleads
  rw [hvalid.closed.value_eq_root v hleads, htake.eq_of_models hv]
  apply hvalid.closed.value_root hleads.root_self
  intro id name hcell hname
  apply hv.eq_const _ hname
  rw [IsConst, getElem?_take, if_pos (by omega)]
  exact hcell

theorem Valid.models_congr [Domain D] {v v' : Nat → D} (hvalid : heap.Valid symbols)
    (heq : ∀ addr < heap.size, v' addr = v addr) (hv : heap.Models symbols v)
    : heap.Models symbols v' := by
  intro addr cell hcell
  have haddr := (Array.getElem?_eq_some_iff.mp hcell).1
  have := hv addr cell hcell
  cases cell with
  | const id =>
    intro name hid
    rw [heq addr haddr]
    exact this name hid
  | ref target =>
    have := hvalid.le_of_ref hcell
    show v' addr = v' target
    rw [heq addr haddr, heq target (by omega)]
    assumption

theorem models_push [Domain D] {v : Nat → D} {cell : Cell}
    : Models symbols (heap.push cell) v ↔
      heap.Models symbols v ∧ cell.Holds symbols v heap.size := by
  constructor
  . intro hv
    constructor
    . intro addr cell' hcell
      apply hv
      have := (Array.getElem?_eq_some_iff.mp hcell).1
      rw [Array.getElem?_push, if_neg (by omega)]
      exact hcell
    . apply hv
      simp
  . intro hv addr cell' hcell
    rw [Array.getElem?_push] at hcell
    split at hcell
    . next heq =>
      cases hcell
      rw [heq]
      exact hv.2
    . exact hv.1 addr cell' hcell

theorem Valid.push (hvalid : heap.Valid symbols) {cell : Cell}
    (href : ∀ target, cell = .ref target → target ≤ heap.size)
    (hconst : ∀ id, cell = .const id → ∃ name, symbols.get? id = some name)
    : Valid symbols (heap.push cell) where
  le_of_ref h := by
    rw [Array.getElem?_push] at h
    split at h
    . next heq =>
      rw [heq]
      apply href
      simpa using h
    . exact hvalid.le_of_ref h
  named h := by
    rw [Array.getElem?_push] at h
    split at h
    . apply hconst
      simpa using h
    . exact hvalid.named h

def Refers (heap : Heap) (addr target : Nat) : Prop :=
  heap[addr]? = some (.ref target)

def classOf (heap : Heap) (addr : Nat) : Set Nat :=
  { a | Relation.EqvGen heap.Refers addr a }

theorem Refers.leads_iff {addr target root : Nat} (h : heap.Refers addr target)
    : heap.Leads addr root ↔ heap.Leads target root := by
  by_cases heq : target = addr
  . rw [heq]
  constructor
  . intro hleads
    cases hleads with
    | free hfree => exact absurd hfree (not_isFree_of_ref h heq)
    | const hconst =>
      rw [IsConst, h] at hconst
      simp at hconst
    | step hcell _ hleads =>
      rw [h] at hcell
      cases hcell
      exact hleads
  . exact .step h heq

theorem leads_iff_of_mem_classOf {addr a root : Nat} (h : a ∈ heap.classOf addr)
    : heap.Leads addr root ↔ heap.Leads a root := by
  induction h with
  | rel _ _ h => exact h.leads_iff
  | refl => rfl
  | symm _ _ _ ih => exact ih.symm
  | trans _ _ _ _ _ ih ih' => exact ih.trans ih'

theorem Leads.mem_classOf {addr root : Nat} (h : heap.Leads addr root)
    : root ∈ heap.classOf addr := by
  induction h with
  | free => exact .refl _
  | const => exact .refl _
  | step hcell _ _ ih => exact .trans _ _ _ (.rel _ _ hcell) ih

theorem Valid.isLeast_root (hvalid : heap.Valid symbols) {addr : Nat} (haddr : addr < heap.size)
    : ∃ root, heap.root addr = .ok root ∧ IsLeast (heap.classOf addr) root := by
  rcases hvalid.exists_root haddr with ⟨root, heq, hleads⟩
  refine ⟨root, heq, hleads.mem_classOf, ?_⟩
  intro a ha
  exact hvalid.root_le ((leads_iff_of_mem_classOf ha).mp hleads)

end Heap

end HornMachine
