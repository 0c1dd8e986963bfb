import HornMachine.Proofs.Heap.Grounded
import HornMachine.Proofs.Machine.Opcode

/-!
This module contains what unification does to the references on a heap. Two classes with free roots get the
lower one as their root, and a constant is copied into the cell of a free root. Apart from that root only the
addresses that were unified get another cell, by which they refer to their roots directly.
-/

namespace HornMachine

namespace Heap

variable {heap heap' heap'' : Heap}

instance (addr : Nat) : Decidable (heap.IsFree addr) :=
  inferInstanceAs (Decidable (heap[addr]? = some (.ref addr)))

theorem IsConst.of_eq {addr id : Nat} (h : heap.IsConst addr id) (heq : heap'[addr]? = heap[addr]?)
    : heap'.IsConst addr id := by
  rw [IsConst, heq]
  exact h

/--
The root of every class changes by `newRoot`. The only root that may get another cell is `taken`, which is
free, and the only other cells that change are those of `starts`. All of these are at most one step away from
their roots afterwards.
-/
structure Reroots (heap : Heap) (newRoot : Nat → Nat) (taken : Option Nat) (starts : List Nat)
    (heap' : Heap) : Prop where
  grounded : heap'.Grounded
  size_eq : heap'.size = heap.size
  root_eq : ∀ {a root : Nat}, heap.root a = .ok root → heap'.root a = .ok (newRoot root)
  new_root : ∀ {root : Nat}, heap.root root = .ok root → heap.root (newRoot root) = .ok (newRoot root)
  taken_free : ∀ {root : Nat}, taken = some root → heap.IsFree root
  root_cell : ∀ {root : Nat}, heap.root root = .ok root → taken ≠ some root →
    heap'[root]? = heap[root]?
  cell_eq : ∀ {a : Nat}, a ∉ starts → taken ≠ some a → heap'[a]? = heap[a]?
  near : ∀ {a : Nat}, a ∈ starts ∨ taken = some a →
    ∃ root, heap'.root a = .ok root ∧ (root = a ∨ heap'[a]? = some (.ref root))

namespace Reroots

variable {newRoot : Nat → Nat} {taken : Option Nat} {starts starts' : List Nat}

theorem leads (h : heap.Reroots newRoot taken starts heap') (hgrounded : heap.Grounded)
    {a root : Nat} (hleads : heap.Leads a root) : heap'.Leads a (newRoot root) :=
  .of_root (h.root_eq (hgrounded.root_eq hleads))

theorem refl (hgrounded : heap.Grounded) : heap.Reroots id none [] heap where
  grounded := hgrounded
  size_eq := rfl
  root_eq h := h
  new_root h := h
  taken_free h := nomatch h
  root_cell _ _ := rfl
  cell_eq _ _ := rfl
  near := by simp

theorem congr {newRoot' : Nat → Nat} {taken' : Option Nat}
    (h : heap.Reroots newRoot taken starts heap') (hnew : ∀ root, newRoot root = newRoot' root)
    (htaken : taken = taken') : heap.Reroots newRoot' taken' starts heap' := by
  rw [← htaken, ← funext hnew]
  exact h

theorem trans (h : heap.Reroots newRoot taken starts heap') (h' : heap'.Reroots id none starts' heap'')
    : heap.Reroots newRoot taken (starts' ++ starts) heap'' where
  grounded := h'.grounded
  size_eq := h'.size_eq.trans h.size_eq
  root_eq hroot := h'.root_eq (h.root_eq hroot)
  new_root := h.new_root
  taken_free := h.taken_free
  root_cell hroot hne := by
    have hkept := h.root_cell hroot hne
    have hroot' : heap'.root _ = .ok _ :=
      h.grounded.root_eq (Leads.self_congr (.of_root hroot) hkept)
    rw [h'.root_cell hroot' (by simp), hkept]
  cell_eq hnot hne := by
    simp only [List.mem_append, not_or] at hnot
    rw [h'.cell_eq hnot.1 (by simp), h.cell_eq hnot.2 hne]
  near {a} ha := by
    by_cases hstart : a ∈ starts'
    . exact h'.near (.inl hstart)
    . rw [List.mem_append, or_assoc] at ha
      rcases h.near (ha.resolve_left hstart) with ⟨root, hroot, hnear⟩
      refine ⟨root, h'.root_eq hroot, ?_⟩
      rw [h'.cell_eq hstart (by simp)]
      exact hnear

end Reroots

theorem Written.reroots {newRoot : Nat → Nat} {addr : Nat} {cell : Cell}
    (h : heap.Written addr cell heap') (hgrounded : heap.Grounded) (hfree : heap.IsFree addr)
    (hnew : ∀ {root : Nat}, heap.Leads root root → heap.Leads (newRoot root) (newRoot root))
    (hcell : newRoot addr = addr ∨ cell = .ref (newRoot addr))
    (hleads : ∀ {a root : Nat}, heap.Leads a root → heap'.Leads a (newRoot root))
    : heap.Reroots newRoot (some addr) [] heap' := by
  have hgrounded' : heap'.Grounded := hgrounded.of_leads newRoot h.size_eq hleads
  have hkept : ∀ {a : Nat}, some addr ≠ some a → heap'[a]? = heap[a]? := by
    intro a hne
    apply h.getElem?_ne
    rintro rfl
    exact hne rfl
  exact {
    grounded := hgrounded'
    size_eq := h.size_eq
    root_eq := fun hroot => hgrounded'.root_eq (hleads (.of_root hroot))
    new_root := fun hroot => hgrounded.root_eq (hnew (.of_root hroot))
    taken_free := by
      rintro _ ⟨⟩
      exact hfree
    root_cell := fun _ hne => hkept hne
    cell_eq := fun _ hne => hkept hne
    near := by
      intro a ha
      obtain rfl : addr = a := Option.some.inj (ha.resolve_left List.not_mem_nil)
      refine ⟨_, hgrounded'.root_eq (hleads (.free hfree)), ?_⟩
      rw [h.getElem?_self, Option.some.injEq]
      exact hcell }

theorem Written.reroots_const {addr id : Nat} (h : heap.Written addr (.const id) heap')
    (hgrounded : heap.Grounded) (hfree : heap.IsFree addr)
    : heap.Reroots (fun root => root) (some addr) [] heap' :=
  h.reroots hgrounded hfree (fun hroot => hroot) (.inl rfl) (h.leads_const hfree)

theorem Written.reroots_ref {addr low : Nat} (h : heap.Written addr (.ref low) heap')
    (hgrounded : heap.Grounded) (hfree : heap.IsFree addr) (hlow : heap.Leads low low)
    (hne : low ≠ addr)
    : heap.Reroots (fun root => if root = addr then low else root) (some addr) [] heap' := by
  apply h.reroots hgrounded hfree _ (by simp) (h.leads_ref hfree hlow hne)
  intro root hroot
  split
  . exact hlow
  . exact hroot

theorem Grounded.exists_collapse (hgrounded : heap.Grounded) {start root : Nat}
    (hstart : heap.Leads start root)
    : ∃ heap', heap.collapse start root = .ok heap' ∧ heap.Reroots id none [start] heap' := by
  unfold collapse
  split
  . next heq =>
    refine ⟨heap, rfl, { Reroots.refl hgrounded with cell_eq := fun _ _ => rfl, near := ?_ }⟩
    intro a ha
    obtain rfl : a = start := by simpa using ha
    exact ⟨root, hgrounded.root_eq hstart, .inl heq.symm⟩
  . next hne =>
    rcases exists_write (.ref root) hstart.lt_size with ⟨heap', hwrite, hwritten⟩
    have hleads : ∀ {a root' : Nat}, heap.Leads a root' → heap'.Leads a root' :=
      hwritten.leads_collapse hstart hne
    have hgrounded' : heap'.Grounded := hgrounded.of_leads id hwritten.size_eq hleads
    refine ⟨heap', hwrite, hgrounded', hwritten.size_eq, ?_, id, nofun, ?_, ?_, ?_⟩
    . intro a root' hroot
      exact hgrounded'.root_eq (hleads (.of_root hroot))
    . intro root' hroot _
      apply hwritten.getElem?_ne
      -- the start is no root, since it leads to another address
      rintro rfl
      exact hne ((Leads.of_root hroot).unique hstart)
    . intro a hnot _
      rw [List.mem_singleton] at hnot
      exact hwritten.getElem?_ne hnot
    . intro a ha
      obtain rfl : a = start := by simpa using ha
      exact ⟨root, hgrounded'.root_eq (hleads hstart), .inr hwritten.getElem?_self⟩

theorem Grounded.exists_assign {i root : Nat} (hgrounded : heap.Grounded) (hroot : heap.IsFree root)
    (hi : heap.Leads i root) (id : Nat)
    : ∃ heap₁ heap₂, heap.write root (.const id) = .ok heap₁ ∧ heap₁.collapse i root = .ok heap₂ ∧
        heap.Reroots (fun root => root) (some root) [i] heap₂ ∧ heap₂.IsConst root id := by
  rcases exists_write (.const id) hroot.lt_size with ⟨heap₁, hwrite, hwritten⟩
  have hbound := hwritten.reroots_const hgrounded hroot
  rcases hbound.grounded.exists_collapse (hwritten.leads_const hroot hi) with
    ⟨heap₂, hcollapse, hshort⟩
  have hconst : heap₁.IsConst root id := hwritten.getElem?_self
  refine ⟨heap₁, heap₂, hwrite, hcollapse, hbound.trans hshort, hconst.of_eq ?_⟩
  exact hshort.root_cell (hbound.grounded.root_eq (.const hconst)) (by simp)

/--
The root of a class once the classes of `ri` and `rj` are unified.
-/
def joint (heap : Heap) (ri rj root : Nat) : Nat :=
  if heap.IsFree ri ∧ heap.IsFree rj ∧ (root = ri ∨ root = rj) then min ri rj else root

def taken (heap : Heap) (ri rj : Nat) : Option Nat :=
  if ri = rj then
    none
  else if heap.IsFree ri ∧ heap.IsFree rj then
    some (max ri rj)
  else if heap.IsFree ri then
    some ri
  else if heap.IsFree rj then
    some rj
  else
    none

/--
What becomes of a heap on which `i` and `j` with the roots `ri` and `rj` are unified.
-/
structure Joins (heap : Heap) (i j ri rj : Nat) (heap' : Heap) : Prop
    extends Reroots heap (heap.joint ri rj) (heap.taken ri rj) [j, i] heap' where
  const_left : ∀ {id : Nat}, heap.IsConst ri id → heap.IsFree rj → heap'.IsConst rj id
  const_right : ∀ {id : Nat}, heap.IsFree ri → heap.IsConst rj id → heap'.IsConst ri id

end Heap

namespace State

variable {s : State} {i ri j rj : Nat}

theorem exists_settled (hgrounded : s.heap.Grounded) (hfailed : s.failed = false)
    (hi : s.heap.Leads i ri) (hj : s.heap.Leads j rj)
    : ∃ heap, s.settle i ri j rj = .ok { s with heap := heap } ∧
        s.heap.Reroots id none [j, i] heap := by
  rcases hgrounded.exists_collapse hi with ⟨heap₁, hcollapse₁, h₁⟩
  rcases h₁.grounded.exists_collapse (h₁.leads hgrounded hj) with ⟨heap₂, hcollapse₂, h₂⟩
  refine ⟨heap₂, ?_, h₁.trans h₂⟩
  unfold settle
  rw [hfailed, hcollapse₁]
  simp only [id_eq] at hcollapse₂
  simp [bind, Except.bind, hcollapse₂, pure, Except.pure]

inductive Unified (s : State) (i j ri rj : Nat) : State → Prop where
  | clash {a b : Nat} (hci : s.heap.IsConst ri a) (hcj : s.heap.IsConst rj b) (hne : a ≠ b)
      : Unified s i j ri rj { s with failed := true }
  | joined {heap : Heap} (hsame : ∀ {a b : Nat}, s.heap.IsConst ri a → s.heap.IsConst rj b → a = b)
      (h : s.heap.Joins i j ri rj heap) : Unified s i j ri rj { s with heap := heap }

section Unified

variable (hgrounded : s.heap.Grounded) (hfailed : s.failed = false)
  (hi : s.heap.Leads i ri) (hj : s.heap.Leads j rj)
include hgrounded hfailed hi hj

theorem exists_unified_const_const {a b : Nat} (hci : s.heap.IsConst ri a)
    (hcj : s.heap.IsConst rj b) : ∃ s', s.unify i j = .ok s' ∧ s.Unified i j ri rj s' := by
  have heq := unify_eq_unifyRoots (hgrounded.root_eq hi) (hgrounded.root_eq hj) hci hcj
  by_cases hab : a = b
  . subst hab
    rcases exists_settled hgrounded hfailed hi hj with ⟨heap, hsettle, hshort⟩
    refine ⟨_, ?_, .joined ?_ ⟨hshort.congr ?_ ?_, ?_, ?_⟩⟩
    . rw [heq, ← hsettle]
      simp [unifyRoots, ← hfailed]
    . intro a' b' ha' hb'
      rw [Heap.IsConst, hci] at ha'
      rw [Heap.IsConst, hcj] at hb'
      cases ha'
      cases hb'
      rfl
    . simp [Heap.joint, hci.not_isFree]
    . simp [Heap.taken, hci.not_isFree, hcj.not_isFree]
    . exact fun _ hfree => absurd hfree hcj.not_isFree
    . exact fun hfree _ => absurd hfree hci.not_isFree
  . have hne : ri ≠ rj := by
      rintro rfl
      rw [Heap.IsConst, hcj] at hci
      cases hci
      exact hab rfl
    refine ⟨_, ?_, .clash hci hcj hab⟩
    rw [heq]
    simp [unifyRoots, hne, hab, settle, pure, Except.pure]

theorem exists_bound {root : Nat} (hroot : s.heap.IsFree root) (id : Nat)
    : ∃ heap, (s.heap.bindFree root (.const id) "unifyboundvar" >>= fun heap =>
          settle { s with heap } i ri j rj) = .ok { s with heap := heap } ∧
        s.heap.Reroots (fun root => root) (some root) [j, i] heap ∧ heap.IsConst root id := by
  rcases Heap.exists_bindFree (.const id) "unifyboundvar" hroot with ⟨heap₁, hbind, hwritten⟩
  have hbound := hwritten.reroots_const hgrounded hroot
  rcases exists_settled (s := { s with heap := heap₁ }) hbound.grounded hfailed
    (hwritten.leads_const hroot hi) (hwritten.leads_const hroot hj) with ⟨heap, hsettle, hshort⟩
  have hconst : heap₁.IsConst root id := hwritten.getElem?_self
  refine ⟨heap, ?_, hbound.trans hshort, hconst.of_eq ?_⟩
  . simp only [bind, Except.bind, hbind]
    exact hsettle
  . exact hshort.root_cell (hbound.grounded.root_eq (.const hconst)) (by simp)

theorem exists_unified_const_free {a : Nat} (hci : s.heap.IsConst ri a) (hcj : s.heap.IsFree rj)
    : ∃ s', s.unify i j = .ok s' ∧ s.Unified i j ri rj s' := by
  rcases exists_bound hgrounded hfailed hi hj hcj a with ⟨heap, hbind, hreroots, hconst⟩
  refine ⟨_, ?_, .joined ?_ ⟨hreroots.congr ?_ ?_, ?_, ?_⟩⟩
  . rw [unify_eq_unifyRoots (hgrounded.root_eq hi) (hgrounded.root_eq hj) hci hcj]
    exact hbind
  . exact fun _ hcj' => absurd hcj hcj'.not_isFree
  . simp [Heap.joint, hci.not_isFree]
  . simp [Heap.taken, hci.ne_of_isFree hcj, hci.not_isFree, hcj]
  . intro id hci' _
    rw [Heap.IsConst, hci] at hci'
    cases hci'
    exact hconst
  . exact fun hfree _ => absurd hfree hci.not_isFree

theorem exists_unified_free_const {b : Nat} (hci : s.heap.IsFree ri) (hcj : s.heap.IsConst rj b)
    : ∃ s', s.unify i j = .ok s' ∧ s.Unified i j ri rj s' := by
  rcases exists_bound hgrounded hfailed hi hj hci b with ⟨heap, hbind, hreroots, hconst⟩
  refine ⟨_, ?_, .joined ?_ ⟨hreroots.congr ?_ ?_, ?_, ?_⟩⟩
  . rw [unify_eq_unifyRoots (hgrounded.root_eq hi) (hgrounded.root_eq hj) hci hcj]
    exact hbind
  . exact fun hci' _ => absurd hci hci'.not_isFree
  . simp [Heap.joint, hcj.not_isFree]
  . simp [Heap.taken, Ne.symm (hcj.ne_of_isFree hci), hcj.not_isFree, hci]
  . exact fun _ hfree => absurd hfree hcj.not_isFree
  . intro id _ hcj'
    rw [Heap.IsConst, hcj] at hcj'
    cases hcj'
    exact hconst

theorem exists_unified_free_free (hci : s.heap.IsFree ri) (hcj : s.heap.IsFree rj)
    : ∃ s', s.unify i j = .ok s' ∧ s.Unified i j ri rj s' := by
  have heq := unify_eq_unifyRoots (hgrounded.root_eq hi) (hgrounded.root_eq hj) hci hcj
  have hjoined : ∀ heap : Heap, s.unify i j = .ok { s with heap := heap } →
      s.heap.Reroots (s.heap.joint ri rj) (s.heap.taken ri rj) [j, i] heap →
      ∃ s', s.unify i j = .ok s' ∧ s.Unified i j ri rj s' := by
    intro heap hunify hreroots
    refine ⟨_, hunify, .joined ?_ ⟨hreroots, ?_, ?_⟩⟩
    . exact fun hci' _ => absurd hci hci'.not_isFree
    . exact fun hci' _ => absurd hci hci'.not_isFree
    . exact fun _ hcj' => absurd hcj hcj'.not_isFree
  by_cases hne : ri = rj
  . rcases exists_settled hgrounded hfailed hi hj with ⟨heap, hsettle, hshort⟩
    apply hjoined heap
    . rw [heq, ← hsettle]
      simp [unifyRoots, hne]
    . apply hshort.congr
      . intro root
        simp only [id_eq, Heap.joint, hne, or_self, min_self]
        split <;> omega
      . simp [Heap.taken, hne]
  . have hhigh : s.heap.IsFree (max ri rj) := by
      rcases max_choice ri rj with heq | heq
      . rwa [heq]
      . rwa [heq]
    have hlow : s.heap.Leads (min ri rj) (min ri rj) := by
      rcases min_choice ri rj with heq | heq
      . rw [heq]
        exact hi.root_self
      . rw [heq]
        exact hj.root_self
    rcases Heap.exists_bindFree (.ref (min ri rj)) "unifyboundvar" hhigh with
      ⟨heap₁, hbind, hwritten⟩
    have hreroots := hwritten.reroots_ref hgrounded hhigh hlow (by omega)
    have hi₁ := hwritten.leads_ref hhigh hlow (by omega) hi
    have hj₁ := hwritten.leads_ref hhigh hlow (by omega) hj
    rw [show (if ri = max ri rj then min ri rj else ri) = min ri rj by split <;> omega] at hi₁
    rw [show (if rj = max ri rj then min ri rj else rj) = min ri rj by split <;> omega] at hj₁
    rcases exists_settled (s := { s with heap := heap₁ }) hreroots.grounded hfailed hi₁ hj₁ with
      ⟨heap, hsettle, hshort⟩
    apply hjoined heap
    . rw [heq]
      simp only [unifyRoots, hne, if_false, bind, Except.bind, hbind]
      exact hsettle
    . apply (hreroots.trans hshort).congr
      . intro root
        simp only [Heap.joint, hci, hcj, true_and]
        split <;> split <;> omega
      . simp [Heap.taken, hne, hci, hcj]

theorem exists_unified : ∃ s', s.unify i j = .ok s' ∧ s.Unified i j ri rj s' := by
  rcases hi.root_cases with hci | ⟨a, hci⟩
  . rcases hj.root_cases with hcj | ⟨b, hcj⟩
    . exact exists_unified_free_free hgrounded hfailed hi hj hci hcj
    . exact exists_unified_free_const hgrounded hfailed hi hj hci hcj
  . rcases hj.root_cases with hcj | ⟨b, hcj⟩
    . exact exists_unified_const_free hgrounded hfailed hi hj hci hcj
    . exact exists_unified_const_const hgrounded hfailed hi hj hci hcj

end Unified

end State

end HornMachine
