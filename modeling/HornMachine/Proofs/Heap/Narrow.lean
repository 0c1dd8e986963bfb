import HornMachine.Proofs.Heap.Acyclic
import HornMachine.Proofs.Heap.Unify
import HornMachine.Proofs.Machine.Opcode

/-!
This module contains how a heap narrows: free cells get values and references are made shorter, but no
binding is undone. Whatever had the same value before has the same value afterwards.
-/

namespace HornMachine

namespace Heap

def Knows (symbols : SymbolTable) (heap : Heap) (id : Nat) : Prop :=
  (∃ name, symbols.get? id = some name) ∨ ∃ addr, heap.IsConst addr id

inductive Narrow (symbols : SymbolTable) (heap heap' : Heap) : Prop where
  | const {addr id : Nat} (hfree : heap.IsFree addr) (hknown : heap.Knows symbols id)
      (h : heap.Written addr (.const id) heap')
  | ref {addr low : Nat} (hfree : heap.IsFree addr) (hlow : heap.Leads low low) (hlt : low < addr)
      (h : heap.Written addr (.ref low) heap')
  | collapse {addr root : Nat} (hleads : heap.Leads addr root) (hne : addr ≠ root)
      (h : heap.Written addr (.ref root) heap')

abbrev Narrows (symbols : SymbolTable) : Heap → Heap → Prop :=
  Relation.ReflTransGen (Narrow symbols)

variable {symbols : SymbolTable} {heap heap' heap'' : Heap}

namespace Narrow

theorem mono {symbols' : SymbolTable} (h : heap.Narrow symbols heap') (hle : symbols ≤ symbols')
    : heap.Narrow symbols' heap' := by
  cases h with
  | const hfree hknown h =>
    apply Narrow.const hfree _ h
    rcases hknown with ⟨name, hname⟩ | hconst
    . exact .inl ⟨name, hle _ _ hname⟩
    . exact .inr hconst
  | ref hfree hlow hlt h => exact .ref hfree hlow hlt h
  | collapse hleads hne h => exact .collapse hleads hne h

theorem size_eq (h : heap.Narrow symbols heap') : heap'.size = heap.size := by
  cases h with
  | const _ _ h => exact h.size_eq
  | ref _ _ _ h => exact h.size_eq
  | collapse _ _ h => exact h.size_eq

theorem valid (h : heap.Narrow symbols heap') (hvalid : heap.Valid symbols)
    : heap'.Valid symbols := by
  cases h with
  | const _ hknown h =>
    apply h.valid hvalid (by simp)
    rintro _ ⟨⟩
    rcases hknown with hnamed | ⟨_, hconst⟩
    . exact hnamed
    . exact hvalid.named hconst
  | ref _ _ hlt h =>
    apply h.valid hvalid _ (by simp)
    rintro _ ⟨⟩
    exact Nat.le_of_lt hlt
  | collapse hleads _ h =>
    apply h.valid hvalid _ (by simp)
    rintro _ ⟨⟩
    exact hvalid.root_le hleads

theorem leads {addr root : Nat} (h : heap.Narrow symbols heap') (hleads : heap.Leads addr root)
    : ∃ root', heap'.Leads addr root' ∧ heap'.Leads root root' := by
  cases h with
  | const hfree _ h =>
    exact ⟨root, h.leads_const hfree hleads, h.leads_const hfree hleads.root_self⟩
  | ref hfree hlow hlt h =>
    have hne := Nat.ne_of_lt hlt
    exact ⟨_, h.leads_ref hfree hlow hne hleads, h.leads_ref hfree hlow hne hleads.root_self⟩
  | collapse hcell hne h =>
    exact ⟨root, h.leads_collapse hcell hne hleads, h.leads_collapse hcell hne hleads.root_self⟩

theorem isConst {addr id : Nat} (h : heap.Narrow symbols heap') (hconst : heap.IsConst addr id)
    : heap'.IsConst addr id := by
  -- only a free cell or a reference is ever written, so not the constant
  have hkeep : ∀ {i : Nat} {cell : Cell}, heap.Written i cell heap' → addr ≠ i →
      heap'.IsConst addr id := by
    intro i cell hwritten hne
    rw [IsConst, hwritten.getElem?_ne hne]
    exact hconst
  have hfree : ¬heap.IsFree addr := by
    rw [IsFree, hconst]
    simp
  cases h with
  | const hcell _ h =>
    apply hkeep h
    rintro rfl
    exact hfree hcell
  | ref hcell _ _ h =>
    apply hkeep h
    rintro rfl
    exact hfree hcell
  | collapse hleads hne h =>
    apply hkeep h
    rintro rfl
    exact hne (Leads.unique (.const hconst) hleads)

end Narrow

namespace Narrows

theorem mono {symbols' : SymbolTable} (h : heap.Narrows symbols heap') (hle : symbols ≤ symbols')
    : heap.Narrows symbols' heap' :=
  Relation.ReflTransGen.mono (fun _ _ hstep => Narrow.mono hstep hle) _ _ h

theorem size_eq (h : heap.Narrows symbols heap') : heap'.size = heap.size := by
  induction h with
  | refl => rfl
  | tail _ hstep ih => rw [hstep.size_eq, ih]

theorem valid (h : heap.Narrows symbols heap') (hvalid : heap.Valid symbols)
    : heap'.Valid symbols := by
  induction h with
  | refl => exact hvalid
  | tail _ hstep ih => exact hstep.valid ih

end Narrows

theorem Narrow.acyclic (h : heap.Narrow symbols heap') (hacyclic : heap.Acyclic)
    : heap'.Acyclic := by
  have hwritten : ∀ {i root : Nat}, heap.Written i (.ref root) heap' → heap.Leads root root →
      heap'.Acyclic := by
    intro i root hwritten hroot
    apply hacyclic.redirect hroot
    intro addr target haddr _
    rw [hwritten.getElem?_eq] at haddr
    split at haddr
    . cases haddr
      exact .inr rfl
    . exact .inl haddr
  cases h with
  | const _ _ h =>
    apply hacyclic.of_subset
    intro addr target haddr _
    rw [h.getElem?_eq] at haddr
    split at haddr
    . simp at haddr
    . exact haddr
  | ref _ hlow _ h => exact hwritten h hlow
  | collapse hleads _ h => exact hwritten h hleads.root_self

theorem Narrows.acyclic (h : heap.Narrows symbols heap') (hacyclic : heap.Acyclic)
    : heap'.Acyclic := by
  induction h with
  | refl => exact hacyclic
  | tail _ hstep ih => exact hstep.acyclic ih

theorem getElem?_push_lt {cell : Cell} {i : Nat} (h : i < heap.size)
    : (heap.push cell)[i]? = heap[i]? := by
  rw [Array.getElem?_push, if_neg (Nat.ne_of_lt h)]

theorem Leads.push {addr root : Nat} (h : heap.Leads addr root) (cell : Cell)
    : Leads (heap.push cell) addr root := by
  induction h with
  | free h => exact self_congr (.free h) (getElem?_push_lt (Leads.free h).lt_size)
  | const h => exact self_congr (.const h) (getElem?_push_lt (Leads.const h).lt_size)
  | step h hne hleads ih =>
    apply Leads.step _ hne ih
    rw [getElem?_push_lt (Leads.step h hne hleads).lt_size]
    exact h

structure Keeps (bound : Nat) (heap heap' : Heap) : Prop where
  joined : ∀ {a b root : Nat}, a < bound → b < bound → heap.Leads a root → heap.Leads b root →
    ∃ root', heap'.Leads a root' ∧ heap'.Leads b root'
  const : ∀ {a root id : Nat}, a < bound → heap.Leads a root → heap.IsConst root id →
    ∃ root', heap'.Leads a root' ∧ heap'.IsConst root' id

namespace Keeps

variable {bound bound' : Nat}

theorem refl (bound : Nat) (heap : Heap) : heap.Keeps bound heap where
  joined _ _ ha hb := ⟨_, ha, hb⟩
  const _ ha hconst := ⟨_, ha, hconst⟩

theorem trans (h : heap.Keeps bound heap') (h' : heap'.Keeps bound heap'')
    : heap.Keeps bound heap'' where
  joined hlta hltb ha hb := by
    rcases h.joined hlta hltb ha hb with ⟨_, ha', hb'⟩
    exact h'.joined hlta hltb ha' hb'
  const hlt ha hconst := by
    rcases h.const hlt ha hconst with ⟨_, ha', hconst'⟩
    exact h'.const hlt ha' hconst'

theorem mono (h : heap.Keeps bound heap') (hle : bound' ≤ bound) : heap.Keeps bound' heap' where
  joined hlta hltb := h.joined (Nat.lt_of_lt_of_le hlta hle) (Nat.lt_of_lt_of_le hltb hle)
  const hlt := h.const (Nat.lt_of_lt_of_le hlt hle)

theorem of_leads
    (h : ∀ {a root : Nat}, a < bound → heap.Leads a root → heap'.Leads a root)
    (hconst : ∀ {a root id : Nat}, a < bound → heap.Leads a root → heap.IsConst root id →
      heap'.IsConst root id)
    : heap.Keeps bound heap' where
  joined hlta hltb ha hb := ⟨_, h hlta ha, h hltb hb⟩
  const hlt ha hid := ⟨_, h hlt ha, hconst hlt ha hid⟩

theorem push (bound : Nat) (heap : Heap) (cell : Cell) : heap.Keeps bound (heap.push cell) := by
  apply of_leads
  . intro a root _ ha
    exact ha.push cell
  . intro a root id _ ha hid
    rw [IsConst, getElem?_push_lt ha.root_lt_size]
    exact hid

theorem take (hvalid : heap.Valid symbols) (n : Nat) : heap.Keeps n (heap.take n) := by
  apply of_leads
  . intro a root hlt ha
    exact hvalid.leads_take hlt ha
  . intro a root id hlt ha hid
    have hroot : root < n := Nat.lt_of_le_of_lt (hvalid.root_le ha) hlt
    rw [IsConst, getElem?_take, if_pos hroot]
    exact hid

end Keeps

theorem Narrow.keeps (h : heap.Narrow symbols heap') (bound : Nat) : heap.Keeps bound heap' where
  joined _ _ ha hb := by
    rcases h.leads ha with ⟨root', ha', hroot⟩
    rcases h.leads hb with ⟨_, hb', hroot'⟩
    rw [Leads.unique hroot' hroot] at hb'
    exact ⟨root', ha', hb'⟩
  const _ ha hid := by
    rcases h.leads ha with ⟨root', ha', hroot⟩
    have hid' := h.isConst hid
    rw [Leads.unique hroot (.const hid')] at ha'
    exact ⟨_, ha', hid'⟩

theorem Narrows.keeps (h : heap.Narrows symbols heap') (bound : Nat) : heap.Keeps bound heap' := by
  induction h with
  | refl => exact .refl bound heap
  | tail _ hstep ih => exact ih.trans (hstep.keeps bound)

theorem isConst_of_cell {addr id : Nat} (h : heap.cell addr = .ok (.const id))
    : heap.IsConst addr id := by
  unfold cell at h
  split at h
  . next cell hcell =>
    cases h
    exact hcell
  . contradiction

theorem isConst_of_constantAt {addr id : Nat} (h : heap.constantAt addr = .ok (some id))
    : heap.IsConst addr id := by
  simp only [constantAt, Except.bind_eq_ok] at h
  rcases h with ⟨cell, hcell, h⟩
  cases cell with
  | const id' =>
    cases h
    exact isConst_of_cell hcell
  | ref _ => cases h

/--
What the addresses below `bound` lead to stays: each one has a root before and afterwards, a constant stays
the same constant, and addresses with the same root have the same root again.
-/
structure Preserves (bound : Nat) (heap heap' : Heap) : Prop where
  defined : ∀ a < bound, (∃ root, heap.root a = .ok root) ∧ ∃ root', heap'.root a = .ok root'
  const : ∀ a < bound, ∀ id, (heap.root a >>= heap.constantAt) = .ok (some id) →
    (heap'.root a >>= heap'.constantAt) = .ok (some id)
  joined : ∀ a < bound, ∀ b < bound, heap.root a = heap.root b → heap'.root a = heap'.root b

theorem Keeps.preserves {symbols' : SymbolTable} {bound : Nat} (h : heap.Keeps bound heap')
    (hvalid : heap.Valid symbols) (hvalid' : heap'.Valid symbols') (hle : bound ≤ heap.size)
    (hle' : bound ≤ heap'.size) : heap.Preserves bound heap' where
  defined a ha := by
    rcases hvalid.exists_root (Nat.lt_of_lt_of_le ha hle) with ⟨root, hroot, _⟩
    rcases hvalid'.exists_root (Nat.lt_of_lt_of_le ha hle') with ⟨root', hroot', _⟩
    exact ⟨⟨root, hroot⟩, root', hroot'⟩
  const a ha id hconst := by
    simp only [Except.bind_eq_ok] at hconst
    rcases hconst with ⟨root, hroot, hid⟩
    rcases h.const ha (.of_root hroot) (isConst_of_constantAt hid) with ⟨root', hleads, hid'⟩
    rw [hvalid'.root_eq hleads]
    exact constantAt_const hid'
  joined a ha b hb heq := by
    rcases hvalid.exists_root (Nat.lt_of_lt_of_le ha hle) with ⟨root, hroot, hleads⟩
    rw [hroot] at heq
    rcases h.joined ha hb hleads (.of_root heq.symm) with ⟨root', ha', hb'⟩
    rw [hvalid'.root_eq ha', hvalid'.root_eq hb']

theorem written_of_write {addr : Nat} {cell : Cell} (h : heap.write addr cell = .ok heap')
    : heap.Written addr cell heap' := by
  by_cases haddr : addr < heap.size
  . rcases exists_write cell haddr with ⟨_, heq, hwritten⟩
    rw [heq] at h
    cases h
    exact hwritten
  . simp [write, haddr] at h

theorem isFree_of_ok {addr : Nat} (h : heap.isFree addr = .ok true) : heap.IsFree addr := by
  unfold isFree cell at h
  split at h
  . next cell hcell =>
    rw [IsFree, hcell]
    simpa [bind, Except.bind, pure, Except.pure] using h
  . contradiction

theorem narrows_of_collapse (symbols : SymbolTable) {addr root : Nat}
    (h : heap.collapse addr root = .ok heap') (hleads : heap.Leads addr root)
    : heap.Narrows symbols heap' := by
  unfold collapse at h
  split at h
  . cases h
    exact .refl
  . next hne => exact .single (.collapse hleads hne (written_of_write h))

theorem bindFree_eq_ok {addr : Nat} {cell : Cell} {operation : String}
    (h : heap.bindFree addr cell operation = .ok heap')
    : heap.IsFree addr ∧ heap.Written addr cell heap' := by
  simp only [bindFree, Except.bind_eq_ok] at h
  rcases h with ⟨free, hfree, h⟩
  split at h
  . next htrue =>
    rw [htrue] at hfree
    exact ⟨isFree_of_ok hfree, written_of_write h⟩
  . contradiction

theorem narrows_of_bound {symbols' : SymbolTable} {heap₁ : Heap} {addr root id : Nat} {name : String}
    (hfree : heap.isFree root = .ok true) (hroot : heap.root addr = .ok root)
    (hid : symbols.intern name = .ok (id, symbols')) (hwrite : heap.write root (.const id) = .ok heap₁)
    (hcollapse : heap₁.collapse addr root = .ok heap') : heap.Narrows symbols' heap' := by
  have hroot := Leads.of_root hroot
  have hfree := isFree_of_ok hfree
  have hwritten := written_of_write hwrite
  have hbound : heap.Narrow symbols' heap₁ :=
    .const hfree (.inl ⟨name, Interner.get?_intern hid⟩) hwritten
  exact .head hbound (narrows_of_collapse symbols' hcollapse (hwritten.leads_const hfree hroot))

end Heap

namespace State

variable (symbols : SymbolTable) {s s' : State} {i j ri rj : Nat}

theorem narrows_of_settle (hi : s.heap.Leads i ri) (hj : s.heap.Leads j rj)
    (h : s.settle i ri j rj = .ok s')
    : ∃ heap, s.heap.Narrows symbols heap ∧ s' = { s with heap := heap } := by
  unfold settle at h
  split at h
  . cases h
    exact ⟨s.heap, .refl, rfl⟩
  . simp only [Except.bind_eq_ok] at h
    rcases h with ⟨heap₁, h₁, heap₂, h₂, ⟨⟩⟩
    have hnarrows₁ := Heap.narrows_of_collapse symbols h₁ hi
    refine ⟨heap₂, hnarrows₁.trans (Heap.narrows_of_collapse symbols h₂ ?_), rfl⟩
    -- shortening the way from `i` leaves every other root as it was
    unfold Heap.collapse at h₁
    split at h₁
    . cases h₁
      exact hj
    . next hne => exact (Heap.written_of_write h₁).leads_collapse hi hne hj

theorem narrows_of_unify (h : s.unify i j = .ok s')
    : ∃ heap failed, s.heap.Narrows symbols heap ∧ s' = { s with heap := heap, failed := failed } := by
  simp only [unify, Except.bind_eq_ok] at h
  rcases h with ⟨ri, hri, rj, hrj, ci, hci, cj, hcj, h⟩
  have hi := Heap.Leads.of_root hri
  have hj := Heap.Leads.of_root hrj
  have hbind : ∀ {root id addr : Nat},
      s.heap.IsConst addr id →
      (s.heap.bindFree root (.const id) "unifyboundvar" >>= fun heap =>
        settle { s with heap } i ri j rj) = .ok s' →
      ∃ heap failed, s.heap.Narrows symbols heap ∧
        s' = { s with heap := heap, failed := failed } := by
    intro root id addr hconst h
    simp only [Except.bind_eq_ok] at h
    rcases h with ⟨heap, hheap, h⟩
    rcases Heap.bindFree_eq_ok hheap with ⟨hfree, hwritten⟩
    have hbound : s.heap.Narrow symbols heap := .const hfree (.inr ⟨addr, hconst⟩) hwritten
    rcases narrows_of_settle symbols (s := { s with heap })
      (hwritten.leads_const hfree hi) (hwritten.leads_const hfree hj) h with ⟨heap', hheap', rfl⟩
    exact ⟨heap', s.failed, .head hbound hheap', rfl⟩
  cases ci with
  | const a =>
    cases cj with
    | const b =>
      rcases narrows_of_settle symbols
        (s := { s with failed := if ri = rj then s.failed else a != b }) hi hj h with
        ⟨heap, hheap, rfl⟩
      exact ⟨heap, _, hheap, rfl⟩
    | ref _ => exact hbind (Heap.isConst_of_cell hci) h
  | ref _ =>
    cases cj with
    | const b => exact hbind (Heap.isConst_of_cell hcj) h
    | ref _ =>
      simp only at h
      split at h
      . rcases narrows_of_settle symbols hi hj h with ⟨heap, hheap, rfl⟩
        exact ⟨heap, s.failed, hheap, rfl⟩
      . next hne =>
        simp only [Except.bind_eq_ok] at h
        rcases h with ⟨heap, hheap, h⟩
        rcases Heap.bindFree_eq_ok hheap with ⟨hfree, hwritten⟩
        have hlt : min ri rj < max ri rj := by omega
        have hlow : s.heap.Leads (min ri rj) (min ri rj) := by
          rcases min_choice ri rj with heq | heq
          . rw [heq]
            exact hi.root_self
          . rw [heq]
            exact hj.root_self
        have hbound : s.heap.Narrow symbols heap := .ref hfree hlow hlt hwritten
        -- both roots lead to the lower one now
        have hleads : ∀ {a root : Nat}, s.heap.Leads a root → (root = ri ∨ root = rj) →
            heap.Leads a (min ri rj) := by
          intro a root ha hroot
          have ha' := hwritten.leads_ref hfree hlow (Nat.ne_of_lt hlt) ha
          split at ha'
          . exact ha'
          . next hmax =>
            have hmin : root = min ri rj := by omega
            rw [← hmin]
            exact ha'
        rcases narrows_of_settle symbols (s := { s with heap })
          (hleads hi (.inl rfl)) (hleads hj (.inr rfl)) h with ⟨heap', hheap', rfl⟩
        exact ⟨heap', s.failed, .head hbound hheap', rfl⟩

end State

namespace Machine

variable {m m' : Machine} {name : String}

theorem narrows_of_setArgument {arity index : Nat} (h : m.setArgument arity index name = .ok m')
    : m.symbols ≤ m'.symbols ∧
      ∃ heap, m.state.heap.Narrows m'.symbols heap ∧ m'.state = { m.state with heap := heap } := by
  simp only [setArgument, Except.bind_eq_ok] at h
  rcases h with ⟨addr, _, root, hroot, free, hfree, h⟩
  split at h
  . next htrue =>
    rw [htrue] at hfree
    simp only [Except.bind_eq_ok] at h
    rcases h with ⟨⟨id, symbols⟩, hid, heap₁, hwrite, heap₂, hcollapse, ⟨⟩⟩
    exact ⟨Interner.intern_le hid, heap₂, Heap.narrows_of_bound hfree hroot hid hwrite hcollapse, rfl⟩
  . contradiction

theorem narrows_of_unifyConst {offset : Int} (h : m.unifyConst name offset = .ok m')
    : m.symbols ≤ m'.symbols ∧ m'.features = m.features ∧
      ∃ heap failed, m.state.heap.Narrows m'.symbols heap ∧
        m'.state = { m.state with heap := heap, failed := failed } := by
  simp only [unifyConst, Except.bind_eq_ok] at h
  rcases h with ⟨addr, _, root, hroot, found, _, h⟩
  split at h
  . cases h
    exact ⟨Interner.le_refl _, rfl, m.state.heap, _, .refl, rfl⟩
  . simp only [Except.bind_eq_ok] at h
    rcases h with ⟨free, hfree, h⟩
    split at h
    . next htrue =>
      rw [htrue] at hfree
      simp only [Except.bind_eq_ok] at h
      rcases h with ⟨⟨id, symbols⟩, hid, heap₁, hwrite, heap₂, hcollapse, ⟨⟩⟩
      exact ⟨Interner.intern_le hid, rfl, heap₂, m.state.failed,
        Heap.narrows_of_bound hfree hroot hid hwrite hcollapse, rfl⟩
    . contradiction

end Machine

end HornMachine
