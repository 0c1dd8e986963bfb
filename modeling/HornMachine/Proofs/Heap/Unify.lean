import HornMachine.Proofs.Heap.Model
import HornMachine.Proofs.Heap.Union

/-!
This module contains what unification does to the meaning of a heap: it keeps those models in which the
unified addresses have the same value, and it fails if there is none.
-/

namespace HornMachine

abbrev Constraint : Type 1 := ∀ (D : Type) [Domain D], (Nat → D) → Prop

namespace Heap

structure Adds (symbols : SymbolTable) (heap : Heap) (constraint : Constraint) (heap' : Heap)
    : Prop where
  size_eq : heap'.size = heap.size
  valid : heap'.Valid symbols
  models_iff : ∀ (D : Type) [Domain D] (v : Nat → D),
    heap'.Models symbols v ↔ heap.Models symbols v ∧ constraint D v

structure Lowers (heap heap' : Heap) : Prop where
  leads : ∀ {a root : Nat}, heap.Leads a root → ∃ root' ≤ root, heap'.Leads a root'
  free : ∀ {a : Nat}, heap'.IsFree a → heap.IsFree a

/--
The models of the new heap are those of the old one that satisfy a constraint, where the references of both
may lead upwards.
-/
structure Meets (symbols : SymbolTable) (heap : Heap) (constraint : Constraint) (heap' : Heap)
    : Prop where
  size_eq : heap'.size = heap.size
  closed : heap'.Closed symbols
  valid : heap.Valid symbols → heap'.Valid symbols
  lowers : heap.Lowers heap'
  models_iff : ∀ (D : Type) [Domain D] (v : Nat → D),
    heap'.Models symbols v ↔ heap.Models symbols v ∧ constraint D v

variable {symbols : SymbolTable} {heap heap' heap'' : Heap}

namespace Adds

theorem refl (hvalid : heap.Valid symbols) : heap.Adds symbols (fun _ _ _ => True) heap where
  size_eq := rfl
  valid := hvalid
  models_iff := by simp

theorem congr {c c' : Constraint} (h : heap.Adds symbols c heap')
    (hc : ∀ (D : Type) [Domain D] (v : Nat → D), heap.Models symbols v → (c D v ↔ c' D v))
    : heap.Adds symbols c' heap' where
  size_eq := h.size_eq
  valid := h.valid
  models_iff := by
    intro D _ v
    rw [h.models_iff]
    constructor
    . intro hv
      exact ⟨hv.1, (hc D v hv.1).mp hv.2⟩
    . intro hv
      exact ⟨hv.1, (hc D v hv.1).mpr hv.2⟩

end Adds

namespace Lowers

theorem refl (heap : Heap) : heap.Lowers heap where
  leads h := ⟨_, Nat.le_refl _, h⟩
  free h := h

theorem trans (h : heap.Lowers heap') (h' : heap'.Lowers heap'') : heap.Lowers heap'' where
  leads hleads := by
    rcases h.leads hleads with ⟨root', hle, hleads'⟩
    rcases h'.leads hleads' with ⟨root'', hle', hleads''⟩
    exact ⟨root'', hle'.trans hle, hleads''⟩
  free hfree := h.free (h'.free hfree)

end Lowers

namespace Meets

variable {c c' : Constraint}

theorem adds (h : heap.Meets symbols c heap') (hvalid : heap.Valid symbols)
    : heap.Adds symbols c heap' :=
  ⟨h.size_eq, h.valid hvalid, h.models_iff⟩

theorem refl (hclosed : heap.Closed symbols) : heap.Meets symbols (fun _ _ _ => True) heap where
  size_eq := rfl
  closed := hclosed
  valid := id
  lowers := .refl heap
  models_iff := by simp

theorem congr (h : heap.Meets symbols c heap')
    (hc : ∀ (D : Type) [Domain D] (v : Nat → D), heap.Models symbols v → (c D v ↔ c' D v))
    : heap.Meets symbols c' heap' :=
  { h with
    models_iff := by
      intro D _ v
      rw [h.models_iff]
      exact and_congr_right (hc D v) }

end Meets

namespace Written

theorem valid {addr : Nat} {cell : Cell} (h : heap.Written addr cell heap')
    (hvalid : heap.Valid symbols) (href : ∀ target, cell = .ref target → target ≤ addr)
    (hconst : ∀ id, cell = .const id → ∃ name, symbols.get? id = some name)
    : heap'.Valid symbols where
  le_of_ref hcell := by
    rw [h.getElem?_eq] at hcell
    split at hcell
    . next heq =>
      rw [heq]
      apply href
      simpa using hcell
    . exact hvalid.le_of_ref hcell
  named hcell := by
    rw [h.getElem?_eq] at hcell
    split at hcell
    . apply hconst
      simpa using hcell
    . exact hvalid.named hcell

end Written

namespace Reroots

variable {newRoot : Nat → Nat} {taken : Option Nat} {starts : List Nat}
  (h : heap.Reroots newRoot taken starts heap')
include h

theorem root_cases (hgrounded : heap.Grounded) {root : Nat} (hroot : heap'.Leads root root)
    : heap.Leads root root ∧ (taken = some root ∨ heap'[root]? = heap[root]?) := by
  rcases hgrounded root (h.size_eq ▸ hroot.lt_size) with ⟨old, hold⟩
  obtain rfl : newRoot old = root := (h.leads hgrounded hold).unique hroot
  have hself := h.new_root (hgrounded.root_eq hold.root_self)
  refine ⟨.of_root hself, ?_⟩
  by_cases htaken : taken = some (newRoot old)
  . exact .inl htaken
  . exact .inr (h.root_cell hself htaken)

theorem lowers (hgrounded : heap.Grounded) (hle : ∀ root, newRoot root ≤ root)
    : heap.Lowers heap' where
  leads hleads := ⟨_, hle _, h.leads hgrounded hleads⟩
  free hfree := by
    rcases (h.root_cases hgrounded (.free hfree)).2 with htaken | hsame
    . exact h.taken_free htaken
    . rw [IsFree, ← hsame]
      exact hfree

theorem closed (hclosed : heap.Closed symbols)
    (hnamed : ∀ root id : Nat, taken = some root → heap'.IsConst root id →
      ∃ name, symbols.get? id = some name)
    : heap'.Closed symbols where
  grounded := h.grounded
  named {addr id} hconst := by
    rcases (h.root_cases hclosed.grounded (.const hconst)).2 with htaken | hsame
    . exact hnamed addr id htaken hconst
    . exact hclosed.named (hsame ▸ hconst)

theorem valid (hvalid : heap.Valid symbols) (hle : ∀ root, newRoot root ≤ root)
    (hclosed : heap'.Closed symbols) : heap'.Valid symbols where
  le_of_ref {addr target} hcell := by
    by_cases hnear : addr ∈ starts ∨ taken = some addr
    . rcases h.near hnear with ⟨root, hroot, rfl | hcell'⟩
      . exact Nat.le_of_eq ((Leads.of_root hroot).eq_of_ref hcell)
      . have haddr := (Array.getElem?_eq_some_iff.mp hcell).1
        rcases hvalid.exists_root (h.size_eq ▸ haddr) with ⟨old, hold, hleads⟩
        obtain rfl : newRoot old = root := Except.ok.inj ((h.root_eq hold).symm.trans hroot)
        obtain rfl : newRoot old = target := by simpa [hcell'] using hcell
        exact (hle old).trans (hvalid.root_le hleads)
    . rw [not_or] at hnear
      rw [h.cell_eq hnear.1 hnear.2] at hcell
      exact hvalid.le_of_ref hcell
  named := hclosed.named

theorem models_iff [Domain D] {v : Nat → D} (hclosed : heap.Closed symbols)
    (hclosed' : heap'.Closed symbols)
    : heap'.Models symbols v ↔
      heap.Models symbols v ∧ (∀ root, heap.Leads root root → v root = v (newRoot root)) ∧
        ∀ (root id : Nat) (name : String), taken = some root → heap'.IsConst root id →
          symbols.get? id = some name → v root = Domain.const name := by
  have hgrounded := hclosed.grounded
  constructor
  . intro hv
    refine ⟨hclosed.models_iff_leads.mpr ⟨?_, ?_⟩, ?_, ?_⟩
    . intro a root hleads
      rw [(h.leads hgrounded hleads).eq_of_models hv,
        (h.leads hgrounded hleads.root_self).eq_of_models hv]
    . intro root id name hconst hname
      -- the root that was taken was free, so it is another one
      have htaken : taken ≠ some root := fun htaken => hconst.not_isFree (h.taken_free htaken)
      have hsame := h.root_cell (hgrounded.root_eq (.const hconst)) htaken
      exact hv.eq_const (hconst.of_eq hsame) hname
    . intro root hroot
      exact (h.leads hgrounded hroot).eq_of_models hv
    . intro root id name _ hconst hname
      exact hv.eq_const hconst hname
  . rintro ⟨hv, hnew, htaken⟩
    refine hclosed'.models_iff_leads.mpr ⟨?_, ?_⟩
    . intro a root' hleads'
      rcases hgrounded a (h.size_eq ▸ hleads'.lt_size) with ⟨root, hleads⟩
      obtain rfl : newRoot root = root' := (h.leads hgrounded hleads).unique hleads'
      rw [hleads.eq_of_models hv, hnew root hleads.root_self]
    . intro root id name hconst hname
      rcases (h.root_cases hgrounded (.const hconst)).2 with heq | hsame
      . exact htaken root id name heq hconst hname
      . exact hv.eq_const (hconst.of_eq hsame.symm) hname

theorem meets {c : Constraint} (hclosed : heap.Closed symbols) (hclosed' : heap'.Closed symbols)
    (hle : ∀ root, newRoot root ≤ root)
    (hc : ∀ (D : Type) [Domain D] (v : Nat → D),
      ((∀ root, heap.Leads root root → v root = v (newRoot root)) ∧
        ∀ (root id : Nat) (name : String), taken = some root → heap'.IsConst root id →
          symbols.get? id = some name → v root = Domain.const name) ↔ c D v)
    : heap.Meets symbols c heap' where
  size_eq := h.size_eq
  closed := hclosed'
  valid hvalid := h.valid hvalid hle hclosed'
  lowers := h.lowers hclosed.grounded hle
  models_iff := by
    intro D _ v
    rw [h.models_iff hclosed hclosed', hc]

omit h

theorem meets_short (h : heap.Reroots (fun root => root) none starts heap')
    (hclosed : heap.Closed symbols) : heap.Meets symbols (fun _ _ _ => True) heap' := by
  apply h.meets hclosed (h.closed hclosed (by simp)) fun _ => Nat.le_refl _
  simp

theorem meets_const {addr id : Nat} {name : String}
    (h : heap.Reroots (fun root => root) (some addr) starts heap') (hclosed : heap.Closed symbols)
    (hconst : heap'.IsConst addr id) (hname : symbols.get? id = some name)
    : heap.Meets symbols (fun _ _ v => v addr = Domain.const name) heap' := by
  have hid : ∀ {id' : Nat}, heap'.IsConst addr id' → id' = id := by
    intro id' hconst'
    rw [IsConst, hconst] at hconst'
    simpa using hconst'.symm
  have hclosed' : heap'.Closed symbols := by
    apply h.closed hclosed
    rintro _ id' ⟨⟩ hconst'
    exact ⟨name, hid hconst' ▸ hname⟩
  apply h.meets hclosed hclosed' fun _ => Nat.le_refl _
  intro D _ v
  constructor
  . intro hv
    exact hv.2 addr id name rfl hconst hname
  . intro hv
    refine ⟨fun _ _ => rfl, ?_⟩
    rintro _ id' name' ⟨⟩ hconst' hname'
    rw [hid hconst', hname] at hname'
    cases hname'
    exact hv

theorem meets_ref {low high : Nat}
    (h : heap.Reroots (fun root => if root = high then low else root) (some high) starts heap')
    (hclosed : heap.Closed symbols) (hlt : low < high)
    : heap.Meets symbols (fun _ _ v => v high = v low) heap' := by
  have hfree : heap.IsFree high := h.taken_free rfl
  have hhigh : ∀ {id : Nat}, ¬heap'.IsConst high id := by
    intro id hconst
    have hleads := h.leads hclosed.grounded (.free hfree)
    simp only [if_true] at hleads
    exact Nat.ne_of_lt hlt (hleads.unique (.const hconst))
  have hclosed' : heap'.Closed symbols := by
    apply h.closed hclosed
    rintro _ id ⟨⟩ hconst
    exact absurd hconst hhigh
  apply h.meets hclosed hclosed'
  . intro root
    split <;> omega
  . intro D _ v
    constructor
    . intro hv
      simpa using hv.1 high (.free hfree)
    . intro hv
      constructor
      . intro root _
        split
        . next heq => rw [heq, hv]
        . rfl
      . rintro _ id name ⟨⟩ hconst
        exact absurd hconst hhigh

end Reroots

namespace Joins

variable {i ri j rj : Nat}

theorem meets (h : heap.Joins i j ri rj heap') (hclosed : heap.Closed symbols)
    (hi : heap.Leads i ri) (hj : heap.Leads j rj)
    (hsame : ∀ {a b : Nat}, heap.IsConst ri a → heap.IsConst rj b → a = b)
    : heap.Meets symbols (fun _ _ v => v i = v j) heap' := by
  rcases hi.root_cases with hci | ⟨a, hci⟩
  . rcases hj.root_cases with hcj | ⟨b, hcj⟩
    . by_cases heq : ri = rj
      . have hshort : heap.Reroots (fun root => root) none [j, i] heap' :=
          h.toReroots.congr (by simp [joint, heq, eq_comm]) (by simp [taken, heq])
        apply (hshort.meets_short hclosed).congr
        intro D _ v hv
        rw [hi.eq_of_models hv, hj.eq_of_models hv, heq]
        simp
      . have hlow : heap.Reroots (fun root => if root = max ri rj then min ri rj else root)
            (some (max ri rj)) [j, i] heap' := by
          apply h.toReroots.congr
          . intro root
            simp only [joint, hci, hcj, true_and]
            split <;> split <;> omega
          . simp [taken, heq, hci, hcj]
        apply (hlow.meets_ref hclosed (by omega)).congr
        intro D _ v hv
        rw [hi.eq_of_models hv, hj.eq_of_models hv]
        rcases Nat.le_total ri rj with hle | hle
        . rw [Nat.max_eq_right hle, Nat.min_eq_left hle, eq_comm]
        . rw [Nat.max_eq_left hle, Nat.min_eq_right hle]
    . rcases hclosed.named hcj with ⟨name, hname⟩
      have hbound : heap.Reroots (fun root => root) (some ri) [j, i] heap' :=
        h.toReroots.congr (by simp [joint, hcj.not_isFree])
          (by simp [taken, Ne.symm (hcj.ne_of_isFree hci), hcj.not_isFree, hci])
      apply (hbound.meets_const hclosed (h.const_right hci hcj) hname).congr
      intro D _ v hv
      rw [hi.eq_of_models hv, hj.eq_of_models hv, hv.eq_const hcj hname]
  . rcases hclosed.named hci with ⟨name, hname⟩
    rcases hj.root_cases with hcj | ⟨b, hcj⟩
    . have hbound : heap.Reroots (fun root => root) (some rj) [j, i] heap' :=
        h.toReroots.congr (by simp [joint, hci.not_isFree])
          (by simp [taken, hci.ne_of_isFree hcj, hci.not_isFree, hcj])
      apply (hbound.meets_const hclosed (h.const_left hci hcj) hname).congr
      intro D _ v hv
      rw [hi.eq_of_models hv, hj.eq_of_models hv, hv.eq_const hci hname, eq_comm]
    . have hshort : heap.Reroots (fun root => root) none [j, i] heap' :=
        h.toReroots.congr (by simp [joint, hci.not_isFree])
          (by simp [taken, hci.not_isFree, hcj.not_isFree])
      apply (hshort.meets_short hclosed).congr
      intro D _ v hv
      rw [← hsame hci hcj] at hcj
      rw [hi.eq_of_models hv, hj.eq_of_models hv, hv.eq_const hci hname, hv.eq_const hcj hname]
      simp

end Joins

theorem Closed.ne_of_const [Domain D] {v : Nat → D} (hclosed : heap.Closed symbols)
    (hv : heap.Models symbols v) {ri rj a b : Nat} (hci : heap.IsConst ri a)
    (hcj : heap.IsConst rj b) (hne : a ≠ b) : v ri ≠ v rj := by
  rcases hclosed.named hci with ⟨name, hname⟩
  rcases hclosed.named hcj with ⟨name', hname'⟩
  rw [hv.eq_const hci hname, hv.eq_const hcj hname']
  intro heq
  have heq' := Domain.const_inj heq
  rw [← heq', ← Interner.lookup?_eq_some] at hname'
  rw [← Interner.lookup?_eq_some, hname'] at hname
  exact hne (Option.some.inj hname).symm

theorem IsFree.intern_cases {addr root : Nat} (h : heap.IsFree root) (hvalid : heap.Valid symbols)
    (hleads : heap.Leads addr root) (name : String)
    : (∃ entries, symbols.intern name = .error (.poolExhausted entries)) ∨
      ∃ id symbols' heap₁ heap₂, symbols.intern name = .ok (id, symbols') ∧ symbols ≤ symbols' ∧
        heap.write root (.const id) = .ok heap₁ ∧ heap₁.collapse addr root = .ok heap₂ ∧
        heap.Adds symbols' (fun _ _ v => v addr = Domain.const name) heap₂ := by
  match hintern : symbols.intern name with
  | .error fault =>
    left
    rw [Interner.intern_eq_error hintern]
    exact ⟨_, rfl⟩
  | .ok (id, symbols') =>
    right
    have hle := Interner.intern_le hintern
    have hvalid' := hvalid.mono hle
    rcases hvalid.grounded.exists_assign h hleads id with
      ⟨heap₁, heap₂, hwrite, hcollapse, hreroots, hconst⟩
    have hmeets := hreroots.meets_const hvalid'.closed hconst (Interner.get?_intern hintern)
    refine ⟨id, symbols', heap₁, heap₂, rfl, hle, hwrite, hcollapse, (hmeets.adds hvalid').congr ?_⟩
    intro D _ v hv
    rw [hleads.eq_of_models hv]

end Heap

namespace State

variable {symbols : SymbolTable} {s : State}

/--
What unification promises: it keeps the models in which both addresses have the same value, or it finds
that there are none.
-/
def Unifies (symbols : SymbolTable) (s : State) (i j : Nat) : Prop :=
  (s.unify i j = .ok { s with failed := true } ∧
    ∀ (D : Type) [Domain D] (v : Nat → D), s.heap.Models symbols v → v i ≠ v j) ∨
  ∃ heap', s.unify i j = .ok { s with heap := heap' } ∧
    s.heap.Adds symbols (fun _ _ v => v i = v j) heap'

theorem Unified.meets {s' : State} {i ri j rj : Nat} (h : s.Unified i j ri rj s')
    (hclosed : s.heap.Closed symbols) (hi : s.heap.Leads i ri) (hj : s.heap.Leads j rj)
    : (s' = { s with failed := true } ∧
        ∀ (D : Type) [Domain D] (v : Nat → D), s.heap.Models symbols v → v i ≠ v j) ∨
      ∃ heap, s' = { s with heap := heap } ∧ s.heap.Meets symbols (fun _ _ v => v i = v j) heap := by
  cases h with
  | clash hci hcj hne =>
    refine .inl ⟨rfl, ?_⟩
    intro D _ v hv
    rw [hi.eq_of_models hv, hj.eq_of_models hv]
    exact hclosed.ne_of_const hv hci hcj hne
  | joined hsame h => exact .inr ⟨_, rfl, h.meets hclosed hi hj hsame⟩

theorem unifies {i j : Nat} (hvalid : s.heap.Valid symbols) (hfailed : s.failed = false)
    (hi : i < s.heap.size) (hj : j < s.heap.size) : s.Unifies symbols i j := by
  rcases hvalid.exists_root hi with ⟨ri, _, hli⟩
  rcases hvalid.exists_root hj with ⟨rj, _, hlj⟩
  rcases exists_unified hvalid.grounded hfailed hli hlj with ⟨s', hunify, hunified⟩
  rcases hunified.meets hvalid.closed hli hlj with ⟨rfl, hne⟩ | ⟨heap, rfl, hmeets⟩
  . exact .inl ⟨hunify, hne⟩
  . exact .inr ⟨heap, hunify, hmeets.adds hvalid⟩

end State

end HornMachine
