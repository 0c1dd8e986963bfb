import HornMachine.Clause.Code
import HornMachine.Proofs.Heap.Model
import HornMachine.Proofs.Run.Step

/-!
This module contains the variables of a block at run time: the registers that hold them, which of them
have a value already, and how they are read once the heap has a model.
-/

namespace HornMachine

/--
Values for the addresses of a heap and for the registers that hold no address.
-/
structure Valuation (D : Type) where
  cell : Nat → D
  slot : Nat → D

theorem idxOf_map_of_iff [DecidableEq α] [DecidableEq β] {f : α → β} {a : α} {as : List α}
    (h : ∀ b ∈ as, f b = f a ↔ b = a) : (as.map f).idxOf (f a) = as.idxOf a := by
  induction as with
  | nil => rfl
  | cons b as ih =>
    have htail := ih fun b' hb' => h b' (List.mem_cons_of_mem b hb')
    by_cases heq : b = a
    . rw [heq, List.map_cons, List.idxOf_cons_self, List.idxOf_cons_self]
    . have hne : f b ≠ f a := fun hf => heq ((h b List.mem_cons_self).mp hf)
      rw [List.map_cons, List.idxOf_cons_ne _ hne, List.idxOf_cons_ne _ heq, htail]

def slotOf (vars : List String) (top : Nat) (name : String) : Nat :=
  top - 1 - vars.idxOf name

namespace Valuation

def read (val : Valuation D) (registers : Array (Option Nat)) (i : Nat) : D :=
  match registers[i]?.join with
  | some addr => val.cell addr
  | none => val.slot i

def assign (val : Valuation D) (registers : Array (Option Nat)) (vars : List String) (top : Nat)
    (name : String) : D :=
  val.read registers (slotOf vars top name)

def extend (val : Valuation D) (base : Nat) (x : D) : Valuation D :=
  { val with cell := fun addr => if addr < base then val.cell addr else x }

theorem extend_lt {val : Valuation D} {base addr : Nat} (x : D) (h : addr < base)
    : (val.extend base x).cell addr = val.cell addr := by
  simp [extend, h]

theorem extend_self {val : Valuation D} {base : Nat} (x : D)
    : (val.extend base x).cell base = x := by
  simp [extend]

theorem read_set {val : Valuation D} {registers : Array (Option Nat)} {i addr : Nat}
    (h : registers[i]? = some (some addr)) : val.read registers i = val.cell addr := by
  simp [read, h]

theorem read_unset {val : Valuation D} {registers : Array (Option Nat)} {i : Nat}
    (h : registers[i]? = some none) : val.read registers i = val.slot i := by
  simp [read, h]

end Valuation

def cells (v : Nat → D) (base count : Nat) : List D :=
  (List.range' base count).map v

theorem cells_zero (v : Nat → D) (base : Nat) : cells v base 0 = [] := rfl

theorem cells_succ (v : Nat → D) (base count : Nat)
    : cells v base (count + 1) = v base :: cells v (base + 1) count := by
  simp [cells, List.range'_succ]

theorem cells_append (v : Nat → D) (base count count' : Nat)
    : cells v base (count + count') = cells v base count ++ cells v (base + count) count' := by
  simp [cells, ← List.range'_append_1]

theorem length_cells (v : Nat → D) (base count : Nat) : (cells v base count).length = count := by
  simp [cells]

theorem cells_congr {v v' : Nat → D} {base count : Nat}
    (h : ∀ addr < base + count, v addr = v' addr) : cells v base count = cells v' base count := by
  apply List.map_congr_left
  intro addr haddr
  rw [List.mem_range'_1] at haddr
  exact h addr haddr.2

/--
The registers below `top` end with those of the variables `vars`. The variables in `seen` have addresses
below `bound`, the others have none.
-/
structure Scope (vars seen : List String) (registers : Array (Option Nat)) (top bound : Nat) : Prop
    where
  length_le : vars.length ≤ top
  top_le : top ≤ registers.size
  set : ∀ name ∈ vars, name ∈ seen →
    ∃ addr < bound, registers[slotOf vars top name]? = some (some addr)
  unset : ∀ name ∈ vars, name ∉ seen → registers[slotOf vars top name]? = some none

theorem slotOf_lt {vars : List String} {top : Nat} {name : String} (hlen : vars.length ≤ top)
    (hname : name ∈ vars) : slotOf vars top name < top := by
  have := List.idxOf_lt_length_of_mem hname
  unfold slotOf
  omega

theorem le_slotOf {vars : List String} {top : Nat} {name : String} (hlen : vars.length ≤ top)
    (hname : name ∈ vars) : top - vars.length ≤ slotOf vars top name := by
  have := List.idxOf_lt_length_of_mem hname
  unfold slotOf
  omega

theorem slotOf_inj {vars : List String} {top : Nat} {name name' : String}
    (hlen : vars.length ≤ top) (hname : name ∈ vars) (hname' : name' ∈ vars)
    (h : slotOf vars top name = slotOf vars top name') : name = name' := by
  have hlt := List.idxOf_lt_length_of_mem hname
  have hlt' := List.idxOf_lt_length_of_mem hname'
  unfold slotOf at h
  have heq : vars.idxOf name = vars.idxOf name' := by omega
  rw [← List.getElem_idxOf hlt, ← List.getElem_idxOf hlt']
  simp only [heq]

theorem fromTop?_register {vars : List String} {size : Nat} {name : String}
    (hlen : vars.length ≤ size) (hname : name ∈ vars)
    : fromTop? size (Code.register vars name) = some (slotOf vars size name) := by
  have := List.idxOf_lt_length_of_mem hname
  unfold fromTop? Code.register slotOf
  rw [if_pos (by omega)]
  congr 1
  omega

structure RegisterSet (registers : Array (Option Nat)) (i addr : Nat)
    (registers' : Array (Option Nat)) : Prop where
  size_eq : registers'.size = registers.size
  getElem?_eq : ∀ j, registers'[j]? = if j = i then some (some addr) else registers[j]?

namespace Scope

variable {vars seen : List String} {registers registers' : Array (Option Nat)}
  {top bound addr : Nat} {name : String}

theorem congr {seen' : List String} (h : Scope vars seen registers top bound)
    (hseen : ∀ name ∈ vars, name ∈ seen ↔ name ∈ seen') : Scope vars seen' registers top bound where
  length_le := h.length_le
  top_le := h.top_le
  set name hname hmem := h.set name hname ((hseen name hname).mpr hmem)
  unset name hname hmem := h.unset name hname (fun hmem' => hmem ((hseen name hname).mp hmem'))

theorem mono {bound' : Nat} (h : Scope vars seen registers top bound) (hle : bound ≤ bound')
    : Scope vars seen registers top bound' where
  length_le := h.length_le
  top_le := h.top_le
  set name hname hmem := by
    rcases h.set name hname hmem with ⟨addr, hlt, hreg⟩
    exact ⟨addr, by omega, hreg⟩
  unset := h.unset

theorem of_registers (h : Scope vars seen registers top bound) (hle : top ≤ registers'.size)
    (heq : ∀ i < top, registers'[i]? = registers[i]?) : Scope vars seen registers' top bound where
  length_le := h.length_le
  top_le := hle
  set name hname hmem := by
    rw [heq _ (slotOf_lt h.length_le hname)]
    exact h.set name hname hmem
  unset name hname hmem := by
    rw [heq _ (slotOf_lt h.length_le hname)]
    exact h.unset name hname hmem

theorem assign_congr {val val' : Valuation D} (h : Scope vars seen registers top bound)
    (hname : name ∈ vars)
    (hreg : registers'[slotOf vars top name]? = registers[slotOf vars top name]?)
    (hcell : ∀ addr < bound, val'.cell addr = val.cell addr)
    (hslot : val'.slot (slotOf vars top name) = val.slot (slotOf vars top name))
    : val'.assign registers' vars top name = val.assign registers vars top name := by
  unfold Valuation.assign
  by_cases hseen : name ∈ seen
  . rcases h.set name hname hseen with ⟨addr, hlt, hset⟩
    rw [Valuation.read_set hset, Valuation.read_set (hreg.trans hset), hcell addr hlt]
  . have hunset := h.unset name hname hseen
    rw [Valuation.read_unset hunset, Valuation.read_unset (hreg.trans hunset), hslot]

theorem register_eq {s : State} (h : Scope vars seen s.registers s.registers.size bound)
    (hname : name ∈ vars) (hreg : s.registers[slotOf vars s.registers.size name]? = some (some addr))
    : s.register (Code.register vars name) = .ok addr := by
  unfold State.register
  rw [fromTop?_register h.length_le hname]
  simp [hreg]

theorem exists_setRegister {s : State} (h : Scope vars seen s.registers s.registers.size bound)
    (hname : name ∈ vars) (addr : Nat)
    : ∃ registers', s.setRegister (Code.register vars name) addr =
          .ok { s with registers := registers' } ∧
        RegisterSet s.registers (slotOf vars s.registers.size name) addr registers' := by
  have hslot := fromTop?_register h.length_le hname
  have hlt := slotOf_lt h.length_le hname
  refine ⟨s.registers.set (slotOf vars s.registers.size name) (some addr) hlt, ?_, by simp, ?_⟩
  . unfold State.setRegister
    split
    . next hnone =>
      rw [hslot] at hnone
      contradiction
    . next i hsome =>
      rw [hslot] at hsome
      cases hsome
      rfl
  . intro j
    rw [Array.getElem?_set]
    split
    . next heq => simp [heq]
    . next hne => simp [Ne.symm hne]

theorem setRegister (h : Scope vars seen registers top bound) (hname : name ∈ vars)
    (haddr : addr < bound) (hset : RegisterSet registers (slotOf vars top name) addr registers')
    : Scope vars (name :: seen) registers' top bound where
  length_le := h.length_le
  top_le := by
    rw [hset.size_eq]
    exact h.top_le
  set name' hname' hmem := by
    rw [hset.getElem?_eq]
    split
    . exact ⟨addr, haddr, rfl⟩
    . next hne =>
      apply h.set name' hname'
      rcases List.mem_cons.mp hmem with heq | hmem
      . rw [heq] at hne
        exact absurd rfl hne
      . exact hmem
  unset name' hname' hmem := by
    rw [hset.getElem?_eq, if_neg]
    . apply h.unset name' hname'
      intro hseen
      exact hmem (List.mem_cons_of_mem name hseen)
    . intro heq
      apply hmem
      rw [slotOf_inj h.length_le hname' hname heq]
      exact List.mem_cons_self

theorem assign_extend {val : Valuation D} {name' : String} (h : Scope vars seen registers top bound)
    (hname : name ∈ vars) (hseen : name ∉ seen) (hname' : name' ∈ vars)
    (hset : RegisterSet registers (slotOf vars top name) bound registers')
    : (val.extend bound (val.slot (slotOf vars top name))).assign registers' vars top name' =
      val.assign registers vars top name' := by
  by_cases heq : name' = name
  . have hreg := hset.getElem?_eq (slotOf vars top name)
    rw [if_pos rfl] at hreg
    rw [heq, Valuation.assign, Valuation.assign, Valuation.read_set hreg,
      Valuation.read_unset (h.unset name hname hseen), Valuation.extend_self]
  . apply h.assign_congr hname' _ (fun _ => Valuation.extend_lt _) rfl
    rw [hset.getElem?_eq, if_neg]
    intro hslot
    exact heq (slotOf_inj h.length_le hname' hname hslot)

theorem allocated {registers : Array (Option Nat)} (vars : List String) (bound : Nat)
    : Scope vars [] (registers ++ Array.replicate vars.length none)
        (registers ++ Array.replicate vars.length none).size bound where
  length_le := by simp
  top_le := Nat.le_refl _
  set _ _ hmem := by contradiction
  unset name hname _ := by
    have hlt := List.idxOf_lt_length_of_mem hname
    rw [slotOf, Array.getElem?_append_right, Array.getElem?_replicate, if_pos]
    . simp only [Array.size_append, Array.size_replicate]
      omega
    . simp only [Array.size_append, Array.size_replicate]
      omega

theorem exists_valuation {v : Nat → D} {θ : String → D} (h : Scope vars seen registers top bound)
    (hagrees : ∀ name ∈ vars, ∀ addr : Nat,
      registers[slotOf vars top name]? = some (some addr) → θ name = v addr)
    (slot : Nat → D)
    : ∃ val : Valuation D, val.cell = v ∧ (∀ name ∈ vars, val.assign registers vars top name = θ name) ∧
        ∀ i < top - vars.length, val.slot i = slot i := by
  -- the slots below belong to the levels below, where nothing may change
  refine ⟨⟨v, fun i => if i < top - vars.length then slot i else θ (vars.getD (top - 1 - i) "")⟩,
    rfl, ?_, ?_⟩
  . intro name hname
    have hlt := List.idxOf_lt_length_of_mem hname
    have hlen := h.length_le
    by_cases hseen : name ∈ seen
    . rcases h.set name hname hseen with ⟨addr, _, hreg⟩
      rw [Valuation.assign, Valuation.read_set hreg, hagrees name hname addr hreg]
    . have hle := le_slotOf hlen hname
      rw [Valuation.assign, Valuation.read_unset (h.unset name hname hseen)]
      simp only
      rw [if_neg (by omega)]
      congr 1
      rw [show top - 1 - slotOf vars top name = vars.idxOf name by unfold slotOf; omega]
      rw [List.getD_eq_getElem?_getD, List.getElem?_eq_getElem hlt, Option.getD_some,
        List.getElem_idxOf]
  . intro i hi
    simp [hi]

end Scope

end HornMachine
