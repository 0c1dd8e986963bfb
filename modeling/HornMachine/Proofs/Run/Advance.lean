import HornMachine.Proofs.Run.Union
import HornMachine.Proofs.Run.Scope

/-!
This module contains what the instructions of a block do that neither call nor return: they move on, fill
registers of the block and put cells on the heap or unify cells that are on it.
-/

namespace HornMachine

/--
A part of a block was run: the machine went on to `pc'`, and the variables in `seen'` have addresses now.
-/
structure Advances (vars seen' : List String) (pc' : Nat) (m m' : Machine) : Prop where
  symbols_le : m.symbols ≤ m'.symbols
  features_eq : m'.features = m.features
  state_eq : m'.state =
    { m.state with heap := m'.state.heap, registers := m'.state.registers, pc := some pc' }
  valid : m'.state.heap.Valid m'.symbols
  registers_size : m'.state.registers.size = m.state.registers.size
  keeps : ∀ (i addr : Nat), m.state.registers[i]? = some (some addr) →
    m'.state.registers[i]? = some (some addr)
  below : ∀ i < m.state.registers.size - vars.length,
    m'.state.registers[i]? = m.state.registers[i]?
  scope : Scope vars seen' m'.state.registers m'.state.registers.size m'.state.heap.size

def Agrees (vars : List String) (m : Machine) (v : Nat → D) (assign : String → D) : Prop :=
  ∀ name ∈ vars, ∀ addr : Nat,
    m.state.registers[slotOf vars m.state.registers.size name]? = some (some addr) →
      assign name = v addr

namespace Advances

variable {vars seen seen' seen'' : List String} {pc pc' pc'' : Nat} {m m' m'' : Machine}

theorem refl (hat : m.state.RunsAt pc) (hvalid : m.state.heap.Valid m.symbols)
    (hscope : Scope vars seen m.state.registers m.state.registers.size m.state.heap.size)
    : Advances vars seen pc m m where
  symbols_le := Interner.le_refl _
  features_eq := rfl
  state_eq := by rw [← hat.pc_eq]
  valid := hvalid
  registers_size := rfl
  keeps _ _ h := h
  below _ _ := rfl
  scope := hscope

theorem trans (h : Advances vars seen' pc' m m') (h' : Advances vars seen'' pc'' m' m'')
    : Advances vars seen'' pc'' m m'' where
  symbols_le := Interner.le_trans h.symbols_le h'.symbols_le
  features_eq := by rw [h'.features_eq, h.features_eq]
  state_eq := by
    rw [h'.state_eq, h.state_eq]
  valid := h'.valid
  registers_size := by rw [h'.registers_size, h.registers_size]
  keeps i addr hreg := h'.keeps i addr (h.keeps i addr hreg)
  below i hi := by
    rw [h'.below i (by rw [h.registers_size]; exact hi), h.below i hi]
  scope := h'.scope

theorem congr (h : Advances vars seen' pc' m m')
    (hseen : ∀ name ∈ vars, name ∈ seen' ↔ name ∈ seen'') (hpc : pc' = pc'')
    : Advances vars seen'' pc'' m m' := by
  subst hpc
  exact { h with scope := h.scope.congr hseen }

theorem runsAt (h : Advances vars seen' pc' m m') (hat : m.state.RunsAt pc)
    : m'.state.RunsAt pc' where
  pc_eq := by rw [h.state_eq]
  failed_eq := by
    rw [h.state_eq]
    exact hat.failed_eq
  completed_eq := by
    rw [h.state_eq]
    exact hat.completed_eq

section Step

variable {heap : Heap} (hat : m.state.RunsAt pc)
  (hscope : Scope vars seen m.state.registers m.state.registers.size m.state.heap.size)
  (hsize : m.state.heap.size ≤ heap.size)
include hat hscope hsize

theorem of_heap {symbols : SymbolTable} (hle : m.symbols ≤ symbols) (hvalid : heap.Valid symbols)
    : Advances vars seen (pc + 1) m
        { m with symbols := symbols, state := { m.state with heap := heap }.advance } where
  symbols_le := hle
  features_eq := rfl
  state_eq := by simp [State.advance, hat.pc_eq]
  valid := hvalid
  registers_size := rfl
  keeps _ _ h := h
  below _ _ := rfl
  scope := hscope.mono hsize

theorem of_register {registers : Array (Option Nat)} {name : String} {addr : Nat}
    (hname : name ∈ vars) (hseen : name ∉ seen) (hvalid : heap.Valid m.symbols)
    (hlt : addr < heap.size)
    (hset : RegisterSet m.state.registers (slotOf vars m.state.registers.size name) addr registers)
    : Advances vars (name :: seen) (pc + 1) m
        { m with state := { m.state with heap := heap, registers := registers }.advance } where
  symbols_le := Interner.le_refl _
  features_eq := rfl
  state_eq := by simp [State.advance, hat.pc_eq]
  valid := hvalid
  registers_size := hset.size_eq
  keeps := by
    intro i addr' hreg
    have hunset := hscope.unset name hname hseen
    show registers[i]? = _
    rw [hset.getElem?_eq, if_neg]
    . exact hreg
    . intro heq
      rw [heq, hunset] at hreg
      simp at hreg
  below := by
    intro i hi
    have := le_slotOf hscope.length_le hname
    show registers[i]? = _
    rw [hset.getElem?_eq, if_neg (by omega)]
  scope := by
    show Scope vars (name :: seen) registers registers.size heap.size
    rw [hset.size_eq]
    exact (hscope.mono hsize).setRegister hname hlt hset

end Step

theorem agrees {v : Nat → D} {assign : String → D} (h : Advances vars seen' pc' m m')
    (hagrees : Agrees vars m' v assign) : Agrees vars m v assign := by
  intro name hname addr hreg
  apply hagrees name hname addr
  rw [h.registers_size]
  exact h.keeps _ _ hreg

end Advances

theorem mem_seen_of_seen {seen : List String} {name name' : String} (args : List Term)
    (hseen : name ∈ seen)
    : name' ∈ args.filterMap Term.var? ++ seen ↔
      name' ∈ (Term.var name :: args).filterMap Term.var? ++ seen := by
  simp only [List.filterMap_cons, Term.var?, List.cons_append, List.mem_cons]
  constructor
  . exact Or.inr
  . intro h
    rcases h with heq | h
    . rw [heq]
      exact List.mem_append_right _ hseen
    . exact h

theorem mem_seen_cons {seen : List String} {name name' : String} (args : List Term)
    : name' ∈ args.filterMap Term.var? ++ name :: seen ↔
      name' ∈ (Term.var name :: args).filterMap Term.var? ++ seen := by
  simp [Term.var?, or_left_comm]

namespace Agrees

variable {vars : List String} {m m₁ : Machine} {v : Nat → D} {assign : String → D}

theorem of_read {val : Valuation D}
    : Agrees vars m val.cell (val.assign m.state.registers vars m.state.registers.size) := by
  intro name _ addr hreg
  exact Valuation.read_set hreg

theorem setRegister {name : String} {addr : Nat} (h : Agrees vars m v assign) (hname : name ∈ vars)
    (hlen : vars.length ≤ m.state.registers.size)
    (hset : RegisterSet m.state.registers (slotOf vars m.state.registers.size name) addr
      m₁.state.registers)
    (heq : assign name = v addr) : Agrees vars m₁ v assign := by
  intro name' hname' addr' hreg
  rw [hset.size_eq, hset.getElem?_eq] at hreg
  split at hreg
  . next hslot =>
    cases hreg
    rw [slotOf_inj hlen hname' hname hslot, heq]
  . exact h name' hname' addr' hreg

end Agrees

namespace Machine

variable {m : Machine} {vars seen : List String} {pc : Nat}

theorem relative_eq {heap : Heap} {count : Nat} (hpos : 0 < count) (hle : count ≤ heap.size)
    : heap.relative (-(count : Int)) = .ok (heap.size - count) := by
  have htop : fromTop? heap.size (-(count : Int)) = some (heap.size - count) := by
    unfold fromTop?
    rw [if_pos (by omega)]
    congr 1
    omega
  unfold Heap.relative
  rw [htop]

theorem unifyConst_cases (name : String) {offset : Int} {addr : Nat}
    (hvalid : m.state.heap.Valid m.symbols) (hfailed : m.state.failed = false)
    (haddr : m.state.heap.relative offset = .ok addr) (hlt : addr < m.state.heap.size)
    : (∃ entries, m.unifyConst name offset = .error (.poolExhausted entries)) ∨
      (m.unifyConst name offset = .ok { m with state := { m.state with failed := true } } ∧
        ∀ (D : Type) [Domain D] (v : Nat → D), m.state.heap.Models m.symbols v →
          v addr ≠ Domain.const name) ∨
      ∃ symbols heap, m.unifyConst name offset =
          .ok { m with symbols := symbols, state := { m.state with heap := heap } } ∧
        m.symbols ≤ symbols ∧
        m.state.heap.Adds symbols (fun _ _ v => v addr = Domain.const name) heap := by
  rcases hvalid.exists_root hlt with ⟨root, _, hleads⟩
  rcases unifyConst_assigned hfailed hvalid.grounded haddr hleads name with
    ⟨m', hunify, hassigned⟩ | ⟨_, _, _, hfull⟩
  . right
    rcases hassigned.meets hvalid.closed hleads with
      ⟨rfl, hne⟩ | ⟨symbols, heap, rfl, hle, hmeets⟩
    . exact .inl ⟨hunify, hne⟩
    . exact .inr ⟨symbols, heap, hunify, hle, hmeets.adds (hvalid.mono hle)⟩
  . exact .inl ⟨_, hfull⟩

end Machine

end HornMachine
