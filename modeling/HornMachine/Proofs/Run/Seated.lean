import HornMachine.Proofs.Run.Confined
import HornMachine.Proofs.Run.WellFormed

/-!
This module contains the states whose registers keep their cells. A register that belongs to a caller
holds a cell that was on the heap at the call, so that no return takes it away. The states of compiled code
are such states, since a block only writes to registers of its own.
-/

namespace HornMachine

theorem fromTop?_eq {size i : Nat} {offset : Int} (h : fromTop? size offset = some i)
    : (i : Int) = size + offset := by
  unfold fromTop? at h
  split at h
  . next hoffset =>
    cases h
    exact Int.toNat_of_nonneg hoffset.2
  . contradiction

/--
The lowest `count` registers hold addresses below `bound`, as far as they are set.
-/
def Bounded (registers : Array (Option Nat)) (count bound : Nat) : Prop :=
  ∀ i addr, i < count → registers[i]? = some (some addr) → addr < bound

namespace Bounded

variable {registers : Array (Option Nat)} {count count' bound bound' : Nat}

theorem mono (h : Bounded registers count bound) (hbound : bound ≤ bound')
    : Bounded registers count bound' := by
  intro i addr hi hreg
  exact Nat.lt_of_lt_of_le (h i addr hi hreg) hbound

theorem extend (h : Bounded registers registers.size bound) (count : Nat)
    : Bounded registers count bound := by
  intro i addr _ hreg
  exact h i addr (Array.getElem?_eq_some_iff.mp hreg).1 hreg

theorem take (h : Bounded registers count bound) (size : Nat)
    : Bounded (registers.take size) count bound := by
  intro i addr hi hreg
  apply h i addr hi
  simp only [Array.take_eq_extract, Array.getElem?_extract, Nat.zero_add] at hreg
  split at hreg
  . exact hreg
  . contradiction

theorem grow (h : Bounded registers count bound) (more : Nat)
    : Bounded (registers ++ Array.replicate more none) count bound := by
  intro i addr hi hreg
  rw [Array.getElem?_append] at hreg
  split at hreg
  . exact h i addr hi hreg
  . rw [Array.getElem?_replicate] at hreg
    split at hreg
    . cases hreg
    . contradiction

theorem set {i addr : Nat} (h : Bounded registers count bound) (haddr : i < count → addr < bound)
    : Bounded (registers.setIfInBounds i (some addr)) count bound := by
  intro j addr' hj hreg
  rw [Array.getElem?_setIfInBounds] at hreg
  split at hreg
  . next heq =>
    split at hreg
    . cases hreg
      exact haddr (heq ▸ hj)
    . contradiction
  . exact h j addr' hj hreg

end Bounded

namespace Program

def Spares (program : Program) (calls : List Frame) (size pc : Nat) : Prop :=
  ∃ count, program.Confined count pc ∧ ∀ frame ∈ calls, frame.registerCount + count ≤ size

def Resumes (program : Program) : List Frame → Prop
  | [] => True
  | frame :: calls => program.Spares calls frame.registerCount frame.pc ∧ program.Resumes calls

end Program

namespace State

structure Seated (program : Program) (s : State) : Prop where
  live : Bounded s.registers s.registers.size s.heap.size
  kept : ∀ frame ∈ s.calls, Bounded s.registers frame.registerCount frame.heapSize
  resumes : program.Resumes s.calls
  current : ∀ pc ∈ s.pc, program.Spares s.calls s.registers.size pc

variable {program : Program} {symbols : SymbolTable} {instr : Instruction} {s s' : State}

theorem Change.registers_size (h : s.Change symbols instr s')
    : s'.registers.size = s.registers.size := by
  cases h with
  | push => rfl
  | narrow => rfl
  | assign => exact Array.size_setIfInBounds

theorem Changes.registers_size (h : s.Changes symbols instr s')
    : s'.registers.size = s.registers.size := by
  induction h with
  | refl => rfl
  | tail _ hchange ih => rw [hchange.registers_size, ih]

def Permits (s : State) (instr : Instruction) : Prop :=
  ∀ reg ∈ instr.target?, ∀ frame ∈ s.calls, (frame.registerCount : Int) ≤ s.registers.size + reg

theorem Changes.permits (h : s.Changes symbols instr s') (hpermits : s.Permits instr)
    : s'.Permits instr := by
  unfold Permits
  rw [h.calls_eq, h.registers_size]
  exact hpermits

namespace Seated

theorem start {addr : Nat} (hstart : program.Confined 0 addr)
    : Seated program { ({} : State) with pc := some addr } where
  live := by simp [Bounded]
  kept := by simp
  resumes := trivial
  current := by
    rintro _ ⟨⟩
    exact ⟨0, hstart, by simp⟩

theorem begin (h : s.Seated program) (hformed : s.WellFormed True symbols) {addr : Nat}
    (haddr : program.Confined 0 addr) (failed completed : Bool)
    : Seated program { s with pc := some addr, failed, completed } where
  live := h.live
  kept := h.kept
  resumes := h.resumes
  current := by
    rintro _ ⟨⟩
    exact ⟨0, haddr, fun frame hframe => (hformed.fits frame hframe).2 trivial⟩

theorem goto (h : s.Seated program) (failed completed : Bool)
    : Seated program { s with failed, completed } :=
  ⟨h.live, h.kept, h.resumes, h.current⟩

theorem narrow (h : s.Seated program) {heap : Heap} (failed : Bool)
    (hsize : heap.size = s.heap.size)
    : Seated program { s with heap := heap, failed := failed } where
  live := h.live.mono (Nat.le_of_eq hsize.symm)
  kept := h.kept
  resumes := h.resumes
  current := h.current

theorem change (h : s.Seated program) (hpermits : s.Permits instr)
    (hchange : s.Change symbols instr s') : s'.Seated program := by
  cases hchange with
  | push =>
    refine ⟨h.live.mono ?_, h.kept, h.resumes, h.current⟩
    simp [State.push]
  | narrow failed hnarrows => exact h.narrow failed hnarrows.size_eq
  | @assign reg i addr hreg hi haddr =>
    constructor
    . exact (h.live.extend _).set fun _ => haddr
    . intro frame hframe
      apply (h.kept frame hframe).set
      -- the register lies above all those of the call
      intro hlt
      have hbelow := hpermits reg hreg frame hframe
      have heq := fromTop?_eq hi
      omega
    . exact h.resumes
    . rw [Array.size_setIfInBounds]
      exact h.current

theorem changes (h : s.Seated program) (hpermits : s.Permits instr)
    (hchanges : s.Changes symbols instr s') : s'.Seated program := by
  induction hchanges with
  | refl => exact h
  | tail hchanges hchange ih => exact ih.change (Changes.permits hchanges hpermits) hchange

theorem leave (h : s.Seated program) (hformed : s.WellFormed True symbols) : s.leave.Seated program := by
  cases hcalls : s.calls with
  | nil =>
    rw [leave_nil hcalls]
    exact ⟨h.live, h.kept, h.resumes, h.current⟩
  | cons frame calls =>
    rcases hformed.leave_sizes hcalls with ⟨hheap, hcount⟩
    replace hcount := hcount trivial
    have heq : s.leave.registers = s.registers.take frame.registerCount ∧ s.leave.calls = calls ∧
        s.leave.pc = some frame.pc := by
      simp [leave_cons hcalls]
    rcases heq with ⟨hregisters, hcalls', hpc⟩
    have hframe := h.kept frame (by simp [hcalls])
    have hresumes := h.resumes
    rw [hcalls] at hresumes
    constructor
    . rw [hheap, hcount, hregisters]
      exact hframe.take _
    . intro frame' hframe'
      rw [hcalls'] at hframe'
      rw [hregisters]
      exact (h.kept frame' (by simp [hcalls, hframe'])).take _
    . rw [hcalls']
      exact hresumes.2
    . intro pc hpc'
      rw [hpc] at hpc'
      cases hpc'
      rw [hcalls', hcount]
      exact hresumes.1

section Step

variable {pc : Nat} (hat : s.RunsAt pc) (hinstr : program.code[pc]? = some instr)
include hat hinstr

theorem keepsRegisters (h : s.Seated program) : instr.keepsRegisters = true := by
  rcases h.current pc hat.pc_eq with ⟨count, hconfined, _⟩
  exact (hconfined.step hinstr).1.keeps

theorem permits (h : s.Seated program) : s.Permits instr := by
  rcases h.current pc hat.pc_eq with ⟨count, hconfined, hcount⟩
  intro reg hreg frame hframe
  have hreg' := (hconfined.step hinstr).1.target reg hreg
  have hle := hcount frame hframe
  omega

theorem moves (h : s.Seated program) (hformed : s.WellFormed True symbols)
    (hmoves : s.Moves symbols instr s') : s'.Seated program := by
  rcases h.current pc hat.pc_eq with ⟨count, hconfined, hcount⟩
  rcases hconfined.step hinstr with ⟨hwithin, hnext⟩
  cases hmoves with
  | enter label =>
    constructor
    . exact h.live
    . intro frame hframe
      rcases List.mem_cons.mp hframe with rfl | hframe
      . exact h.live
      . exact h.kept frame hframe
    . refine ⟨⟨count, ?_, hcount⟩, h.resumes⟩
      simp only [State.advance, hat.pc_eq]
      exact hnext.resolve_left (by simp)
    . simp [State.enter]
  | leave => exact h.leave hformed
  | grow more =>
    rcases Int.eq_ofNat_of_zero_le (of_decide_eq_true hwithin.keeps) with ⟨more, rfl⟩
    rw [grow_natCast]
    constructor
    . exact (h.live.extend _).grow more
    . intro frame hframe
      exact (h.kept frame hframe).grow more
    . exact h.resumes
    . intro pc' hpc'
      simp only [State.advance, hat.pc_eq, Option.map_some,
        Option.mem_some_iff] at hpc'
      subst hpc'
      refine ⟨count + more, hnext.resolve_left (by simp), ?_⟩
      intro frame hframe
      have hle := hcount frame hframe
      simp only [State.advance, Array.size_append, Array.size_replicate]
      omega
  | @advance _ s' hplain hchanges =>
    have hseated := h.changes (h.permits hat hinstr) hchanges
    refine ⟨hseated.live, hseated.kept, hseated.resumes, ?_⟩
    intro pc' hpc'
    simp only [State.advance, hchanges.pc_eq, hat.pc_eq, Option.map_some,
      Option.mem_some_iff] at hpc'
    subst hpc'
    rcases hnext with rfl | hnext
    . contradiction
    . rw [Instruction.room_of_isPlain hplain] at hnext
      refine ⟨count, hnext, ?_⟩
      simp only [State.advance, hchanges.calls_eq, hchanges.registers_size]
      exact hcount

end Step

end Seated

end State

end HornMachine
