import HornMachine.Proofs.Run.Change

/-!
This module contains the states that are well formed, which are all that any program can make: the
references on the heap lead downwards, its constants have names, and the frames fit into the stacks one
inside the other. As to the registers, the frames do so if no instruction takes registers away.
-/

namespace HornMachine

def Frame.Encloses (keeps : Prop) (later earlier : Frame) : Prop :=
  earlier.heapSize ≤ later.heapSize ∧ (keeps → earlier.registerCount ≤ later.registerCount)

namespace State

structure WellFormed keeps (symbols : SymbolTable) (s : State) : Prop where
  valid : s.heap.Valid symbols
  nested : s.calls.Pairwise (Frame.Encloses keeps)
  fits : ∀ frame ∈ s.calls,
    frame.heapSize ≤ s.heap.size ∧ (keeps → frame.registerCount ≤ s.registers.size)

variable {keeps : Prop} {symbols symbols' : SymbolTable} {instr : Instruction} {s s' : State}

theorem leave_prefix (s : State) : s.leave.heap.toList <+: s.heap.toList := by
  cases hcalls : s.calls with
  | nil =>
    rw [leave_nil hcalls]
  | cons frame calls =>
    rw [leave_cons hcalls]
    simp only [Array.take_eq_extract, Array.toList_extract]
    exact List.take_prefix _ _

namespace WellFormed

theorem mono (h : s.WellFormed keeps symbols) (hle : symbols ≤ symbols') : s.WellFormed keeps symbols' where
  valid := h.valid.mono hle
  nested := h.nested
  fits := h.fits

theorem empty (symbols : SymbolTable) : WellFormed keeps symbols {} where
  valid := { le_of_ref := by simp, named := by simp }
  nested := .nil
  fits := by simp

theorem goto (h : s.WellFormed keeps symbols) (pc : Option Nat) (jumpTo : Option String)
    (failed completed : Bool) : WellFormed keeps symbols { s with pc, jumpTo, failed, completed } :=
  ⟨h.valid, h.nested, h.fits⟩

theorem advance (h : s.WellFormed keeps symbols) : s.advance.WellFormed keeps symbols :=
  h.goto _ s.jumpTo s.failed s.completed

theorem clearCalls (h : s.WellFormed keeps symbols) : s.clearCalls.WellFormed keeps symbols where
  valid := h.valid
  nested := .nil
  fits := by simp [State.clearCalls]

theorem enter (h : s.WellFormed keeps symbols) (label : String) : (s.enter label).WellFormed keeps symbols where
  valid := h.valid
  nested := .cons h.fits h.nested
  fits := by
    intro frame hframe
    rcases List.mem_cons.mp hframe with rfl | hframe
    . exact ⟨Nat.le_refl _, fun _ => Nat.le_refl _⟩
    . exact h.fits frame hframe

section Leave

variable {frame : Frame} {calls : List Frame} (h : s.WellFormed keeps symbols)
  (hcalls : s.calls = frame :: calls)
include h hcalls

theorem leave_sizes
    : s.leave.heap.size = frame.heapSize ∧
        (keeps → s.leave.registers.size = frame.registerCount) := by
  rcases h.fits frame (by simp [hcalls]) with ⟨hheap, hregisters⟩
  refine ⟨by simp [leave_cons hcalls, hheap], fun hkeeps => ?_⟩
  simp [leave_cons hcalls, hregisters hkeeps]

end Leave

theorem leave (h : s.WellFormed keeps symbols) : s.leave.WellFormed keeps symbols := by
  cases hcalls : s.calls with
  | nil =>
    rw [leave_nil hcalls]
    exact ⟨h.valid, h.nested, h.fits⟩
  | cons frame calls =>
    have hsizes := h.leave_sizes hcalls
    have hcalls' : s.leave.calls = calls := by rw [leave_cons hcalls]
    have hheap : s.leave.heap = s.heap.take frame.heapSize := by rw [leave_cons hcalls]
    have hnested := h.nested
    rw [hcalls, List.pairwise_cons] at hnested
    refine ⟨?_, ?_, ?_⟩
    . rw [hheap]
      exact h.valid.take _
    . rw [hcalls']
      exact hnested.2
    . rw [hcalls', hsizes.1]
      intro frame' hframe'
      have hinside := hnested.1 frame' hframe'
      refine ⟨hinside.1, fun hkeeps => ?_⟩
      rw [hsizes.2 hkeeps]
      exact hinside.2 hkeeps

theorem grow (h : s.WellFormed keeps symbols) {heap : Heap} {registers : Array (Option Nat)}
    (failed : Bool) (hvalid : heap.Valid symbols) (hheap : s.heap.size ≤ heap.size)
    (hregisters : keeps → s.registers.size ≤ registers.size)
    : WellFormed keeps symbols { s with heap := heap, registers := registers, failed := failed } where
  valid := hvalid
  nested := h.nested
  fits := by
    intro frame hframe
    have hfits := h.fits frame hframe
    exact ⟨hfits.1.trans hheap, fun hkeeps => (hfits.2 hkeeps).trans (hregisters hkeeps)⟩

theorem narrow (h : s.WellFormed keeps symbols) {heap : Heap} (failed : Bool)
    (hnarrows : s.heap.Narrows symbols heap)
    : WellFormed keeps symbols { s with heap := heap, failed := failed } :=
  h.grow failed (hnarrows.valid h.valid) (Nat.le_of_eq hnarrows.size_eq.symm) fun _ => Nat.le_refl _

theorem change (h : s.WellFormed keeps symbols) (hchange : s.Change symbols instr s')
    : s'.WellFormed keeps symbols := by
  cases hchange with
  | push href hconst =>
    have hvalid := h.valid.push (fun target heq => (href target heq).elim Nat.le_of_eq
      fun hleads => Nat.le_of_lt hleads.lt_size) hconst
    exact h.grow s.failed hvalid (by simp) fun _ => Nat.le_refl _
  | narrow failed hnarrows => exact h.narrow failed hnarrows
  | assign => exact h.grow s.failed h.valid (Nat.le_refl _) (by simp)

theorem changes (h : s.WellFormed keeps symbols) (hchanges : s.Changes symbols instr s')
    : s'.WellFormed keeps symbols := by
  induction hchanges with
  | refl => exact h
  | tail _ hchange ih => exact ih.change hchange

theorem moves (h : s.WellFormed keeps symbols) (hkeeps : keeps → instr.keepsRegisters = true)
    (hmoves : s.Moves symbols instr s') : s'.WellFormed keeps symbols := by
  cases hmoves with
  | enter label => exact h.enter label
  | leave => exact h.leave
  | grow count =>
    have hgrown : (s.grow count).WellFormed keeps symbols := by
      have hle : keeps → s.registers.size ≤ (s.grow count).registers.size := by
        intro hkept
        rcases Int.eq_ofNat_of_zero_le (of_decide_eq_true (hkeeps hkept)) with ⟨more, rfl⟩
        simp
      rw [s.grow_eq] at hle ⊢
      exact h.grow s.failed h.valid (Nat.le_refl _) hle
    exact hgrown.advance
  | advance _ hchanges => exact (h.changes hchanges).advance

end WellFormed

end State

end HornMachine
