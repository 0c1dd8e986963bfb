import HornMachine.Proofs.Run.Seated

/-!
This module contains what a run makes of the cells that were on the heap where it began. The cells below
the lowest frame that it returns to stay, and so does whatever they are bound to.
-/

namespace HornMachine

namespace State

/--
The size of the heap at the oldest one of the calls that were `popped`, or now if there are none.
-/
def floor (s : State) (popped : List Frame) : Nat :=
  match popped.getLast? with
  | none => s.heap.size
  | some frame => frame.heapSize

theorem floor_append (s : State) (popped : List Frame) (frame : Frame)
    : s.floor (popped ++ [frame]) = frame.heapSize := by
  simp [floor]

/--
The run from `s` has returned from the calls that were `popped`, and the other ones are still waiting.
-/
structure Returned (s : State) (popped rest : List Frame) (x : State) : Prop where
  calls_eq : s.calls = popped ++ rest
  keeps : s.heap.Keeps (s.floor popped) x.heap
  floor_le : s.floor popped ≤ x.heap.size

/--
Where a run from `s` can be: on its way, or at the call behind which it will go on.
-/
inductive Continues (s x : State) : Prop where
  | running {popped : List Frame} {pc : Nat} (hpc : x.pc = some pc)
      (h : s.Returned popped x.calls x)
  | calling {popped : List Frame} {frame : Frame} {rest : List Frame} (hpc : x.pc = none)
      (hcalls : x.calls = frame :: rest) (h : s.Returned popped rest x)

variable {symbols symbols' : SymbolTable} {instr : Instruction} {s x x' : State}
  {popped rest : List Frame}

theorem WellFormed.floor_le (h : s.WellFormed True symbols) (hcalls : s.calls = popped ++ rest)
    : s.floor popped ≤ s.heap.size := by
  unfold floor
  split
  . exact Nat.le_refl _
  . next frame hlast =>
    have hmem : frame ∈ s.calls := by
      rw [hcalls]
      exact List.mem_append_left rest (List.mem_of_getLast? hlast)
    exact (h.fits frame hmem).1

theorem WellFormed.heapSize_le_floor {frame : Frame} (h : s.WellFormed True symbols)
    (hcalls : s.calls = popped ++ frame :: rest) : frame.heapSize ≤ s.floor popped := by
  unfold floor
  split
  . exact (h.fits frame (by simp [hcalls])).1
  . next later hlast =>
    have hnested := h.nested
    rw [hcalls, List.pairwise_append] at hnested
    exact (hnested.2.2 later (List.mem_of_getLast? hlast) frame List.mem_cons_self).1

namespace Returned

theorem change (h : s.Returned popped rest x) (hchange : x.Change symbols instr x')
    : s.Returned popped rest x' := by
  rcases h with ⟨hcalls, hkeeps, hfloor⟩
  cases hchange with
  | @push cell href hconst =>
    refine ⟨hcalls, hkeeps.trans (.push _ _ cell), ?_⟩
    simp only [State.push, Array.size_push]
    omega
  | narrow failed hnarrows =>
    refine ⟨hcalls, hkeeps.trans (hnarrows.keeps _), ?_⟩
    rw [hnarrows.size_eq]
    exact hfloor
  | assign => exact ⟨hcalls, hkeeps, hfloor⟩

theorem changes (h : s.Returned popped rest x) (hchanges : x.Changes symbols instr x')
    : s.Returned popped rest x' := by
  induction hchanges with
  | refl => exact h
  | tail _ hchange ih => exact ih.change hchange

theorem leave {frame : Frame} (h : s.Returned popped (frame :: rest) x)
    (hs : s.WellFormed True symbols) (hx : x.WellFormed True symbols) (hcalls : x.calls = frame :: rest)
    : s.Returned (popped ++ [frame]) rest x.leave := by
  have hheap : x.leave.heap = x.heap.take frame.heapSize := by rw [leave_cons hcalls]
  constructor
  . rw [h.calls_eq, List.append_assoc, List.singleton_append]
  . rw [floor_append, hheap]
    exact (h.keeps.mono (hs.heapSize_le_floor h.calls_eq)).trans (.take hx.valid _)
  . rw [floor_append, (hx.leave_sizes hcalls).1]

end Returned

theorem Returned.continues_leave {frame : Frame} (h : s.Returned popped (frame :: rest) x)
    (hs : s.WellFormed True symbols) (hx : x.WellFormed True symbols) (hcalls : x.calls = frame :: rest)
    : s.Continues x.leave := by
  have hreturned := h.leave hs hx hcalls
  have heq : x.leave.pc = some frame.pc ∧ x.leave.calls = rest := by simp [leave_cons hcalls]
  rw [← heq.2] at hreturned
  exact .running heq.1 hreturned

namespace Continues

theorem begin (s : State) (addr : Nat) (failed completed : Bool)
    : s.Continues { s with pc := some addr, failed, completed } := by
  have hfloor : s.floor [] ≤ s.heap.size := Nat.le_refl _
  exact .running rfl ⟨rfl, .refl _ _, hfloor⟩

theorem goto (h : s.Continues x) (failed completed : Bool)
    : s.Continues { x with failed, completed } := by
  cases h with
  | running hpc h => exact .running hpc ⟨h.calls_eq, h.keeps, h.floor_le⟩
  | calling hpc hcalls h => exact .calling hpc hcalls ⟨h.calls_eq, h.keeps, h.floor_le⟩

theorem advance (h : s.Continues x) : s.Continues x.advance := by
  cases h with
  | @running popped pc hpc h =>
    have hpc' : x.advance.pc = some (pc + 1) := by simp [State.advance, hpc]
    exact .running hpc' ⟨h.calls_eq, h.keeps, h.floor_le⟩
  | calling hpc hcalls h =>
    have hpc' : x.advance.pc = none := by simp [State.advance, hpc]
    exact .calling hpc' hcalls ⟨h.calls_eq, h.keeps, h.floor_le⟩

theorem changes (h : s.Continues x) (hchanges : x.Changes symbols instr x') : s.Continues x' := by
  cases h with
  | running hpc h =>
    have h' := h.changes hchanges
    rw [← hchanges.calls_eq] at h'
    exact .running (hchanges.pc_eq.trans hpc) h'
  | calling hpc hcalls h =>
    exact .calling (hchanges.pc_eq.trans hpc) (hchanges.calls_eq.trans hcalls) (h.changes hchanges)

theorem moves {pc : Nat} (h : s.Continues x) (hat : x.RunsAt pc) (hs : s.WellFormed True symbols)
    (hx : x.WellFormed True symbols) (hmoves : x.Moves symbols instr x') : s.Continues x' := by
  have hreturned : ∃ popped, s.Returned popped x.calls x := by
    cases h with
    | running _ h => exact ⟨_, h⟩
    | calling hpc =>
      rw [hat.pc_eq] at hpc
      contradiction
  rcases hreturned with ⟨popped, hreturned⟩
  cases hmoves with
  | enter label =>
    exact .calling rfl rfl ⟨hreturned.calls_eq, hreturned.keeps, hreturned.floor_le⟩
  | leave =>
    cases hcalls : x.calls with
    | nil =>
      rw [leave_nil hcalls]
      exact h.goto x.failed true
    | cons frame rest =>
      rw [hcalls] at hreturned
      exact hreturned.continues_leave hs hx hcalls
  | grow count =>
    have hgrown : s.Continues (x.grow count) := by
      rw [x.grow_eq]
      exact .running hat.pc_eq ⟨hreturned.calls_eq, hreturned.keeps, hreturned.floor_le⟩
    exact hgrown.advance
  | advance _ hchanges => exact (h.changes hchanges).advance

theorem answered {heap : Heap} {frame : Frame} (hs : s.WellFormed True symbols)
    (hcalls : s.calls = frame :: rest) (hnarrows : s.heap.Narrows symbols heap)
    : s.Continues { s with heap := heap }.leave := by
  have hreturned : s.Returned [] (frame :: rest) { s with heap := heap } :=
    ⟨hcalls, hnarrows.keeps _, Nat.le_of_eq hnarrows.size_eq.symm⟩
  exact hreturned.continues_leave hs (hs.narrow s.failed hnarrows) hcalls

end Continues

structure Descends (program : Program) (s : State) (symbols : SymbolTable) (x : State) : Prop where
  origin : s.WellFormed True symbols
  formed : x.WellFormed True symbols
  seated : x.Seated program
  continues : s.Continues x

namespace Descends

variable {program : Program} {pc : Nat}

theorem mono (h : s.Descends program symbols x) (hle : symbols ≤ symbols')
    : s.Descends program symbols' x :=
  ⟨h.origin.mono hle, h.formed.mono hle, h.seated, h.continues⟩

theorem changes (h : s.Descends program symbols x) (hat : x.RunsAt pc)
    (hinstr : program.code[pc]? = some instr) (hchanges : x.Changes symbols instr x')
    : s.Descends program symbols x' where
  origin := h.origin
  formed := h.formed.changes hchanges
  seated := h.seated.changes (h.seated.permits hat hinstr) hchanges
  continues := h.continues.changes hchanges

theorem moves (h : s.Descends program symbols x) (hat : x.RunsAt pc)
    (hinstr : program.code[pc]? = some instr) (hmoves : x.Moves symbols instr x')
    : s.Descends program symbols x' where
  origin := h.origin
  formed := h.formed.moves (fun _ => h.seated.keepsRegisters hat hinstr) hmoves
  seated := h.seated.moves hat hinstr h.formed hmoves
  continues := h.continues.moves hat h.origin h.formed hmoves

theorem start (symbols : SymbolTable) {addr : Nat} (haddr : program.Confined 0 addr)
    : Descends program {} symbols { ({} : State) with pc := some addr } where
  origin := .empty symbols
  formed := (WellFormed.empty symbols).goto _ none _ _
  seated := .start haddr
  continues := .begin {} addr false false

theorem begin {addr : Nat} (hs : s.WellFormed True symbols) (hseated : s.Seated program)
    (haddr : program.Confined 0 addr)
    : s.Descends program symbols { s with pc := some addr, failed := false, completed := false } where
  origin := hs
  formed := hs.goto _ s.jumpTo _ _
  seated := hseated.begin hs haddr false false
  continues := .begin s addr false false

theorem answered {heap : Heap} {frame : Frame} {rest : List Frame} (hs : s.WellFormed True symbols)
    (hseated : s.Seated program) (hcalls : s.calls = frame :: rest)
    (hnarrows : s.heap.Narrows symbols heap)
    : s.Descends program symbols { s with heap := heap }.leave where
  origin := hs
  formed := (hs.narrow s.failed hnarrows).leave
  seated := (hseated.narrow s.failed hnarrows.size_eq).leave (hs.narrow s.failed hnarrows)
  continues := .answered hs hcalls hnarrows

section Run

variable {gather : Nat → Exec (List Goal)} {computeFeatures : Bool} {m m' : Machine} {report : Features}
  (hfindall : ∀ pc addr : Nat, program.code[pc]? ≠ some (.ffindall addr))
include hfindall

theorem runOn (h : s.Descends program m.symbols m.state)
    (hrun : program.runOn gather computeFeatures m = .ok report m')
    : s.Descends program m'.symbols m'.state := by
  let P : Machine → Prop := fun m => s.Descends program m.symbols m.state
  have hkept : P (Exec.left (program.runOn gather computeFeatures m)) := by
    apply Program.runOn_left _ h
    intro m pc instr hat hinstr h
    have hsteps : Steps instr m (execute gather computeFeatures instr m) :=
      Program.steps_of_getElem? hfindall hinstr
    rcases hsteps.left with ⟨hle, hmoves | hchanges⟩
    . exact (h.mono hle).moves hat hinstr hmoves
    . exact (h.mono hle).changes hat hinstr hchanges
  rw [hrun] at hkept
  exact hkept

theorem resume (h : s.Descends program m.symbols m.state)
    (hrun : program.run gather none computeFeatures m = .ok report m')
    : s.Descends program m'.symbols m'.state := by
  let left : Machine := { m with state := { m.state with failed := false, completed := false } }
  have hleft : s.Descends program left.symbols left.state :=
    ⟨h.origin, h.formed.goto m.state.pc m.state.jumpTo _ _, h.seated.goto _ _, h.continues.goto _ _⟩
  exact runOn (m := left) hfindall hleft hrun

theorem query {addr : Nat} (hm : m.state = {}) (haddr : program.Confined 0 addr)
    (hrun : program.run gather (some addr) computeFeatures m = .ok report m')
    : Descends program {} m'.symbols m'.state := by
  rw [Program.run_apply, hm] at hrun
  exact runOn hfindall (.start m.symbols haddr) hrun

theorem clause {addr : Nat} (hs : s.WellFormed True m.symbols) (hseated : s.Seated program)
    (haddr : program.Confined 0 addr)
    (hrun : program.run gather (some addr) computeFeatures { m with state := s } = .ok report m')
    : s.Descends program m'.symbols m'.state := by
  let started : Machine :=
    { m with state := { s with pc := some addr, failed := false, completed := false } }
  exact runOn (m := started) hfindall (.begin hs hseated haddr) hrun

end Run

end Descends

end State

end HornMachine
