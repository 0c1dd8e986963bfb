import HornMachine.Proofs.Program.Weight
import HornMachine.Proofs.Run.Change
import HornMachine.Proofs.Run.Modes

/-!
This module contains the weight of the calls that are left to make in a state. No instruction changes it:
a call only moves from the code to the state that waits for it, and a return goes on with code that was
counted before.
-/

namespace HornMachine

namespace Program

def weight (program : Program) (w : String → Nat) (pc : Nat) : Nat :=
  Code.weight w (program.code.toList.drop pc)

def CalmAt (program : Program) (pc : Nat) : Prop :=
  Code.Calm (program.code.toList.drop pc)

def OpensAt (program : Program) (pc : Nat) : Prop :=
  Code.Opens (program.code.toList.drop pc)

theorem weight_succ {program : Program} {pc : Nat} {instr : Instruction} (w : String → Nat)
    (hinstr : program.code[pc]? = some instr) (hcall : ∀ label, instr ≠ .callp label)
    (hreturn : instr ≠ .returnp) : program.weight w (pc + 1) = program.weight w pc := by
  rw [weight, weight, drop_code hinstr]
  cases instr with
  | callp label => exact absurd rfl (hcall label)
  | returnp => contradiction
  | _ => rfl

section Step

variable {program : Program} {pc : Nat} {instr : Instruction}

theorem CalmAt.step (h : program.CalmAt pc) (hinstr : program.code[pc]? = some instr)
    : instr ≠ .freport ∧ (instr = .returnp ∨ program.CalmAt (pc + 1)) := by
  rw [CalmAt, drop_code hinstr] at h
  cases instr with
  | returnp => exact ⟨by simp, .inl rfl⟩
  | freport => contradiction
  | _ => exact ⟨by simp, .inr h⟩

theorem OpensAt.step (h : program.OpensAt pc) (hinstr : program.code[pc]? = some instr)
    : (instr = .freport ∧ program.CalmAt (pc + 1)) ∨
      (instr.isSilent = true ∧ program.OpensAt (pc + 1)) := by
  rw [OpensAt, drop_code hinstr] at h
  cases instr with
  | callp _ => contradiction
  | returnp => contradiction
  | freport => exact .inl ⟨rfl, h⟩
  | _ => exact .inr ⟨rfl, h⟩

end Step

section Has

variable {program : Program} {addr : Nat}

theorem Has.weight_query {goals : List Literal} (h : program.Has addr (queryCode goals))
    (w : String → Nat) : program.weight w addr = weightOf w goals := by
  rcases h with ⟨rest, hrest⟩
  rw [weight, ← hrest, Code.weight_queryCode]

theorem Has.calm_query {goals : List Literal} (h : program.Has addr (queryCode goals))
    : program.CalmAt addr := by
  rcases h with ⟨rest, hrest⟩
  rw [CalmAt, ← hrest]
  exact Code.calm_queryCode rest goals

theorem Has.weight_clause {clause : Clause} (h : program.Has addr clause.code) (w : String → Nat)
    : program.weight w addr = weightOf w clause.body := by
  rcases h with ⟨rest, hrest⟩
  rw [weight, ← hrest, Code.weight_clause]

theorem Has.opens_clause {clause : Clause} (h : program.Has addr clause.code)
    : program.OpensAt addr := by
  rcases h with ⟨rest, hrest⟩
  rw [OpensAt, ← hrest]
  exact Code.opens_clause rest clause

end Has

end Program

namespace State

/--
The weight of the calls that are left to make, including the one that the state waits for.
-/
def weight (program : Program) (w : String → Nat) (s : State) : Nat :=
  (s.calls.map fun frame => program.weight w frame.pc).sum +
    match s.pc with
    | some pc => program.weight w pc
    | none => (s.jumpTo.map w).getD 0

structure Calm (program : Program) (s : State) : Prop where
  frames : ∀ frame ∈ s.calls, program.CalmAt frame.pc
  current : ∀ pc ∈ s.pc, program.CalmAt pc
  called : s.pc = none → s.jumpTo.isSome = true

structure Opening (program : Program) (s : State) : Prop where
  frames : ∀ frame ∈ s.calls, program.CalmAt frame.pc
  current : ∃ pc, s.pc = some pc ∧ program.OpensAt pc

section Moves

variable {program : Program} {symbols : SymbolTable} {instr : Instruction} {s s' : State} {pc : Nat}
  {w : String → Nat}

theorem weight_at (hpc : s.pc = some pc)
    : s.weight program w =
      (s.calls.map fun frame => program.weight w frame.pc).sum + program.weight w pc := by
  rw [weight, hpc]

theorem weight_advance (hpc : s.pc = some pc)
    : s.advance.weight program w =
      (s.calls.map fun frame => program.weight w frame.pc).sum + program.weight w (pc + 1) := by
  rw [State.advance, weight, hpc]
  rfl

theorem weight_enter (hpc : s.pc = some pc) (label : String)
    : (s.enter label).weight program w =
      (s.calls.map fun frame => program.weight w frame.pc).sum + (w label + program.weight w (pc + 1)) := by
  simp only [weight, enter, pushCall, advance, hpc, Option.map_some, Option.getD_some, List.map_cons,
    List.sum_cons]
  omega

theorem weight_leave (hpc : s.pc = some pc) (hdone : program.weight w pc = 0)
    : s.leave.weight program w = s.weight program w := by
  rw [weight_at hpc, hdone, Nat.add_zero]
  cases hcalls : s.calls with
  | nil =>
    rw [leave_nil hcalls, weight, hcalls, hpc]
    show 0 + program.weight w pc = 0
    rw [hdone]
  | cons frame calls =>
    rw [leave_cons hcalls, weight, List.map_cons, List.sum_cons, Nat.add_comm]

theorem Moves.weight_eq (h : s.Moves symbols instr s') (hpc : s.pc = some pc)
    (hinstr : program.code[pc]? = some instr) : s'.weight program w = s.weight program w := by
  cases h with
  | enter label =>
    have hcall : program.weight w pc = w label + program.weight w (pc + 1) := by
      rw [Program.weight, Program.drop_code hinstr]
      rfl
    rw [weight_enter hpc, weight_at hpc, hcall]
  | leave =>
    apply weight_leave hpc
    rw [Program.weight, Program.drop_code hinstr]
    rfl
  | grow count =>
    have hnext := Program.weight_succ w hinstr (by simp) (by simp)
    have hgrown : (s.grow count).pc = some pc := (congrArg Prod.snd (s.position_grow count)).trans hpc
    rw [weight_advance hgrown, weight_at hpc, hnext, s.grow_eq]
  | @advance instr s' hplain hchanges =>
    have hnext : program.weight w (pc + 1) = program.weight w pc := by
      apply Program.weight_succ w hinstr
      . rintro label rfl
        contradiction
      . rintro rfl
        contradiction
    rw [weight_advance (hchanges.pc_eq.trans hpc), weight_at hpc, hnext, hchanges.calls_eq]

section Advance

variable (hframes : ∀ frame ∈ s.calls, program.CalmAt frame.pc) (hpc : s.pc = some pc)
include hframes hpc

theorem calm_advance (hnext : program.CalmAt (pc + 1)) : s.advance.Calm program where
  frames := hframes
  current := by
    rw [advance, hpc]
    rintro _ ⟨⟩
    exact hnext
  called := by simp [advance, hpc]

theorem opening_advance (hnext : program.OpensAt (pc + 1)) : s.advance.Opening program where
  frames := hframes
  current := ⟨pc + 1, by simp [advance, hpc], hnext⟩

end Advance

theorem Calm.enter (h : s.Calm program) (hpc : s.pc = some pc) (hnext : program.CalmAt (pc + 1))
    (label : String) : (s.enter label).Calm program where
  frames := by
    intro frame hframe
    rcases List.mem_cons.mp hframe with rfl | hframe
    . simpa [advance, hpc] using hnext
    . exact h.frames frame hframe
  current := by simp [State.enter]
  called := by simp [State.enter]

theorem Calm.leave (h : s.Calm program) : s.leave.Calm program := by
  cases hcalls : s.calls with
  | nil =>
    rw [leave_nil hcalls]
    exact ⟨h.frames, h.current, h.called⟩
  | cons frame calls =>
    have hframes := h.frames
    rw [hcalls, List.forall_mem_cons] at hframes
    rw [leave_cons hcalls]
    refine ⟨hframes.2, ?_, by simp⟩
    rintro _ ⟨⟩
    exact hframes.1

theorem Calm.moves (h : s.Calm program) (hpc : s.pc = some pc)
    (hinstr : program.code[pc]? = some instr) (hmoves : s.Moves symbols instr s')
    : s'.Calm program := by
  rcases (h.current pc hpc).step hinstr with ⟨_, hnext⟩
  cases hmoves with
  | enter label => exact h.enter hpc (hnext.resolve_left (by simp)) label
  | leave => exact h.leave
  | grow count =>
    rw [s.grow_eq]
    exact calm_advance h.frames hpc (hnext.resolve_left (by simp))
  | advance hplain hchanges =>
    have hreturn : instr ≠ .returnp := by
      rintro rfl
      contradiction
    apply calm_advance _ (hchanges.pc_eq.trans hpc) (hnext.resolve_left hreturn)
    rw [hchanges.calls_eq]
    exact h.frames

theorem Opening.moves (h : s.Opening program) (hpc : s.pc = some pc)
    (hinstr : program.code[pc]? = some instr) (hmoves : s.Moves symbols instr s')
    : (instr = .freport ∧ s'.Calm program) ∨ (instr ≠ .freport ∧ s'.Opening program) := by
  rcases h.current with ⟨pc', hpc', hopens⟩
  rw [hpc] at hpc'
  cases hpc'
  rcases hopens.step hinstr with ⟨hreport, hnext⟩ | ⟨hsilent, hnext⟩
  . left
    subst hreport
    cases hmoves with
    | advance _ hchanges =>
      refine ⟨rfl, calm_advance ?_ (hchanges.pc_eq.trans hpc) hnext⟩
      rw [hchanges.calls_eq]
      exact h.frames
  . right
    constructor
    . rintro rfl
      contradiction
    . cases hmoves with
      | enter => contradiction
      | leave => contradiction
      | grow count =>
        rw [s.grow_eq]
        exact opening_advance h.frames hpc hnext
      | advance _ hchanges =>
        apply opening_advance _ (hchanges.pc_eq.trans hpc) hnext
        rw [hchanges.calls_eq]
        exact h.frames

end Moves

end State

namespace Program

variable {program : Program} {gather : Nat → Exec (List Goal)} {computeFeatures : Bool}
  {m n : Machine} {report : Features}

theorem Runs.report_false (h : program.Runs gather false m report n) : report = ∅ := by
  induction h with
  | pause => rfl
  | step _ _ _ _ _ ih => exact ih
  | @report _ _ _ instr _ _ _ hexec hreport =>
    by_cases hinstr : instr = .freport
    . subst hinstr
      cases hexec
      rfl
    . exact execute_report hinstr hexec

theorem Runs.weight_eq (h : program.Runs gather computeFeatures m report n) (w : String → Nat)
    : n.state.weight program w = m.state.weight program w := by
  induction h with
  | pause => rfl
  | step hat hinstr hexec _ _ ih =>
    exact ih.trans ((moves_of_execute hexec).weight_eq hat.pc_eq hinstr)
  | report hat hinstr hexec _ =>
    exact (moves_of_execute hexec).weight_eq hat.pc_eq hinstr

theorem Runs.calm (h : program.Runs gather computeFeatures m report n) (hm : m.state.Calm program)
    : report = ∅ ∧ n.state.Calm program := by
  induction h with
  | pause => exact ⟨rfl, hm⟩
  | step hat hinstr hexec _ _ ih =>
    exact ih (hm.moves hat.pc_eq hinstr (moves_of_execute hexec))
  | report hat hinstr hexec hreport =>
    have hsilent := ((hm.current _ hat.pc_eq).step hinstr).1
    rw [execute_report hsilent hexec] at hreport
    contradiction

theorem Runs.opening (h : program.Runs gather computeFeatures m report n)
    (hm : m.state.Opening program)
    : n.state.Calm program ∨ (report = ∅ ∧ n.state.Opening program) := by
  induction h with
  | pause => exact .inr ⟨rfl, hm⟩
  | step hat hinstr hexec _ h ih =>
    rcases hm.moves hat.pc_eq hinstr (moves_of_execute hexec) with
      ⟨_, hcalm⟩ | ⟨_, hopening⟩
    . exact .inl (h.calm hcalm).2
    . exact ih hopening
  | report hat hinstr hexec hreport =>
    rcases hm.moves hat.pc_eq hinstr (moves_of_execute hexec) with
      ⟨_, hcalm⟩ | ⟨hsilent, _⟩
    . exact .inl hcalm
    . rw [execute_report hsilent hexec] at hreport
      contradiction

end Program

end HornMachine
