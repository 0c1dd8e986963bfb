import HornMachine.Proofs.Run.Change
import Mathlib.Data.List.Chain

/-!
This module contains the traces of runs: the instructions that are executed up to the pause or the fault at
which a run ends. Every one of them brings the end nearer, since a return uses up a frame and everything else
moves on in the program.
-/

namespace HornMachine

namespace State

variable {symbols : SymbolTable} {instr : Instruction} {s s' : State} {pc pc' size : Nat}

/--
What is left for a state to do in a program with `size` instructions: the calls to return from, and then the
rest of the program.
-/
def remaining (size : Nat) (s : State) : Nat × Nat :=
  (s.calls.length, size - s.pc.getD 0)

def Nearer (size : Nat) (s s' : State) : Prop :=
  Prod.Lex (· < ·) (· < ·) (s'.remaining size) (s.remaining size)

theorem nearer_leave (hat : s.leave.RunsAt pc) : s.Nearer size s.leave := by
  cases hcalls : s.calls with
  | nil =>
    have hcompleted := hat.completed_eq
    rw [leave_nil hcalls] at hcompleted
    contradiction
  | cons frame calls =>
    apply Prod.Lex.left
    simp [leave_cons hcalls, hcalls]

theorem nearer_advance (hat : s.RunsAt pc) (hpc : pc < size) (hcalls : s'.calls = s.calls)
    (hpc' : s'.pc = s.pc) : s.Nearer size s'.advance := by
  unfold Nearer remaining
  rw [show s'.advance.calls = s.calls from hcalls]
  apply Prod.Lex.right
  simp only [advance, hpc', hat.pc_eq, Option.map_some, Option.getD_some]
  omega

theorem Moves.nearer (h : s.Moves symbols instr s') (hat : s.RunsAt pc) (hpc : pc < size)
    (hat' : s'.RunsAt pc') : s.Nearer size s' := by
  cases h with
  | enter label =>
    have := hat'.pc_eq
    contradiction
  | leave => exact nearer_leave hat'
  | grow count =>
    rw [s.grow_eq]
    exact nearer_advance hat hpc rfl rfl
  | advance _ hchanges => exact nearer_advance hat hpc hchanges.calls_eq hchanges.pc_eq

structure Exclusive (s : State) : Prop where
  failed : s.failed = true → s.completed = false ∧ s.pc.isSome
  completed : s.completed = true → s.pc.isSome

theorem Exclusive.of_flags (hfailed : s.failed = false) (hcompleted : s.completed = false)
    : s.Exclusive := by
  refine ⟨?_, ?_⟩
  . simp [hfailed]
  . simp [hcompleted]

theorem exclusive_leave (hat : s.RunsAt pc) : s.leave.Exclusive := by
  cases hcalls : s.calls with
  | nil =>
    rw [leave_nil hcalls]
    refine ⟨?_, ?_⟩
    . simp [hat.failed_eq]
    . simp [hat.pc_eq]
  | cons frame calls =>
    rw [leave_cons hcalls]
    exact .of_flags hat.failed_eq hat.completed_eq

theorem Changes.completed_eq (h : s.Changes symbols instr s') : s'.completed = s.completed := by
  induction h with
  | refl => rfl
  | tail _ hchange ih => cases hchange <;> exact ih

theorem Moves.exclusive (h : s.Moves symbols instr s') (hat : s.RunsAt pc) : s'.Exclusive := by
  cases h with
  | enter label => exact .of_flags hat.failed_eq hat.completed_eq
  | leave => exact exclusive_leave hat
  | grow count =>
    rw [s.grow_eq]
    exact .of_flags hat.failed_eq hat.completed_eq
  | @advance _ changed _ hchanges =>
    have hcompleted : changed.advance.completed = false :=
      hchanges.completed_eq.trans hat.completed_eq
    have hpc : changed.advance.pc.isSome := by
      simp [State.advance, hchanges.pc_eq, hat.pc_eq]
    exact ⟨fun _ => ⟨hcompleted, hpc⟩, fun _ => hpc⟩

end State

namespace Program

variable {program : Program} {gather : Nat → Exec (List Goal)} {computeFeatures : Bool}
  {m n : Machine} {report : Features} {trace : List (State × Instruction)}
  {result : EStateM.Result Fault Machine Features}

/--
The instructions that are executed, each with the state that it is executed in, and what comes out.
-/
inductive Executes (program : Program) (gather : Nat → Exec (List Goal)) (computeFeatures : Bool)
    : Machine → List (State × Instruction) → EStateM.Result Fault Machine Features → Prop where
  | pause {m : Machine} (h : m.state.next? = none)
      : Executes program gather computeFeatures m [] (.ok ∅ m)
  | astray {m : Machine} {pc : Nat} {fault : Fault} (hat : m.state.RunsAt pc)
      (hinstr : program.instruction pc = .error fault)
      : Executes program gather computeFeatures m [] (.error fault m)
  | fault {m n : Machine} {pc : Nat} {instr : Instruction} {fault : Fault}
      (hat : m.state.RunsAt pc) (hinstr : program.code[pc]? = some instr)
      (hexec : execute gather computeFeatures instr m = .error fault n)
      : Executes program gather computeFeatures m [(m.state, instr)] (.error fault n)
  | report {m n : Machine} {pc : Nat} {instr : Instruction} {report : Features}
      (hat : m.state.RunsAt pc) (hinstr : program.code[pc]? = some instr)
      (hexec : execute gather computeFeatures instr m = .ok report n)
      (hreport : report.isEmpty = false)
      : Executes program gather computeFeatures m [(m.state, instr)] (.ok report n)
  | step {m m' : Machine} {pc : Nat} {instr : Instruction} {report : Features}
      {trace : List (State × Instruction)} {result : EStateM.Result Fault Machine Features}
      (hat : m.state.RunsAt pc) (hinstr : program.code[pc]? = some instr)
      (hexec : execute gather computeFeatures instr m = .ok report m')
      (hempty : report.isEmpty = true) (h : Executes program gather computeFeatures m' trace result)
      : Executes program gather computeFeatures m ((m.state, instr) :: trace) result

theorem exists_executes (program : Program) (gather : Nat → Exec (List Goal))
    (computeFeatures : Bool) (m : Machine)
    : ∃ trace, program.Executes gather computeFeatures m trace
        (program.runOn gather computeFeatures m) := by
  induction m using Program.runOn.induct program gather computeFeatures with
  | case1 m hnext =>
    rw [runOn_pause hnext]
    exact ⟨_, .pause hnext⟩
  | case2 m pc hnext fault hinstr =>
    rw [runOn_eq, hnext]
    simp only [hinstr]
    exact ⟨_, .astray (State.runsAt_of_next? hnext) hinstr⟩
  | case3 m pc hnext instr hinstr fault m' hexec =>
    have hat := State.runsAt_of_next? hnext
    rw [runOn_fault hat (instruction_eq_ok hinstr) hexec]
    exact ⟨_, .fault hat (instruction_eq_ok hinstr) hexec⟩
  | case4 m pc hnext instr hinstr report m' hexec hempty ih =>
    rcases ih with ⟨trace, htrace⟩
    rw [runOn_eq, hnext]
    simp only [hinstr, hexec, hempty, if_true]
    exact ⟨_, .step (State.runsAt_of_next? hnext) (instruction_eq_ok hinstr) hexec hempty htrace⟩
  | case5 m pc hnext instr hinstr report m' hexec hempty =>
    have hat := State.runsAt_of_next? hnext
    rw [Bool.not_eq_true] at hempty
    rw [runOn_report hat (instruction_eq_ok hinstr) hexec hempty]
    exact ⟨_, .report hat (instruction_eq_ok hinstr) hexec hempty⟩

namespace Executes

theorem getElem?_of_mem (h : program.Executes gather computeFeatures m trace result) {s : State}
    {instr : Instruction} (hmem : (s, instr) ∈ trace) : ∃ pc : Nat, program.code[pc]? = some instr := by
  induction h with
  | pause => contradiction
  | astray => contradiction
  | fault _ hinstr =>
    rw [List.mem_singleton] at hmem
    cases hmem
    exact ⟨_, hinstr⟩
  | report _ hinstr =>
    rw [List.mem_singleton] at hmem
    cases hmem
    exact ⟨_, hinstr⟩
  | step _ hinstr _ _ _ ih =>
    cases hmem with
    | head => exact ⟨_, hinstr⟩
    | tail _ hmem => exact ih hmem

theorem head_runsAt (h : program.Executes gather computeFeatures m trace result) {s : State}
    (hs : s ∈ (trace.map Prod.fst).head?) : s = m.state ∧ ∃ pc, m.state.RunsAt pc := by
  cases h with
  | pause => contradiction
  | astray => contradiction
  | fault hat => exact ⟨(Option.some.inj hs).symm, _, hat⟩
  | report hat => exact ⟨(Option.some.inj hs).symm, _, hat⟩
  | step hat => exact ⟨(Option.some.inj hs).symm, _, hat⟩

theorem isChain (h : program.Executes gather computeFeatures m trace result)
    : (trace.map Prod.fst).IsChain (State.Nearer program.size) := by
  induction h with
  | pause => exact .nil
  | astray => exact .nil
  | fault => exact .singleton _
  | report => exact .singleton _
  | step hat hinstr hexec _ h ih =>
    rw [List.map_cons, List.isChain_cons]
    refine ⟨?_, ih⟩
    intro s hs
    rcases h.head_runsAt hs with ⟨rfl, pc', hat'⟩
    exact (moves_of_execute hexec).nearer hat (Array.getElem?_eq_some_iff.mp hinstr).1 hat'

theorem pause_cases (h : program.Executes gather computeFeatures m trace (.ok report n))
    (hexclusive : m.state.Exclusive)
    : (report.isEmpty = true ∧ n.state.next? = none ∧ n.state.Exclusive) ∨
      (report.isEmpty = false ∧ (∃ pc, n.state.RunsAt pc) ∧
        (trace.map Prod.snd).getLast? = some .freport) := by
  generalize hresult : EStateM.Result.ok report n = result at h
  induction h with
  | pause hnext =>
    cases hresult
    exact .inl ⟨rfl, hnext, hexclusive⟩
  | astray => contradiction
  | fault => contradiction
  | @report _ _ pc instr _ hat _ hexec hreport =>
    cases hresult
    have hfreport : instr = .freport := by
      by_contra hne
      rw [execute_report hne hexec] at hreport
      simp at hreport
    subst hfreport
    have hstate := congrArg Machine.state (execute_feature rfl (by simp) hexec)
    refine .inr ⟨hreport, ⟨pc + 1, ?_⟩, rfl⟩
    rw [hstate]
    exact hat.advance
  | @step _ _ _ instr _ trace _ hat _ hexec _ _ ih =>
    rcases ih ((moves_of_execute hexec).exclusive hat) hresult with hpause | ⟨hreport, hruns, hlast⟩
    . exact .inl hpause
    . refine .inr ⟨hreport, hruns, ?_⟩
      rw [List.map_cons, List.getLast?_cons, hlast]
      rfl

end Executes

end Program

end HornMachine
