import HornMachine.Proofs.Environment.Outlinks
import HornMachine.Proofs.Environment.Runner
import HornMachine.Proofs.Program.Fence

/-!
This module contains the runs of a program with more code behind it. They are the runs of the program
itself, except for those that run off its end.
-/

namespace HornMachine

/--
The second result is the first one, which may also come from a run off the end of the program.
-/
abbrev Exec.Extends (r r' : EStateM.Result Fault Machine α) : Prop :=
  Upto (fun fault => ∃ addr, fault = .invalidAddress addr) r r'

namespace Exec.Extends

variable {r r' : EStateM.Result Fault Machine α}

theorem eq_of_unexhausted (h : Extends r r')
    (hvalid : Unexhausted r → ∀ addr n, r ≠ .error (.invalidAddress addr) n) : r' = r := by
  apply h.eq
  rintro _ n ⟨addr, rfl⟩ heq
  apply hvalid _ addr n heq
  intro entries n' hfull
  rw [heq] at hfull
  simp at hfull

theorem unexhausted (h : Extends r r') (hrun : Unexhausted r') : Unexhausted r := by
  rcases h with heq | ⟨_, n, ⟨addr, rfl⟩, heq⟩
  . rw [← heq]
    exact hrun
  . intro entries n' hfull
    rw [heq] at hfull
    simp at hfull

end Exec.Extends

namespace Program

variable {program program' : Program} {gather gather' : Nat → Exec (List Goal)}
  {computeFeatures : Bool} {m : Machine}

theorem getElem?_mono (hle : program ≤ program') {pc : Nat} {instr : Instruction}
    (h : program.code[pc]? = some instr) : program'.code[pc]? = some instr := by
  rw [← Array.getElem?_toList] at h ⊢
  rw [List.getElem?_eq_some_iff] at h
  rcases h with ⟨hlt, heq⟩
  rw [← heq]
  exact List.prefix_iff_getElem?.mp hle pc hlt

theorem execute_gather {instr : Instruction} (h : ∀ addr, instr ≠ .ffindall addr)
    : execute gather' computeFeatures instr m = execute gather computeFeatures instr m := by
  cases instr with
  | ffindall addr => exact absurd rfl (h addr)
  | _ => rfl

section Extend

variable (hle : program ≤ program') (hfenced : program.Fenced)
include hle hfenced

theorem runOn_extends
    : Exec.Extends (program.runOn gather computeFeatures m)
        (program'.runOn gather' computeFeatures m) := by
  have hstep : ∀ {pc : Nat} {instr : Instruction} {m : Machine}, program.instruction pc = .ok instr →
      program'.instruction pc = .ok instr ∧
        execute gather' computeFeatures instr m = execute gather computeFeatures instr m := by
    intro pc instr m hinstr
    have hcode := instruction_eq_ok hinstr
    exact ⟨instruction_eq_ok_of_getElem? (getElem?_mono hle hcode),
      execute_gather (hfenced.not_ffindall hcode)⟩
  induction m using Program.runOn.induct program gather computeFeatures with
  | case1 m hnext =>
    rw [runOn_eq, runOn_eq, hnext]
    exact .refl _
  | case2 m pc hnext fault hinstr =>
    right
    rw [runOn_eq, hnext]
    simp only [hinstr]
    unfold instruction at hinstr
    split at hinstr
    . contradiction
    . cases hinstr
      exact ⟨_, m, ⟨pc, rfl⟩, rfl⟩
  | case3 m pc hnext instr hinstr fault m' hexec =>
    rcases hstep (m := m) hinstr with ⟨hinstr', hexec'⟩
    rw [runOn_eq, runOn_eq, hnext]
    simp only [hinstr, hinstr', hexec', hexec]
    exact .refl _
  | case4 m pc hnext instr hinstr report m' hexec hempty ih =>
    rcases hstep (m := m) hinstr with ⟨hinstr', hexec'⟩
    rw [runOn_eq, runOn_eq program', hnext]
    simp only [hinstr, hinstr', hexec', hexec, hempty, if_true]
    exact ih
  | case5 m pc hnext instr hinstr report m' hexec hempty =>
    rcases hstep (m := m) hinstr with ⟨hinstr', hexec'⟩
    rw [runOn_eq, runOn_eq program', hnext]
    simp only [hinstr, hinstr', hexec', hexec, hempty]
    exact .refl _

theorem run_extends (start : Option Nat)
    : Exec.Extends (program.run gather start computeFeatures m)
        (program'.run gather' start computeFeatures m) :=
  runOn_extends hle hfenced

theorem clauseOutlink_extends (s : State) (addr : Nat)
    : Exec.Extends (Environment.clauseOutlink (program.run gather) s computeFeatures addr m)
        (Environment.clauseOutlink (program'.run gather') s computeFeatures addr m) :=
  Environment.upto_clauseOutlink (fun start _ _ => run_extends hle hfenced start) addr

theorem mapM_clauseOutlink_extends (s : State) (addrs : List Nat)
    : Exec.Extends (addrs.mapM (Environment.clauseOutlink (program.run gather) s computeFeatures) m)
        (addrs.mapM (Environment.clauseOutlink (program'.run gather') s computeFeatures) m) :=
  .mapM fun addr _ => clauseOutlink_extends hle hfenced s addr

end Extend

end Program

section Reached

variable {program program' : Program} {gather gather' : Nat → Exec (List Goal)} {symbols : SymbolTable}
  {s : State} {sig : Signature} {l : Level} {ls : List Level} {computeFeatures : Bool} {m : Machine}
  (hle : program ≤ program') (hfenced : program.Fenced)
include hle hfenced

theorem Ready.runOn_extend (h : Ready program m.symbols m.state l ls)
    : program'.runOn gather' computeFeatures m = program.runOn gather computeFeatures m := by
  apply (Program.runOn_extends hle hfenced).eq_of_unexhausted
  intro hrun addr n heq
  rcases h.resume hrun with ⟨_, hok, _⟩
  rw [heq] at hok
  contradiction

theorem Waiting.mapM_clauseOutlink_extend {addrs : List Nat} {clauses : List Clause}
    (h : Waiting program symbols s sig l ls)
    (hoffers : List.Forall₂ (program.Offers sig) addrs clauses) (hsymbols : symbols ≤ m.symbols)
    : addrs.mapM (Environment.clauseOutlink (program'.run gather') s computeFeatures) m =
      addrs.mapM (Environment.clauseOutlink (program.run gather) s computeFeatures) m := by
  apply (Program.mapM_clauseOutlink_extends hle hfenced s addrs).eq_of_unexhausted
  intro hrun addr n heq
  rcases h.mapM_clauseOutlink hoffers hsymbols hrun with ⟨_, _, hfault, _, _, rfl⟩ | ⟨_, _, hok, _⟩
  . rw [heq] at hfault
    simp at hfault
  . rw [heq] at hok
    contradiction

end Reached

end HornMachine
