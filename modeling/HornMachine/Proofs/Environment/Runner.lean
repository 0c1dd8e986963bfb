import HornMachine.Facts
import HornMachine.Proofs.Environment.Visit

/-!
This module contains what becomes of steps and collections under another runner, which does the same as the
first one up to some faults. Its main statement is about the allowance for collections inside one another:
as long as it is not used up, a larger one makes no difference.
-/

namespace HornMachine

open Exec (Upto)

variable {kind : Fault → Prop}

section Run

variable {gather gather' : Nat → Exec (List Goal)} {computeFeatures : Bool} {m : Machine}
  (hgather : ∀ addr m, Upto kind (gather addr m) (gather' addr m))
include hgather

theorem upto_execute (instr : Instruction)
    : Upto kind (execute gather computeFeatures instr m) (execute gather' computeFeatures instr m) := by
  cases instr with
  | ffindall addr =>
    unfold execute
    split
    . exact .refl _
    . refine .bind (.refl _) fun m₀ n _ => ?_
      refine .bind (hgather addr n) fun goals n _ => ?_
      exact .refl _
  | _ => exact .refl _

theorem upto_runOn (program : Program)
    : Upto kind (program.runOn gather computeFeatures m) (program.runOn gather' computeFeatures m) := by
  induction m using Program.runOn.induct program gather computeFeatures with
  | case1 m hnext =>
    rw [Program.runOn_eq, Program.runOn_eq, hnext]
    exact .refl _
  | case2 m pc hnext fault hinstr =>
    rw [Program.runOn_eq, Program.runOn_eq, hnext]
    simp only [hinstr]
    exact .refl _
  | case3 m pc hnext instr hinstr fault m' hexec =>
    rw [Program.runOn_eq, Program.runOn_eq, hnext]
    simp only [hinstr, hexec]
    rcases upto_execute hgather instr (m := m) with heq | ⟨fault', n, hfault, heq⟩
    . rw [heq, hexec]
      exact .refl _
    . rw [hexec] at heq
      cases heq
      exact .inr ⟨fault, m', hfault, rfl⟩
  | case4 m pc hnext instr hinstr report m' hexec hempty ih =>
    have hexec' := (upto_execute hgather instr).eq_of_ok hexec
    rw [Program.runOn_eq, Program.runOn_eq program gather', hnext]
    simp only [hinstr, hexec, hexec', hempty, if_true]
    exact ih
  | case5 m pc hnext instr hinstr report m' hexec hempty =>
    have hexec' := (upto_execute hgather instr).eq_of_ok hexec
    rw [Program.runOn_eq, Program.runOn_eq program gather', hnext]
    simp only [hinstr, hexec, hexec', hempty]
    exact .refl _

theorem upto_run (program : Program) (start : Option Nat)
    : Upto kind (program.run gather start computeFeatures m)
        (program.run gather' start computeFeatures m) :=
  upto_runOn hgather program

end Run

def Plugin.Upto (kind : Fault → Prop) (plugin : Plugin) : Prop :=
  ∀ (run run' : Runner),
    (∀ start computeFeatures m, Exec.Upto kind (run start computeFeatures m) (run' start computeFeatures m)) →
      ∀ s computeFeatures m,
        Exec.Upto kind (plugin.outlinks run s computeFeatures m) (plugin.outlinks run' s computeFeatures m)

theorem FactTable.upto_plugin (table : FactTable) : table.plugin.Upto kind := by
  intro run run' hrun s computeFeatures m
  show Upto kind (table.outlinks run s computeFeatures m) (table.outlinks run' s computeFeatures m)
  unfold outlinks
  cases s.jumpTo with
  | none => exact .refl _
  | some label =>
    cases hrows : table.rowsOf label with
    | nil =>
      simp only [hrows]
      exact .refl _
    | cons row rows =>
      simp only [hrows]
      refine .bind (.refl _) fun sig n _ => ?_
      refine .filterMapM fun row n => ?_
      unfold answer
      refine .bind (.refl _) fun _ n _ => ?_
      refine .bind (.refl _) fun agrees n _ => ?_
      split
      . refine .bind (.refl _) fun _ n _ => ?_
        refine .bind (hrun none computeFeatures n) fun _ n _ => ?_
        exact .refl _
      . exact .refl _

namespace Environment

section Runner

variable {env : Environment} {run run' : Runner} {s : State} {computeFeatures : Bool} {m : Machine}
  (hrun : ∀ start computeFeatures m,
    Upto kind (run start computeFeatures m) (run' start computeFeatures m))
include hrun

theorem upto_clauseOutlink (addr : Nat)
    : Upto kind (clauseOutlink run s computeFeatures addr m)
        (clauseOutlink run' s computeFeatures addr m) := by
  refine .bind (.refl _) fun _ n _ => ?_
  cases computeFeatures with
  | false => exact .bind (hrun (some addr) false n) fun _ n _ => .refl _
  | true =>
    refine .bind (hrun (some addr) true n) fun features n _ => ?_
    refine .bind (.refl _) fun s' n _ => ?_
    split
    . exact .refl _
    . exact .bind (hrun none true n) fun _ n _ => .refl _

variable (hplugins : ∀ plugin ∈ env.plugins, plugin.Upto kind)
include hplugins

theorem upto_outlinksWith
    : Upto kind (env.outlinksWith run s computeFeatures m)
        (env.outlinksWith run' s computeFeatures m) := by
  unfold outlinksWith
  split
  . exact .refl _
  cases s.jumpTo with
  | none => exact .refl _
  | some label =>
    cases hfind : env.plugins.find? (·.claims label) with
    | some plugin =>
      simp only [hfind]
      refine .bind (.refl _) fun _ n _ => ?_
      exact hplugins plugin (List.mem_of_find?_eq_some hfind) run run' hrun s computeFeatures n
    | none =>
      simp only [hfind]
      cases env.program.addresses? label with
      | none => exact .refl _
      | some addrs => exact .filterMapM fun addr n => upto_clauseOutlink hrun addr

theorem upto_expand : Upto kind (env.expand run s m) (env.expand run' s m) := by
  unfold expand
  cases s.pc with
  | some pc =>
    refine .bind (.refl _) fun _ n _ => ?_
    exact .bind (hrun none true n) fun _ n _ => .refl _
  | none => exact upto_outlinksWith hrun hplugins

omit hrun hplugins in
theorem upto_visitAll {successors successors' : State → Exec (List Outlink)}
    (hsuccessors : ∀ s m, Upto kind (successors s m) (successors' s m)) (limit : Nat)
    (work : List (State × Nat)) (found : List Goal)
    : Upto kind (visitAll successors limit work found m) (visitAll successors' limit work found m) := by
  induction work, found, m using visitAll.induct successors limit with
  | case1 found m =>
    rw [visitAll, visitAll]
    exact .refl _
  | case2 found m s depth work hended ih =>
    rw [visitAll, visitAll, if_pos hended, if_pos hended]
    exact ih
  | case3 found m s depth work hended hdepth =>
    rw [visitAll, visitAll, if_neg hended, if_neg hended, dif_pos hdepth, dif_pos hdepth]
    exact .refl _
  | case4 found m s depth work hended hdepth fault m' hlinks =>
    rw [visitAll, visitAll, if_neg hended, if_neg hended, dif_neg hdepth, dif_neg hdepth]
    rcases hsuccessors s m with heq | ⟨fault', n, hfault, heq⟩
    . rw [heq, hlinks]
      exact .refl _
    . rw [hlinks] at heq
      cases heq
      rw [hlinks]
      exact .inr ⟨fault, m', hfault, rfl⟩
  | case5 found m s depth work hended hdepth links m' hlinks children ih =>
    have hlinks' := (hsuccessors s m).eq_of_ok hlinks
    rw [visitAll, visitAll, if_neg hended, if_neg hended, dif_neg hdepth, dif_neg hdepth, hlinks, hlinks']
    exact ih

theorem upto_gatherWith (addr : Nat)
    : Upto kind (env.gatherWith run addr m) (env.gatherWith run' addr m) := by
  refine .bind (.refl _) fun m₀ n _ => ?_
  refine .bind (.refl _) fun _ n _ => ?_
  refine .bind (hrun (some addr) true n) fun report n _ => ?_
  refine .bind (.refl _) fun start n _ => ?_
  apply Upto.resetTo
  exact upto_visitAll (fun s m => upto_expand hrun hplugins) _ _ _

end Runner

variable {env : Environment} {tables : List FactTable} (hplugins : env.plugins = tables.map FactTable.plugin)
include hplugins

theorem upto_gather {nesting nesting' : Nat} (hle : nesting ≤ nesting') (addr : Nat) (m : Machine)
    : Upto (· = .nestingExceeded) (env.gather nesting addr m) (env.gather nesting' addr m) := by
  have hupto : ∀ plugin ∈ env.plugins, plugin.Upto (· = .nestingExceeded) := by
    intro plugin hplugin
    rw [hplugins, List.mem_map] at hplugin
    rcases hplugin with ⟨table, _, rfl⟩
    exact table.upto_plugin
  -- only where the smaller allowance is used up the two may differ
  induction nesting generalizing nesting' addr m with
  | zero => exact .inr ⟨_, m, rfl, rfl⟩
  | succ nesting ih =>
    cases nesting' with
    | zero => contradiction
    | succ nesting' =>
      refine upto_gatherWith (fun start computeFeatures m => ?_) hupto addr
      exact upto_run (ih (Nat.le_of_succ_le_succ hle)) env.program start

theorem gather_eq_gatherWith_run {addr : Nat} {m : Machine}
    (hnesting : ∀ n, env.gather env.nesting addr m ≠ .error .nestingExceeded n)
    : env.gather env.nesting addr m = env.gatherWith env.run addr m := by
  have hupto := upto_gather hplugins (Nat.le_succ env.nesting) addr m
  have heq := hupto.eq fun fault n hfault => by
    rw [hfault]
    exact hnesting n
  exact heq.symm

end Environment

end HornMachine
