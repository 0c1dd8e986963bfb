import HornMachine.Proofs.Run.Clause

/-!
This module contains the run from the beginning of a query.
-/

namespace HornMachine

open Level

def posed (goals : List Literal) : Denotation :=
  fun D _ gs as => ∃ θ : String → D, gs = goals.map (Literal.inst θ) ∧ as = gs.flatMap Atom.args

theorem mem_queryVars {goals : List Literal} {name : String}
    : name ∈ queryVars goals ↔ ∃ lit ∈ goals, name ∈ lit.vars := by
  rw [queryVars, List.mem_eraseDups, List.mem_flatMap]

def queryLevel (goals : List Literal) (pc : Nat) : Level where
  frame := ⟨0, (queryVars goals).length, pc, none⟩
  vars := queryVars goals
  seen := []
  todo := goals

variable {program : Program} {gather : Nat → Exec (List Goal)} {computeFeatures : Bool} {m : Machine}
  {goals : List Literal} {start : Nat}

theorem ready_query (hcode : program.Has start (queryCode goals)) (hm : m.state = {})
    : Ready program m.symbols (m.allocated (start + 1) (queryVars goals).length).state
        (queryLevel goals (start + 1)) [] := by
  have hheap : (m.allocated (start + 1) (queryVars goals).length).state.heap = #[] := by
    simp [Machine.allocated, hm]
  have hregs : (m.allocated (start + 1) (queryVars goals).length).state.registers.size =
      (queryVars goals).length := by
    simp [Machine.allocated, hm]
  constructor
  . exact runsAt_allocated _ _
  . rw [hheap]
    exact ⟨by simp, by simp⟩
  . apply Stack.cons _ _ (Nat.zero_le _) Stack.nil
    . have hscope := scope_allocated (m := m) (start + 1) (queryVars goals) 0
      rw [hregs] at hscope
      exact ⟨hcode.tail, fun lit hlit name hname => mem_queryVars.mpr ⟨lit, hlit, hname⟩, hscope⟩
    . exact (Nat.zero_add _).symm
  . simp [Machine.allocated, hm]
  . exact hregs
  . rw [hheap]
    rfl

theorem models_start [Domain D] (hm : m.state = {}) (v : Nat → D)
    : m.state.heap.Models m.symbols v := by
  intro addr cell hcell
  simp [hm] at hcell

theorem leaves_query (hm : m.state = {}) (D : Type) [Domain D] (gs : List (Atom D)) (as : List D)
    : leaves m.symbols (m.allocated (start + 1) (queryVars goals).length).state
        [queryLevel goals (start + 1)] D gs as ↔ posed goals D gs as := by
  have hregs : (m.allocated (start + 1) (queryVars goals).length).state.registers.size =
      (queryVars goals).length := by
    simp [Machine.allocated, hm]
  constructor
  . intro h
    rcases h with ⟨val, _, hgs, has⟩
    rw [allGoals, List.flatMap_singleton] at hgs
    refine ⟨(queryLevel goals (start + 1)).assign val
      (m.allocated (start + 1) (queryVars goals).length).state.registers, hgs, ?_⟩
    rw [hgs, has]
    rfl
  . intro h
    rcases h with ⟨θ, hgs, has⟩
    have hv := models_start hm (fun _ => θ "")
    have hscope := scope_allocated (m := m) (start + 1) (queryVars goals) 0
    have hfits : Fits (queryVars goals) (m.allocated (start + 1) (queryVars goals).length)
        (fun _ => θ "") θ := fits_allocated.mpr hv
    rcases hscope.exists_valuation hfits.2 (fun _ => θ "") with ⟨val, hcell, hassign, _⟩
    rw [hregs] at hassign
    have hgoals : (queryLevel goals (start + 1)).goals val
        (m.allocated (start + 1) (queryVars goals).length).state.registers =
          goals.map (Literal.inst θ) := by
      apply List.map_congr_left
      intro lit hlit
      apply Literal.inst_congr
      intro name hname
      exact hassign name (mem_queryVars.mpr ⟨lit, hlit, hname⟩)
    refine ⟨val, ?_, ?_, ?_⟩
    . rw [hcell]
      exact hv
    . rw [allGoals, List.flatMap_singleton, hgoals, hgs]
    . rw [answer, hgoals, has, hgs]
      rfl

theorem run_query (hcode : program.Has start (queryCode goals)) (hm : m.state = {})
    (hrun : Unexhausted (program.run gather (some start) computeFeatures m))
    : ∃ m', program.run gather (some start) computeFeatures m = .ok ∅ m' ∧ m.symbols ≤ m'.symbols ∧
        Paused program m'.symbols m'.state (posed goals) := by
  have hrun₁ : program.run gather (some start) computeFeatures m =
      program.runOn gather computeFeatures (m.allocated (start + 1) (queryVars goals).length) :=
    run_allocate hcode
  rw [hrun₁] at hrun ⊢
  rcases (ready_query hcode hm).resume hrun with ⟨m', hrun', hle, _, hpaused⟩
  refine ⟨m', hrun', hle, hpaused.congr ?_⟩
  intro D _ gs as
  exact (leaves_query hm D gs as).symm

theorem paused_of_run {report : Features} {m' : Machine}
    (hcode : program.Has start (queryCode goals)) (hm : m.state = {})
    (hok : program.run gather (some start) computeFeatures m = .ok report m')
    : Paused program m'.symbols m'.state (posed goals) := by
  rcases run_query hcode hm (by rw [hok]; exact unexhausted_ok _ _) with ⟨_, heq, _, hpaused⟩
  rw [heq] at hok
  cases hok
  exact hpaused

end HornMachine
