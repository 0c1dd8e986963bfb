import HornMachine.Proofs.Run.Clause

/-!
This module contains the runs that go on behind a head that did not match, or start over with another
clause from there. What they answer means nothing, but they come to no other fault than the runs that are
meant to be.
-/

namespace HornMachine

open Level

variable {program : Program} {gather : Nat → Exec (List Goal)} {computeFeatures : Bool} {m : Machine}
  {clause : Clause} {l : Level} {ls : List Level} {pc : Nat}

theorem Held.runOn_calls {count : Nat} {vars seen : List String} {lits : List Literal}
    (h : Held program m.symbols m.state count l ls) (hat : m.state.RunsAt pc)
    (hcode : program.Has pc (Code.calls vars seen lits ++ [.returnp]))
    (hvars : ∀ lit ∈ lits, ∀ name ∈ lit.vars, name ∈ vars)
    (hscope : Scope vars seen m.state.registers m.state.registers.size m.state.heap.size)
    (hrun : Unexhausted (program.runOn gather computeFeatures m))
    : ∃ m', program.runOn gather computeFeatures m = .ok ∅ m' ∧ m.symbols ≤ m'.symbols := by
  cases lits with
  | nil =>
    have hleave : program.runOn gather computeFeatures m =
        program.runOn gather computeFeatures { m with state := m.state.leave } :=
      Program.runOn_step hat hcode.head rfl
    have hready := ready_leave hat.failed_eq hat.completed_eq h.valid h.stack h.calls_eq h.heap_le
    rw [hleave] at hrun
    rcases Ready.resume (m := { m with state := m.state.leave }) hready hrun with ⟨m', hrun', hle, _⟩
    exact ⟨m', hleave.trans hrun', hle⟩
  | cons lit lits =>
    rcases runOn_calls_cons hat hcode (hvars lit List.mem_cons_self) h.valid hscope hrun with
      ⟨m₁, hrun₁, hadv, _⟩
    exact ⟨_, hrun₁, hadv.symbols_le⟩

namespace Matching

variable {args : List Term} {seen : List String}

theorem runOn_head (h : Matching program m.symbols m.state clause args seen pc l ls)
    (hat : m.state.RunsAt pc) (hrun : Unexhausted (program.runOn gather computeFeatures m))
    : (∃ m', program.runOn gather computeFeatures m = .ok ∅ m' ∧ m.symbols ≤ m'.symbols ∧
          m'.state.failed = true) ∨
      ∃ m', program.runOn gather computeFeatures m = program.runOn gather computeFeatures m' ∧
        m.symbols ≤ m'.symbols ∧ m'.state.RunsAt (pc + args.length) ∧
        Matching program m'.symbols m'.state clause [] clause.head.vars (pc + args.length) l ls := by
  rcases HornMachine.runOn_head hat h.code rfl h.length_le h.held.valid h.scope h.mem_vars hrun with
    ⟨⟨_, _, _, m', hrun', hstopped⟩, _⟩ | ⟨m', hrun', hadv, haccepts⟩
  . exact .inl ⟨m', hrun', hstopped.advances.symbols_le, hstopped.failed_eq⟩
  . refine .inr ⟨m', hrun', hadv.symbols_le, hadv.runsAt hat, ?_⟩
    constructor
    . exact h.held.advances hadv (Nat.le_of_eq haccepts.size_eq.symm)
    . exact List.nil_prefix
    . exact h.rest
    . exact Nat.zero_le _
    . simp
    . exact fun _ _ => Iff.rfl
    . exact hadv.scope.congr h.seen_iff

theorem runOn_fed (h : Matching program m.symbols m.state clause [] clause.head.vars pc l ls)
    (hat : m.state.RunsAt pc) (stack : List Feature)
    (hrun : Unexhausted (program.runOn gather computeFeatures
      (m.fed stack (pc + (Code.features clause.vars clause.features).length))))
    : ∃ m', program.runOn gather computeFeatures
          (m.fed stack (pc + (Code.features clause.vars clause.features).length)) = .ok ∅ m' ∧
        m.symbols ≤ m'.symbols := by
  have hheld := h.held
  have hfed : Held program m.symbols
      (m.fed stack (pc + (Code.features clause.vars clause.features).length)).state
      clause.vars.length l ls :=
    ⟨hheld.valid, hheld.stack, hheld.calls_eq, hheld.registers_le, hheld.heap_le⟩
  exact Held.runOn_calls (m := m.fed stack _) hfed (Machine.runsAt_fed hat stack _) h.rest.right
    (fun _ hlit _ hname => Clause.mem_vars_of_body hlit hname) h.scope hrun

theorem runOn_false (h : Matching program m.symbols m.state clause args seen pc l ls)
    (hat : m.state.RunsAt pc) (hrun : Unexhausted (program.runOn gather false m))
    : ∃ m', program.runOn gather false m = .ok ∅ m' ∧ m.symbols ≤ m'.symbols := by
  rcases h.runOn_head hat hrun with ⟨m', hrun', hle, _⟩ | ⟨m₁, hrun₁, hle, hat₁, h₁⟩
  . exact ⟨m', hrun', hle⟩
  . have hskip := runOn_skip gather hat₁ h.rest.left (fun _ => Code.isFeature_of_mem_features)
    rw [hrun₁, hskip] at hrun ⊢
    rcases h₁.runOn_fed hat₁ m₁.features hrun with ⟨m', hrun', hle'⟩
    exact ⟨m', hrun', Interner.le_trans hle hle'⟩

theorem runOn_true (h : Matching program m.symbols m.state clause args seen pc l ls)
    (hfeatures : clause.unboundFeatureVariable? = none) (hat : m.state.RunsAt pc)
    (hrun : Unexhausted (program.runOn gather true m))
    : (∃ root m', program.runOn gather true m = .error (.notConstant root "fpushboundvar") m') ∨
      ∃ report m₁, program.runOn gather true m = .ok report m₁ ∧ m.symbols ≤ m₁.symbols ∧
        (m₁.state.failed = false → Unexhausted (program.run gather none true m₁) →
          ∃ m', program.run gather none true m₁ = .ok ∅ m' ∧ m₁.symbols ≤ m'.symbols) := by
  rcases h.runOn_head hat hrun with ⟨m', hrun', hle, hfailed⟩ | ⟨m₁, hrun₁, hle, hat₁, h₁⟩
  . exact .inr ⟨∅, m', hrun', hle, by simp [hfailed]⟩
  . rcases runOn_features gather hat₁ h.rest.left h₁.held.valid h₁.scope
        (Clause.mem_of_feature hfeatures) with
      ⟨_, stack, hreport⟩ | ⟨_, _, _, root, m', _, _, _, hfault⟩
    . refine .inr ⟨_, _, hrun₁.trans hreport, hle, ?_⟩
      intro _ hrun'
      rw [Program.run_none (Machine.runsAt_fed hat₁ stack _)] at hrun' ⊢
      exact h₁.runOn_fed hat₁ stack hrun'
    . exact .inl ⟨root, m', hrun₁.trans hfault⟩

end Matching

section Run

variable {symbols : SymbolTable} {s : State}

theorem Held.le {count count' : Nat} (h : Held program symbols s count l ls) (hle : count' ≤ count)
    : Held program symbols s count' l ls :=
  { h with registers_le := Nat.le_trans (Nat.add_le_add_left hle _) h.registers_le }

/--
A state whose head did not match can be run on: the failure is taken back, and the next argument is matched.
-/
theorem Stalled.exists_matching (gather : Nat → Exec (List Goal)) (computeFeatures : Bool)
    (h : Stalled program symbols clause s) (hle : symbols ≤ m.symbols)
    : ∃ args seen pc l ls, program.run gather none computeFeatures { m with state := s } =
          program.runOn gather computeFeatures { m with state := { s with failed := false } } ∧
        State.RunsAt { s with failed := false } pc ∧
        Matching program m.symbols { s with failed := false } clause args seen pc l ls := by
  rcases h.matching with ⟨args, seen, pc, l, ls, hpc, hmatching⟩
  refine ⟨args, seen, pc, l, ls, ?_, ⟨hpc, rfl, h.completed_eq⟩, ?_⟩
  . rw [Program.run_apply, ← h.completed_eq]
    rfl
  . have hheld := hmatching.held.mono hle
    exact { hmatching with
      held := ⟨hheld.valid, hheld.stack, hheld.calls_eq, hheld.registers_le, hheld.heap_le⟩ }

end Run

end HornMachine
