import HornMachine.Proofs.Machine.Alike
import HornMachine.Proofs.Program.Fence
import HornMachine.Proofs.Run.Step

/-!
This module contains the runs of machines that agree except for ids. They come to the same outcome, also
with features computed and with different features left over from before: all code that builds features
clears them first.
-/

namespace HornMachine

/--
Two actions come to the same outcome, and the tables have grown since `t`. Nothing is said where one of
them lacks an id for a name.
-/
inductive Exec.Agree (t : Tables) (R : α → Machine → β → Machine → Prop)
    : EStateM.Result Fault Machine α → EStateM.Result Fault Machine β → Prop where
  | ok {a : α} {b : β} {n n' : Machine} (hgrows : t.Grows ⟨n.symbols, n'.symbols⟩) (h : R a n b n')
      : Agree t R (.ok a n) (.ok b n')
  | fault (fault : Fault) {n n' : Machine} (hgrows : t.Grows ⟨n.symbols, n'.symbols⟩)
      : Agree t R (.error fault n) (.error fault n')
  | leftFull (entries : Nat) (n : Machine) (r : EStateM.Result Fault Machine β)
      : Agree t R (.error (.poolExhausted entries) n) r
  | rightFull (r : EStateM.Result Fault Machine α) (entries : Nat) (n : Machine)
      : Agree t R r (.error (.poolExhausted entries) n)

namespace Exec.Agree

variable {α β γ δ : Type} {t t' : Tables} {R : α → Machine → β → Machine → Prop}
  {S : γ → Machine → δ → Machine → Prop}
  {r : EStateM.Result Fault Machine α} {r' : EStateM.Result Fault Machine β} {m m' : Machine}

theorem of_grows (h : Agree t' R r r') (hgrows : t.Grows t') : Agree t R r r' := by
  cases h with
  | ok hgrows' h => exact .ok (hgrows.trans hgrows') h
  | fault fault hgrows' => exact .fault fault (hgrows.trans hgrows')
  | leftFull entries n => exact .leftFull entries n _
  | rightFull _ entries n => exact .rightFull _ entries n

theorem imp {R' : α → Machine → β → Machine → Prop} (h : Agree t R r r')
    (hR : ∀ {a n b n'}, r = .ok a n → R a n b n' → R' a n b n') : Agree t R' r r' := by
  cases h with
  | ok hgrows h => exact .ok hgrows (hR rfl h)
  | fault fault hgrows => exact .fault fault hgrows
  | leftFull entries n => exact .leftFull entries n _
  | rightFull _ entries n => exact .rightFull _ entries n

theorem pure {a : α} {b : β} (h : R a m b m')
    : Agree ⟨m.symbols, m'.symbols⟩ R ((Pure.pure a : Exec α) m) ((Pure.pure b : Exec β) m') :=
  .ok (Tables.Grows.refl _) h

theorem throw (fault : Fault)
    : Agree ⟨m.symbols, m'.symbols⟩ R ((MonadExcept.throw fault : Exec α) m)
        ((MonadExcept.throw fault : Exec β) m') :=
  .fault fault (Tables.Grows.refl _)

theorem bind {x : Exec α} {y : Exec β} {f : α → Exec γ} {g : β → Exec δ}
    (h : Agree t R (x m) (y m'))
    (hf : ∀ {a n b n'}, x m = .ok a n → t.Grows ⟨n.symbols, n'.symbols⟩ → R a n b n' →
      Agree ⟨n.symbols, n'.symbols⟩ S (f a n) (g b n'))
    : Agree t S ((x >>= f) m) ((y >>= g) m') := by
  rw [bind_apply, bind_apply]
  generalize x m = r at h hf ⊢
  generalize y m' = r' at h ⊢
  cases h with
  | ok hgrows h => exact (hf rfl hgrows h).of_grows hgrows
  | fault fault hgrows => exact .fault fault hgrows
  | leftFull entries n r => exact .leftFull entries n _
  | rightFull r entries n => exact .rightFull _ entries n

theorem update {f : Machine → Except Fault Machine}
    (h : HornMachine.Agree (Machine.Matched m m') (f m) (f m'))
    : Agree ⟨m.symbols, m'.symbols⟩ (fun _ n _ n' => m.Matched m' n n') (Exec.update f m)
        (Exec.update f m') := by
  unfold Exec.update
  generalize f m = x at h ⊢
  generalize f m' = y at h ⊢
  cases h with
  | ok h => exact .ok h.grows h
  | fault fault => exact .fault fault (Tables.Grows.refl _)
  | leftFull entries y => exact .leftFull entries m _
  | rightFull x entries => exact .rightFull _ entries m'

theorem read {f : Machine → Except Fault α} {g : Machine → Except Fault β} {Q : α → β → Prop}
    (h : HornMachine.Agree Q (f m) (g m'))
    : Agree ⟨m.symbols, m'.symbols⟩ (fun a n b n' => n = m ∧ n' = m' ∧ Q a b) (Exec.read f m)
        (Exec.read g m') := by
  unfold Exec.read
  generalize f m = x at h ⊢
  generalize g m' = y at h ⊢
  cases h with
  | ok h => exact .ok (Tables.Grows.refl _) ⟨rfl, rfl, h⟩
  | fault fault => exact .fault fault (Tables.Grows.refl _)
  | leftFull entries y => exact .leftFull entries m _
  | rightFull x entries => exact .rightFull _ entries m'

end Exec.Agree

section Execute

variable {gather gather' : Nat → Exec (List Goal)} {computeFeatures : Bool} {m m' : Machine}

structure Executed (computeFeatures : Bool) (instr : Instruction) (m m' : Machine) (report : Features)
    (n : Machine) (report' : Features) (n' : Machine) : Prop where
  report_eq : report' = report
  alike : n.Alike n'
  features_eq : m.features = m'.features ∨ (computeFeatures = true ∧ instr.isFeature = true) →
    n.features = n'.features

theorem Executed.of_alike {instr : Instruction} {s s' : State}
    (hs : s.Alike ⟨m.symbols, m'.symbols⟩ s') (hplain : instr.isFeature = false)
    : Executed computeFeatures instr m m' ∅ { m with state := s } ∅ { m' with state := s' } where
  report_eq := rfl
  alike := hs
  features_eq := by simp [hplain]

theorem Executed.of_matched {instr : Instruction} {n n' : Machine} (h : m.Matched m' n n')
    (hfeatures : instr.isFeature = true → m.features = m'.features)
    : Executed computeFeatures instr m m' ∅ { n with state := n.state.advance } ∅
        { n' with state := n'.state.advance } where
  report_eq := rfl
  alike := State.Alike.advance h.alike
  features_eq := fun heq => h.features_eq (heq.elim id fun hfeature => hfeatures hfeature.2)

theorem agree_stepping {action : Exec Unit} {t : Tables} {R : Machine → Machine → Prop}
    {S : Features → Machine → Features → Machine → Prop}
    (h : Exec.Agree t (fun _ n _ n' => R n n') (action m) (action m'))
    (hS : ∀ {n n'}, R n n' → S ∅ { n with state := n.state.advance } ∅
      { n' with state := n'.state.advance })
    : Exec.Agree t S (execute.stepping action m) (execute.stepping action m') := by
  apply h.bind
  intro _ n _ n' _ _ hR
  exact .ok (Tables.Grows.refl _) (hS hR)

variable (h : m.Alike m')
include h

theorem agree_execute {instr : Instruction} (hfindall : ∀ addr, instr ≠ .ffindall addr)
    (hfeatures : computeFeatures = true → instr.isFeature = true →
      instr = .fclear ∨ m.features = m'.features)
    : Exec.Agree ⟨m.symbols, m'.symbols⟩ (Executed computeFeatures instr m m')
        (execute gather computeFeatures instr m) (execute gather' computeFeatures instr m') := by
  rw [execute_eq_whole, execute_eq_whole]
  unfold execute.whole
  by_cases hskip : (instr.isFeature && !computeFeatures) = true
  . rw [if_pos hskip, if_pos hskip]
    rw [Bool.and_eq_true, Bool.not_eq_true'] at hskip
    refine .ok (Tables.Grows.refl _) ⟨rfl, State.Alike.advance h, ?_⟩
    simp [hskip.2]
  rw [if_neg hskip, if_neg hskip]
  -- an instruction that is executed and builds features does so on both sides
  have hcompute : instr.isFeature = true → computeFeatures = true := by
    intro hfeature
    simpa [hfeature] using hskip
  have hequal : instr.isFeature = true → instr ≠ .fclear → m.features = m'.features := by
    intro hfeature hclear
    exact (hfeatures (hcompute hfeature) hfeature).resolve_left hclear
  cases instr with
  | callp label => exact .ok (Tables.Grows.refl _) (.of_alike (State.Alike.enter h label) rfl)
  | returnp => exact .ok (Tables.Grows.refl _) (.of_alike (State.Alike.leave h) rfl)
  | grow count =>
    exact .ok (Tables.Grows.refl _) (.of_alike (State.Alike.grow h count).advance rfl)
  | pushConst name =>
    apply agree_stepping (.update (h.agree_pushConst name))
    exact (.of_matched · (hequal · (by simp)))
  | pushFreeVar reg =>
    have hsize : m'.state.heap.size = m.state.heap.size := (State.Alike.heap h).size_eq
    show Exec.Agree _ _
      (execute.stepping (do Exec.onState State.pushFree; Exec.update (·.setRegister reg m.state.heap.size)) m)
      (execute.stepping
        (do Exec.onState State.pushFree; Exec.update (·.setRegister reg m'.state.heap.size)) m')
    rw [hsize]
    have hpushed : Machine.Alike { m with state := m.state.pushFree } { m' with state := m'.state.pushFree } :=
      State.Alike.pushFree h
    apply agree_stepping (.update (hpushed.agree_setRegister reg _))
    exact fun hset => .of_matched ⟨hset.alike, hset.grows, hset.features_eq⟩ (hequal · (by simp))
  | pushBoundVar reg =>
    apply agree_stepping (.update (h.agree_pushBoundVar reg))
    exact (.of_matched · (hequal · (by simp)))
  | unifyConst name offset =>
    apply agree_stepping (.update (h.agree_unifyConst name offset))
    exact (.of_matched · (hequal · (by simp)))
  | initFreeVar reg offset =>
    apply agree_stepping (.update (h.agree_initFreeVar reg offset))
    exact (.of_matched · (hequal · (by simp)))
  | unifyBoundVar reg offset =>
    apply agree_stepping (.update (h.agree_unifyBoundVar reg offset))
    exact (.of_matched · (hequal · (by simp)))
  | fclear => exact .ok (Tables.Grows.refl _) ⟨rfl, State.Alike.advance h, fun _ => rfl⟩
  | fpushStart functor arity =>
    have hequal := hequal rfl (by simp)
    refine .ok (Tables.Grows.refl _) ⟨rfl, State.Alike.advance h, fun _ => ?_⟩
    show _ :: m.features = _ :: m'.features
    rw [hequal]
  | fpushConst name =>
    have hequal := hequal rfl (by simp)
    apply agree_stepping (.update (h.agree_appendArgument hequal _ _))
    exact (.of_matched · fun _ => hequal)
  | fpushBoundVar reg =>
    have hequal := hequal rfl (by simp)
    apply agree_stepping (.update (h.agree_appendRegister hequal reg))
    exact (.of_matched · fun _ => hequal)
  | freport =>
    have hequal := hequal rfl (by simp)
    refine .ok (Tables.Grows.refl _) ⟨?_, State.Alike.advance h, fun _ => hequal⟩
    rw [hequal]
  | ffindall addr => exact absurd rfl (hfindall addr)

end Execute

namespace Program

structure Rests (program : Program) (computeFeatures : Bool) (s : State) : Prop where
  frames : ∀ frame ∈ s.calls, program.Clean frame.pc
  pc : computeFeatures = true → ∀ pc, s.pc = some pc → program.Clean pc

structure Stopped (program : Program) (computeFeatures : Bool) (report : Features) (n : Machine)
    (report' : Features) (n' : Machine) : Prop where
  report_eq : report' = report
  alike : n.Alike n'
  rests : program.Rests computeFeatures n.state

/--
Two machines in the middle of a run: once features are under construction, they have the same ones.
-/
structure Tracks (program : Program) (computeFeatures : Bool) (m m' : Machine) : Prop where
  alike : m.Alike m'
  frames : ∀ frame ∈ m.state.calls, program.Clean frame.pc
  features : computeFeatures = true →
    (∀ pc, m.state.pc = some pc → program.Clean pc) ∨
      (∃ pc, m.state.RunsAt pc) ∧ m.features = m'.features

variable {program : Program} {gather gather' : Nat → Exec (List Goal)} {computeFeatures : Bool}
  {m m' n : Machine} {instr : Instruction} {pc : Nat} {report : Features}

def goOn (program : Program) (gather : Nat → Exec (List Goal)) (computeFeatures : Bool)
    (report : Features) : Exec Features := fun m =>
  if report.isEmpty then program.runOn gather computeFeatures m else .ok report m

theorem runOn_eq_bind (hnext : m.state.next? = some pc) (hinstr : program.instruction pc = .ok instr)
    : program.runOn gather computeFeatures m =
      (execute gather computeFeatures instr >>= program.goOn gather computeFeatures) m := by
  rw [runOn_eq, hnext, Exec.bind_apply]
  simp only [hinstr, goOn]
  cases execute gather computeFeatures instr m with
  | ok _ _ => rfl
  | error _ _ => rfl

theorem Rests.tracks (h : program.Rests computeFeatures m.state) (halike : m.Alike m')
    : program.Tracks computeFeatures m m' :=
  ⟨halike, h.frames, fun hcompute => .inl (h.pc hcompute)⟩

theorem Tracks.rests_of_pause (h : program.Tracks computeFeatures m m') (hnext : m.state.next? = none)
    : program.Rests computeFeatures m.state := by
  refine ⟨h.frames, ?_⟩
  intro hcompute
  rcases h.features hcompute with hclean | ⟨⟨pc, hat⟩, _⟩
  . exact hclean
  . rw [hat.next?_eq] at hnext
    contradiction

theorem Rests.of_position {s s' : State} (hframes : ∀ frame ∈ s.calls, program.Clean frame.pc)
    (hpc : s.pc = some pc) (hclean : program.Clean (pc + 1)) (h : s'.position = s.advance.position)
    : program.Rests computeFeatures s' := by
  simp only [State.position, State.advance, hpc, Option.map_some, Prod.mk.injEq] at h
  refine ⟨by rw [h.1]; exact hframes, ?_⟩
  intro _ pc' hpc'
  rw [h.2, Option.some.injEq] at hpc'
  rw [← hpc']
  exact hclean

theorem Rests.enter {s : State} (hframes : ∀ frame ∈ s.calls, program.Clean frame.pc)
    (hpc : s.pc = some pc) (hclean : program.Clean (pc + 1)) (label : String)
    : program.Rests computeFeatures (s.enter label) := by
  refine ⟨?_, by simp [State.enter]⟩
  intro frame hframe
  simp only [State.enter, State.pushCall, State.advance, hpc, Option.map_some, Option.getD_some,
    List.mem_cons] at hframe
  rcases hframe with rfl | hframe
  . exact hclean
  . exact hframes frame hframe

theorem Rests.uncomputed {s : State} (h : program.Rests computeFeatures s) : program.Rests false s :=
  ⟨h.frames, by simp⟩

theorem Rests.leave {s : State} (h : program.Rests computeFeatures s)
    : program.Rests computeFeatures s.leave := by
  unfold State.leave
  split
  . exact ⟨h.frames, h.pc⟩
  . next frame calls hcalls =>
    have hframes := h.frames
    rw [hcalls] at hframes
    refine ⟨fun frame' hmem => hframes frame' (List.mem_cons_of_mem _ hmem), ?_⟩
    rintro _ _ ⟨⟩
    exact hframes frame List.mem_cons_self

section Fenced

variable (hfenced : program.Fenced)
include hfenced

theorem Rests.of_execute (hframes : ∀ frame ∈ m.state.calls, program.Clean frame.pc)
    (hpc : m.state.pc = some pc) (hinstr : program.code[pc]? = some instr)
    (hends : instr.isFeature = false ∨ instr = .freport)
    (hexec : execute gather computeFeatures instr m = .ok report n)
    : program.Rests computeFeatures n.state := by
  have hclean := hfenced.clean_succ hinstr hends
  rcases hends with hplain | rfl
  . rcases execute_position hexec with hposition | ⟨label, henter⟩ | hgrowsave
    . exact .of_position hframes hpc hclean hposition
    . rw [henter]
      exact .enter hframes hpc hclean label
    . rw [hgrowsave]
      apply Rests.leave
      refine ⟨hframes, ?_⟩
      intro _ pc' hpc'
      rw [hpc, Option.some.injEq] at hpc'
      rw [← hpc']
      exact .of_getElem? hinstr hplain
  . apply Rests.of_position hframes hpc hclean
    rw [execute_feature rfl (by simp) hexec]

theorem Tracks.agree_execute (h : program.Tracks computeFeatures m m') (hat : m.state.RunsAt pc)
    (hinstr : program.code[pc]? = some instr)
    : Exec.Agree ⟨m.symbols, m'.symbols⟩
        (fun report n report' n' => report' = report ∧ program.Tracks computeFeatures n n' ∧
          (report.isEmpty = false → program.Rests computeFeatures n.state))
        (execute gather computeFeatures instr m) (execute gather' computeFeatures instr m') := by
  have hfindall := hfenced.not_ffindall hinstr
  have hfeatures : computeFeatures = true → instr.isFeature = true →
      instr = .fclear ∨ m.features = m'.features := by
    intro hcompute hfeature
    rcases h.features hcompute with hclean | ⟨_, heq⟩
    . exact .inl (hclean pc hat.pc_eq instr hinstr hfeature)
    . exact .inr heq
  apply (HornMachine.agree_execute h.alike hfindall hfeatures).imp
  intro report n report' n' hexec hexecuted
  by_cases hends : instr.isFeature = false ∨ instr = .freport
  . have hrests := Rests.of_execute hfenced h.frames hat.pc_eq hinstr hends hexec
    exact ⟨hexecuted.report_eq, hrests.tracks hexecuted.alike, fun _ => hrests⟩
  . rw [not_or, Bool.not_eq_false] at hends
    have hstate := execute_feature hends.1 hfindall hexec
    refine ⟨hexecuted.report_eq, ⟨hexecuted.alike, ?_, ?_⟩, ?_⟩
    . rw [hstate]
      exact h.frames
    . intro hcompute
      right
      rw [hstate]
      exact ⟨⟨pc + 1, hat.advance⟩, hexecuted.features_eq (.inr ⟨hcompute, hends.1⟩)⟩
    . rw [execute_report hends.2 hexec]
      simp

theorem Tracks.agree_runOn (h : program.Tracks computeFeatures m m')
    : Exec.Agree ⟨m.symbols, m'.symbols⟩ (program.Stopped computeFeatures)
        (program.runOn gather computeFeatures m) (program.runOn gather' computeFeatures m') := by
  -- the run on the left leads, the one on the right does in each step what the left one does
  induction hdistance : m.state.distance program.size using Nat.strong_induction_on
    generalizing m m' with
  | h distance ih =>
    have hnext' := State.Alike.next?_eq h.alike
    match hnext : m.state.next? with
    | none =>
      rw [runOn_pause hnext, runOn_pause (hnext'.trans hnext)]
      exact .ok (Tables.Grows.refl _) ⟨rfl, h.alike, h.rests_of_pause hnext⟩
    | some pc =>
      match hinstr : program.instruction pc with
      | .error fault =>
        rw [runOn_eq, runOn_eq, hnext', hnext]
        simp only [hinstr]
        exact .fault fault (Tables.Grows.refl _)
      | .ok instr =>
        rw [runOn_eq_bind hnext hinstr, runOn_eq_bind (hnext'.trans hnext) hinstr]
        apply (h.agree_execute hfenced (State.runsAt_of_next? hnext) (instruction_eq_ok hinstr)).bind
        intro report n report' n' hexec _ hR
        rcases hR with ⟨rfl, htracks, hrests⟩
        by_cases hempty : report'.isEmpty = true
        . rw [goOn, goOn, if_pos hempty, if_pos hempty]
          apply ih _ _ htracks rfl
          rw [← hdistance]
          exact execute_distance_lt hnext (lt_size_of_instruction hinstr) hexec
        . rw [goOn, goOn, if_neg hempty, if_neg hempty]
          exact .pure ⟨rfl, htracks.alike, hrests (by simpa using hempty)⟩

theorem agree_run {start : Option Nat} (h : m.Alike m')
    (hrests : program.Rests computeFeatures { m.state with pc := start <|> m.state.pc })
    : Exec.Agree ⟨m.symbols, m'.symbols⟩ (program.Stopped computeFeatures)
        (program.run gather start computeFeatures m)
        (program.run gather' start computeFeatures m') := by
  have hpc : m'.state.pc = m.state.pc := State.Alike.pc_eq h
  have hstate : State.Alike ⟨m.symbols, m'.symbols⟩
      { m.state with pc := start <|> m.state.pc, failed := false, completed := false }
      { m'.state with pc := start <|> m'.state.pc, failed := false, completed := false } :=
    { (h : State.Alike _ _ _) with
      pc_eq := by rw [hpc]
      failed_eq := rfl
      completed_eq := rfl }
  have htracks : program.Tracks computeFeatures
      { m with state := { m.state with
          pc := start <|> m.state.pc, failed := false, completed := false } }
      { m' with state := { m'.state with
          pc := start <|> m'.state.pc, failed := false, completed := false } } :=
    ⟨hstate, hrests.frames, fun hcompute => .inl (hrests.pc hcompute)⟩
  exact htracks.agree_runOn hfenced

end Fenced

end Program

end HornMachine
