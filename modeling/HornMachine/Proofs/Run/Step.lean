import HornMachine.Machine.Run
import HornMachine.Proofs.Interner.Growth
import HornMachine.Proofs.Machine.Opcode
import HornMachine.Proofs.Program.Block
import Mathlib.Data.List.Forall2
import Mathlib.Data.List.ReduceOption

/-!
This module contains the single steps of a run: what follows for a run from what its first instruction
does.
-/

namespace HornMachine

/--
No constant was refused for lack of an id.
-/
def Unexhausted (result : EStateM.Result Fault Machine α) : Prop :=
  ∀ (entries : Nat) (m : Machine), result ≠ .error (.poolExhausted entries) m

theorem unexhausted_ok (a : α) (m : Machine) : Unexhausted (.ok a m) := by
  intro entries m' h
  contradiction

theorem Exec.filterMapM_eq_map (f : α → Exec (Option β)) (as : List α)
    : as.filterMapM f = List.reduceOption <$> as.mapM f := by
  induction as with
  | nil => simp [List.reduceOption]
  | cons a as ih =>
    rw [List.filterMapM_cons, List.mapM_cons, ih]
    simp only [map_bind, map_pure]
    congr 1
    funext b
    cases b with
    | none => rfl
    | some b => simp [List.reduceOption]

namespace Unexhausted

variable {x : Exec α} {m : Machine}

theorem of_error {result : EStateM.Result Fault Machine α} {result' : EStateM.Result Fault Machine β}
    (h : Unexhausted result')
    (herror : ∀ fault m', result = .error fault m' → result' = .error fault m')
    : Unexhausted result := by
  intro entries m' heq
  exact h entries m' (herror _ m' heq)

theorem of_map {f : α → β} (h : Unexhausted ((f <$> x) m)) : Unexhausted (x m) := by
  apply h.of_error
  intro fault m' heq
  rw [Exec.map_apply, heq]

theorem of_bind {f : α → Exec β} (h : Unexhausted ((x >>= f) m)) : Unexhausted (x m) := by
  apply h.of_error
  intro fault m' heq
  rw [Exec.bind_apply, heq]

theorem of_bind_ok {f : α → Exec β} {a : α} {m' : Machine}
    (h : Unexhausted ((x >>= f) m)) (hx : x m = .ok a m') : Unexhausted (f a m') := by
  rw [Exec.bind_apply, hx] at h
  exact h

end Unexhausted

/--
The second result is the first one, unless that is a fault of a certain kind.
-/
def Exec.Upto (kind : Fault → Prop) (r r' : EStateM.Result Fault Machine α) : Prop :=
  r' = r ∨ ∃ fault m, kind fault ∧ r = .error fault m

namespace Exec.Upto

variable {kind : Fault → Prop} {r r' : EStateM.Result Fault Machine α} {m : Machine}

theorem refl (r : EStateM.Result Fault Machine α) : Upto kind r r :=
  .inl rfl

theorem eq (h : Upto kind r r') (hkind : ∀ fault n, kind fault → r ≠ .error fault n) : r' = r := by
  rcases h with heq | ⟨fault, n, hfault, heq⟩
  . exact heq
  . exact absurd heq (hkind fault n hfault)

theorem eq_of_ok {a : α} {n : Machine} (h : Upto kind r r') (hok : r = .ok a n) : r' = .ok a n := by
  rw [h.eq (by simp [hok]), hok]

theorem bind {x y : Exec α} {f g : α → Exec β} (h : Upto kind (x m) (y m))
    (hf : ∀ a n, x m = .ok a n → Upto kind (f a n) (g a n)) : Upto kind ((x >>= f) m) ((y >>= g) m) := by
  rw [bind_apply, bind_apply]
  rcases h with heq | ⟨fault, n, hfault, heq⟩
  . rw [heq]
    match hx : x m with
    | .ok a n => exact hf a n hx
    | .error fault n => exact refl _
  . rw [heq]
    exact .inr ⟨fault, n, hfault, rfl⟩

theorem mapM {f g : α → Exec β} {as : List α} (h : ∀ a m, Upto kind (f a m) (g a m))
    : Upto kind (as.mapM f m) (as.mapM g m) := by
  induction as generalizing m with
  | nil => exact refl _
  | cons a as ih =>
    rw [List.mapM_cons, List.mapM_cons]
    exact bind (h a m) fun b n _ => bind ih fun bs n _ => refl _

theorem filterMapM {f g : α → Exec (Option β)} {as : List α}
    (h : ∀ a m, Upto kind (f a m) (g a m)) : Upto kind (as.filterMapM f m) (as.filterMapM g m) := by
  rw [filterMapM_eq_map, filterMapM_eq_map, map_eq_pure_bind, map_eq_pure_bind]
  exact bind (mapM h) fun bs n _ => refl _

theorem resetTo {x y : Exec α} (p : Machine) (h : Upto kind (x m) (y m))
    : Upto kind (Exec.resetTo p x m) (Exec.resetTo p y m) := by
  unfold Exec.resetTo
  rcases h with heq | ⟨fault, n, hfault, heq⟩
  . rw [heq]
    exact refl _
  . rw [heq]
    exact .inr ⟨fault, _, hfault, rfl⟩

end Exec.Upto

theorem Exec.mapM_cases {f : α → Exec β} {P : α → γ → Prop} {Q : Fault → Prop}
    {R : SymbolTable → γ → β → Prop} {as : List α} {cs : List γ} {symbols : SymbolTable} {m : Machine}
    (hmono : ∀ {symbols symbols' : SymbolTable} {c : γ} {b : β}, R symbols c b → symbols ≤ symbols' →
      R symbols' c b)
    (hstep : ∀ {a : α} {c : γ} {m : Machine}, P a c → symbols ≤ m.symbols → Unexhausted (f a m) →
      (∃ fault m', f a m = .error fault m' ∧ Q fault) ∨
        ∃ b m', f a m = .ok b m' ∧ m.symbols ≤ m'.symbols ∧ R m'.symbols c b)
    (hP : List.Forall₂ P as cs) (hle : symbols ≤ m.symbols) (hrun : Unexhausted (as.mapM f m))
    : (∃ fault m', as.mapM f m = .error fault m' ∧ Q fault) ∨
      ∃ bs m', as.mapM f m = .ok bs m' ∧ m.symbols ≤ m'.symbols ∧
        List.Forall₂ (R m'.symbols) cs bs := by
  induction hP generalizing m with
  | nil => exact .inr ⟨[], m, rfl, Interner.le_refl _, .nil⟩
  | cons hP _ ih =>
    rw [List.mapM_cons] at hrun ⊢
    rcases hstep hP hle hrun.of_bind with ⟨fault, m', heq, hQ⟩ | ⟨b, m₁, heq, hle₁, hR⟩
    . exact .inl ⟨fault, m', Exec.bind_of_error heq, hQ⟩
    . have hrun₁ := hrun.of_bind_ok heq
      rw [Exec.bind_of_ok heq]
      rcases ih (Interner.le_trans hle hle₁) hrun₁.of_bind with
        ⟨fault, m', heq', hQ⟩ | ⟨bs, m', heq', hle', hRs⟩
      . exact .inl ⟨fault, m', Exec.bind_of_error heq', hQ⟩
      . right
        -- what held of `b` when it was computed has to survive the growth of the table since then
        refine ⟨b :: bs, m', ?_, Interner.le_trans hle₁ hle', .cons (hmono hR hle') hRs⟩
        rw [Exec.bind_of_ok heq']
        rfl

theorem Exec.mapM_follow {f : α → Exec β} {g : α → Exec γ} {R : β → γ → Prop} {as : List α}
    {symbols : SymbolTable} {m n m' : Machine} {bs : List β}
    (hstep : ∀ a ∈ as, ∀ {m n m' : Machine} {b : β}, symbols ≤ m.symbols → f a m = .ok b n →
      m'.symbols = m.symbols → m.symbols ≤ n.symbols ∧
        ∃ c n', g a m' = .ok c n' ∧ n'.symbols = n.symbols ∧ R b c)
    (hle : symbols ≤ m.symbols) (hok : as.mapM f m = .ok bs n) (hsame : m'.symbols = m.symbols)
    : ∃ cs n', as.mapM g m' = .ok cs n' ∧ n'.symbols = n.symbols ∧ List.Forall₂ R bs cs := by
  induction as generalizing m m' bs with
  | nil =>
    cases hok
    exact ⟨[], m', rfl, hsame, .nil⟩
  | cons a as ih =>
    rw [List.mapM_cons] at hok ⊢
    simp only [bind_eq_ok] at hok
    rcases hok with ⟨b, m₁, hb, bs', m₂, hbs, ⟨⟩⟩
    rcases hstep a List.mem_cons_self hle hb hsame with ⟨hle₁, c, m₁', hc, hsame₁, hR⟩
    rcases ih (fun a' ha' => hstep a' (List.mem_cons_of_mem a ha')) (Interner.le_trans hle hle₁)
      hbs hsame₁ with ⟨cs, n', hcs, hsame₂, hRs⟩
    rw [bind_of_ok hc, bind_of_ok hcs]
    exact ⟨c :: cs, n', rfl, hsame₂, .cons hR hRs⟩

namespace State

structure RunsAt (s : State) (pc : Nat) : Prop where
  pc_eq : s.pc = some pc
  failed_eq : s.failed = false
  completed_eq : s.completed = false

theorem RunsAt.next?_eq {s : State} {pc : Nat} (h : s.RunsAt pc) : s.next? = some pc := by
  simp [next?, h.pc_eq, h.failed_eq, h.completed_eq]

theorem RunsAt.advance {s : State} {pc : Nat} (h : s.RunsAt pc) : s.advance.RunsAt (pc + 1) where
  pc_eq := by simp [State.advance, h.pc_eq]
  failed_eq := h.failed_eq
  completed_eq := h.completed_eq

theorem RunsAt.advance_eq {s : State} {pc : Nat} (h : s.RunsAt pc)
    : s.advance = { s with pc := some (pc + 1) } := by
  simp [State.advance, h.pc_eq]

theorem leave_nil {s : State} (hcalls : s.calls = []) : s.leave = { s with completed := true } := by
  simp [leave, hcalls]

theorem leave_cons {s : State} {frame : Frame} {calls : List Frame}
    (hcalls : s.calls = frame :: calls)
    : s.leave = { s with
        heap := s.heap.take frame.heapSize
        registers := s.registers.take frame.registerCount
        calls := calls
        pc := some frame.pc
        jumpTo := frame.jumpTo } := by
  simp [leave, hcalls]

end State

namespace execute

variable {gather : Nat → Exec (List Goal)} {computeFeatures : Bool} {m m' : Machine}

theorem stepping_update {f : Machine → Except Fault Machine} (h : f m = .ok m')
    : stepping (Exec.update f) m = .ok ∅ { m' with state := m'.state.advance } := by
  unfold stepping
  show EStateM.bind (Exec.update f) _ m = _
  unfold EStateM.bind
  rw [Exec.update_eq_ok.mpr h]
  rfl

theorem stepping_update_fault {f : Machine → Except Fault Machine} {fault : Fault}
    (h : f m = .error fault) : stepping (Exec.update f) m = .error fault m := by
  unfold stepping
  show EStateM.bind (Exec.update f) _ m = _
  unfold EStateM.bind Exec.update
  rw [h]

end execute

def Machine.withFeatures (m : Machine) (features : List Feature) : Machine :=
  { m with features := features }

@[simp]
theorem Machine.withFeatures_state (m : Machine) (features : List Feature)
    : (m.withFeatures features).state = m.state := rfl

section Position

variable {gather : Nat → Exec (List Goal)} {computeFeatures : Bool} {instr : Instruction}
  {m n : Machine} {report : Features}

theorem Machine.appendArgument_eq_ok {arg : Argument} {operation : String}
    (h : m.appendArgument arg operation = .ok n) : n = m.withFeatures n.features := by
  unfold appendArgument at h
  split at h
  . contradiction
  . cases h
    rfl

theorem Machine.appendRegister_eq_ok {reg : Int} (h : m.appendRegister reg = .ok n)
    : n = m.withFeatures n.features := by
  simp only [appendRegister, Except.bind_eq_ok] at h
  rcases h with ⟨_, _, _, _, _, _, h⟩
  split at h
  . contradiction
  . split at h
    . contradiction
    . exact appendArgument_eq_ok h

theorem execute.stepping_update_eq_ok {f : Machine → Except Fault Machine}
    (h : stepping (Exec.update f) m = .ok report n)
    : report = ∅ ∧ ∃ m₁, f m = .ok m₁ ∧ n = { m₁ with state := m₁.state.advance } := by
  simp only [stepping, Exec.bind_eq_ok] at h
  rcases h with ⟨_, m₁, hm₁, _, _, ⟨⟩, ⟨⟩⟩
  exact ⟨rfl, m₁, Exec.update_eq_ok.mp hm₁, rfl⟩

theorem execute_feature (hfeature : instr.isFeature = true) (hfindall : ∀ addr, instr ≠ .ffindall addr)
    (h : execute gather computeFeatures instr m = .ok report n)
    : n = { m with state := m.state.advance, features := n.features } := by
  rw [execute_eq_whole] at h
  unfold execute.whole at h
  split at h
  . cases h
    rfl
  cases instr with
  | fclear =>
    cases h
    rfl
  | fpushStart functor arity =>
    cases h
    rfl
  | fpushConst name =>
    rcases execute.stepping_update_eq_ok h with ⟨_, m₁, hm₁, rfl⟩
    rw [Machine.appendArgument_eq_ok hm₁]
    rfl
  | fpushBoundVar reg =>
    rcases execute.stepping_update_eq_ok h with ⟨_, m₁, hm₁, rfl⟩
    rw [Machine.appendRegister_eq_ok hm₁]
    rfl
  | freport =>
    cases h
    rfl
  | ffindall addr => exact absurd rfl (hfindall addr)
  | _ => simp [Instruction.isFeature] at hfeature

theorem execute_report (hreport : instr ≠ .freport)
    (h : execute gather computeFeatures instr m = .ok report n) : report = ∅ := by
  have hstepping : ∀ {action : Exec Unit} {m : Machine},
      execute.stepping action m = .ok report n → report = ∅ := by
    intro action m h
    simp only [execute.stepping, Exec.bind_eq_ok] at h
    rcases h with ⟨_, _, _, _, _, _, ⟨⟩⟩
    rfl
  rw [execute_eq_whole] at h
  unfold execute.whole at h
  split at h
  . cases h
    rfl
  cases instr with
  | callp label =>
    cases h
    rfl
  | returnp =>
    cases h
    rfl
  | pushFreeVar reg => exact hstepping h
  | freport => contradiction
  | ffindall addr =>
    simp only [Exec.bind_eq_ok] at h
    rcases h with ⟨_, _, _, _, _, _, h⟩
    exact hstepping h
  | _ => exact hstepping h

theorem State.runsAt_of_next? {s : State} {pc : Nat} (h : s.next? = some pc) : s.RunsAt pc := by
  have hpc := next?_eq_some h
  unfold next? at h
  split at h
  . contradiction
  . next hends =>
    rw [Bool.or_eq_true, not_or, Bool.not_eq_true, Bool.not_eq_true] at hends
    exact ⟨hpc, hends.1, hends.2⟩

end Position

namespace Program

variable {program : Program} {gather : Nat → Exec (List Goal)} {computeFeatures : Bool}
  {m m' : Machine} {pc : Nat} {instr : Instruction}

theorem runOn_pause (h : m.state.next? = none)
    : program.runOn gather computeFeatures m = .ok ∅ m := by
  rw [runOn_eq, h]

theorem runOn_step (hat : m.state.RunsAt pc) (hinstr : program.code[pc]? = some instr)
    (hexec : execute gather computeFeatures instr m = .ok ∅ m')
    : program.runOn gather computeFeatures m = program.runOn gather computeFeatures m' := by
  rw [runOn_eq, hat.next?_eq]
  simp [instruction_eq_ok_of_getElem? hinstr, hexec]

theorem runOn_update {f : Machine → Except Fault Machine} (hat : m.state.RunsAt pc)
    (hinstr : program.code[pc]? = some instr)
    (hexec : execute gather computeFeatures instr m = execute.stepping (Exec.update f) m)
    (hf : f m = .ok m')
    : program.runOn gather computeFeatures m =
      program.runOn gather computeFeatures { m' with state := m'.state.advance } := by
  apply runOn_step hat hinstr
  rw [hexec, execute.stepping_update hf]

theorem runOn_report {report : Features} (hat : m.state.RunsAt pc)
    (hinstr : program.code[pc]? = some instr)
    (hexec : execute gather computeFeatures instr m = .ok report m') (hreport : report.isEmpty = false)
    : program.runOn gather computeFeatures m = .ok report m' := by
  rw [runOn_eq, hat.next?_eq]
  simp [instruction_eq_ok_of_getElem? hinstr, hexec, hreport]

theorem runOn_fault {fault : Fault} (hat : m.state.RunsAt pc)
    (hinstr : program.code[pc]? = some instr)
    (hexec : execute gather computeFeatures instr m = .error fault m')
    : program.runOn gather computeFeatures m = .error fault m' := by
  rw [runOn_eq, hat.next?_eq]
  simp [instruction_eq_ok_of_getElem? hinstr, hexec]

theorem run_apply {start : Option Nat}
    : program.run gather start computeFeatures m =
      program.runOn gather computeFeatures
        { m with state := { m.state with
            pc := start <|> m.state.pc
            failed := false
            completed := false } } := by
  rfl

theorem run_none (hat : m.state.RunsAt pc)
    : program.run gather none computeFeatures m = program.runOn gather computeFeatures m := by
  rcases m with ⟨⟨heap, registers, calls, pc', jumpTo, failed, completed⟩, symbols, features⟩
  rcases hat with ⟨hpc, hfailed, hcompleted⟩
  simp only at hpc hfailed hcompleted
  subst hpc hfailed hcompleted
  rfl

/--
A run that comes to no fault, instruction by instruction.
-/
inductive Runs (program : Program) (gather : Nat → Exec (List Goal)) (computeFeatures : Bool)
    : Machine → Features → Machine → Prop where
  | pause {m : Machine} (h : m.state.next? = none) : Runs program gather computeFeatures m ∅ m
  | step {m m' n : Machine} {pc : Nat} {instr : Instruction} {report report' : Features}
      (hat : m.state.RunsAt pc) (hinstr : program.code[pc]? = some instr)
      (hexec : execute gather computeFeatures instr m = .ok report' m')
      (hempty : report'.isEmpty = true) (h : Runs program gather computeFeatures m' report n)
      : Runs program gather computeFeatures m report n
  | report {m n : Machine} {pc : Nat} {instr : Instruction} {report : Features}
      (hat : m.state.RunsAt pc) (hinstr : program.code[pc]? = some instr)
      (hexec : execute gather computeFeatures instr m = .ok report n)
      (hreport : report.isEmpty = false) : Runs program gather computeFeatures m report n

theorem runs_of_runOn {n : Machine} {report : Features}
    (h : program.runOn gather computeFeatures m = .ok report n)
    : Runs program gather computeFeatures m report n := by
  induction m using Program.runOn.induct program gather computeFeatures with
  | case1 m hnext =>
    rw [runOn_eq, hnext] at h
    cases h
    exact .pause hnext
  | case2 m pc hnext fault hinstr =>
    rw [runOn_eq, hnext] at h
    simp only [hinstr] at h
    contradiction
  | case3 m pc hnext instr hinstr fault m' hexec =>
    rw [runOn_eq, hnext] at h
    simp only [hinstr, hexec] at h
    contradiction
  | case4 m pc hnext instr hinstr report' m' hexec hempty ih =>
    rw [runOn_eq, hnext] at h
    simp only [hinstr, hexec, hempty, if_true] at h
    exact .step (State.runsAt_of_next? hnext) (instruction_eq_ok hinstr) hexec hempty (ih h)
  | case5 m pc hnext instr hinstr report' m' hexec hempty =>
    rw [runOn_eq, hnext] at h
    simp only [hinstr, hexec, hempty] at h
    cases h
    exact .report (State.runsAt_of_next? hnext) (instruction_eq_ok hinstr) hexec
      (Bool.not_eq_true _ ▸ hempty)

end Program

end HornMachine
