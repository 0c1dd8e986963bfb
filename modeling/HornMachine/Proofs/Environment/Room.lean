import HornMachine.Facts
import HornMachine.Proofs.Environment.Spared
import HornMachine.Proofs.Environment.Visit
import HornMachine.Proofs.Machine.Room

/-!
This module contains runs that never exhaust the ids of constants: a program can only intern the constants
that it names, so a table with room for these is enough for all runs and all searches.
-/

namespace HornMachine

namespace Exec

def Roomy (names : List String) (action : Exec α) : Prop :=
  ∀ m : Machine, m.HasRoom names →
    match action m with
    | .ok _ m' => m'.HasRoom names
    | .error fault m' => m'.HasRoom names ∧ ∀ entries, fault ≠ .poolExhausted entries

namespace Roomy

variable {names : List String}

theorem unexhausted {action : Exec α} (h : Roomy names action) {m : Machine} (hroom : m.HasRoom names)
    : Unexhausted (action m) := by
  intro entries m' heq
  have := h m hroom
  rw [heq] at this
  exact this.2 entries rfl

theorem hasRoom {action : Exec α} (h : Roomy names action) {m m' : Machine} {a : α}
    (hroom : m.HasRoom names) (heq : action m = .ok a m') : m'.HasRoom names := by
  have := h m hroom
  rw [heq] at this
  exact this

theorem pure (a : α) : Roomy names (pure a : Exec α) :=
  fun _ hroom => hroom

theorem bind {x : Exec α} {f : α → Exec β} (hx : Roomy names x) (hf : ∀ a, Roomy names (f a))
    : Roomy names (x >>= f) := by
  intro m hroom
  have hx := hx m hroom
  rw [bind_apply]
  match hok : x m with
  | .ok a m' =>
    rw [hok] at hx
    exact hf a m' hx
  | .error fault m' =>
    rw [hok] at hx
    exact hx

theorem throw {fault : Fault} (h : ∀ entries, fault ≠ .poolExhausted entries)
    : Roomy names (throw fault : Exec α) :=
  fun _ hroom => ⟨hroom, h⟩

theorem modify {f : Machine → Machine} (h : ∀ m, (f m).symbols = m.symbols)
    : Roomy names (modify f : Exec Unit) := by
  intro m hroom
  show (f m).symbols.Room names
  rw [h]
  exact hroom

theorem onState (f : State → State) : Roomy names (onState f) :=
  modify fun _ => rfl

theorem restore (s : State) : Roomy names (restore s) :=
  onState _

theorem advance : Roomy names advance :=
  onState _

theorem save : Roomy names save :=
  fun _ hroom => hroom

theorem get : Roomy names (get : Exec Machine) :=
  fun _ hroom => hroom

theorem update {f : Machine → Except Fault Machine}
    (h : ∀ m : Machine, m.HasRoom names → Machine.Retains names (f m))
    : Roomy names (update f) := by
  intro m hroom
  have hf := h m hroom
  unfold Exec.update
  match hok : f m with
  | .ok m' =>
    rw [hok] at hf
    exact hf
  | .error fault =>
    rw [hok] at hf
    exact ⟨hroom, hf⟩

theorem read {f : Machine → Except Fault α} (h : ∀ m : Machine, m.state.heap.Accesses (f m))
    : Roomy names (read f) := by
  intro m hroom
  unfold Exec.read
  match hok : f m with
  | .ok a => exact hroom
  | .error fault => exact ⟨hroom, ((h m).of_error hok).notFull⟩

theorem resetTo {action : Exec α} (h : Roomy names action) (m₀ : Machine)
    : Roomy names (resetTo m₀ action) := by
  intro m hroom
  have h := h m hroom
  unfold Exec.resetTo
  match hok : action m with
  | .ok a m' =>
    rw [hok] at h
    exact h
  | .error fault m' =>
    rw [hok] at h
    exact h

theorem mapM {f : α → Exec β} {as : List α} (h : ∀ a ∈ as, Roomy names (f a))
    : Roomy names (as.mapM f) := by
  induction as with
  | nil => exact pure []
  | cons a as ih =>
    rw [List.mapM_cons]
    apply (h a List.mem_cons_self).bind
    intro b
    apply (ih fun a' ha' => h a' (List.mem_cons_of_mem a ha')).bind
    intro bs
    exact pure (b :: bs)

theorem map {x : Exec α} (h : Roomy names x) (f : α → β) : Roomy names (f <$> x) := by
  rw [← bind_pure_comp]
  exact h.bind fun _ => pure _

theorem filterMapM {α β : Type} {f : α → Exec (Option β)} {as : List α}
    (h : ∀ a ∈ as, Roomy names (f a)) : Roomy names (as.filterMapM f) := by
  rw [filterMapM_eq_map]
  exact (mapM h).map _

theorem foldlM {f : β → α → Exec β} (h : ∀ b a, Roomy names (f b a)) (b : β) (as : List α)
    : Roomy names (as.foldlM f b) := by
  induction as generalizing b with
  | nil => exact pure b
  | cons a as ih =>
    rw [List.foldlM_cons]
    exact (h b a).bind ih

end Roomy

end Exec

def Instruction.constant? : Instruction → Option String
  | .pushConst name => some name
  | .unifyConst name _ => some name
  | _ => none

def Program.constants (program : Program) : List String :=
  program.code.toList.filterMap Instruction.constant?

section Run

variable {names : List String} {gather : Nat → Exec (List Goal)} {computeFeatures : Bool}
  (hgather : ∀ addr, Exec.Roomy names (gather addr))
include hgather

omit hgather in
theorem roomy_stepping {action : Exec Unit} (h : Exec.Roomy names action)
    : Exec.Roomy names (execute.stepping action) :=
  h.bind fun _ => Exec.Roomy.advance.bind fun _ => .pure _

theorem roomy_execute {instr : Instruction} (hconstant : ∀ name ∈ instr.constant?, name ∈ names)
    : Exec.Roomy names (execute gather computeFeatures instr) := by
  rw [execute_eq_whole]
  unfold execute.whole
  split
  . exact Exec.Roomy.advance.bind fun _ => .pure _
  . cases instr with
    | grow count => exact roomy_stepping (.onState _)
    | callp label => exact (Exec.Roomy.onState _).bind fun _ => .pure _
    | returnp => exact (Exec.Roomy.onState _).bind fun _ => .pure _
    | pushConst name =>
      exact roomy_stepping (.update fun m hroom =>
        Machine.gives_pushConst (Machine.gives_intern hroom (hconstant name rfl)))
    | pushFreeVar reg =>
      apply Exec.Roomy.get.bind
      intro m
      apply roomy_stepping
      apply (Exec.Roomy.onState _).bind
      intro _
      exact .update fun m hroom => Machine.gives_setRegister Fault.Local.notFull hroom reg _
    | pushBoundVar reg =>
      exact roomy_stepping (.update fun m hroom =>
        Machine.gives_pushBoundVar Fault.Local.notFull hroom reg)
    | unifyConst name offset =>
      exact roomy_stepping (.update fun m hroom =>
        Machine.gives_unifyConst Fault.Local.notFull hroom
          (Machine.gives_intern hroom (hconstant name rfl)) offset)
    | initFreeVar reg offset =>
      exact roomy_stepping (.update fun m hroom =>
        Machine.gives_initFreeVar Fault.Local.notFull hroom reg offset)
    | unifyBoundVar reg offset =>
      exact roomy_stepping (.update fun m hroom =>
        Machine.gives_unifyBoundVar Fault.Local.notFull hroom reg offset)
    | fclear => exact roomy_stepping (.modify fun _ => rfl)
    | fpushStart functor arity => exact roomy_stepping (.modify fun _ => rfl)
    | fpushConst name =>
      exact roomy_stepping (.update fun m hroom =>
        Machine.gives_appendArgument Fault.Local.notFull hroom _ _)
    | fpushBoundVar reg =>
      exact roomy_stepping (.update fun m hroom =>
        Machine.gives_appendRegister Fault.Local.notFull hroom reg)
    | freport => exact Exec.Roomy.get.bind fun _ => Exec.Roomy.advance.bind fun _ => .pure _
    | ffindall addr =>
      apply Exec.Roomy.get.bind
      intro m
      apply (hgather addr).bind
      intro goals
      exact roomy_stepping (.modify fun _ => rfl)

theorem roomy_runOn {program : Program} (hconstants : program.constants ⊆ names)
    : Exec.Roomy names (program.runOn gather computeFeatures) := by
  have hexecute : ∀ {pc : Nat} {instr : Instruction}, program.instruction pc = .ok instr →
      Exec.Roomy names (execute gather computeFeatures instr) := by
    intro pc instr hinstr
    apply roomy_execute hgather
    intro name hname
    apply hconstants
    apply List.mem_filterMap.mpr
    exact ⟨instr, Array.mem_toList_iff.mpr
      (Array.mem_of_getElem? (Program.instruction_eq_ok hinstr)), hname⟩
  intro m
  -- the run ends after an instruction that pauses it, comes to a fault or reports, and else goes on
  induction m using Program.runOn.induct program gather computeFeatures with
  | case1 m hnext =>
    intro hroom
    rw [Program.runOn_eq, hnext]
    exact hroom
  | case2 m pc hnext fault hinstr =>
    intro hroom
    rw [Program.runOn_eq, hnext]
    simp only [hinstr]
    refine ⟨hroom, ?_⟩
    intro entries heq
    unfold Program.instruction at hinstr
    split at hinstr
    . contradiction
    . rw [heq] at hinstr
      simp at hinstr
  | case3 m pc hnext instr hinstr fault m' hexec =>
    intro hroom
    have h := hexecute hinstr m hroom
    rw [hexec] at h
    rw [Program.runOn_eq, hnext]
    simp only [hinstr, hexec]
    exact h
  | case4 m pc hnext instr hinstr report m' hexec hempty ih =>
    intro hroom
    have h := hexecute hinstr m hroom
    rw [hexec] at h
    rw [Program.runOn_eq, hnext]
    simp only [hinstr, hexec, hempty, if_true]
    exact ih h
  | case5 m pc hnext instr hinstr report m' hexec hempty =>
    intro hroom
    have h := hexecute hinstr m hroom
    rw [hexec] at h
    rw [Program.runOn_eq, hnext]
    simp only [hinstr, hexec, hempty]
    exact h

theorem roomy_run {program : Program} (hconstants : program.constants ⊆ names) (start : Option Nat)
    : Exec.Roomy names (program.run gather start computeFeatures) :=
  (Exec.Roomy.onState _).bind fun _ => roomy_runOn hgather hconstants

end Run

def Plugin.Roomy (names : List String) (plugin : Plugin) : Prop :=
  ∀ (run : Runner) (s : State) (computeFeatures : Bool),
    (∀ (start : Option Nat) (computeFeatures : Bool), Exec.Roomy names (run start computeFeatures)) →
      Exec.Roomy names (plugin.outlinks run s computeFeatures)

namespace Environment

structure Interns (env : Environment) (names : List String) : Prop where
  constants : env.program.constants ⊆ names
  plugins : ∀ plugin ∈ env.plugins, plugin.Roomy names

section Runner

variable {env : Environment} {names : List String} {run : Runner} (h : env.Interns names)
  (hrun : ∀ (start : Option Nat) (computeFeatures : Bool),
    Exec.Roomy names (run start computeFeatures))
include hrun

theorem roomy_clauseOutlink (s : State) (computeFeatures : Bool) (addr : Nat)
    : Exec.Roomy names (clauseOutlink run s computeFeatures addr) := by
  apply (Exec.Roomy.restore s).bind
  intro _
  cases computeFeatures with
  | false =>
    exact (hrun (some addr) false).bind fun _ => Exec.Roomy.save.bind fun _ => .pure _
  | true =>
    apply (hrun (some addr) true).bind
    intro features
    apply Exec.Roomy.save.bind
    intro stopped
    show Exec.Roomy names (if _ then _ else _)
    split
    . exact .pure _
    . apply (hrun none true).bind
      intro _
      apply Exec.Roomy.save.bind
      intro after
      show Exec.Roomy names (if _ then _ else _)
      split
      . exact .pure _
      . exact .pure _

include h

theorem roomy_outlinksWith (s : State) (computeFeatures : Bool)
    : Exec.Roomy names (env.outlinksWith run s computeFeatures) := by
  unfold outlinksWith
  split
  . exact .pure _
  split
  . exact .throw (by simp)
  split
  . next plugin hfind =>
    apply (Exec.Roomy.restore s).bind
    intro _
    exact h.plugins plugin (List.mem_of_find?_eq_some hfind) run s computeFeatures hrun
  . split
    . exact .throw (by simp)
    . exact .filterMapM fun addr _ => roomy_clauseOutlink hrun s computeFeatures addr

theorem roomy_expand (s : State) : Exec.Roomy names (env.expand run s) := by
  unfold expand
  split
  . apply (Exec.Roomy.restore s).bind
    intro _
    exact (hrun none true).bind fun _ => Exec.Roomy.save.bind fun _ => .pure _
  . exact roomy_outlinksWith h hrun s true

omit h hrun in
theorem roomy_visit {successors : State → Exec (List Outlink)}
    (hsuccessors : ∀ s, Exec.Roomy names (successors s)) (limit levels : Nat) (s : State)
    (found : List Goal) : Exec.Roomy names (visit successors limit levels s found) := by
  induction levels generalizing s found with
  | zero =>
    unfold visit
    split
    . exact .pure _
    . exact .throw (by simp)
  | succ levels ih =>
    unfold visit
    split
    . exact .pure _
    . exact (hsuccessors s).bind fun links =>
        .foldlM (fun found (link : Outlink) => ih link.state found) _ links

theorem roomy_gatherWith (addr : Nat) : Exec.Roomy names (env.gatherWith run addr) := by
  rw [gatherWith_eq_visit]
  apply Exec.Roomy.get.bind
  intro m
  refine (Exec.Roomy.modify ?_).bind ?_
  . intro _
    rfl
  intro _
  apply (hrun (some addr) true).bind
  intro report
  apply Exec.Roomy.save.bind
  intro start
  exact (roomy_visit (roomy_expand h hrun) _ _ _ _).resetTo m

end Runner

variable {env : Environment} {names : List String} (h : env.Interns names)
include h

theorem roomy_gather (nesting addr : Nat) : Exec.Roomy names (env.gather nesting addr) := by
  induction nesting generalizing addr with
  | zero => exact .throw (by simp)
  | succ nesting ih =>
    exact roomy_gatherWith h (fun start _ => HornMachine.roomy_run ih h.constants start) addr

theorem roomy_run (start : Option Nat) (computeFeatures : Bool)
    : Exec.Roomy names (env.run start computeFeatures) :=
  HornMachine.roomy_run (roomy_gather h env.nesting) h.constants start

theorem roomy_outlinks (s : State) (computeFeatures : Bool)
    : Exec.Roomy names (env.outlinks s computeFeatures) :=
  roomy_outlinksWith h (roomy_run h) s computeFeatures

omit h in
theorem roomy_answerCall (found : List Goal) : Exec.Roomy names (answerCall found) := by
  apply Exec.Roomy.save.bind
  intro s
  split
  . exact .pure _
  . apply (Exec.Roomy.read Machine.accesses_waitingGoal).bind
    intro goal
    exact (Exec.Roomy.onState _).bind fun _ => .pure _

theorem roomy_pendingWithin (rounds : Nat) (found : List Goal)
    : Exec.Roomy names (env.pendingWithin rounds found) := by
  induction rounds generalizing found with
  | zero => exact .pure _
  | succ rounds ih =>
    apply (roomy_answerCall found).bind
    intro found
    apply (roomy_run h none false).bind
    intro _
    apply Exec.Roomy.save.bind
    intro s
    split
    . exact .pure _
    . exact ih found

theorem roomy_pendingGoals (s : State) : Exec.Roomy names (env.pendingGoals s) := by
  rw [pendingGoals_eq]
  apply Exec.Roomy.get.bind
  intro m
  apply Exec.Roomy.resetTo
  apply (Exec.Roomy.restore s).bind
  intro _
  apply (roomy_pendingWithin h _ []).bind
  intro goals
  cases goals with
  | some goals => exact .pure _
  | none => exact .throw (by simp)

end Environment

namespace FactTable

def constants (table : FactTable) : List String :=
  table.rows.toList.flatMap Prod.snd

variable {names : List String}

theorem roomy_bindRow {row : List String} (hrow : row ⊆ names) (arity index : Nat)
    : Exec.Roomy names (bindRow arity index row) := by
  induction row generalizing index with
  | nil => exact .pure _
  | cons value row ih =>
    have hvalue : value ∈ names := hrow List.mem_cons_self
    have ih := ih fun _ hmem => hrow (List.mem_cons_of_mem value hmem)
    apply (Exec.Roomy.read fun m => m.accesses_constantArgument arity index).bind
    intro bound
    cases bound with
    | some bound =>
      show Exec.Roomy names (if bound = value then _ else _)
      split
      . exact ih _
      . exact .pure _
    | none =>
      show Exec.Roomy names (Exec.setArgument arity index value >>= fun _ => _)
      rw [Exec.setArgument_eq]
      apply (Exec.Roomy.update fun m hroom => Machine.gives_setArgument Fault.Local.notFull
        (Machine.gives_intern hroom hvalue) arity index).bind
      intro _
      exact ih _

theorem roomy_answer {run : Runner} {row : List String} (hrow : row ⊆ names)
    (hrun : ∀ (start : Option Nat) (computeFeatures : Bool),
      Exec.Roomy names (run start computeFeatures))
    (s : State) (label : String) (computeFeatures : Bool)
    : Exec.Roomy names (answer run s label computeFeatures row) := by
  apply (Exec.Roomy.restore s).bind
  intro _
  apply (roomy_bindRow hrow _ _).bind
  intro agrees
  cases agrees with
  | false => exact .pure _
  | true =>
    apply (Exec.Roomy.onState _).bind
    intro _
    apply (hrun none computeFeatures).bind
    intro _
    apply Exec.Roomy.save.bind
    intro after
    cases computeFeatures with
    | false => exact .pure _
    | true =>
      show Exec.Roomy names (if after.failed then _ else _)
      split
      . exact .pure _
      . exact .pure _

theorem roomy_plugin {table : FactTable} (hconstants : table.constants ⊆ names)
    : table.plugin.Roomy names := by
  intro run s computeFeatures hrun
  show Exec.Roomy names (table.outlinks run s computeFeatures)
  unfold outlinks
  split
  . exact .pure _
  . next label _ =>
    split
    . exact .pure _
    . apply (Exec.Roomy.read fun _ => Signature.accesses_ofLabel? label).bind
      intro sig
      apply Exec.Roomy.filterMapM
      intro row hrow
      apply roomy_answer _ hrun
      intro value hvalue
      apply hconstants
      have hmem := List.mem_of_mem_filter hrow
      simp only [rowsOf, List.mem_filterMap] at hmem
      rcases hmem with ⟨⟨l, row'⟩, hentry, heq⟩
      split at heq
      . cases heq
        exact List.mem_flatMap.mpr ⟨_, hentry, hvalue⟩
      . contradiction

end FactTable

end HornMachine
