import HornMachine.Proofs.Environment.WellFormed
import HornMachine.Proofs.Machine.Sharing

/-!
This module contains sessions, in which somebody works with several machines on one symbol table in any
way that the machines offer, and goes on after faults. All states that come up are well formed. Only the
registers of a frame may be missing, and only where an instruction has taken registers away.
-/

namespace HornMachine

/--
What may be done with a machine. Snapshots are called by their number, in the order in which they were
taken; one may be handed to another machine than the one it comes from.
-/
inductive Operation where
  /-- Gets a run ready, whose instructions may be executed one at a time. -/
  | enter (start : Option Nat)
  | run (start : Option Nat) (computeFeatures : Bool)
  | execute (instr : Instruction) (computeFeatures : Bool)
  /-- Takes a snapshot of every successor. -/
  | outlinks (snapshot : Nat) (computeFeatures : Bool)
  | returnp
  | setArgument (arity index : Nat) (name : String)
  | pendingGoals (snapshot : Nat)
  | save
  | restore (snapshot : Nat)
deriving DecidableEq, Repr

def Operation.keepsRegisters : Operation → Bool
  | .execute instr _ => instr.keepsRegisters
  | _ => true

def withSnapshot (snapshots : List State) (i : Nat) (next : State → Exec (List State))
    : Exec (List State) :=
  match snapshots[i]? with
  | some s => next s
  | none => return []

/--
Performs an operation and answers the new snapshots that it takes.
-/
def Operation.perform (env : Environment) (snapshots : List State) : Operation → Exec (List State)
  | .enter start => do
    Exec.onState fun s => { s with pc := start <|> s.pc, failed := false, completed := false }
    return []
  | .run start computeFeatures => do
    let _ ← env.run start computeFeatures
    return []
  | .execute instr computeFeatures => do
    let _ ← env.execute instr computeFeatures
    return []
  | .outlinks i computeFeatures =>
    withSnapshot snapshots i fun s => do
      let links ← env.outlinks s computeFeatures
      return links.map Outlink.state
  | .returnp => do
    Exec.onState State.leave
    return []
  | .setArgument arity index name => do
    Exec.setArgument arity index name
    return []
  | .pendingGoals i =>
    withSnapshot snapshots i fun s => do
      let _ ← env.pendingGoals s
      return []
  | .save => return [← Exec.save]
  | .restore i =>
    withSnapshot snapshots i fun s => do
      Exec.restore s
      return []

structure Session where
  group : Group
  snapshots : List State := []

namespace Session

def new (count : Nat) : Session where
  group := .sharing count

def act (env : Environment) (session : Session) (k : Nat) (operation : Operation) : Session :=
  if k < session.group.members.size then
    match session.group.act k (operation.perform env session.snapshots) with
    | (.ok taken, group) => { group, snapshots := session.snapshots ++ taken }
    | (.error _, group) => { session with group }
  else
    session

def play (env : Environment) (session : Session) (history : List (Nat × Operation)) : Session :=
  history.foldl (fun session (k, operation) => session.act env k operation) session

def states (session : Session) : List State :=
  session.group.members.toList.map Member.state ++ session.snapshots

def symbols (session : Session) : SymbolTable :=
  session.group.shared 0

/--
No instruction of the program takes registers away, nor one that is executed apart from it.
-/
def KeepsRegisters (env : Environment) (history : List (Nat × Operation)) : Prop :=
  env.program.KeepsRegisters ∧ ∀ entry ∈ history, entry.2.keepsRegisters = true

structure Sound (keeps : Prop) (session : Session) : Prop where
  shares : session.group.Shares 0
  wellFormed : ∀ s ∈ session.states, s.WellFormed keeps session.symbols

variable {keeps : Prop}

theorem sound_new (count : Nat) : (new count).Sound keeps where
  shares := Group.shares_sharing count
  wellFormed := by
    intro s hs
    simp only [states, new, Group.sharing, List.append_nil, Array.toList_replicate, List.map_replicate,
      List.mem_replicate] at hs
    rw [hs.2]
    exact .empty _

namespace Sound

variable {session : Session} {k : Nat} (h : session.Sound keeps) (hk : k < session.group.members.size)

include h in
theorem wellFormed_of_snapshot {i : Nat} {s : State} (hs : session.snapshots[i]? = some s)
    : s.WellFormed keeps session.symbols := by
  apply h.wellFormed
  exact List.mem_append_right _ (List.mem_of_getElem? hs)

include h hk

theorem wellFormed_machine
    : (session.group.machine k).state.WellFormed keeps (session.group.machine k).symbols := by
  rw [h.shares.symbols_machine hk, Group.machine_eq hk]
  apply h.wellFormed
  apply List.mem_append_left
  exact List.mem_map.mpr ⟨_, Array.mem_toList_iff.mpr (Array.getElem_mem hk), rfl⟩

theorem setMachine {m : Machine} {taken : List State} (hle : session.symbols ≤ m.symbols)
    (hm : m.state.WellFormed keeps m.symbols) (htaken : ∀ s ∈ taken, s.WellFormed keeps m.symbols)
    : Sound keeps ⟨session.group.setMachine k m, session.snapshots ++ taken⟩ where
  shares := h.shares.setMachine hk
  wellFormed := by
    intro s hs
    show s.WellFormed keeps ((session.group.setMachine k m).shared 0)
    rw [h.shares.shared_setMachine hk]
    rcases List.mem_append.mp hs with hs | hs
    . rw [Group.setMachine_eq hk] at hs
      rcases List.mem_map.mp hs with ⟨member, hmember, rfl⟩
      rcases Array.mem_or_eq_of_mem_setIfInBounds (Array.mem_toList_iff.mp hmember) with hold | rfl
      . apply State.WellFormed.mono _ hle
        apply h.wellFormed
        exact List.mem_append_left _ (List.mem_map.mpr ⟨member, Array.mem_toList_iff.mpr hold, rfl⟩)
      . exact hm
    . rcases List.mem_append.mp hs with hs | hs
      . exact (h.wellFormed s (List.mem_append_right _ hs)).mono hle
      . exact htaken s hs

end Sound

section Play

variable {env : Environment} (hplugins : ∀ plugin ∈ env.plugins, plugin.Safe keeps)
  (hkeeps : keeps → env.program.KeepsRegisters) {session : Session}
include hplugins hkeeps

abbrev Takes (keeps : Prop) (symbols : SymbolTable) (action : Exec (List State)) : Prop :=
  Exec.Safe keeps symbols (fun symbols taken => ∀ s ∈ taken, s.WellFormed keeps symbols) action

omit hplugins hkeeps in
theorem takes_nothing {symbols : SymbolTable} : Takes keeps symbols (pure []) :=
  .pure fun _ => by simp

omit hplugins hkeeps in
theorem Sound.takes_withSnapshot (h : session.Sound keeps) {next : State → Exec (List State)}
    (hnext : ∀ {s : State}, s.WellFormed keeps session.symbols → Takes keeps session.symbols (next s)) (i : Nat)
    : Takes keeps session.symbols (withSnapshot session.snapshots i next) := by
  unfold withSnapshot
  cases hs : session.snapshots[i]? with
  | none => exact takes_nothing
  | some s => exact hnext (h.wellFormed_of_snapshot hs)

theorem Sound.takes_perform (h : session.Sound keeps) {operation : Operation}
    (hoperation : keeps → operation.keepsRegisters = true)
    : Takes keeps session.symbols (operation.perform env session.snapshots) := by
  cases operation with
  | enter start => exact (Exec.Safe.onState fun _ hs => hs.goto _ _ _ _).bind fun _ _ => takes_nothing
  | run start computeFeatures =>
    exact (Environment.safe_run hplugins hkeeps start computeFeatures).bind fun _ _ => takes_nothing
  | execute instr computeFeatures =>
    exact (Environment.safe_execute hplugins hkeeps hoperation computeFeatures).bind fun _ _ => takes_nothing
  | outlinks i computeFeatures =>
    apply h.takes_withSnapshot
    intro s hs
    apply (Environment.safe_outlinks hplugins hkeeps hs computeFeatures).bind
    intro links symbols' _ hlinks
    apply Exec.Safe.pure
    intro symbols'' hle s' hs'
    rcases List.mem_map.mp hs' with ⟨link, hlink, rfl⟩
    exact (hlinks link hlink).mono hle
  | returnp => exact (Exec.Safe.onState fun _ hs => hs.leave).bind fun _ _ => takes_nothing
  | setArgument arity index name =>
    exact (safe_setArgument arity index name).bind fun _ _ => takes_nothing
  | pendingGoals i =>
    apply h.takes_withSnapshot
    intro s hs
    exact (Environment.safe_pendingGoals hplugins hkeeps hs).bind fun _ _ => takes_nothing
  | save =>
    apply Exec.Safe.save.bind
    intro s _ _ hs
    exact .pure fun hle => by simpa using hs.mono hle
  | restore i =>
    apply h.takes_withSnapshot
    intro s hs
    exact (Exec.Safe.restore hs).bind fun _ _ => takes_nothing

theorem Sound.act (h : session.Sound keeps) (k : Nat) {operation : Operation}
    (hoperation : keeps → operation.keepsRegisters = true)
    : (session.act env k operation).Sound keeps := by
  unfold Session.act
  split
  . next hk =>
    have hsymbols := h.shares.symbols_machine hk
    have hleaves := h.takes_perform hplugins hkeeps hoperation (session.group.machine k)
      (by rw [hsymbols]; exact Interner.le_refl _) (h.wellFormed_machine hk)
    have hle := hleaves.le
    rw [hsymbols] at hle
    unfold Group.act
    cases hresult : operation.perform env session.snapshots (session.group.machine k) with
    | ok taken m =>
      rw [hresult] at hle hleaves
      exact h.setMachine hk hle hleaves.wellFormed (hleaves.answer rfl)
    | error fault m =>
      rw [hresult] at hle hleaves
      have hnone : ∀ s ∈ ([] : List State), s.WellFormed keeps m.symbols := by simp
      have hkept := h.setMachine hk hle hleaves.wellFormed hnone
      rw [List.append_nil] at hkept
      exact hkept
  . exact h

theorem Sound.play (h : session.Sound keeps) {history : List (Nat × Operation)}
    (hhistory : keeps → ∀ entry ∈ history, entry.2.keepsRegisters = true)
    : (session.play env history).Sound keeps := by
  unfold Session.play
  induction history generalizing session with
  | nil => exact h
  | cons entry history ih =>
    have hentry := fun hkept => hhistory hkept entry List.mem_cons_self
    exact ih (h.act hplugins hkeeps entry.1 hentry) fun hkept entry' hmem =>
      hhistory hkept entry' (List.mem_cons_of_mem entry hmem)

end Play

/--
However the machines of a session are used and whatever their program is, references lead downwards to
the lowest address of a class, constants have names, frames lie inside one another and inside the stacks,
and a return restores the sizes of the stacks and keeps the cells below. For the register stack this asks
that nothing takes registers away.
-/
theorem play_wellFormed {env : Environment} {tables : List FactTable}
    (hplugins : env.plugins = tables.map FactTable.plugin) (count : Nat)
    (history : List (Nat × Operation)) {s : State} (hs : s ∈ ((new count).play env history).states)
    : s.WellFormed (KeepsRegisters env history) ((new count).play env history).symbols ∧
      (∀ addr < s.heap.size,
        ∃ root, s.heap.root addr = .ok root ∧ IsLeast (s.heap.classOf addr) root) ∧
      ∀ (frame : Frame) (calls : List Frame), s.calls = frame :: calls →
        s.leave.heap.size = frame.heapSize ∧
          (KeepsRegisters env history → s.leave.registers.size = frame.registerCount) ∧
          s.leave.heap.toList <+: s.heap.toList := by
  have hnew : (new count).Sound (KeepsRegisters env history) := sound_new count
  have hsound := hnew.play (safe_tables hplugins) And.left And.right
  have hformed := hsound.wellFormed s hs
  refine ⟨hformed, fun addr haddr => hformed.valid.isLeast_root haddr, ?_⟩
  intro frame calls hcalls
  have hsizes := hformed.leave_sizes hcalls
  exact ⟨hsizes.1, hsizes.2, s.leave_prefix⟩

end Session

namespace Sample

def strays : FactTable :=
  .ofList [("cat", ["tom"])]

/--
Code that no compiler writes: behind the call it reads a register that there is not.
-/
def strayEnv : Environment where
  program := {
    code := #[.allocate 1, .pushFreeVar (-1), .callp "dog/1", .pushBoundVar (-5),
      .unifyConst "rex" (-1), .returnp]
    clauses := #[("dog/1", 4)] }
  plugins := [strays.plugin]

def strayHistory : List (Nat × Operation) :=
  [(0, .run (some 0) false), (0, .save), (1, .outlinks 0 true)]

def calledDog : State where
  heap := #[.ref 0]
  registers := #[some 0]
  calls := [⟨1, 1, 3, none⟩]
  pc := none
  jumpTo := some "dog/1"

def foundRex : State where
  heap := #[.const 0]
  registers := #[some 0]
  pc := some 3

end Sample

theorem Session.play_wellFormed_sample
    : ((new 2).play Sample.strayEnv Sample.strayHistory).states =
        [Sample.calledDog, Sample.foundRex, Sample.calledDog] ∧
      KeepsRegisters Sample.strayEnv Sample.strayHistory ∧
      Sample.foundRex.WellFormed True ((new 2).play Sample.strayEnv Sample.strayHistory).symbols ∧
      (∀ addr < 1, ∃ root, Sample.calledDog.heap.root addr = .ok root ∧
        IsLeast (Sample.calledDog.heap.classOf addr) root) ∧
      Sample.calledDog.leave.heap.size = 1 ∧ Sample.calledDog.leave.registers.size = 1 := by
  have hplugins : Sample.strayEnv.plugins = [Sample.strays].map FactTable.plugin := rfl
  have hkeeps : KeepsRegisters Sample.strayEnv Sample.strayHistory := by
    constructor
    . intro instr hinstr
      have hmem : instr ∈ Sample.strayEnv.program.code.toList := Array.mem_toList_iff.mpr hinstr
      revert instr
      decide
    . decide
  have hstates : ((new 2).play Sample.strayEnv Sample.strayHistory).states =
      [Sample.calledDog, Sample.foundRex, Sample.calledDog] := by decide +kernel
  have hcalled := play_wellFormed hplugins 2 Sample.strayHistory (s := Sample.calledDog)
    (by simp [hstates])
  have hfound := play_wellFormed hplugins 2 Sample.strayHistory (s := Sample.foundRex)
    (by simp [hstates])
  have hleave := hcalled.2.2 _ _ rfl
  rw [eq_true hkeeps] at hfound
  exact ⟨hstates, hkeeps, hfound.1, hcalled.2.1, hleave.1, hleave.2.1 hkeeps⟩

namespace Sample

/--
The clause allocates so many registers that their number comes round to zero.
-/
def shrinkingEnv : Environment where
  program := {
    code := #[.allocate 1, .callp "p/0", .returnp, .allocate 18446744073709551615, .callp "q/0", .returnp]
    clauses := #[("p/0", 3)] }

def shrinkingHistory : List (Nat × Operation) :=
  [(0, .run (some 0) false), (0, .save), (0, .outlinks 0 false)]

def parked : State where
  registers := #[none]
  calls := [⟨0, 1, 2, none⟩]
  pc := none
  jumpTo := some "p/0"

def shrunk : State where
  calls := [⟨0, 0, 5, some "p/0"⟩, ⟨0, 1, 2, none⟩]
  pc := none
  jumpTo := some "q/0"

end Sample

theorem Session.play_shrinks
    : Sample.shrunk ∈ ((new 1).play Sample.shrinkingEnv Sample.shrinkingHistory).states ∧
      ¬Sample.shrunk.WellFormed True ((new 1).play Sample.shrinkingEnv Sample.shrinkingHistory).symbols ∧
      Sample.shrunk.leave.leave.registers.size ≠ 1 := by
  have hstates : ((new 1).play Sample.shrinkingEnv Sample.shrinkingHistory).states =
      [Sample.shrunk, Sample.parked, Sample.shrunk] := by decide +kernel
  refine ⟨by simp [hstates], fun hformed => ?_, by decide⟩
  have hfits := (hformed.fits ⟨0, 1, 2, none⟩ (by decide)).2 trivial
  exact absurd hfits (by decide)

end HornMachine
