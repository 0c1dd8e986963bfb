import HornMachine.Environment.Basic

/-!
This module contains the collection of the features that a search reports: the states behind an address
are visited in depth, and the features of every step are kept that lead to one of them.
-/

namespace HornMachine

namespace Environment

/--
The successors of a state inside a collection. A state that stopped at a report goes on from there.
-/
def expand (env : Environment) (run : Runner) (s : State) : Exec (List Outlink) := do
  match s.pc with
  | some _ =>
    Exec.restore s
    let features ← run none true
    return [⟨some features, ← Exec.save⟩]
  | none => env.outlinksWith run s true

def gatherLinks (found : List Goal) (links : List Outlink) : List Goal :=
  (links.filterMap Outlink.features).foldl Features.gather found

def Levels : Type := List Nat

namespace Levels

/--
A state goes off the list, or states with one level less come in its place.
-/
inductive Below : List Nat → List Nat → Prop where
  | drop (n : Nat) (ns : List Nat) : Below ns (n :: ns)
  | expand (n count : Nat) (ns : List Nat) : Below (List.replicate count n ++ ns) ((n + 1) :: ns)

theorem acc_cons (n : Nat) {ns : List Nat} (h : Acc Below ns) : Acc Below (n :: ns) := by
  induction n generalizing ns with
  | zero =>
    refine ⟨_, fun ns' hbelow => ?_⟩
    cases hbelow
    exact h
  | succ n ih =>
    refine ⟨_, fun ns' hbelow => ?_⟩
    cases hbelow with
    | drop => exact h
    | expand _ count =>
      induction count with
      | zero => exact h
      | succ count ihcount => exact ih ihcount

theorem acc (ns : List Nat) : Acc Below ns := by
  induction ns with
  | nil => exact ⟨_, fun _ hbelow => nomatch hbelow⟩
  | cons n ns ih => exact acc_cons n ih

instance : WellFoundedRelation Levels where
  rel := Below
  wf := ⟨acc⟩

/--
A state on a worklist comes with its depth, which is the number of steps that led to it.
-/
def ofWork (limit : Nat) (work : List (State × Nat)) : Levels :=
  work.map fun (_, depth) => limit - depth

theorem below_expand {limit depth : Nat} (hdepth : ¬limit ≤ depth) (s : State) (links : List Outlink)
    (work : List (State × Nat))
    : Below (ofWork limit (links.map (fun link => (link.state, depth + 1)) ++ work))
        (ofWork limit ((s, depth) :: work)) := by
  have hleft : limit - depth = limit - (depth + 1) + 1 := by omega
  show Below (List.map _ _) ((limit - depth) :: ofWork limit work)
  rw [List.map_append, List.map_map, Function.comp_def, List.map_const', hleft]
  exact .expand _ _ _

end Levels

/--
Visits the states on a worklist, the first one first, and puts the features of the steps from them
behind the goals `found` before. The states that the steps lead to come in front of the others. A state
at the depth `limit` must have come to its end; if it has not, the fault names that limit.
-/
def visitAll (successors : State → Exec (List Outlink)) (limit : Nat) (work : List (State × Nat))
    (found : List Goal) (m : Machine) : EStateM.Result Fault Machine (List Goal) :=
  match work with
  | [] => .ok found m
  | (s, depth) :: work =>
    if s.completed || s.failed then
      visitAll successors limit work found m
    else if _hdepth : limit ≤ depth then
      .error (.findallDepthExceeded limit) m
    else
      match successors s m with
      | .error fault m' => .error fault m'
      | .ok links m' =>
        let children := links.map fun link => (link.state, depth + 1)
        visitAll successors limit (children ++ work) (gatherLinks found links) m'
termination_by Levels.ofWork limit work
decreasing_by
  . exact .drop _ _
  . exact Levels.below_expand _hdepth _ _ _

/--
Collects the features that a run from `addr` and the search behind it report. After the search the
state and the features under construction are those from before the run; a run that fails keeps what
it left behind.
-/
def gatherWith (env : Environment) (run : Runner) (addr : Nat) : Exec (List Goal) := do
  let m ← get
  modify fun m => { m with state := m.state.clearCalls, features := [] }
  let report ← run (some addr) true
  let start ← Exec.save
  let limit := env.config.maxFindallDepth
  Exec.resetTo m (visitAll (env.expand run) limit [(start, 0)] (Features.gather [] report))

def gather (env : Environment) : (nesting : Nat) → (addr : Nat) → Exec (List Goal)
  | 0, _ => throw .nestingExceeded
  | nesting + 1, addr => env.gatherWith (env.program.run (env.gather nesting)) addr

def run (env : Environment) : Runner :=
  env.program.run (env.gather env.nesting)

/--
Executes an instruction that need not be in the program.
-/
def execute (env : Environment) (instr : Instruction) (computeFeatures : Bool) : Exec Features :=
  HornMachine.execute (env.gather env.nesting) computeFeatures instr

def outlinks (env : Environment) (s : State) (computeFeatures : Bool) : Exec (List Outlink) :=
  env.outlinksWith env.run s computeFeatures

end Environment

end HornMachine
