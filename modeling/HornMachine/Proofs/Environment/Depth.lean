import HornMachine.Proofs.Environment.Path
import HornMachine.Proofs.Environment.Restore
import HornMachine.Proofs.Program.Fence
import HornMachine.Proofs.Run.Faults
import HornMachine.Proofs.Run.Load

/-!
This module contains how deep a search goes by rules that are not recursive. Every step puts the body of a
rule in the place of a goal that weighs more, so there are no more steps than the query weighs.
-/

namespace HornMachine

namespace Exec

/--
An action always comes to an answer as described by `Q` or to a fault as described by `K`.
-/
def Meets (K : Fault → Prop) (Q : α → Prop) (action : Exec α) : Prop :=
  ∀ m : Machine,
    match action m with
    | .ok a _ => Q a
    | .error fault _ => K fault

namespace Meets

variable {K : Fault → Prop} {Q : α → Prop} {R : β → Prop} {x : Exec α}

theorem of_ok {a : α} {m n : Machine} (h : Meets K Q x) (hok : x m = .ok a n) : Q a := by
  have hm := h m
  rw [hok] at hm
  exact hm

theorem of_error {fault : Fault} {m n : Machine} (h : Meets K Q x) (herror : x m = .error fault n)
    : K fault := by
  have hm := h m
  rw [herror] at hm
  exact hm

theorem pure {a : α} (h : Q a) : Meets K Q (pure a) :=
  fun _ => h

theorem throw {fault : Fault} (h : K fault) : Meets K Q (throw fault) :=
  fun _ => h

theorem bind {f : α → Exec β} (hx : Meets K Q x) (hf : ∀ a, Q a → Meets K R (f a))
    : Meets K R (x >>= f) := by
  intro m
  rw [bind_apply]
  match hok : x m with
  | .ok a n => exact hf a (hx.of_ok hok) n
  | .error fault n => exact hx.of_error hok

theorem mapM {f : α → Exec β} {as : List α} (h : ∀ a ∈ as, Meets K R (f a))
    : Meets K (fun bs => ∀ b ∈ bs, R b) (as.mapM f) := by
  induction as with
  | nil => exact pure (by simp)
  | cons a as ih =>
    rw [List.mapM_cons]
    apply (h a List.mem_cons_self).bind
    intro b hb
    apply (ih fun a' ha' => h a' (List.mem_cons_of_mem a ha')).bind
    intro bs hbs
    exact pure (List.forall_mem_cons.mpr ⟨hb, hbs⟩)

theorem filterMapM {α β : Type} {R : β → Prop} {f : α → Exec (Option β)} {as : List α}
    (h : ∀ a ∈ as, Meets K (fun b => ∀ b' ∈ b, R b') (f a))
    : Meets K (fun bs => ∀ b ∈ bs, R b) (as.filterMapM f) := by
  rw [filterMapM_eq_map, map_eq_pure_bind]
  apply (mapM h).bind
  intro tried htried
  apply pure
  intro b hb
  exact htried (some b) (List.reduceOption_mem_iff.mp hb) b rfl

theorem foldlM {f : β → α → Exec β} {as : List α} (h : ∀ a ∈ as, ∀ b, Meets K R (f b a)) {b : β}
    (hb : R b) : Meets K R (as.foldlM f b) := by
  induction as generalizing b with
  | nil => exact pure hb
  | cons a as ih =>
    rw [List.foldlM_cons]
    apply (h a List.mem_cons_self b).bind
    intro b' hb'
    exact ih (fun a' ha' => h a' (List.mem_cons_of_mem a ha')) hb'

end Meets

end Exec

namespace State

structure Light (program : Program) (w : String → Nat) (acyclic : Prop) (load : Nat) (s : State)
    : Prop where
  weight_le : s.weight program w ≤ load
  acyclic : acyclic → s.heap.Acyclic

structure Rests (program : Program) (w : String → Nat) (acyclic : Prop) (load : Nat) (s : State)
    : Prop extends s.Light program w acyclic load where
  waits : s.failed = false → s.completed = false → s.pc = none ∧ s.Calm program

variable {program : Program} {w : String → Nat} {acyclic : Prop} {load : Nat} {s : State}

theorem Calm.exists_call (h : s.Calm program) (hpc : s.pc = none) (w : String → Nat)
    : ∃ label, s.jumpTo = some label ∧
        s.weight program w = (s.calls.map fun frame => program.weight w frame.pc).sum + w label := by
  rcases Option.isSome_iff_exists.mp (h.called hpc) with ⟨label, hlabel⟩
  refine ⟨label, hlabel, ?_⟩
  rw [weight, hpc, hlabel]
  rfl

theorem Rests.mono {load' : Nat} (h : s.Rests program w acyclic load) (hle : load ≤ load')
    : s.Rests program w acyclic load' :=
  ⟨⟨h.weight_le.trans hle, h.acyclic⟩, h.waits⟩

theorem Rests.load_pos (h : s.Rests program w acyclic load) (hw : ∀ label, 1 ≤ w label)
    (hfailed : s.failed = false) (hcompleted : s.completed = false) : 1 ≤ load := by
  rcases h.waits hfailed hcompleted with ⟨hpc, hcalm⟩
  rcases hcalm.exists_call hpc w with ⟨label, _, hweight⟩
  have hle := h.weight_le
  have hlabel := hw label
  omega

theorem pc_eq_none {s : State} (h : s.next? = none) (hfailed : s.failed = false)
    (hcompleted : s.completed = false) : s.pc = none := by
  simpa [next?, hfailed, hcompleted] using h

def begun (s : State) (addr : Nat) : State :=
  { s with pc := some addr, failed := false, completed := false }

structure Tries (program : Program) (w : String → Nat) (acyclic : Prop) (load : Nat) (s : State)
    : Prop extends s.Light program w acyclic load, s.Opening program

theorem Rests.tries {label : String} {addr : Nat} (h : s.Rests program w acyclic (load + 1))
    (hfailed : s.failed = false) (hcompleted : s.completed = false) (hlabel : s.jumpTo = some label)
    (hopens : program.OpensAt addr) (hlt : program.weight w addr < w label)
    : (s.begun addr).Tries program w acyclic load := by
  rcases h.waits hfailed hcompleted with ⟨hpc, hcalm⟩
  refine ⟨⟨?_, h.acyclic⟩, ⟨hcalm.frames, addr, rfl, hopens⟩⟩
  rcases hcalm.exists_call hpc w with ⟨label', hlabel', hweight⟩
  rw [hlabel] at hlabel'
  cases hlabel'
  -- the body of the clause takes the place of the call, which weighs more
  have hle := h.weight_le
  have hbegun : (s.begun addr).weight program w =
      (s.calls.map fun frame => program.weight w frame.pc).sum + program.weight w addr := rfl
  omega

end State

section Run

variable {program : Program} {gather : Nat → Exec (List Goal)} {computeFeatures : Bool}
  {w : String → Nat} {acyclic : Prop} {load : Nat} {m n : Machine} {report : Features}

open State

theorem Program.Runs.light (h : program.Runs gather computeFeatures m report n)
    (hm : m.state.Light program w acyclic load) : n.state.Light program w acyclic load where
  weight_le := (h.weight_eq w).le.trans hm.weight_le
  acyclic := fun ha => h.acyclic (hm.acyclic ha)

theorem rests_of_calm (hlight : m.state.Light program w acyclic load) (hcalm : m.state.Calm program)
    (hrun : program.runOn gather computeFeatures m = .ok report n)
    : n.state.Rests program w acyclic load := by
  have hruns := Program.runs_of_runOn hrun
  rcases hruns.calm hcalm with ⟨rfl, hcalm'⟩
  refine ⟨hruns.light hlight, fun hfailed hcompleted => ⟨?_, hcalm'⟩⟩
  exact pc_eq_none (hruns.next?_eq_none rfl) hfailed hcompleted

section Query

variable {start : Nat} {goals : List Literal} (hquery : program.Has start (queryCode goals))
  (hcalls : m.state.calls = []) (hacyclic : acyclic → m.state.heap.Acyclic)
include hquery hcalls hacyclic

theorem rests_run (hrun : program.run gather (some start) computeFeatures m = .ok report n)
    : n.state.Rests program w acyclic (weightOf w goals) := by
  have hcalm : (m.state.begun start).Calm program :=
    { frames := by simp [begun, hcalls]
      current := by
        rintro _ ⟨⟩
        exact hquery.calm_query
      called := by simp [begun] }
  have hlight : (m.state.begun start).Light program w acyclic (weightOf w goals) :=
    { weight_le := by
        rw [weight, ← hquery.weight_query w]
        simp [begun, hcalls]
      acyclic := hacyclic }
  exact rests_of_calm hlight hcalm hrun

end Query

theorem rests_of_false (hrun : program.runOn gather false m = .ok report n)
    (hm : m.state.Tries program w acyclic load) : n.state.Rests program w acyclic load := by
  have hruns := Program.runs_of_runOn hrun
  refine ⟨hruns.light hm.toLight, fun hfailed hcompleted => ?_⟩
  have hpc := pc_eq_none (hruns.next?_eq_none (by rw [hruns.report_false]; rfl)) hfailed hcompleted
  rcases hruns.opening hm.toOpening with hcalm | ⟨_, hopening⟩
  . exact ⟨hpc, hcalm⟩
  . rcases hopening.current with ⟨pc, hpc', _⟩
    rw [hpc] at hpc'
    contradiction

variable (hfindall : ∀ (pc addr : Nat), program.code[pc]? ≠ some (.ffindall addr))
include hfindall

theorem immediate_run {fault : Fault} {start : Option Nat} (hacyclic : acyclic → m.state.heap.Acyclic)
    (hrun : program.run gather start computeFeatures m = .error fault n)
    : fault.Immediate acyclic := by
  rw [Program.run_apply] at hrun
  refine Program.runOn_immediate hfindall ?_ hrun
  exact hacyclic

theorem meets_clauseOutlink {s : State} {addr : Nat}
    (hs : (s.begun addr).Tries program w acyclic load)
    : Exec.Meets (Fault.Immediate acyclic)
        (fun link => ∀ l ∈ link, l.state.Rests program w acyclic load)
        (Environment.clauseOutlink (program.run gather) s computeFeatures addr) := by
  intro m
  let started : Machine := { m with state := s.begun addr }
  have hstarted : program.run gather (some addr) computeFeatures { m with state := s } =
      program.runOn gather computeFeatures started := rfl
  cases computeFeatures with
  | false =>
    rw [Environment.clauseOutlink_false_apply, hstarted]
    cases hrun : program.runOn gather false started with
    | error fault n => exact Program.runOn_immediate hfindall hs.acyclic hrun
    | ok report n =>
      rintro _ ⟨⟩
      exact rests_of_false hrun hs
  | true =>
    rw [Environment.clauseOutlink_true_apply, hstarted]
    cases hrun : program.runOn gather true started with
    | error fault n => exact Program.runOn_immediate hfindall hs.acyclic hrun
    | ok report m₁ =>
      by_cases hstop : (report.isEmpty || m₁.state.failed) = true
      . simp only [if_pos hstop]
        rintro _ ⟨⟩
      . let resumed : Machine :=
          { m₁ with state := { m₁.state with failed := false, completed := false } }
        have hresumed : program.run gather none true m₁ = program.runOn gather true resumed := rfl
        have hruns := Program.runs_of_runOn hrun
        have hstopped := hruns.light hs.toLight
        have hlight : resumed.state.Light program w acyclic load :=
          ⟨hstopped.weight_le, hstopped.acyclic⟩
        simp only [if_neg hstop, hresumed]
        cases hrun' : program.runOn gather true resumed with
        | error fault n => exact Program.runOn_immediate hfindall hlight.acyclic hrun'
        | ok report' n =>
          by_cases hfailed : n.state.failed = true
          . simp only [if_pos hfailed]
            rintro _ ⟨⟩
          . simp only [if_neg hfailed]
            rintro _ ⟨⟩
            rcases hruns.opening hs.toOpening with hcalm | ⟨hempty, _⟩
            . have hcalm' : resumed.state.Calm program :=
                ⟨hcalm.frames, hcalm.current, hcalm.called⟩
              exact rests_of_calm hlight hcalm' hrun'
            . rw [hempty] at hstop
              exact absurd rfl hstop

end Run

namespace Environment

open State

variable {env : Environment} {rules : List Clause} {acyclic : Prop} {load : Nat} {s : State}
  {computeFeatures : Bool} {m n : Machine} {fault : Fault}

section Search

variable {gather : Nat → Exec (List Goal)}
  (hfindall : ∀ (pc addr : Nat), env.program.code[pc]? ≠ some (.ffindall addr))
  (hrules : env.program.Implements rules) (hplugins : env.plugins = []) (h : NonRecursive rules)
include hrules

section Outlinks

variable (hs : s.Rests env.program h.weight acyclic (load + 1)) (hfailed : s.failed = false)
  (hcompleted : s.completed = false)
include hs hfailed hcompleted

theorem tries_of_mem_addresses? {label : String} {addrs : List Nat} {addr : Nat}
    (hlabel : s.jumpTo = some label) (haddrs : env.program.addresses? label = some addrs)
    (haddr : addr ∈ addrs) : (s.begun addr).Tries env.program h.weight acyclic load := by
  rcases hrules.exists_clause (Program.mem_clauses_of_addresses? haddrs haddr) with
    ⟨clause, hmem, hclause⟩
  have hlabel' : label = clause.head.signature.label := hclause.label_eq
  apply hs.tries hfailed hcompleted hlabel hclause.code.opens_clause
  rw [hclause.code.weight_clause, hlabel']
  exact h.weightOf_body_lt hmem

include hfindall

theorem meets_mapM {addrs : List Nat} {label : String} (hlabel : s.jumpTo = some label)
    (haddrs : env.program.addresses? label = some addrs)
    : ∀ addr ∈ addrs, Exec.Meets (Fault.Immediate acyclic)
        (fun link => ∀ l ∈ link, l.state.Rests env.program h.weight acyclic load)
        (clauseOutlink (env.program.run gather) s computeFeatures addr) :=
  fun _ haddr => meets_clauseOutlink hfindall
    (tries_of_mem_addresses? hrules h hs hfailed hcompleted hlabel haddrs haddr)

include hplugins

theorem meets_outlinksWith
    : Exec.Meets (Fault.Immediate acyclic)
        (fun links => ∀ link ∈ links, link.state.Rests env.program h.weight acyclic load)
        (env.outlinksWith (env.program.run gather) s computeFeatures) := by
  unfold outlinksWith
  simp only [hcompleted, Bool.false_eq_true, if_false, hplugins, List.find?_nil]
  split
  . exact .throw trivial
  . next label hlabel =>
    split
    . exact .throw trivial
    . next addrs haddrs =>
      exact .filterMapM (meets_mapM hfindall hrules h hs hfailed hcompleted hlabel haddrs)

end Outlinks

include hfindall hplugins

theorem meets_visit {limit levels : Nat} (hs : s.Rests env.program h.weight acyclic levels)
    (found : List Goal)
    : Exec.Meets (Fault.Immediate acyclic) (fun _ => True)
        (visit (env.expand (env.program.run gather)) limit levels s found) := by
  -- every step takes something off the weight of a state, so the levels last as long as it has calls
  induction levels generalizing s found with
  | zero =>
    by_cases hended : (s.completed || s.failed) = true
    . rw [visit_ended hended]
      exact .pure trivial
    . simp only [Bool.or_eq_true, not_or, Bool.not_eq_true] at hended
      have hpos := hs.load_pos h.one_le_weight hended.2 hended.1
      omega
  | succ levels ih =>
    by_cases hended : (s.completed || s.failed) = true
    . rw [visit_ended hended]
      exact .pure trivial
    . rw [visit_succ hended]
      simp only [Bool.or_eq_true, not_or, Bool.not_eq_true] at hended
      have hexpand : env.expand (env.program.run gather) s =
          env.outlinksWith (env.program.run gather) s true := by
        rw [expand, (hs.waits hended.2 hended.1).1]
      rw [hexpand]
      apply (meets_outlinksWith hfindall hrules hplugins h hs hended.2 hended.1).bind
      intro links hlinks
      exact .foldlM (fun link hlink found' => ih (hlinks link hlink) found') trivial

end Search

theorem immediate_gatherWith {gather : Nat → Exec (List Goal)} {start : Nat} {goals : List Literal}
    (hfindall : ∀ (pc addr : Nat), env.program.code[pc]? ≠ some (.ffindall addr))
    (hrules : env.program.Implements rules) (hplugins : env.plugins = []) (h : NonRecursive rules)
    (hquery : env.program.Has start (queryCode goals))
    (hlimit : weightOf h.weight goals ≤ env.config.maxFindallDepth)
    (hacyclic : acyclic → m.state.heap.Acyclic)
    (herror : env.gatherWith (env.program.run gather) start m = .error fault n)
    : fault.Immediate acyclic := by
  let cleared : Machine := { m with state := m.state.clearCalls, features := [] }
  have hcleared : acyclic → cleared.state.heap.Acyclic := hacyclic
  rcases gatherWith_eq_error herror with hrun | ⟨report, m₁, m₂, hrun, hvisit, _⟩
  . exact immediate_run hfindall hcleared hrun
  . have hrests := rests_run (w := h.weight) hquery rfl hcleared hrun
    exact (meets_visit hfindall hrules hplugins h (hrests.mono hlimit) _).of_error hvisit

end Environment

theorem Path.exists_rests {env : Environment} {rules : List Clause} {goals : List Literal}
    {computeFeatures : Bool} {start : Nat} {moves : List Move} {symbols : SymbolTable} {s : State}
    (hfindall : ∀ (pc addr : Nat), env.program.code[pc]? ≠ some (.ffindall addr))
    (hrules : env.program.Implements rules) (hplugins : env.plugins = []) (h : NonRecursive rules)
    (hquery : env.program.Has start (queryCode goals))
    (hpath : Path env computeFeatures start moves symbols s)
    : ∃ load, s.Rests env.program h.weight True load ∧
        moves.length + load = weightOf h.weight goals := by
  induction hpath with
  | start hm hrun =>
    refine ⟨_, rests_run hquery (by rw [hm]) ?_ hrun, Nat.zero_add _⟩
    rw [hm]
    exact fun _ => Heap.acyclic_empty
  | step _ hfailed hcompleted _ hlinks hlink ih =>
    rcases ih with ⟨load, hrests, hload⟩
    obtain ⟨left, rfl⟩ := Nat.exists_eq_add_of_le' (hrests.load_pos h.one_le_weight hfailed hcompleted)
    refine ⟨left, ?_, ?_⟩
    . exact (Environment.meets_outlinksWith hfindall hrules hplugins h hrests hfailed hcompleted).of_ok
        hlinks _ (List.mem_of_getElem? hlink)
    . rw [List.length_append, List.length_singleton]
      omega

/--
Rules that are not recursive make every search end. No path from a query is longer than the query weighs,
and a collection that is allowed this depth never finds it exceeded. Nor does it go on for ever: it needs
no allowance for other collections inside it, and walks in a circle only if its machine held one already.
-/
theorem Environment.search_within_weight {env : Environment} {items : List Item} {goals : List Literal}
    {i start : Nat} (hprogram : env.program = (({} : Program).compile items).2)
    (hplugins : env.plugins = []) (hitem : items[i]? = some (.query goals))
    (hstart : (({} : Program).compile items).1[i]? = some (.ok (some start)))
    (h : NonRecursive (rulesOf items)) (computeFeatures : Bool)
    : (∀ (moves : List Move) (symbols : SymbolTable) (s : State),
        Path env computeFeatures start moves symbols s → moves.length ≤ weightOf h.weight goals) ∧
      (0 < env.nesting → weightOf h.weight goals ≤ env.config.maxFindallDepth →
        ∀ (m m' : Machine) (fault : Fault),
          env.execute (.ffindall start) computeFeatures m = .error fault m' →
            (∀ limit, fault ≠ .findallDepthExceeded limit) ∧ fault ≠ .nestingExceeded ∧
              (m.state.heap.Acyclic → ∀ addr, fault ≠ .cyclicReference addr)) := by
  have hfenced : env.program.Fenced := by
    rw [hprogram]
    exact Program.fenced_compile items
  have hfindall := hfenced.getElem?_ne_ffindall
  rcases Program.compile_query hprogram hitem hstart with ⟨hrules, hquery⟩
  constructor
  . intro moves symbols s hpath
    rcases hpath.exists_rests hfindall hrules hplugins h hquery with ⟨load, _, hload⟩
    omega
  . intro hnesting hlimit m m' fault herror
    cases computeFeatures with
    | false => contradiction
    | true =>
      obtain ⟨nesting, hsucc⟩ := Nat.exists_eq_add_of_le' hnesting
      have hgather : env.gather env.nesting start m = .error fault m' := by
        rw [execute_ffindall_apply] at herror
        split at herror <;> cases herror
        assumption
      rw [hsucc] at hgather
      have himmediate := immediate_gatherWith hfindall hrules hplugins h hquery hlimit
        (fun hacyclic : m.state.heap.Acyclic => hacyclic) hgather
      refine ⟨?_, ?_, ?_⟩
      . rintro limit rfl
        exact himmediate
      . rintro rfl
        exact himmediate
      . rintro hacyclic addr rfl
        exact himmediate hacyclic

namespace Sample

def layered : List Item :=
  [.clause { head := ⟨"p", []⟩, body := [⟨"q", []⟩] }, .clause { head := ⟨"q", []⟩ },
    .query [⟨"p", []⟩]]

def layeredEnv : Environment where
  program := (({} : Program).compile layered).2
  config := { maxFindallDepth := 2 }

def narrowEnv : Environment :=
  { layeredEnv with config := { maxFindallDepth := 1 } }

def callingP : State where
  calls := [⟨0, 0, 11, none⟩]
  pc := none
  jumpTo := some "p/0"

def callingQ : State where
  calls := [⟨0, 0, 4, some "p/0"⟩, ⟨0, 0, 11, none⟩]
  pc := none
  jumpTo := some "q/0"

def proved : State where
  pc := some 11
  completed := true

end Sample

theorem Environment.search_within_weight_sample
    : ∃ h : NonRecursive (rulesOf Sample.layered), weightOf h.weight [⟨"p", []⟩] = 2 ∧
        (∃ moves, Path Sample.layeredEnv true 9 moves .empty Sample.proved ∧ moves.length = 2 ∧
          moves.length ≤ weightOf h.weight [⟨"p", []⟩]) ∧
        ∀ (m m' : Machine) (fault : Fault),
          Sample.layeredEnv.execute (.ffindall 9) true m = .error fault m' →
            ∀ limit, fault ≠ .findallDepthExceeded limit := by
  have h : NonRecursive (rulesOf Sample.layered) := by
    apply NonRecursive.of_rank fun label => if label = "p/0" then 1 else 0
    decide
  have hq : h.weight "q/0" = 1 := by
    rw [h.weight_eq]
    rfl
  have hp : h.weight "p/0" = 2 := by
    rw [h.weight_eq]
    show 1 + max (h.weight "q/0" + 0) 0 = 2
    rw [hq]
    rfl
  have hweight : weightOf h.weight [⟨"p", []⟩] = 2 := by
    show h.weight "p/0" + 0 = 2
    rw [hp]
  have hprogram : Sample.layeredEnv.program = (({} : Program).compile Sample.layered).2 := rfl
  have hitem : Sample.layered[2]? = some (.query [⟨"p", []⟩]) := rfl
  have hstart : (({} : Program).compile Sample.layered).1[2]? = some (.ok (some 9)) := by decide
  rcases search_within_weight hprogram rfl hitem hstart h true with ⟨hpaths, hfindall⟩
  have hrun : Sample.layeredEnv.run (some 9) true {} = .ok ∅ { state := Sample.callingP } := by decide +kernel
  have hlinks : Sample.layeredEnv.outlinks Sample.callingP true { state := Sample.callingP } =
      .ok [⟨some (Features.ofGoals [.noFeatures]), Sample.callingQ⟩] { state := Sample.callingQ } := by
    decide +kernel
  have hlinks' : Sample.layeredEnv.outlinks Sample.callingQ true { state := Sample.callingQ } =
      .ok [⟨some (Features.ofGoals [.noFeatures]), Sample.proved⟩] { state := Sample.proved } := by
    decide +kernel
  have hlink : [(⟨some (Features.ofGoals [.noFeatures]), Sample.callingQ⟩ : Outlink)][0]? =
      some ⟨some (Features.ofGoals [.noFeatures]), Sample.callingQ⟩ := rfl
  have hlink' : [(⟨some (Features.ofGoals [.noFeatures]), Sample.proved⟩ : Outlink)][0]? =
      some ⟨some (Features.ofGoals [.noFeatures]), Sample.proved⟩ := rfl
  have hfirst := Path.step (.start rfl hrun) rfl rfl (Interner.le_refl _) hlinks hlink
  have hpath := Path.step hfirst rfl rfl (Interner.le_refl _) hlinks' hlink'
  refine ⟨h, hweight, ⟨_, hpath, rfl, hpaths _ _ _ hpath⟩, ?_⟩
  intro m m' fault herror
  exact (hfindall (by decide) (Nat.le_of_eq hweight) m m' fault herror).1

example : Sample.narrowEnv.execute (.ffindall 9) true {} = .error (.findallDepthExceeded 1) {} := by
  have hgather : Sample.narrowEnv.gather Sample.narrowEnv.nesting 9 {} =
      .error (.findallDepthExceeded 1) {} := by
    show Sample.narrowEnv.gatherWith (Sample.narrowEnv.program.run (Sample.narrowEnv.gather 999)) 9 {} = _
    rw [Environment.gatherWith_eq_visit]
    decide +kernel
  rw [Environment.execute_ffindall_apply, hgather]

end HornMachine
