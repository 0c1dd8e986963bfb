import HornMachine.Proofs.Environment.Alike
import HornMachine.Proofs.Environment.Contract

/-!
This module contains the tree of the states that a search can come to. Every state in it is determined by
the numbers of the children on the way to it, up to the ids of its constants.
-/

namespace HornMachine

/--
Two answers about the successors of a state: the same fault, or the same features and states that agree.
-/
inductive SameExpansion (t : Tables)
    : Except Fault (List Outlink) → Except Fault (List Outlink) → Prop where
  | fault (fault : Fault) : SameExpansion t (.error fault) (.error fault)
  | links {links links' : List Outlink}
      (h : List.Forall₂ (fun link link' : Outlink =>
        link'.features = link.features ∧ link.state.Alike t link'.state) links links')
      : SameExpansion t (.ok links) (.ok links')

theorem SameExpansion.mono {t t' : Tables} {e e' : Except Fault (List Outlink)}
    (h : SameExpansion t e e') (hle : t ≤ t') : SameExpansion t' e e' := by
  cases h with
  | fault fault => exact .fault fault
  | links h => exact .links (h.imp fun _ _ hlink => ⟨hlink.1, hlink.2.mono hle⟩)

def Exec.outcome (r : EStateM.Result Fault Machine α) : Except Fault α × Machine :=
  match r with
  | .ok a m => (.ok a, m)
  | .error fault m => (.error fault, m)

theorem SameExpansion.of_agree {program : Program} {computeFeatures : Bool} {t : Tables}
    {r r' : EStateM.Result Fault Machine (List Outlink)}
    (h : Exec.Agree t (fun links n links' n' =>
      List.Forall₂ (Outlink.Alike program computeFeatures ⟨n.symbols, n'.symbols⟩) links links') r r')
    (hrun : Unexhausted r) (hrun' : Unexhausted r')
    : SameExpansion ⟨(Exec.outcome r).2.symbols, (Exec.outcome r').2.symbols⟩ (Exec.outcome r).1
        (Exec.outcome r').1 := by
  cases h with
  | ok _ hlinks => exact .links (hlinks.imp fun _ _ hlink => ⟨hlink.features_eq, hlink.state⟩)
  | fault fault _ => exact .fault fault
  | leftFull entries n => exact absurd rfl (hrun entries n)
  | rightFull _ entries n => exact absurd rfl (hrun' entries n)

theorem Exec.Agree.outcome_eq {program : Program} {computeFeatures : Bool} {t : Tables}
    {r r' : EStateM.Result Fault Machine (List Outlink)}
    (h : Exec.Agree t (fun links n links' n' =>
      List.Forall₂ (Outlink.Alike program computeFeatures ⟨n.symbols, n'.symbols⟩) links links') r r')
    (ht : t.left = t.right) (hrun : Unexhausted r) (hrun' : Unexhausted r')
    : (outcome r').1 = (outcome r).1 ∧ (outcome r').2.symbols = (outcome r).2.symbols := by
  cases h with
  | ok hgrows hlinks =>
    have heq := hgrows.eq_of_eq ht
    have hsame := hlinks.imp fun _ _ hlink => (hlink.eq_of_eq heq).symm
    rw [List.forall₂_eq_eq_eq] at hsame
    exact ⟨congrArg Except.ok hsame.symm, heq.symm⟩
  | fault fault hgrows => exact ⟨rfl, (hgrows.eq_of_eq ht).symm⟩
  | leftFull entries n => exact absurd rfl (hrun entries n)
  | rightFull _ entries n => exact absurd rfl (hrun' entries n)

namespace Environment

/--
The states at a node of the tree below the run of a query, computed on any machines. A node is given by
the numbers of the children on the way to it, the last one first.
-/
inductive Stands (env : Environment) (start : Nat) (computeFeatures : Bool)
    : List Nat → SymbolTable → State → Prop where
  | root {m m' : Machine} {report : Features} (hm : m.state = {})
      (hrun : env.run (some start) computeFeatures m = .ok report m')
      : Stands env start computeFeatures [] m'.symbols m'.state
  | child {node : List Nat} {i : Nat} {symbols : SymbolTable} {s : State} {m m' : Machine}
      {links : List Outlink} {link : Outlink} (h : Stands env start computeFeatures node symbols s)
      (hle : symbols ≤ m.symbols) (hlinks : env.outlinks s computeFeatures m = .ok links m')
      (hlink : links[i]? = some link) : Stands env start computeFeatures (i :: node) m'.symbols link.state

inductive Expanded (env : Environment) (start : Nat) (computeFeatures : Bool) (node : List Nat)
    : SymbolTable → Except Fault (List Outlink) → Prop where
  | intro {symbols : SymbolTable} {s : State} {m : Machine}
      (h : Stands env start computeFeatures node symbols s) (hle : symbols ≤ m.symbols)
      (hrun : Unexhausted (env.outlinks s computeFeatures m))
      : Expanded env start computeFeatures node
          (Exec.outcome (env.outlinks s computeFeatures m)).2.symbols
          (Exec.outcome (env.outlinks s computeFeatures m)).1

theorem Stands.of_expanded {env : Environment} {start : Nat} {computeFeatures : Bool} {node : List Nat}
    {i : Nat} {symbols : SymbolTable} {links : List Outlink} {link : Outlink}
    (h : Expanded env start computeFeatures node symbols (.ok links)) (hlink : links[i]? = some link)
    : Stands env start computeFeatures (i :: node) symbols link.state := by
  generalize he : Except.ok links = e at h
  cases h with
  | @intro _ s m h hle _ =>
    match hlinks : env.outlinks s computeFeatures m with
    | .ok links' m' =>
      rw [hlinks] at he
      cases he
      exact h.child hle hlinks hlink
    | .error fault m' =>
      rw [hlinks] at he
      contradiction

variable {env : Environment} {tables : List FactTable} {start : Nat} {computeFeatures : Bool}
  {node : List Nat} {symbols symbols' : SymbolTable} {s s' : State} {e e' : Except Fault (List Outlink)}
  {m : Machine} (hfenced : env.program.Fenced)
  (hplugins : env.plugins = tables.map FactTable.plugin) (hstart : env.program.Clean start)
include hfenced hplugins hstart

theorem Stands.alike (h : Stands env start computeFeatures node symbols s)
    (h' : Stands env start computeFeatures node symbols' s')
    : s.Alike ⟨symbols, symbols'⟩ s' ∧ env.program.Rests computeFeatures s := by
  induction h generalizing symbols' s' with
  | @root m n _ hm hrun =>
    cases h' with
    | @root m' n' _ hm' hrun' =>
      rcases m with ⟨_, symbols, features⟩
      rcases m' with ⟨_, symbols', features'⟩
      subst hm hm'
      have hempty : Machine.Alike ⟨{}, symbols, features⟩ ⟨{}, symbols', features'⟩ :=
        ⟨⟨rfl, by simp⟩, rfl, rfl, rfl, rfl, rfl, rfl⟩
      have hrests : env.program.Rests computeFeatures { ({} : State) with pc := some start } := by
        refine ⟨by simp, ?_⟩
        rintro _ _ ⟨⟩
        exact hstart
      have hagree : Exec.Agree ⟨symbols, symbols'⟩ (env.program.Stopped computeFeatures)
          (env.run (some start) computeFeatures ⟨{}, symbols, features⟩)
          (env.run (some start) computeFeatures ⟨{}, symbols', features'⟩) :=
        Program.agree_run hfenced hempty hrests
      rw [hrun, hrun'] at hagree
      cases hagree with
      | ok _ hstopped => exact ⟨hstopped.alike, hstopped.rests⟩
  | @child node i symbols s m n links link h hle hlinks hlink ih =>
    cases h' with
    | @child _ _ symbols' s' m' n' links' link' h' hle' hlinks' hlink' =>
      rcases ih h' with ⟨halike, hrests⟩
      have hagree := agree_outlinks hfenced (halike.mono ⟨hle, hle'⟩) hplugins hrests
      rw [hlinks, hlinks'] at hagree
      cases hagree with
      | ok _ hforall =>
        rcases exists_of_forall₂_left hforall hlink with ⟨_, heq, hlinks⟩
        rw [hlink', Option.some.injEq] at heq
        rw [heq]
        exact ⟨hlinks.state, hlinks.rests⟩

theorem Expanded.same (h : Expanded env start computeFeatures node symbols e)
    (h' : Expanded env start computeFeatures node symbols' e') : SameExpansion ⟨symbols, symbols'⟩ e e' := by
  cases h with
  | intro h hle hrun =>
    cases h' with
    | intro h' hle' hrun' =>
      rcases h.alike hfenced hplugins hstart h' with ⟨halike, hrests⟩
      have hagree := agree_outlinks hfenced (halike.mono ⟨hle, hle'⟩) hplugins hrests
      exact .of_agree hagree hrun hrun'

end Environment

end HornMachine
