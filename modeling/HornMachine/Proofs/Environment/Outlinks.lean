import HornMachine.Environment.Gather
import HornMachine.Proofs.Program.Compile
import HornMachine.Proofs.Run.Query
import Mathlib.Data.List.ReduceOption

/-!
This module contains the successors of a waiting state: each clause of the predicate is tried in turn, and
what it gives does not depend on the other clauses.
-/

namespace HornMachine

theorem exists_of_mem_reduceOption {R : α → Option β → Prop} {as : List α} {tried : List (Option β)}
    {b : β} (h : List.Forall₂ R as tried) (hb : b ∈ tried.reduceOption) : ∃ a ∈ as, R a (some b) := by
  rw [List.reduceOption_mem_iff, List.mem_iff_getElem?] at hb
  rcases hb with ⟨i, hi⟩
  rcases exists_of_forall₂ h hi with ⟨a, ha, hR⟩
  exact ⟨a, List.mem_of_getElem? ha, hR⟩

namespace Environment

variable {run : Runner} {s : State} {addr : Nat} {m : Machine}

theorem clauseOutlink_false_apply
    : clauseOutlink run s false addr m =
      match run (some addr) false { m with state := s } with
      | .ok _ m' => .ok (some ⟨none, m'.state⟩) m'
      | .error fault m' => .error fault m' := by
  show EStateM.bind (run (some addr) false) _ { m with state := s } = _
  unfold EStateM.bind
  cases run (some addr) false { m with state := s } with
  | ok _ _ => rfl
  | error _ _ => rfl

theorem clauseOutlink_true_apply
    : clauseOutlink run s true addr m =
      match run (some addr) true { m with state := s } with
      | .error fault m' => .error fault m'
      | .ok features m₁ =>
        if features.isEmpty || m₁.state.failed then
          .ok none m₁
        else
          match run none true m₁ with
          | .error fault m' => .error fault m'
          | .ok _ m' =>
            if m'.state.failed then .ok none m' else .ok (some ⟨some features, m'.state⟩) m' := by
  show EStateM.bind (run (some addr) true) _ { m with state := s } = _
  unfold EStateM.bind
  cases run (some addr) true { m with state := s } with
  | error _ _ => rfl
  | ok features m₁ =>
    by_cases hstop : (features.isEmpty || m₁.state.failed) = true
    . simp only [if_pos hstop]
      show (if (features.isEmpty || m₁.state.failed) = true then (pure none : Exec (Option Outlink))
        else _) m₁ = _
      rw [if_pos hstop]
      rfl
    . simp only [if_neg hstop]
      show (if (features.isEmpty || m₁.state.failed) = true then (pure none : Exec (Option Outlink))
        else _) m₁ = _
      rw [if_neg hstop]
      show EStateM.bind (run none true) _ m₁ = _
      unfold EStateM.bind
      cases run none true m₁ with
      | error _ _ => rfl
      | ok _ m' =>
        show (if m'.state.failed = true then (pure none : Exec (Option Outlink)) else _) m' = _
        by_cases hfailed : m'.state.failed = true
        . simp only [if_pos hfailed]
          rfl
        . simp only [if_neg hfailed]
          rfl

end Environment

def Reports (clause : Clause) (d : Denotation) (computeFeatures : Bool) (features : Option Features)
    : Prop :=
  if computeFeatures then
    ∃ ρ, features = some (clause.report ρ) ∧
      ∀ (D : Type) [Domain D] (θ : String → D) (rest : List (Atom D)) (as : List D),
        d D (clause.head.inst θ :: rest) as →
          ∀ name ∈ clause.features.flatMap Literal.vars, θ name = Domain.const (ρ name)
  else
    features = none

inductive Outcome (program : Program) (symbols : SymbolTable) (clause : Clause) (d : Denotation)
    : (computeFeatures : Bool) → Option Outlink → Prop where
  | failed {s : State} (hstalled : Stalled program symbols clause s)
      (hmismatch : Mismatch clause d) : Outcome program symbols clause d false (some ⟨none, s⟩)
  | dropped (hmismatch : Mismatch clause d) : Outcome program symbols clause d true none
  | next {s : State} {computeFeatures : Bool} {features : Option Features}
      (hpaused : Paused program symbols s (resolvent clause d))
      (hreports : Reports clause d computeFeatures features)
      : Outcome program symbols clause d computeFeatures (some ⟨features, s⟩)

section Outcome

variable {program : Program} {gather : Nat → Exec (List Goal)} {symbols symbols' : SymbolTable}
  {s : State} {sig : Signature} {l : Level} {ls : List Level} {clause : Clause} {d d' : Denotation}
  {computeFeatures : Bool} {link : Option Outlink} {addr : Nat} {m : Machine}

theorem Reports.congr {features : Option Features} (h : Reports clause d computeFeatures features)
    (hd : ∀ (D : Type) [Domain D] (goals : List (Atom D)) (as : List D),
      d' D goals as ↔ d D goals as) : Reports clause d' computeFeatures features := by
  cases computeFeatures with
  | false => exact h
  | true =>
    rcases h with ⟨ρ, hρ, hground⟩
    refine ⟨ρ, hρ, ?_⟩
    intro D _ θ rest as
    rw [hd]
    exact hground D θ rest as

theorem Outcome.congr (h : Outcome program symbols clause d computeFeatures link)
    (hd : ∀ (D : Type) [Domain D] (goals : List (Atom D)) (as : List D),
      d' D goals as ↔ d D goals as) : Outcome program symbols clause d' computeFeatures link := by
  cases h with
  | failed hstalled hmismatch => exact .failed hstalled (hmismatch.congr hd)
  | dropped hmismatch => exact .dropped (hmismatch.congr hd)
  | next hpaused hreports =>
    exact .next (hpaused.congr (resolvent_congr hd)) (hreports.congr hd)

theorem Outcome.mono (h : Outcome program symbols clause d computeFeatures link)
    (hle : symbols ≤ symbols') : Outcome program symbols' clause d computeFeatures link := by
  cases h with
  | failed hstalled hmismatch => exact .failed (hstalled.mono hle) hmismatch
  | dropped hmismatch => exact .dropped hmismatch
  | next hpaused hreports => exact .next (hpaused.mono hle) hreports

theorem Waiting.clauseOutlink_false (h : Waiting program m.symbols s sig l ls)
    (hoffers : program.Offers sig addr clause)
    (hrun : Unexhausted (Environment.clauseOutlink (program.run gather) s false addr m))
    : ∃ link m', Environment.clauseOutlink (program.run gather) s false addr m = .ok link m' ∧
        m.symbols ≤ m'.symbols ∧
        Outcome program m'.symbols clause (awaits m.symbols s sig (l :: ls)) false link := by
  rw [Environment.clauseOutlink_false_apply] at hrun ⊢
  have hrun' : Unexhausted (program.run gather (some addr) false { m with state := s }) := by
    apply hrun.of_error
    intro fault m' heq
    rw [heq]
  rcases Waiting.run_clause (m := { m with state := s }) h hoffers.signature_eq hoffers.code hrun' with
    ⟨m', heq, hle, ⟨hstalled, hmismatch⟩ | hpaused⟩
  . rw [heq]
    exact ⟨_, m', rfl, hle, .failed hstalled hmismatch⟩
  . rw [heq]
    exact ⟨_, m', rfl, hle, .next hpaused rfl⟩

theorem Waiting.clauseOutlink_true (h : Waiting program m.symbols s sig l ls)
    (hoffers : program.Offers sig addr clause)
    (hrun : Unexhausted (Environment.clauseOutlink (program.run gather) s true addr m))
    : (∃ root m', Environment.clauseOutlink (program.run gather) s true addr m =
        .error (.notConstant root "fpushboundvar") m' ∧
          Halts program clause l ls { m with state := s } root) ∨
      ∃ link m', Environment.clauseOutlink (program.run gather) s true addr m = .ok link m' ∧
        m.symbols ≤ m'.symbols ∧
        Outcome program m'.symbols clause (awaits m.symbols s sig (l :: ls)) true link := by
  rw [Environment.clauseOutlink_true_apply] at hrun ⊢
  have hrun' : Unexhausted (program.run gather (some addr) true { m with state := s }) := by
    apply hrun.of_error
    intro fault m' heq
    rw [heq]
  rcases Waiting.run_features (m := { m with state := s }) h hoffers.signature_eq hoffers.code
      hoffers.features hrun' with
    ⟨m', heq, hfailed, hle, hmismatch⟩ | ⟨root, m', heq, hhalts⟩ | ⟨ρ, m₁, heq, hreported⟩
  . right
    rw [heq]
    exact ⟨none, m', by simp [hfailed], hle, .dropped hmismatch⟩
  . left
    rw [heq]
    exact ⟨root, m', rfl, hhalts⟩
  . right
    have hstop : ((clause.report ρ).isEmpty || m₁.state.failed) = false := by
      rw [clause.isEmpty_report, hreported.failed_eq]
      rfl
    rw [heq] at hrun ⊢
    simp only [hstop, Bool.false_eq_true, if_false] at hrun ⊢
    have hrun₁ : Unexhausted (program.run gather none true m₁) := by
      apply hrun.of_error
      intro fault m' heq
      rw [heq]
    rcases hreported.resume hrun₁ with ⟨m', heq', hle, hpaused⟩
    rw [heq']
    refine ⟨some ⟨some (clause.report ρ), m'.state⟩, m', ?_, ?_, .next hpaused ⟨ρ, rfl, ?_⟩⟩
    . simp [hpaused.failed_eq]
    . exact Interner.le_trans hreported.symbols_le hle
    . exact hreported.ground

theorem Waiting.clauseOutlink (h : Waiting program symbols s sig l ls)
    (hoffers : program.Offers sig addr clause) (hle : symbols ≤ m.symbols)
    (hrun : Unexhausted (Environment.clauseOutlink (program.run gather) s computeFeatures addr m))
    : (computeFeatures = true ∧ ∃ root m',
        Environment.clauseOutlink (program.run gather) s computeFeatures addr m =
          .error (.notConstant root "fpushboundvar") m') ∨
      ∃ link m', Environment.clauseOutlink (program.run gather) s computeFeatures addr m = .ok link m' ∧
        m.symbols ≤ m'.symbols ∧
        Outcome program m'.symbols clause (awaits symbols s sig (l :: ls)) computeFeatures link := by
  cases computeFeatures with
  | false =>
    right
    rcases (h.mono hle).clauseOutlink_false hoffers hrun with ⟨link, m', heq, hle', houtcome⟩
    exact ⟨link, m', heq, hle', houtcome.congr (awaits_mono h.valid hle)⟩
  | true =>
    rcases (h.mono hle).clauseOutlink_true hoffers hrun with
      ⟨root, m', heq, _⟩ | ⟨link, m', heq, hle', houtcome⟩
    . exact .inl ⟨rfl, root, m', heq⟩
    . exact .inr ⟨link, m', heq, hle', houtcome.congr (awaits_mono h.valid hle)⟩

theorem Waiting.mapM_clauseOutlink {addrs : List Nat} {clauses : List Clause}
    (h : Waiting program symbols s sig l ls)
    (hoffers : List.Forall₂ (program.Offers sig) addrs clauses) (hle : symbols ≤ m.symbols)
    (hrun : Unexhausted
      (addrs.mapM (Environment.clauseOutlink (program.run gather) s computeFeatures) m))
    : (∃ fault m', addrs.mapM (Environment.clauseOutlink (program.run gather) s computeFeatures) m =
          .error fault m' ∧
        computeFeatures = true ∧ ∃ root, fault = .notConstant root "fpushboundvar") ∨
      ∃ tried m',
        addrs.mapM (Environment.clauseOutlink (program.run gather) s computeFeatures) m =
          .ok tried m' ∧ m.symbols ≤ m'.symbols ∧
        List.Forall₂ (fun clause link => Outcome program m'.symbols clause
          (awaits symbols s sig (l :: ls)) computeFeatures link) clauses tried := by
  refine Exec.mapM_cases
    (Q := fun fault => computeFeatures = true ∧ ∃ root, fault = .notConstant root "fpushboundvar")
    (R := fun symbols' clause link => Outcome program symbols' clause (awaits symbols s sig (l :: ls))
      computeFeatures link) ?_ ?_ hoffers hle hrun
  . exact Outcome.mono
  . intro addr clause m hoffer hle hrun
    rcases h.clauseOutlink hoffer hle hrun with ⟨hfeatures, root, m', heq⟩ | hok
    . exact .inl ⟨_, m', heq, hfeatures, root, rfl⟩
    . exact .inr hok

end Outcome

namespace Environment

variable {env : Environment} {s : State} {computeFeatures : Bool} {m : Machine}

/--
What each clause of the predicate that a state waits for gives, in the order of the clauses.
-/
def trials (env : Environment) (s : State) (computeFeatures : Bool)
    : Exec (List (Option Outlink)) :=
  match s.jumpTo.bind env.program.addresses? with
  | none => return []
  | some addrs => addrs.mapM (clauseOutlink env.run s computeFeatures)

theorem outlinks_eq_trials {label : String} {addrs : List Nat} (hcompleted : s.completed = false)
    (hlabel : s.jumpTo = some label) (hplugins : env.plugins.find? (·.claims label) = none)
    (haddrs : env.program.addresses? label = some addrs)
    : env.outlinks s computeFeatures = List.reduceOption <$> env.trials s computeFeatures := by
  unfold outlinks outlinksWith trials
  simp only [hcompleted, hlabel, hplugins, haddrs, Option.bind_some]
  exact Exec.filterMapM_eq_map _ addrs

theorem trials_eq_mapM {label : String} {addrs : List Nat} (hlabel : s.jumpTo = some label)
    (haddrs : env.program.addresses? label = some addrs)
    : env.trials s computeFeatures = addrs.mapM (clauseOutlink env.run s computeFeatures) := by
  unfold trials
  rw [hlabel, Option.bind_some, haddrs]

theorem outlinks_eq_mapM {label : String} {addrs : List Nat} (hcompleted : s.completed = false)
    (hlabel : s.jumpTo = some label) (hplugins : env.plugins.find? (·.claims label) = none)
    (haddrs : env.program.addresses? label = some addrs)
    : env.outlinks s computeFeatures =
      List.reduceOption <$> addrs.mapM (clauseOutlink env.run s computeFeatures) := by
  rw [outlinks_eq_trials hcompleted hlabel hplugins haddrs, trials_eq_mapM hlabel haddrs]

theorem outlinks_completed (hcompleted : s.completed = true)
    : env.outlinks s computeFeatures m = .ok [] m := by
  unfold outlinks outlinksWith
  simp only [hcompleted, if_true]
  rfl

theorem outlinks_unknown {label : String} (hcompleted : s.completed = false)
    (hlabel : s.jumpTo = some label) (hplugins : env.plugins.find? (·.claims label) = none)
    (haddrs : env.program.addresses? label = none)
    : env.outlinks s computeFeatures m = .error (.unknownPredicate label) m := by
  unfold outlinks outlinksWith
  simp only [hcompleted, hlabel, hplugins, haddrs]
  rfl

end Environment

theorem Waiting.outlinks {env : Environment} {rules : List Clause} {symbols : SymbolTable} {s : State}
    {sig : Signature} {l : Level} {ls : List Level} {computeFeatures : Bool} {m : Machine}
    (h : Waiting env.program symbols s sig l ls) (hrules : env.program.Implements rules)
    (hplugins : env.plugins.find? (·.claims sig.label) = none) (hle : symbols ≤ m.symbols)
    (hrun : Unexhausted (env.outlinks s computeFeatures m))
    : (clausesOf rules sig = [] ∧
        env.outlinks s computeFeatures m = .error (.unknownPredicate sig.label) m) ∨
      (clausesOf rules sig ≠ [] ∧ computeFeatures = true ∧ ∃ root m',
        env.outlinks s computeFeatures m = .error (.notConstant root "fpushboundvar") m') ∨
      (clausesOf rules sig ≠ [] ∧ ∃ tried m', env.trials s computeFeatures m = .ok tried m' ∧
        env.outlinks s computeFeatures m = .ok tried.reduceOption m' ∧ m.symbols ≤ m'.symbols ∧
        List.Forall₂ (fun clause link => Outcome env.program m'.symbols clause
          (awaits symbols s sig (l :: ls)) computeFeatures link) (clausesOf rules sig) tried) := by
  rcases hrules.addresses_cases sig with ⟨haddrs, hnil⟩ | ⟨addrs, haddrs, hne, hoffers⟩
  . left
    exact ⟨hnil, Environment.outlinks_unknown h.completed_eq h.jumpTo_eq hplugins haddrs⟩
  . right
    have heq : env.outlinks s computeFeatures = List.reduceOption <$> env.trials s computeFeatures :=
      Environment.outlinks_eq_trials h.completed_eq h.jumpTo_eq hplugins haddrs
    have htrials : env.trials s computeFeatures =
        addrs.mapM (Environment.clauseOutlink env.run s computeFeatures) :=
      Environment.trials_eq_mapM h.jumpTo_eq haddrs
    rw [heq] at hrun ⊢
    rw [htrials] at hrun ⊢
    rcases h.mapM_clauseOutlink hoffers hle hrun.of_map with
      ⟨fault, m', hfault, hfeatures, root, hroot⟩ | ⟨tried, m', hok, hle', houtcomes⟩
    . left
      subst hroot
      refine ⟨hne, hfeatures, root, m', ?_⟩
      rw [Exec.map_apply]
      rw [Environment.run, hfault]
    . right
      refine ⟨hne, tried, m', hok, ?_, hle', houtcomes⟩
      rw [Exec.map_apply]
      rw [Environment.run, hok]

theorem forall₂_reduceOption {program : Program} {symbols : SymbolTable} {d : Denotation}
    {clauses : List Clause} {tried : List (Option Outlink)}
    (h : List.Forall₂ (fun clause link => Outcome program symbols clause d false link) clauses tried)
    : List.Forall₂ (fun clause link => Outcome program symbols clause d false (some link)) clauses
        tried.reduceOption := by
  induction h with
  | nil => exact .nil
  | @cons _ tried _ _ houtcome _ ih =>
    cases tried with
    | none => cases houtcome
    | some link =>
      rw [List.reduceOption_cons_of_some]
      exact .cons houtcome ih

theorem Waiting.outlinks_false {env : Environment} {rules : List Clause} {symbols : SymbolTable}
    {s : State} {sig : Signature} {l : Level} {ls : List Level} {m : Machine}
    (h : Waiting env.program symbols s sig l ls) (hrules : env.program.Implements rules)
    (hplugins : env.plugins.find? (·.claims sig.label) = none) (hle : symbols ≤ m.symbols)
    (hne : clausesOf rules sig ≠ []) (hrun : Unexhausted (env.outlinks s false m))
    : ∃ links m', env.outlinks s false m = .ok links m' ∧ m.symbols ≤ m'.symbols ∧
        List.Forall₂ (fun clause link => Outcome env.program m'.symbols clause
          (awaits symbols s sig (l :: ls)) false (some link)) (clausesOf rules sig) links := by
  rcases h.outlinks hrules hplugins hle hrun with
    ⟨hnil, _⟩ | ⟨_, hfalse, _⟩ | ⟨_, tried, m', _, heq, hle', houtcomes⟩
  . contradiction
  . contradiction
  . exact ⟨tried.reduceOption, m', heq, hle', forall₂_reduceOption houtcomes⟩

end HornMachine
