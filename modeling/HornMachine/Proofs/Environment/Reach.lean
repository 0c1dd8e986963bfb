import HornMachine.Proofs.Environment.Outlinks
import HornMachine.Proofs.Facts.Answer

/-!
This module contains the states that a search can come to, with tables of facts in front of the program.
Each of them has failed, waits for a call or is completed.
-/

namespace HornMachine

/--
The run of a query leads to a state, and so does each step to a successor, with or without features
computed. Only states that are neither failed nor completed are expanded, and between the steps the
machine may intern more constants.
-/
inductive Reached (env : Environment) (start : Nat) : SymbolTable → State → Prop where
  | start {computeFeatures : Bool} {m m' : Machine} {report : Features} (hm : m.state = {})
      (hrun : env.run (some start) computeFeatures m = .ok report m')
      : Reached env start m'.symbols m'.state
  | step {computeFeatures : Bool} {symbols : SymbolTable} {s : State} {m m' : Machine}
      {links : List Outlink} {link : Outlink} (h : Reached env start symbols s)
      (hfailed : s.failed = false) (hcompleted : s.completed = false) (hle : symbols ≤ m.symbols)
      (hlinks : env.outlinks s computeFeatures m = .ok links m') (hlink : link ∈ links)
      : Reached env start m'.symbols link.state

namespace Environment

variable {env : Environment} {tables : List FactTable} {s : State} {computeFeatures : Bool}
  {m : Machine}

theorem outlinks_plugin {label : String} {plugin : Plugin} (hcompleted : s.completed = false)
    (hlabel : s.jumpTo = some label) (hplugin : env.plugins.find? (·.claims label) = some plugin)
    : env.outlinks s computeFeatures m =
      plugin.outlinks env.run s computeFeatures { m with state := s } := by
  have hrestore : Exec.restore s m = .ok () { m with state := s } := rfl
  unfold outlinks outlinksWith
  simp only [hcompleted, hlabel, hplugin]
  exact Exec.bind_of_ok hrestore

theorem find?_tables (hplugins : env.plugins = tables.map FactTable.plugin) (label : String)
    : env.plugins.find? (·.claims label) =
      (tables.find? (·.claims label)).map FactTable.plugin := by
  rw [hplugins, List.find?_map]
  rfl

end Environment

def Rested (program : Program) (symbols : SymbolTable) (s : State) : Prop :=
  (s.failed = true ∧ s.completed = false) ∨ ∃ d, Paused program symbols s d

theorem Rested.mono {program : Program} {symbols symbols' : SymbolTable} {s : State}
    (h : Rested program symbols s) (hle : symbols ≤ symbols') : Rested program symbols' s := by
  rcases h with hfailed | ⟨d, hpaused⟩
  . exact .inl hfailed
  . exact .inr ⟨d, hpaused.mono hle⟩

theorem Outcome.rested {program : Program} {symbols : SymbolTable} {clause : Clause} {d : Denotation}
    {computeFeatures : Bool} {link : Outlink}
    (h : Outcome program symbols clause d computeFeatures (some link))
    : Rested program symbols link.state := by
  cases h with
  | failed hstalled _ => exact .inl ⟨hstalled.failed_eq, hstalled.completed_eq⟩
  | next hpaused _ => exact .inr ⟨_, hpaused⟩

theorem FactTable.Answered.rested {program : Program} {symbols : SymbolTable} {sig : Signature}
    {d : Denotation} {computeFeatures : Bool} {row : List String} {link : Outlink}
    (h : Answered program symbols sig d computeFeatures row (some link))
    : Rested program symbols link.state := by
  cases h with
  | answered hpaused => exact .inr ⟨_, hpaused⟩

theorem Paused.waiting_of_not_completed {program : Program} {symbols : SymbolTable} {s : State}
    {d : Denotation} (h : Paused program symbols s d) (hcompleted : s.completed = false)
    : ∃ sig l ls, Waiting program symbols s sig l ls ∧
        ∀ (D : Type) [Domain D] (goals : List (Atom D)) (as : List D),
          d D goals as ↔ awaits symbols s sig (l :: ls) D goals as := by
  cases h with
  | waiting h hd => exact ⟨_, _, _, h, hd⟩
  | completed h _ =>
    rw [h.completed_eq] at hcompleted
    contradiction

theorem Rested.waiting {program : Program} {symbols : SymbolTable} {s : State}
    (h : Rested program symbols s) (hfailed : s.failed = false) (hcompleted : s.completed = false)
    : ∃ sig l ls, Waiting program symbols s sig l ls := by
  rcases h with ⟨hfailed', _⟩ | ⟨d, hpaused⟩
  . rw [hfailed] at hfailed'
    contradiction
  . rcases hpaused.waiting_of_not_completed hcompleted with ⟨sig, l, ls, hwaiting, _⟩
    exact ⟨sig, l, ls, hwaiting⟩

section Outlinks

variable {env : Environment} {tables : List FactTable} {rules : List Clause} {symbols : SymbolTable}
  {s : State} {sig : Signature} {l : Level} {ls : List Level} {computeFeatures : Bool} {m : Machine}
  (h : Waiting env.program symbols s sig l ls)
include h

theorem Waiting.outlinks_table {table : FactTable}
    (hplugins : env.plugins = tables.map FactTable.plugin)
    (htable : tables.find? (·.claims sig.label) = some table)
    (harity : sig.arity < Signature.arityBound) (hle : symbols ≤ m.symbols)
    (hrun : Unexhausted (env.outlinks s computeFeatures m))
    : ∃ tried m', env.outlinks s computeFeatures m = .ok tried.reduceOption m' ∧
        m.symbols ≤ m'.symbols ∧
        List.Forall₂ (fun row link => FactTable.Answered env.program m'.symbols sig
          (awaits symbols s sig (l :: ls)) computeFeatures row link) (table.answering sig) tried := by
  have hplugin : env.plugins.find? (·.claims sig.label) = some table.plugin := by
    rw [Environment.find?_tables hplugins, htable]
    rfl
  rw [Environment.outlinks_plugin h.completed_eq h.jumpTo_eq hplugin] at hrun ⊢
  exact table.outlinks_cases (m := { m with state := s }) h harity hle hrun

theorem Waiting.mem_outlinks {m' : Machine} {links : List Outlink} {link : Outlink}
    (hrules : env.program.Implements rules) (hplugins : env.plugins = tables.map FactTable.plugin)
    (hsize : tables ≠ [] → env.program.size < Signature.arityBound) (hle : symbols ≤ m.symbols)
    (hlinks : env.outlinks s computeFeatures m = .ok links m') (hlink : link ∈ links)
    : (∃ row, FactTable.Answered env.program m'.symbols sig (awaits symbols s sig (l :: ls))
          computeFeatures row (some link)) ∨
      (tables.find? (·.claims sig.label) = none ∧ ∃ clause ∈ clausesOf rules sig,
        Outcome env.program m'.symbols clause (awaits symbols s sig (l :: ls)) computeFeatures
          (some link)) := by
  have hrun : Unexhausted (env.outlinks s computeFeatures m) := by
    rw [hlinks]
    exact unexhausted_ok _ _
  match htable : tables.find? (·.claims sig.label) with
  | some table =>
    left
    have hsize := hsize (List.ne_nil_of_mem (List.mem_of_find?_eq_some htable))
    have harity := h.arity_le_size
    rcases h.outlinks_table hplugins htable (by omega) hle hrun with ⟨tried, _, heq, _, hanswered⟩
    rw [heq] at hlinks
    cases hlinks
    rcases exists_of_mem_reduceOption hanswered hlink with ⟨row, _, hrow⟩
    exact ⟨row, hrow⟩
  | none =>
    right
    have hnone : env.plugins.find? (·.claims sig.label) = none := by
      rw [Environment.find?_tables hplugins, htable]
      rfl
    rcases h.outlinks hrules hnone hle hrun with
      ⟨_, heq⟩ | ⟨_, _, _, _, heq⟩ | ⟨_, tried, _, _, heq, _, houtcomes⟩
    . rw [heq] at hlinks
      contradiction
    . rw [heq] at hlinks
      contradiction
    . rw [heq] at hlinks
      cases hlinks
      exact ⟨htable, exists_of_mem_reduceOption houtcomes hlink⟩

theorem Waiting.rested_of_outlinks {m' : Machine} {links : List Outlink} {link : Outlink}
    (hrules : env.program.Implements rules) (hplugins : env.plugins = tables.map FactTable.plugin)
    (hsize : tables ≠ [] → env.program.size < Signature.arityBound) (hle : symbols ≤ m.symbols)
    (hlinks : env.outlinks s computeFeatures m = .ok links m') (hlink : link ∈ links)
    : Rested env.program m'.symbols link.state := by
  rcases h.mem_outlinks hrules hplugins hsize hle hlinks hlink with
    ⟨_, hanswered⟩ | ⟨_, _, _, houtcome⟩
  . exact hanswered.rested
  . exact houtcome.rested

end Outlinks

theorem Reached.rested {env : Environment} {tables : List FactTable} {rules : List Clause}
    {goals : List Literal} {start : Nat} {symbols : SymbolTable} {s : State}
    (hrules : env.program.Implements rules) (hquery : env.program.Has start (queryCode goals))
    (hplugins : env.plugins = tables.map FactTable.plugin)
    (hsize : tables ≠ [] → env.program.size < Signature.arityBound)
    (h : Reached env start symbols s) : Rested env.program symbols s := by
  induction h with
  | start hm hrun =>
    exact .inr ⟨_, paused_of_run hquery hm hrun⟩
  | step _ hfailed hcompleted hle hlinks hlink ih =>
    rcases ih.waiting hfailed hcompleted with ⟨sig, l, ls, hwaiting⟩
    exact hwaiting.rested_of_outlinks hrules hplugins hsize hle hlinks hlink

end HornMachine
