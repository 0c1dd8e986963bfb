import HornMachine.Proofs.Facts.Row
import HornMachine.Proofs.Program.Label
import HornMachine.Proofs.Run.Clause

/-!
This module contains the answers of a table to a call. A row answers like a clause without a body whose
head is the fact in the row.
-/

namespace HornMachine

open Level

namespace FactTable

def fact (sig : Signature) (row : List String) : Clause where
  head := ⟨sig.functor, row.map .const⟩

theorem inst_fact [Domain D] (sig : Signature) (row : List String) (θ : String → D)
    : (fact sig row).head.inst θ = ⟨sig.functor, row.map Domain.const⟩ := by
  simp [fact, Literal.inst, Term.eval, Function.comp_def]

/--
What a row gives for a call that a state stands for with `d`.
-/
inductive Answered (program : Program) (symbols : SymbolTable) (sig : Signature) (d : Denotation)
    (computeFeatures : Bool) (row : List String) : Option Outlink → Prop where
  | refused (hmismatch : Mismatch (fact sig row) d)
      : Answered program symbols sig d computeFeatures row none
  | answered {s : State} (hpaused : Paused program symbols s (resolvent (fact sig row) d))
      : Answered program symbols sig d computeFeatures row
          (some ⟨if computeFeatures then some (answerFeatures sig.label) else none, s⟩)

theorem Answered.mono {program : Program} {symbols symbols' : SymbolTable} {sig : Signature}
    {d : Denotation} {computeFeatures : Bool} {row : List String} {link : Option Outlink}
    (h : Answered program symbols sig d computeFeatures row link) (hle : symbols ≤ symbols')
    : Answered program symbols' sig d computeFeatures row link := by
  cases h with
  | refused hmismatch => exact .refused hmismatch
  | answered hpaused => exact .answered (hpaused.mono hle)

theorem answer_apply (run : Runner) (s : State) (label : String) (computeFeatures : Bool)
    (row : List String) (m : Machine)
    : answer run s label computeFeatures row m =
      match bindRow row.length 1 row { m with state := s } with
      | .error fault m' => .error fault m'
      | .ok false m' => .ok none m'
      | .ok true m₁ =>
        match run none computeFeatures { m₁ with state := m₁.state.leave } with
        | .error fault m' => .error fault m'
        | .ok _ m' =>
          if computeFeatures = true ∧ m'.state.failed = true then
            .ok none m'
          else
            .ok (some ⟨if computeFeatures then some (answerFeatures label) else none, m'.state⟩) m' := by
  have hrestore : Exec.restore s m = .ok () { m with state := s } := rfl
  unfold answer
  rw [Exec.bind_of_ok hrestore, Exec.bind_apply]
  match bindRow row.length 1 row { m with state := s } with
  | .error fault m' => rfl
  | .ok false m' => rfl
  | .ok true m₁ =>
    have hleave : Exec.onState State.leave m₁ = .ok () { m₁ with state := m₁.state.leave } := rfl
    simp only [if_true]
    rw [Exec.bind_of_ok hleave, Exec.bind_apply]
    match run none computeFeatures { m₁ with state := m₁.state.leave } with
    | .error fault m' => rfl
    | .ok _ m' =>
      cases computeFeatures with
      | false => rfl
      | true =>
        show (if m'.state.failed = true then (pure none : Exec (Option Outlink)) else _) m' = _
        by_cases hfailed : m'.state.failed = true
        . simp only [hfailed, if_true, and_self]
          rfl
        . simp only [hfailed]
          rfl

section Answer

variable {program : Program} {gather : Nat → Exec (List Goal)} {symbols : SymbolTable} {s : State}
  {sig : Signature} {l : Level} {ls : List Level} {computeFeatures : Bool} {row : List String}
  {m m₁ : Machine}

theorem resolvent_fact (h : Waiting program symbols s sig l ls) (hle : symbols ≤ m.symbols)
    (hrow : row.length = sig.arity) (hbinds : Binds row.length 1 row { m with state := s } m₁)
    (D : Type) [Domain D] (goals : List (Atom D)) (as : List D)
    : leaves m₁.symbols m₁.state (l :: ls) D goals as ↔
      resolvent (fact sig row) (awaits symbols s sig (l :: ls)) D goals as := by
  have hregs : m₁.state.registers = s.registers := by rw [hbinds.state_eq]
  have hbase : s.heap.size - row.length + 1 - 1 = s.heap.size - sig.arity := by omega
  have hmodels : ∀ v : Nat → D, m₁.state.heap.Models m₁.symbols v ↔ s.heap.Models symbols v ∧
      awaited s sig v = ⟨sig.functor, row.map Domain.const⟩ := by
    intro v
    rw [hbinds.adds.models_iff, h.valid.closed.models_iff (Interner.le_trans hle hbinds.symbols_le), awaited,
      Atom.mk.injEq, hbase, hrow]
    simp
  simp only [leaves, resolvent, awaits, hmodels, inst_fact, hregs]
  constructor
  . intro h'
    rcases h' with ⟨val, ⟨hv, hawaited⟩, hgoals, has⟩
    exact ⟨fun _ => Domain.const "", goals, rfl, val, hv, by rw [hawaited, hgoals], has⟩
  . intro h'
    rcases h' with ⟨_, rest, hgoals, val, hv, hawaited, has⟩
    rw [List.cons.injEq] at hawaited
    refine ⟨val, ⟨hv, hawaited.1.symm⟩, ?_, has⟩
    rw [hgoals, hawaited.2]
    rfl

theorem ready_answer (h : Waiting program symbols s sig l ls)
    (hbinds : Binds row.length 1 row { m with state := s } m₁)
    : Ready program m₁.symbols m₁.state.leave l ls ∧
      ∀ (D : Type) [Domain D] (goals : List (Atom D)) (as : List D),
        leaves m₁.symbols m₁.state.leave (l :: ls) D goals as ↔
          leaves m₁.symbols m₁.state (l :: ls) D goals as := by
  have hstate := hbinds.state_eq
  simp only at hstate
  have hsize : m₁.state.heap.size = s.heap.size := hbinds.adds.size_eq
  have hheap : l.frame.heapSize ≤ m₁.state.heap.size := by
    rw [hsize, h.heap_size]
  have hregs : m₁.state.registers = s.registers := by rw [hstate]
  have hcalls : m₁.state.calls = (l :: ls).map Level.frame := by
    rw [hstate]
    exact h.calls_eq
  have hstack : Stack program m₁.state.registers (l :: ls) := by
    rw [hregs]
    exact h.stack
  constructor
  . apply ready_leave _ _ hbinds.adds.valid hstack hcalls hheap
    . rw [hstate]
      exact h.failed_eq
    . rw [hstate]
      exact h.completed_eq
  . exact leaves_leave hbinds.adds.valid hstack hcalls hheap

theorem answer_cases (h : Waiting program symbols s sig l ls) (hle : symbols ≤ m.symbols)
    (hrow : row.length = sig.arity)
    (hrun : Unexhausted (answer (program.run gather) s sig.label computeFeatures row m))
    : ∃ link m', answer (program.run gather) s sig.label computeFeatures row m = .ok link m' ∧
        m.symbols ≤ m'.symbols ∧
        Answered program m'.symbols sig (awaits symbols s sig (l :: ls)) computeFeatures row link := by
  rw [answer_apply] at hrun ⊢
  have hvalid := h.valid.mono hle
  have harity : row.length ≤ s.heap.size := by
    rw [hrow]
    exact h.arity_le
  have hbase : s.heap.size - row.length + 1 - 1 = s.heap.size - sig.arity := by omega
  have hbind : Unexhausted (bindRow row.length 1 row { m with state := s }) := by
    apply hrun.of_error
    intro fault m' heq
    rw [heq]
  rcases bindRow_cases hvalid Nat.one_pos (Nat.add_comm 1 _) harity hbind with
    ⟨m₁, heq, hbinds⟩ | ⟨m', heq, hle', hno⟩
  . rcases ready_answer h hbinds with ⟨hready, hleaves⟩
    have hnone : program.run gather none computeFeatures { m₁ with state := m₁.state.leave } =
        program.runOn gather computeFeatures { m₁ with state := m₁.state.leave } :=
      Program.run_none (m := { m₁ with state := m₁.state.leave }) hready.runsAt
    simp only [heq] at hrun ⊢
    rw [hnone] at hrun ⊢
    have hrun' : Unexhausted
        (program.runOn gather computeFeatures { m₁ with state := m₁.state.leave }) := by
      apply hrun.of_error
      intro fault m' heq'
      rw [heq']
    rcases Ready.resume (m := { m₁ with state := m₁.state.leave }) hready hrun' with
      ⟨m', heq', hle', _, hpaused⟩
    have hstop : ¬(computeFeatures = true ∧ m'.state.failed = true) := by
      simp [hpaused.failed_eq]
    rw [heq']
    refine ⟨_, m', if_neg hstop, Interner.le_trans hbinds.symbols_le hle', .answered ?_⟩
    apply hpaused.congr
    intro D _ goals as
    rw [← resolvent_fact h hle hrow hbinds, hleaves]
  . simp only [heq]
    refine ⟨none, m', rfl, hle', .refused ?_⟩
    intro D _ θ rest as hd
    rcases hd with ⟨val, hv, hgoals, _⟩
    rw [List.cons.injEq, inst_fact, awaited, Atom.mk.injEq] at hgoals
    apply hno D val.cell (h.valid.closed.models_mono hle hv)
    simp only
    rw [hbase, hrow]
    exact hgoals.1.2.symm

end Answer

def answering (table : FactTable) (sig : Signature) : List (List String) :=
  (table.rowsOf sig.label).filter (·.length = sig.arity)

theorem outlinks_eq {run : Runner} {s : State} {sig : Signature} {computeFeatures : Bool}
    {m : Machine} (table : FactTable) (hlabel : s.jumpTo = some sig.label)
    (harity : sig.arity < Signature.arityBound)
    : table.outlinks run s computeFeatures m =
      (List.reduceOption <$>
        (table.answering sig).mapM (answer run s sig.label computeFeatures)) m := by
  unfold outlinks answering
  simp only [hlabel]
  match table.rowsOf sig.label with
  | [] => rfl
  | row :: rows =>
    simp only
    rw [Exec.bind_of_ok (Exec.read_of_ok (Signature.ofLabel?_label harity)), Exec.filterMapM_eq_map]

theorem outlinks_cases {program : Program} {gather : Nat → Exec (List Goal)} {symbols : SymbolTable}
    {s : State} {sig : Signature} {l : Level} {ls : List Level} {computeFeatures : Bool} {m : Machine}
    (table : FactTable) (h : Waiting program symbols s sig l ls)
    (harity : sig.arity < Signature.arityBound) (hle : symbols ≤ m.symbols)
    (hrun : Unexhausted (table.outlinks (program.run gather) s computeFeatures m))
    : ∃ tried m', table.outlinks (program.run gather) s computeFeatures m =
          .ok tried.reduceOption m' ∧ m.symbols ≤ m'.symbols ∧
        List.Forall₂ (fun row link => Answered program m'.symbols sig (awaits symbols s sig (l :: ls))
          computeFeatures row link) (table.answering sig) tried := by
  rw [outlinks_eq table h.jumpTo_eq harity] at hrun ⊢
  have hself : List.Forall₂ (fun row row' => row = row' ∧ row.length = sig.arity)
      (table.answering sig) (table.answering sig) := by
    rw [List.forall₂_same]
    intro row hrow
    exact ⟨rfl, by simpa using (List.mem_filter.mp hrow).2⟩
  have hcases := Exec.mapM_cases (Q := fun _ => False)
    (R := fun symbols' row link => Answered program symbols' sig (awaits symbols s sig (l :: ls))
      computeFeatures row link)
    Answered.mono ?_ hself hle hrun.of_map
  . rcases hcases with ⟨_, _, _, hfalse⟩ | ⟨tried, m', heq, hle', hanswered⟩
    . contradiction
    . exact ⟨tried, m', by rw [Exec.map_apply, heq], hle', hanswered⟩
  . intro row row' m hrow hle hrun
    rcases hrow with ⟨hrow, hlength⟩
    subst hrow
    exact .inr (answer_cases h hle hlength hrun)

end FactTable

end HornMachine
