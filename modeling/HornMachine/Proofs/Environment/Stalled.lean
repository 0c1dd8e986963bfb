import HornMachine.Proofs.Environment.Reach
import HornMachine.Proofs.Run.Stalled

/-!
This module contains the failed states that a search comes to. They have stopped in the head of a clause
for the call that was to be answered, and nothing keeps anybody from asking for their successors again.
-/

namespace HornMachine

open Level

section Outlink

variable {program : Program} {gather : Nat → Exec (List Goal)} {symbols : SymbolTable} {s : State}
  {sig : Signature} {l : Level} {ls : List Level} {clause : Clause} {computeFeatures : Bool}
  {addr : Nat} {m : Machine}

theorem Held.run_clause (gather : Nat → Exec (List Goal)) (computeFeatures : Bool)
    (h : Held program symbols s 0 l ls) (hoffers : program.Offers sig addr clause)
    (harity : sig.arity ≤ s.heap.size) (hle : symbols ≤ m.symbols)
    : program.run gather (some addr) computeFeatures { m with state := s } =
          program.runOn gather computeFeatures
            (Machine.allocated { m with state := s } (addr + 1) clause.vars.length) ∧
        Matching program m.symbols
          (Machine.allocated { m with state := s } (addr + 1) clause.vars.length).state clause
          clause.head.args [] (addr + 1) l ls := by
  have harity' : clause.head.args.length ≤ s.heap.size := by
    rw [← hoffers.signature_eq] at harity
    exact harity
  exact ⟨run_allocate hoffers.code,
    Held.matching (m := { m with state := s }) (h.mono hle) hoffers.code harity'⟩

theorem Held.clauseOutlink_false (h : Held program symbols s 0 l ls)
    (hoffers : program.Offers sig addr clause) (harity : sig.arity ≤ s.heap.size)
    (hle : symbols ≤ m.symbols)
    (hrun : Unexhausted (Environment.clauseOutlink (program.run gather) s false addr m))
    : ∃ link m', Environment.clauseOutlink (program.run gather) s false addr m = .ok link m' ∧
        m.symbols ≤ m'.symbols := by
  rcases h.run_clause gather false hoffers harity hle with
    ⟨heq, hmatching⟩
  rw [Environment.clauseOutlink_false_apply, heq] at hrun ⊢
  have hrun' : Unexhausted (program.runOn gather false
      (Machine.allocated { m with state := s } (addr + 1) clause.vars.length)) := by
    apply hrun.of_error
    intro fault m' herror
    rw [herror]
  rcases hmatching.runOn_false (runsAt_allocated _ _) hrun' with ⟨m', hok, hle'⟩
  rw [hok]
  exact ⟨_, m', rfl, hle'⟩

theorem Held.clauseOutlink_true (h : Held program symbols s 0 l ls)
    (hoffers : program.Offers sig addr clause) (harity : sig.arity ≤ s.heap.size)
    (hle : symbols ≤ m.symbols)
    (hrun : Unexhausted (Environment.clauseOutlink (program.run gather) s true addr m))
    : (∃ root m', Environment.clauseOutlink (program.run gather) s true addr m =
          .error (.notConstant root "fpushboundvar") m') ∨
      ∃ link m', Environment.clauseOutlink (program.run gather) s true addr m = .ok link m' ∧
        m.symbols ≤ m'.symbols := by
  rcases h.run_clause gather true hoffers harity hle with
    ⟨heq, hmatching⟩
  rw [Environment.clauseOutlink_true_apply, heq] at hrun ⊢
  have hrun' : Unexhausted (program.runOn gather true
      (Machine.allocated { m with state := s } (addr + 1) clause.vars.length)) := by
    apply hrun.of_error
    intro fault m' herror
    rw [herror]
  rcases hmatching.runOn_true hoffers.features (runsAt_allocated _ _) hrun' with
    ⟨root, m', hfault⟩ | ⟨report, m₁, hok, hle₁, hresume⟩
  . left
    rw [hfault]
    exact ⟨root, m', rfl⟩
  . right
    rw [hok] at hrun ⊢
    by_cases hstop : (report.isEmpty || m₁.state.failed) = true
    . simp only [hstop, if_true]
      exact ⟨none, m₁, rfl, hle₁⟩
    . simp only [if_neg hstop] at hrun ⊢
      simp only [Bool.or_eq_true, not_or, Bool.not_eq_true] at hstop
      have hrun₁ : Unexhausted (program.run gather none true m₁) := by
        apply hrun.of_error
        intro fault m' herror
        rw [herror]
      rcases hresume hstop.2 hrun₁ with ⟨m', hok', hle'⟩
      rw [hok']
      by_cases hfailed : m'.state.failed = true
      . simp only [hfailed, if_true]
        exact ⟨none, m', rfl, Interner.le_trans hle₁ hle'⟩
      . simp only [if_neg hfailed]
        exact ⟨_, m', rfl, Interner.le_trans hle₁ hle'⟩

end Outlink

section Outlinks

variable {env : Environment} {tables : List FactTable} {rules : List Clause} {symbols : SymbolTable}
  {s : State} {computeFeatures : Bool} {m : Machine}

theorem Held.outlinks {sig : Signature} {l : Level} {ls : List Level}
    (h : Held env.program symbols s 0 l ls) (hrules : env.program.Implements rules)
    (hplugins : env.plugins.find? (·.claims sig.label) = none) (hne : clausesOf rules sig ≠ [])
    (hcompleted : s.completed = false) (hlabel : s.jumpTo = some sig.label)
    (harity : sig.arity ≤ s.heap.size) (hle : symbols ≤ m.symbols)
    (hrun : Unexhausted (env.outlinks s computeFeatures m))
    : (computeFeatures = true ∧ ∃ root m',
        env.outlinks s computeFeatures m = .error (.notConstant root "fpushboundvar") m') ∨
      ∃ links m', env.outlinks s computeFeatures m = .ok links m' := by
  rcases hrules.addresses_cases sig with ⟨_, hnil⟩ | ⟨addrs, haddrs, _, hoffers⟩
  . contradiction
  rw [Environment.outlinks_eq_mapM hcompleted hlabel hplugins haddrs] at hrun ⊢
  have hcases := Exec.mapM_cases (f := Environment.clauseOutlink env.run s computeFeatures)
    (Q := fun fault => computeFeatures = true ∧ ∃ root, fault = .notConstant root "fpushboundvar")
    (R := fun _ _ _ => True) (fun _ _ => trivial) ?_ hoffers hle hrun.of_map
  . rcases hcases with ⟨fault, m', hfault, hfeatures, root, rfl⟩ | ⟨tried, m', hok, _⟩
    . exact .inl ⟨hfeatures, root, m', by rw [Exec.map_apply, hfault]⟩
    . exact .inr ⟨tried.reduceOption, m', by rw [Exec.map_apply, hok]⟩
  . intro addr clause m hoffer hle hrun
    cases computeFeatures with
    | false =>
      rcases h.clauseOutlink_false hoffer harity hle hrun with ⟨link, m', hok, hle'⟩
      exact .inr ⟨link, m', hok, hle', trivial⟩
    | true =>
      rcases h.clauseOutlink_true hoffer harity hle hrun with ⟨root, m', hfault⟩ | ⟨link, m', hok, hle'⟩
      . exact .inl ⟨_, m', hfault, rfl, root, rfl⟩
      . exact .inr ⟨link, m', hok, hle', trivial⟩

namespace Stalled

variable {clause : Clause} (h : Stalled env.program symbols clause s) (hle : symbols ≤ m.symbols)
include h hle

theorem run_false (hrun : Unexhausted (env.run none false { m with state := s }))
    : ∃ m', env.run none false { m with state := s } = .ok ∅ m' := by
  rcases h.exists_matching (env.gather env.nesting) false hle with
    ⟨_, _, _, _, _, heq, hat, hmatching⟩
  rw [Environment.run, heq] at hrun ⊢
  rcases Matching.runOn_false (m := { m with state := { s with failed := false } }) hmatching hat hrun
    with ⟨m', hok, _⟩
  exact ⟨m', hok⟩

theorem run_true (hfeatures : clause.unboundFeatureVariable? = none)
    (hrun : Unexhausted (env.run none true { m with state := s }))
    : (∃ root m', env.run none true { m with state := s } =
        .error (.notConstant root "fpushboundvar") m') ∨
      ∃ report m', env.run none true { m with state := s } = .ok report m' := by
  rcases h.exists_matching (env.gather env.nesting) true hle with
    ⟨_, _, _, _, _, heq, hat, hmatching⟩
  rw [Environment.run, heq] at hrun ⊢
  rcases Matching.runOn_true (m := { m with state := { s with failed := false } }) hmatching hfeatures
    hat hrun with hfault | ⟨report, m', hok, _⟩
  . exact .inl hfault
  . exact .inr ⟨report, m', hok⟩

theorem outlinks (hrules : env.program.Implements rules)
    (hplugins : env.plugins.find? (·.claims clause.head.signature.label) = none)
    (hclause : clause ∈ rules) (hrun : Unexhausted (env.outlinks s computeFeatures m))
    : (computeFeatures = true ∧ ∃ root m',
        env.outlinks s computeFeatures m = .error (.notConstant root "fpushboundvar") m') ∨
      ∃ links m', env.outlinks s computeFeatures m = .ok links m' := by
  rcases h.matching with ⟨_, _, _, l, ls, _, hmatching⟩
  have hne : clausesOf rules clause.head.signature ≠ [] := by
    apply List.ne_nil_of_mem (a := clause)
    simp [clausesOf, hclause]
  exact (hmatching.held.le (Nat.zero_le _)).outlinks hrules hplugins hne h.completed_eq h.jumpTo_eq
    h.arity_le hle hrun

end Stalled

theorem Reached.stalled {goals : List Literal} {start : Nat} (hrules : env.program.Implements rules)
    (hquery : env.program.Has start (queryCode goals))
    (hplugins : env.plugins = tables.map FactTable.plugin)
    (hsize : tables ≠ [] → env.program.size < Signature.arityBound)
    (h : Reached env start symbols s) (hfailed : s.failed = true)
    : ∃ clause ∈ rules, tables.find? (·.claims clause.head.signature.label) = none ∧
        Stalled env.program symbols clause s := by
  cases h with
  | start hm hrun =>
    rw [(paused_of_run hquery hm hrun).failed_eq] at hfailed
    contradiction
  | step h hfailed' hcompleted hle hlinks hlink =>
    rcases (h.rested hrules hquery hplugins hsize).waiting hfailed' hcompleted with
      ⟨sig, l, ls, hwaiting⟩
    rcases hwaiting.mem_outlinks hrules hplugins hsize hle hlinks hlink with
      ⟨_, hanswered⟩ | ⟨hnone, clause, hclause, houtcome⟩
    . cases hanswered with
      | answered hpaused =>
        rw [hpaused.failed_eq] at hfailed
        contradiction
    . have hsig : clause.head.signature = sig := by
        simpa [clausesOf] using (List.mem_filter.mp hclause).2
      cases houtcome with
      | failed hstalled _ =>
        rw [← hsig] at hnone
        exact ⟨clause, (List.mem_filter.mp hclause).1, hnone, hstalled⟩
      | next hpaused _ =>
        rw [hpaused.failed_eq] at hfailed
        contradiction

end Outlinks

end HornMachine
