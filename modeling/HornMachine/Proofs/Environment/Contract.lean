import HornMachine.Proofs.Environment.Follow
import HornMachine.Proofs.Environment.Pending
import HornMachine.Proofs.Environment.Stalled

/-!
This module contains the contract between compiled code and the machine: no run, no step and no listing of
goals comes to a fault on the states that a search reaches, except for a predicate that nobody answers and
for a feature with a variable that has no constant. The latter may also stop a run that goes on from a
failed state.
-/

namespace HornMachine

section Rest

variable {program : Program} {gather : Nat → Exec (List Goal)} {symbols : SymbolTable} {s : State}
  {d : Denotation} {computeFeatures : Bool} {m : Machine}

theorem Paused.run_none (h : Paused program symbols s d)
    : program.run gather none computeFeatures { m with state := s } =
      .ok ∅ { m with state := s } := by
  rcases s with ⟨heap, registers, calls, pc, jumpTo, failed, completed⟩
  rw [Program.run_apply]
  cases h with
  | waiting h _ =>
    have hpc := h.pc_eq
    have hfailed := h.failed_eq
    have hcompleted := h.completed_eq
    simp only at hpc hfailed hcompleted
    subst hpc hfailed hcompleted
    exact Program.runOn_pause rfl
  | completed h _ =>
    rcases h.returnp with ⟨addr, hpc, hinstr⟩
    have hfailed := h.failed_eq
    have hcompleted := h.completed_eq
    have hcalls := h.calls_eq
    simp only at hpc hfailed hcompleted hcalls
    subst hpc hfailed hcompleted hcalls
    rw [Program.runOn_step ⟨rfl, rfl, rfl⟩ hinstr rfl]
    exact Program.runOn_pause rfl

end Rest

namespace Environment

def constants (env : Environment) (tables : List FactTable) : List String :=
  env.program.constants ++ tables.flatMap FactTable.constants

theorem interns_constants {env : Environment} {tables : List FactTable}
    (hplugins : env.plugins = tables.map FactTable.plugin) : env.Interns (env.constants tables) where
  constants _ hname := List.mem_append_left _ hname
  plugins plugin hplugin := by
    rw [hplugins] at hplugin
    rcases List.mem_map.mp hplugin with ⟨table, htable, heq⟩
    rw [← heq]
    apply FactTable.roomy_plugin
    intro name hname
    exact List.mem_append_right _ (List.mem_flatMap.mpr ⟨table, htable, hname⟩)

end Environment

def Offered (rules : List Clause) (tables : List FactTable) (label : String) : Prop :=
  (∃ table ∈ tables, table.claims label = true) ∨ ∃ clause ∈ rules, clause.head.signature.label = label

theorem offered_iff {rules : List Clause} {tables : List FactTable} {sig : Signature}
    (hnone : tables.find? (·.claims sig.label) = none)
    : Offered rules tables sig.label ↔ clausesOf rules sig ≠ [] := by
  rw [List.find?_eq_none] at hnone
  constructor
  . intro h
    rcases h with ⟨table, htable, hclaims⟩ | ⟨clause, hclause, hlabel⟩
    . exact absurd hclaims (hnone table htable)
    . apply List.ne_nil_of_mem (a := clause)
      simp [clausesOf, hclause, Signature.label_injective hlabel]
  . intro hne
    rcases List.exists_mem_of_ne_nil _ hne with ⟨clause, hclause⟩
    simp only [clausesOf, List.mem_filter, decide_eq_true_eq] at hclause
    exact .inr ⟨clause, hclause.1, by rw [hclause.2]⟩

/--
The only faults of a step on a waiting state: nobody answers its call, or a variable of a feature has no
constant.
-/
structure Expands (env : Environment) (rules : List Clause) (tables : List FactTable) (s : State)
    (label : String) (m : Machine) : Prop where
  unknown : ¬Offered rules tables label →
    ∀ computeFeatures, env.outlinks s computeFeatures m = .error (.unknownPredicate label) m
  plain : Offered rules tables label → ∃ links m', env.outlinks s false m = .ok links m'
  featured : Offered rules tables label → (∃ links m', env.outlinks s true m = .ok links m') ∨
    ∃ root m', env.outlinks s true m = .error (.notConstant root "fpushboundvar") m'

theorem Waiting.expands {env : Environment} {tables : List FactTable} {rules : List Clause}
    {symbols : SymbolTable} {s : State} {sig : Signature} {l : Level} {ls : List Level} {m : Machine}
    {names : List String} (h : Waiting env.program symbols s sig l ls)
    (hrules : env.program.Implements rules) (hplugins : env.plugins = tables.map FactTable.plugin)
    (hsize : env.program.size < Signature.arityBound) (hinterns : env.Interns names)
    (hle : symbols ≤ m.symbols) (hroom : m.HasRoom names) : Expands env rules tables s sig.label m := by
  have hrun : ∀ computeFeatures, Unexhausted (env.outlinks s computeFeatures m) :=
    fun computeFeatures => (env.roomy_outlinks hinterns s computeFeatures).unexhausted hroom
  -- a table that claims the predicate answers alone, and the clauses are not looked at
  match htable : tables.find? (·.claims sig.label) with
  | some table =>
    have harity := h.arity_le_size
    have hok : ∀ computeFeatures, ∃ links m', env.outlinks s computeFeatures m = .ok links m' := by
      intro computeFeatures
      rcases h.outlinks_table hplugins htable (by omega) hle (hrun computeFeatures) with
        ⟨tried, m', heq, _⟩
      exact ⟨_, m', heq⟩
    have hoffered : Offered rules tables sig.label :=
      .inl ⟨table, List.mem_of_find?_eq_some htable,
        List.find?_some (p := fun table : FactTable => table.claims sig.label) htable⟩
    exact ⟨fun hno => absurd hoffered hno, fun _ => hok false, fun _ => .inl (hok true)⟩
  | none =>
    have hnone : env.plugins.find? (·.claims sig.label) = none := by
      rw [Environment.find?_tables hplugins, htable]
      rfl
    constructor
    . intro hno computeFeatures
      rw [offered_iff htable, not_not] at hno
      rcases h.outlinks hrules hnone hle (hrun computeFeatures) with ⟨_, heq⟩ | ⟨hne, _⟩ | ⟨hne, _⟩
      . exact heq
      . contradiction
      . contradiction
    . intro hoffered
      rw [offered_iff htable] at hoffered
      rcases h.outlinks_false hrules hnone hle hoffered (hrun false) with ⟨links, m', heq, _⟩
      exact ⟨links, m', heq⟩
    . intro hoffered
      rw [offered_iff htable] at hoffered
      rcases h.outlinks hrules hnone hle (hrun true) with
        ⟨hnil, _⟩ | ⟨_, _, root, m', heq⟩ | ⟨_, tried, m', _, heq, _⟩
      . contradiction
      . exact .inr ⟨root, m', heq⟩
      . exact .inl ⟨_, m', heq⟩

theorem Stalled.expands {env : Environment} {tables : List FactTable} {rules : List Clause}
    {symbols : SymbolTable} {s : State} {clause : Clause} {m : Machine} {names : List String}
    (h : Stalled env.program symbols clause s) (hrules : env.program.Implements rules)
    (hplugins : env.plugins = tables.map FactTable.plugin) (hclause : clause ∈ rules)
    (hnone : tables.find? (·.claims clause.head.signature.label) = none) (hinterns : env.Interns names)
    (hle : symbols ≤ m.symbols) (hroom : m.HasRoom names)
    : Expands env rules tables s clause.head.signature.label m := by
  have hoffered : Offered rules tables clause.head.signature.label := .inr ⟨clause, hclause, rfl⟩
  have hnone' : env.plugins.find? (·.claims clause.head.signature.label) = none := by
    rw [Environment.find?_tables hplugins, hnone]
    rfl
  have hlinks := fun computeFeatures : Bool => h.outlinks hle hrules hnone' hclause
    ((env.roomy_outlinks hinterns s computeFeatures).unexhausted hroom)
  constructor
  . exact fun hno => absurd hoffered hno
  . intro _
    rcases hlinks false with ⟨hfalse, _⟩ | hok
    . contradiction
    . exact hok
  . intro _
    rcases hlinks true with ⟨_, hfault⟩ | hok
    . exact .inr hfault
    . exact .inl hok

/--
The only fault of a run that goes on from a failed state.
-/
structure Restarts (env : Environment) (s : State) (m : Machine) : Prop where
  plain : ∃ m', env.run none false { m with state := s } = .ok ∅ m'
  featured : (∃ report m', env.run none true { m with state := s } = .ok report m') ∨
    ∃ root m', env.run none true { m with state := s } = .error (.notConstant root "fpushboundvar") m'

theorem Stalled.restarts {env : Environment} {symbols : SymbolTable} {s : State} {clause : Clause}
    {m : Machine} {names : List String} (h : Stalled env.program symbols clause s)
    (hfeatures : clause.unboundFeatureVariable? = none) (hinterns : env.Interns names)
    (hle : symbols ≤ m.symbols) (hroom : m.HasRoom names) : Restarts env s m := by
  have hroom' : ({ m with state := s } : Machine).HasRoom names := hroom
  have hrun : ∀ computeFeatures, Unexhausted (env.run none computeFeatures { m with state := s }) :=
    fun computeFeatures => (env.roomy_run hinterns none computeFeatures).unexhausted hroom'
  exact ⟨h.run_false hle (hrun false), (h.run_true hle hfeatures (hrun true)).symm⟩

/--
The run of a query comes to no fault. On every state that a search from there reaches the same holds for
running on, for steps up to the two faults that they may have, and for the listing of the goals that are
left, but a run that goes on from a failed state may have one of these faults as well.
-/
theorem Reached.contract {env : Environment} {tables : List FactTable} {items : List Item}
    {i start : Nat} {goals : List Literal}
    (hprogram : env.program = (({} : Program).compile items).2)
    (hplugins : env.plugins = tables.map FactTable.plugin)
    (hitem : items[i]? = some (.query goals))
    (hstart : (({} : Program).compile items).1[i]? = some (.ok (some start)))
    (hsize : env.program.size < Signature.arityBound)
    : (∀ (computeFeatures : Bool) (m : Machine), m.state = {} → m.HasRoom (env.constants tables) →
        ∃ m', env.run (some start) computeFeatures m = .ok ∅ m') ∧
      ∀ (symbols : SymbolTable) (s : State), Reached env start symbols s →
        ∀ m : Machine, symbols ≤ m.symbols → m.HasRoom (env.constants tables) →
          (s.failed = false → ∀ computeFeatures,
            env.run none computeFeatures { m with state := s } = .ok ∅ { m with state := s }) ∧
          (s.failed = true → Restarts env s m) ∧
          (s.completed = true → ∀ computeFeatures, env.outlinks s computeFeatures m = .ok [] m) ∧
          (s.completed = false →
            ∃ label, s.jumpTo = some label ∧ Expands env (rulesOf items) tables s label m) ∧
          (s.failed = false → s.completed = false → ∃ goals m', env.pendingGoals s m = .ok goals m') := by
  rcases Program.compile_query hprogram hitem hstart with ⟨hrules, hquery⟩
  have hinterns := env.interns_constants hplugins
  constructor
  . intro computeFeatures m hm hroom
    have hroomy := env.roomy_run hinterns (some start) computeFeatures
    rcases run_query hquery hm (hroomy.unexhausted hroom) with ⟨m', heq, _⟩
    exact ⟨m', heq⟩
  . intro symbols s h m hle hroom
    cases hfailed : s.failed with
    | false =>
      rcases h.rested hrules hquery hplugins (fun _ => hsize) with ⟨hfailed', _⟩ | ⟨d, hpaused⟩
      . rw [hfailed] at hfailed'
        contradiction
      refine ⟨fun _ _ => hpaused.run_none, by simp, fun hcompleted _ => ?_, fun hcompleted => ?_,
        fun _ hcompleted => ?_⟩
      . exact Environment.outlinks_completed hcompleted
      . rcases hpaused.waiting_of_not_completed hcompleted with ⟨sig, l, ls, hwaiting, _⟩
        exact ⟨sig.label, hwaiting.jumpTo_eq,
          hwaiting.expands hrules hplugins hsize hinterns hle hroom⟩
      . rcases hpaused.waiting_of_not_completed hcompleted with ⟨sig, l, ls, hwaiting, _⟩
        exact env.pendingGoals_waiting hinterns hsize hwaiting hle hroom
    | true =>
      rcases h.stalled hrules hquery hplugins (fun _ => hsize) hfailed with
        ⟨clause, hclause, hnone, hstalled⟩
      refine ⟨by simp, fun _ => ?_, fun hcompleted => ?_, fun _ => ?_, by simp⟩
      . exact hstalled.restarts (hrules.features_of_mem hclause) hinterns hle hroom
      . rw [hstalled.completed_eq] at hcompleted
        contradiction
      . exact ⟨_, hstalled.jumpTo_eq,
          hstalled.expands hrules hplugins hclause hnone hinterns hle hroom⟩

namespace Sample

def edges : FactTable :=
  .ofList [("edge", ["a", "b"]), ("edge", ["b", "c"])]

def anywhere : List Literal :=
  [⟨"reach", [.var "V", .var "W"]⟩]

def ways : List Item :=
  [.clause direct, .clause indirect, .query anywhere]

def tableEnv : Environment where
  program := (({} : Program).compile ways).2
  plugins := [edges.plugin]

def searching : State where
  heap := #[.ref 0, .ref 1]
  registers := #[some 1, some 0]
  calls := [⟨2, 2, 25, none⟩]
  pc := none
  jumpTo := some "reach/2"

def linking : State where
  heap := #[.ref 0, .ref 1, .ref 0, .ref 1]
  registers := #[some 1, some 0, some 1, some 0]
  calls := [⟨4, 4, 8, some "reach/2"⟩, ⟨2, 2, 25, none⟩]
  pc := none
  jumpTo := some "edge/2"

def stepping : State where
  heap := #[.ref 0, .ref 1, .ref 0, .ref 3]
  registers := #[some 1, some 0, some 3, some 1, some 0]
  calls := [⟨4, 5, 17, some "reach/2"⟩, ⟨2, 2, 25, none⟩]
  pc := none
  jumpTo := some "edge/2"

end Sample

theorem Reached.contract_sample
    : Reached Sample.tableEnv 21 .empty Sample.stepping ∧
      Expands Sample.tableEnv (rulesOf Sample.ways) [Sample.edges] Sample.stepping "edge/2" {} ∧
      ∃ goals m', Sample.tableEnv.pendingGoals Sample.stepping {} = .ok goals m' := by
  have hrun : Sample.tableEnv.run (some 21) false {} = .ok ∅ { state := Sample.searching } := by decide +kernel
  have hlinks : Sample.tableEnv.outlinks Sample.searching false {} =
      .ok [⟨none, Sample.linking⟩, ⟨none, Sample.stepping⟩] { state := Sample.stepping } := by decide +kernel
  have hlink : (⟨none, Sample.stepping⟩ : Outlink) ∈
      [⟨none, Sample.linking⟩, ⟨none, Sample.stepping⟩] := by simp
  have hstarted : Reached Sample.tableEnv 21 .empty Sample.searching := .start rfl hrun
  have hreached := hstarted.step rfl rfl (Interner.le_refl _) hlinks hlink
  have hplugins : Sample.tableEnv.plugins = [Sample.edges].map FactTable.plugin := rfl
  have hstart : (({} : Program).compile Sample.ways).1[2]? = some (.ok (some 21)) := by decide
  have hroom : ({} : Machine).HasRoom (Sample.tableEnv.constants [Sample.edges]) := by
    apply Interner.room_of_length
    decide
  rcases (contract (i := 2) rfl hplugins rfl hstart (by decide)).2 _ _ hreached {}
    (Interner.le_refl _) hroom with ⟨_, _, _, hexpands, hpending⟩
  rcases hexpands rfl with ⟨label, hlabel, hexpands⟩
  cases hlabel
  exact ⟨hreached, hexpands, hpending rfl rfl⟩

namespace Sample

def picky : Clause where
  head := ⟨"p", [.const "b", .var "X"]⟩
  features := [⟨"f", [.var "X"]⟩]

def pickyEnv : Environment where
  program := (({} : Program).compile [.clause picky, .query [⟨"p", [.const "a", .var "Y"]⟩]]).2

def askedPicky : State where
  heap := #[.const 0, .ref 1]
  registers := #[some 1]
  calls := [⟨2, 1, 12, none⟩]
  pc := none
  jumpTo := some "p/2"

def refusedPicky : State where
  heap := #[.const 0, .ref 1]
  registers := #[some 1, none]
  calls := [⟨2, 1, 12, none⟩]
  pc := some 2
  jumpTo := some "p/2"
  failed := true

def pickyWords : SymbolTable :=
  .single "a"

end Sample

theorem Reached.run_notConstant
    : Reached Sample.pickyEnv 8 Sample.pickyWords Sample.refusedPicky ∧
      ∃ m', Sample.pickyEnv.run none true { state := Sample.refusedPicky, symbols := Sample.pickyWords } =
        .error (.notConstant 1 "fpushboundvar") m' := by
  have hrun : Sample.pickyEnv.run (some 8) false {} =
      .ok ∅ { state := Sample.askedPicky, symbols := Sample.pickyWords } := by decide +kernel
  have hlinks : Sample.pickyEnv.outlinks Sample.askedPicky false { symbols := Sample.pickyWords } =
      .ok [⟨none, Sample.refusedPicky⟩]
        { state := Sample.refusedPicky, symbols := Sample.pickyWords } := by decide +kernel
  have hstarted : Reached Sample.pickyEnv 8 Sample.pickyWords Sample.askedPicky := .start rfl hrun
  have hreached := hstarted.step rfl rfl (Interner.le_refl _) hlinks List.mem_cons_self
  let stopped : Machine :=
    { state := { Sample.refusedPicky with registers := #[some 1, some 1], pc := some 5, failed := false }
      symbols := Sample.pickyWords
      features := [⟨"f", 1, []⟩] }
  have hstopped : Sample.pickyEnv.run none true
      { state := Sample.refusedPicky, symbols := Sample.pickyWords } =
        .error (.notConstant 1 "fpushboundvar") stopped := by decide +kernel
  exact ⟨hreached, stopped, hstopped⟩

end HornMachine
