import HornMachine.Proofs.Environment.Path
import HornMachine.Proofs.Environment.Room

/-!
This module contains the search for a given proof: the successors by the clauses of the proof, taken in
preorder, lead to a completed state that is at least as general as the proved instance of the query.
-/

namespace HornMachine

/--
Every use of a rule leads from the state to its successor by the clause of that use, whatever constants
are interned before, and `done` holds in the end.
-/
def Follows (env : Environment) (done : SymbolTable → State → Prop)
    : List RuleUse → SymbolTable → State → Prop
  | [], symbols, s => done symbols s
  | use :: uses, symbols, s =>
    s.failed = false ∧ s.completed = false ∧
      s.jumpTo = some use.clause.head.signature.label ∧
      ∀ m : Machine, symbols ≤ m.symbols → m.HasRoom env.program.constants →
        ∃ links m' link, env.outlinks s false m = .ok links m' ∧
          links[use.choice]? = some link ∧ link.state.failed = false ∧
          m'.HasRoom env.program.constants ∧ Follows env done uses m'.symbols link.state

def Answers (as : List String) (symbols : SymbolTable) (s : State) : Prop :=
  s.failed = false ∧ s.completed = true ∧
    ∃ free : Nat → String, (List.range s.heap.size).map (s.heap.value symbols free) = as

section

variable {program : Program} {symbols : SymbolTable} {s : State} {clause : Clause} {d : Denotation}
  {goals : List (Atom String)} {as : List String}

theorem Paused.answers (h : Paused program symbols s d) (hd : d String [] as)
    : Answers as symbols s := by
  cases h with
  | waiting h hd' =>
    rw [hd'] at hd
    rcases hd with ⟨_, _, hgoals, _⟩
    contradiction
  | completed h hd' =>
    rw [hd'] at hd
    rcases hd with ⟨v, hv, _, has⟩
    refine ⟨h.failed_eq, h.completed_eq, v, ?_⟩
    rw [has, cells, List.range_eq_range']
    apply List.map_congr_left
    intro addr haddr
    apply h.valid.closed.value_eq_of_models hv
    simpa using haddr

theorem Paused.exists_waiting {goal : Atom String} (h : Paused program symbols s d)
    (hd : d String (goal :: goals) as)
    : ∃ l ls, Waiting program symbols s goal.signature l ls ∧
        ∀ (D : Type) [Domain D] (goals : List (Atom D)) (as : List D),
          d D goals as ↔ awaits symbols s goal.signature (l :: ls) D goals as := by
  cases h with
  | waiting h hd' =>
    next sig l ls =>
      have hd := (hd' String _ _).mp hd
      rcases hd with ⟨val, _, hgoals, _⟩
      rw [List.cons.injEq] at hgoals
      have hsig : goal.signature = sig := by
        rw [hgoals.1, awaited, Atom.signature, cells]
        simp
      rw [hsig]
      exact ⟨l, ls, h, hd'⟩
  | completed h hd' =>
    rw [hd'] at hd
    rcases hd with ⟨_, _, hgoals, _⟩
    contradiction

end

theorem Outcome.next_of_instance {program : Program} {symbols : SymbolTable} {use : RuleUse}
    {d : Denotation} {goals : List (Atom String)} {as : List String} {link : Outlink}
    (h : Outcome program symbols use.clause d false (some link)) (hd : d String (use.head :: goals) as)
    : Paused program symbols link.state (resolvent use.clause d) ∧
        resolvent use.clause d String (use.body ++ goals) as := by
  cases h with
  | failed _ hmismatch => exact absurd hd (hmismatch String use.assign goals as)
  | next hpaused _ => exact ⟨hpaused, use.assign, goals, rfl, hd⟩

theorem Paused.follows {env : Environment} {rules : List Clause} {symbols : SymbolTable} {s : State}
    {d : Denotation} {goals left : List (Atom String)} {uses : List RuleUse} {as : List String}
    (hrules : env.program.Implements rules) (hplugins : env.plugins = [])
    (hderives : Derives rules goals uses left) (hleft : left = [])
    (h : Paused env.program symbols s d) (hd : d String goals as)
    : Follows env (Answers as) uses symbols s := by
  -- the induction is on the derivation, whose goals are those that the state stands for at each step
  induction hderives generalizing symbols s d with
  | done goals =>
    subst hleft
    exact h.answers hd
  | @resolve use uses goals _ hfrom _ ih =>
    rcases h.exists_waiting hd with ⟨l, ls, hwaiting, hd'⟩
    have hsig : use.head.signature = use.clause.head.signature :=
      Literal.signature_inst use.assign use.clause.head
    rw [hsig] at hwaiting hd'
    refine ⟨hwaiting.failed_eq, hwaiting.completed_eq, hwaiting.jumpTo_eq, ?_⟩
    intro m hle hroom
    have hroomy := env.roomy_outlinks ⟨fun _ hname => hname, by simp [hplugins]⟩ s false
    have hne : clausesOf rules use.clause.head.signature ≠ [] :=
      List.ne_nil_of_mem (List.mem_of_getElem? hfrom)
    rcases hwaiting.outlinks_false hrules (by simp [hplugins]) hle hne (hroomy.unexhausted hroom) with
      ⟨links, m', heq, _, houtcomes⟩
    -- the clause of the use has its successor at the same place, and it cannot have failed
    rcases exists_of_forall₂_left houtcomes hfrom with ⟨link, hlink, houtcome⟩
    rcases (houtcome.congr hd').next_of_instance hd with ⟨hpaused, hresolvent⟩
    exact ⟨links, m', link, heq, hlink, hpaused.failed_eq, hroomy.hasRoom hroom heq,
      ih hleft hpaused hresolvent⟩

namespace Environment

/--
The search finds every proof of an instance of the query: the steps by the clauses of the proof, taken in
preorder, end with a completed state whose free cells can get constants that give the instance.
-/
theorem run_follows_proof {env : Environment} {items : List Item} {i start : Nat}
    {goals : List Literal} {θ : String → String} {forest : Forest} {m : Machine}
    (hprogram : env.program = (({} : Program).compile items).2) (hplugins : env.plugins = [])
    (hitem : items[i]? = some (.query goals))
    (hstart : (({} : Program).compile items).1[i]? = some (.ok (some start)))
    (hm : m.state = {}) (hroom : m.HasRoom env.program.constants)
    (hproves : forest.Proves (rulesOf items) (goals.map (Literal.inst θ)))
    : forest.preorder.length = forest.size ∧
        ∃ m', env.run (some start) false m = .ok ∅ m' ∧ m'.HasRoom env.program.constants ∧
          Follows env (Answers ((goals.map (Literal.inst θ)).flatMap Atom.args)) forest.preorder
            m'.symbols m'.state := by
  rcases Program.compile_query hprogram hitem hstart with ⟨hrules, hquery⟩
  have hroomy := env.roomy_run ⟨fun _ hname => hname, by simp [hplugins]⟩ (some start) false
  rcases run_query hquery hm (hroomy.unexhausted hroom) with ⟨m', heq, _, hpaused⟩
  refine ⟨forest.length_preorder, m', heq, hroomy.hasRoom hroom heq, ?_⟩
  apply hpaused.follows hrules hplugins (derives_nil_iff.mpr ⟨forest, hproves, rfl⟩) rfl
  exact ⟨θ, rfl, rfl⟩

end Environment

namespace Sample

def edge (source target : String) : Clause where
  head := ⟨"edge", [.const source, .const target]⟩

def direct : Clause where
  head := ⟨"reach", [.var "X", .var "Y"]⟩
  body := [⟨"edge", [.var "X", .var "Y"]⟩]

def indirect : Clause where
  head := ⟨"reach", [.var "X", .var "Z"]⟩
  body := [⟨"edge", [.var "X", .var "Y"]⟩, ⟨"reach", [.var "Y", .var "Z"]⟩]

def reached : List Literal :=
  [⟨"reach", [.const "a", .var "W"]⟩]

def graph : List Item :=
  [.clauses [edge "a" "b", edge "b" "c"], .clause direct, .clause indirect, .query reached]

def graphEnv : Environment where
  program := (({} : Program).compile graph).2

def way : Forest :=
  .node ⟨indirect, 1, fun name => if name = "X" then "a" else if name = "Y" then "b" else "c"⟩
    (.node ⟨edge "a" "b", 0, id⟩ .nil
      (.node ⟨direct, 0, fun name => if name = "X" then "b" else "c"⟩
        (.node ⟨edge "b" "c", 1, id⟩ .nil .nil) .nil)) .nil

end Sample

theorem Environment.run_follows_proof_sample
    : Sample.way.Proves (rulesOf Sample.graph) [⟨"reach", ["a", "c"]⟩] ∧
      ∃ m', Sample.graphEnv.run (some 33) false {} = .ok ∅ m' ∧
        Follows Sample.graphEnv (Answers ["a", "c"]) Sample.way.preorder m'.symbols m'.state := by
  have hproves : Sample.way.Proves (rulesOf Sample.graph)
      (Sample.reached.map (Literal.inst fun _ => "c")) := by
    refine ⟨_, rfl, by decide, ?_, rfl⟩
    refine ⟨_, rfl, by decide, rfl, ?_⟩
    refine ⟨_, rfl, by decide, ?_, rfl⟩
    exact ⟨_, rfl, by decide, rfl, rfl⟩
  have hroom : ({} : Machine).HasRoom Sample.graphEnv.program.constants := by
    apply Interner.room_of_length
    decide
  have hstart : (({} : Program).compile Sample.graph).1[3]? = some (.ok (some 33)) := by decide
  rcases run_follows_proof (i := 3) rfl rfl rfl hstart rfl hroom hproves with
    ⟨_, m', hrun, _, hfollows⟩
  exact ⟨hproves, m', hrun, hfollows⟩

end HornMachine
