import HornMachine.Proofs.Environment.Outlinks

/-!
This module contains the paths of a search. Every state on a path stands for the goals that are left to
prove, and a path to a completed state is a proof, written down from left to right.
-/

namespace HornMachine

/--
A step of a path: the state and the machine that its successors were asked from, and the one that was
taken, with its place among them.
-/
structure Move where
  state : State
  machine : Machine
  place : Nat
  link : Outlink

/--
A path leads from the run of a query through successors of states that are neither failed nor completed.
Between the steps the machine may intern more constants.
-/
inductive Path (env : Environment) (computeFeatures : Bool) (start : Nat)
    : List Move → SymbolTable → State → Prop where
  | start {m m' : Machine} {report : Features} (hm : m.state = {})
      (hrun : env.run (some start) computeFeatures m = .ok report m')
      : Path env computeFeatures start [] m'.symbols m'.state
  | step {moves : List Move} {symbols : SymbolTable} {s : State} {m m' : Machine}
      {links : List Outlink} {place : Nat} {link : Outlink}
      (h : Path env computeFeatures start moves symbols s)
      (hfailed : s.failed = false) (hcompleted : s.completed = false) (hsymbols : symbols ≤ m.symbols)
      (hlinks : env.outlinks s computeFeatures m = .ok links m') (hlink : links[place]? = some link)
      : Path env computeFeatures start (moves ++ [⟨s, m, place, link⟩]) m'.symbols link.state

namespace Move

variable (env : Environment) (computeFeatures : Bool) (move : Move)

/--
The successor is the one by clause number `choice` of the predicate, behind those of the clauses before.
-/
def Chose (choice : Nat) : Prop :=
  ∃ tried m', env.trials move.state computeFeatures move.machine = .ok tried m' ∧
    env.outlinks move.state computeFeatures move.machine = .ok tried.reduceOption m' ∧
    tried[choice]? = some (some move.link) ∧
    (tried.take choice).reduceOption.length = move.place

structure Uses (use : RuleUse) : Prop where
  label_eq : move.state.jumpTo = some use.clause.head.signature.label
  chose : move.Chose env computeFeatures use.choice
  features_eq : computeFeatures = true → move.link.features = some (use.clause.report use.assign)

end Move

theorem exists_of_getElem?_reduceOption {tried : List (Option α)} {k : Nat} {a : α}
    (h : tried.reduceOption[k]? = some a)
    : ∃ i, tried[i]? = some (some a) ∧ (tried.take i).reduceOption.length = k := by
  induction tried generalizing k with
  | nil => contradiction
  | cons b tried ih =>
    cases b with
    | none =>
      rcases ih h with ⟨i, hi, hk⟩
      exact ⟨i + 1, hi, hk⟩
    | some b =>
      rw [List.reduceOption_cons_of_some] at h
      cases k with
      | zero => exact ⟨0, congrArg some h, rfl⟩
      | succ k =>
        rcases ih h with ⟨i, hi, hk⟩
        refine ⟨i + 1, hi, ?_⟩
        rw [List.take_succ_cons, List.reduceOption_cons_of_some, List.length_cons, hk]

/--
Whatever ground goals are left, some uses of rules lead to them from an instance of the query.
-/
def Explains (env : Environment) (rules : List Clause) (goals : List Literal) (computeFeatures : Bool)
    (moves : List Move) (d : Denotation) : Prop :=
  ∀ (left : List (Atom String)) (as : List String), d String left as →
    ∃ (θ : String → String) (uses : List RuleUse),
      as = (goals.map (Literal.inst θ)).flatMap Atom.args ∧
        Derives rules (goals.map (Literal.inst θ)) uses left ∧
        List.Forall₂ (Move.Uses env computeFeatures) moves uses

section Explains

variable {env : Environment} {rules : List Clause} {goals : List Literal} {computeFeatures : Bool}
  {moves : List Move} {d d' : Denotation}

theorem explains_posed (env : Environment) (rules : List Clause) (goals : List Literal)
    (computeFeatures : Bool) : Explains env rules goals computeFeatures [] (posed goals) := by
  intro left as h
  rcases h with ⟨θ, hleft, has⟩
  refine ⟨θ, [], ?_, ?_, .nil⟩
  . rw [has, hleft]
  . rw [hleft]
    exact .done _

theorem Explains.resolvent {move : Move} {clause : Clause} {i : Nat}
    (h : Explains env rules goals computeFeatures moves d)
    (hclause : (clausesOf rules clause.head.signature)[i]? = some clause)
    (hlabel : move.state.jumpTo = some clause.head.signature.label)
    (hchose : move.Chose env computeFeatures i)
    (hreports : Reports clause d computeFeatures move.link.features)
    : Explains env rules goals computeFeatures (moves ++ [move]) (resolvent clause d) := by
  intro left as hleft
  rcases hleft with ⟨ρ, rest, hleft, hd⟩
  rcases h _ as hd with ⟨θ, uses, has, hderives, huses⟩
  have hfrom : RuleUse.From rules ⟨clause, i, ρ⟩ := hclause
  have hresolve : Derives rules (clause.head.inst ρ :: rest) [⟨clause, i, ρ⟩] left := by
    rw [hleft]
    exact .resolve hfrom (.done _)
  have huse : move.Uses env computeFeatures ⟨clause, i, ρ⟩ := by
    refine ⟨hlabel, hchose, ?_⟩
    rintro rfl
    rcases hreports with ⟨σ, hσ, hground⟩
    rw [hσ]
    -- the features were computed for another assignment, which agrees on their variables
    have hreport : clause.report σ = clause.report ρ := by
      apply Clause.report_congr
      intro lit hlit name hname
      exact (hground String ρ rest as hd name (List.mem_flatMap.mpr ⟨lit, hlit, hname⟩)).symm
    rw [hreport]
  exact ⟨θ, uses ++ [⟨clause, i, ρ⟩], has, hderives.append hresolve,
    List.rel_append huses (.cons huse .nil)⟩

theorem Explains.congr (h : Explains env rules goals computeFeatures moves d)
    (hd : ∀ (D : Type) [Domain D] (goals : List (Atom D)) (as : List D),
      d' D goals as ↔ d D goals as) : Explains env rules goals computeFeatures moves d' := by
  intro left as hleft
  rw [hd] at hleft
  exact h left as hleft

end Explains

namespace Path

variable {env : Environment} {rules : List Clause} {goals : List Literal} {computeFeatures : Bool}
  {start : Nat} {moves : List Move} {symbols : SymbolTable} {s : State}

theorem explained (hrules : env.program.Implements rules) (hplugins : env.plugins = [])
    (hquery : env.program.Has start (queryCode goals))
    (h : Path env computeFeatures start moves symbols s)
    : (s.failed = true ∧ s.completed = false) ∨
      ∃ d, Paused env.program symbols s d ∧ Explains env rules goals computeFeatures moves d := by
  -- the invariant: ground goals that are left follow from an instance of the query by the uses so far
  induction h with
  | start hm hrun =>
    exact .inr ⟨_, paused_of_run hquery hm hrun, explains_posed env rules goals computeFeatures⟩
  | step _ hfailed hcompleted hsymbols hlinks hlink ih =>
    rcases ih with ⟨hfailed', _⟩ | ⟨d, hpaused, hexplains⟩
    . rw [hfailed] at hfailed'
      contradiction
    . cases hpaused with
      | completed hcompleted' _ =>
        rw [hcompleted'.completed_eq] at hcompleted
        contradiction
      | waiting hwaiting hd =>
        rcases hwaiting.outlinks hrules (by simp [hplugins]) hsymbols
            (by rw [hlinks]; exact unexhausted_ok _ _) with
          ⟨_, heq⟩ | ⟨_, _, _, _, heq⟩ | ⟨_, tried, m'', htried, heq, _, houtcomes⟩
        . rw [heq] at hlinks
          contradiction
        . rw [heq] at hlinks
          contradiction
        . have hok := hlinks
          rw [heq] at hlinks
          cases hlinks
          rcases exists_of_getElem?_reduceOption hlink with ⟨choice, hchoice, hplace⟩
          rcases exists_of_forall₂ houtcomes hchoice with ⟨clause, hclause, houtcome⟩
          have hsig := signature_of_getElem?_clausesOf hclause
          subst hsig
          cases houtcome with
          | failed hstalled _ => exact .inl ⟨hstalled.failed_eq, hstalled.completed_eq⟩
          | next hpaused' hreports =>
            right
            refine ⟨_, hpaused', ?_⟩
            have hexplains' := hexplains.congr (fun D _ goals as => (hd D goals as).symm)
            exact hexplains'.resolvent hclause hwaiting.jumpTo_eq
              ⟨tried, _, htried, hok, hchoice, hplace⟩ hreports

/--
A completed state on a path holds the arguments of the query, and whatever constants its free cells get,
they are those of an instance of the query with a proof. The proof has a node for each step of the path,
in preorder with the clauses that the successors come from and the features that were reported.
-/
theorem completed_sound {items : List Item} {i : Nat} {s : State}
    (hprogram : env.program = (({} : Program).compile items).2) (hplugins : env.plugins = [])
    (hitem : items[i]? = some (.query goals))
    (hstart : (({} : Program).compile items).1[i]? = some (.ok (some start)))
    (h : Path env computeFeatures start moves symbols s) (hcompleted : s.completed = true)
    : s.heap.size = (goals.flatMap Literal.args).length ∧
      ∀ free : Nat → String, ∃ (θ : String → String) (forest : Forest),
        (List.range s.heap.size).map (s.heap.value symbols free) =
          (goals.map (Literal.inst θ)).flatMap Atom.args ∧
        forest.Proves (rulesOf items) (goals.map (Literal.inst θ)) ∧
        forest.size = moves.length ∧
        List.Forall₂ (Move.Uses env computeFeatures) moves forest.preorder := by
  rcases Program.compile_query hprogram hitem hstart with ⟨hrules, hquery⟩
  rcases h.explained hrules hplugins hquery with ⟨_, hcompleted'⟩ | ⟨d, hpaused, hexplains⟩
  . rw [hcompleted] at hcompleted'
    contradiction
  cases hpaused with
  | waiting hwaiting _ =>
    rw [hwaiting.completed_eq] at hcompleted
    contradiction
  | completed hdone hd =>
    have hproof : ∀ free : Nat → String, ∃ (θ : String → String) (forest : Forest),
        (List.range s.heap.size).map (s.heap.value symbols free) =
          (goals.map (Literal.inst θ)).flatMap Atom.args ∧
        forest.Proves (rulesOf items) (goals.map (Literal.inst θ)) ∧
        List.Forall₂ (Move.Uses env computeFeatures) moves forest.preorder := by
      intro free
      -- no goals are left, so the derivation from the query ends and is a forest
      have hv := hdone.valid.closed.models_value free
      rcases hexplains [] _ ((hd String [] _).mpr ⟨_, hv, rfl, rfl⟩) with
        ⟨θ, uses, has, hderives, huses⟩
      rcases derives_nil_iff.mp hderives with ⟨forest, hproves, hpre⟩
      rw [cells, ← List.range_eq_range'] at has
      rw [← hpre] at huses
      exact ⟨θ, forest, has, hproves, huses⟩
    constructor
    . rcases hproof fun _ => "" with ⟨θ, _, hvalues, _⟩
      have hlen := congrArg List.length hvalues
      simpa [List.length_flatMap, Function.comp_def] using hlen
    . intro free
      rcases hproof free with ⟨θ, forest, hvalues, hproves, huses⟩
      have hsize := huses.length_eq
      rw [Forest.length_preorder] at hsize
      exact ⟨θ, forest, hvalues, hproves, hsize.symm, huses⟩

end Path

namespace Sample

def reflexivity : Clause where
  head := ⟨"same", [.var "X", .var "X"]⟩

def question : List Literal :=
  [⟨"same", [.var "A", .var "B"]⟩]

def items : List Item :=
  [.clause reflexivity, .query question]

def env : Environment where
  program := (({} : Program).compile items).2

def asked : State where
  heap := #[.ref 0, .ref 1]
  registers := #[some 1, some 0]
  calls := [⟨2, 2, 10, none⟩]
  pc := none
  jumpTo := some "same/2"

def answered : State where
  heap := #[.ref 0, .ref 0]
  registers := #[some 1, some 0]
  pc := some 10
  completed := true

end Sample

theorem Path.completed_sound_sample
    : ∃ moves, Path Sample.env true 6 moves .empty Sample.answered ∧
        moves.map Move.state = [Sample.asked] ∧ moves.map Move.place = [0] ∧
        ∀ free : Nat → String, ∃ (θ : String → String) (forest : Forest),
          (List.range 2).map (Sample.answered.heap.value .empty free) =
            (Sample.question.map (Literal.inst θ)).flatMap Atom.args ∧
          forest.Proves (rulesOf Sample.items) (Sample.question.map (Literal.inst θ)) ∧
          forest.size = 1 ∧ List.Forall₂ (Move.Uses Sample.env true) moves forest.preorder := by
  have hrun : Sample.env.run (some 6) true {} = .ok ∅ { state := Sample.asked } := by decide +kernel
  have hlinks : Sample.env.outlinks Sample.asked true { state := Sample.asked } =
      .ok [⟨some (Features.ofGoals [.noFeatures]), Sample.answered⟩] { state := Sample.answered } := by
    decide +kernel
  have hlink : [(⟨some (Features.ofGoals [.noFeatures]), Sample.answered⟩ : Outlink)][0]? =
      some ⟨some (Features.ofGoals [.noFeatures]), Sample.answered⟩ := rfl
  have hpath := Path.step (.start rfl hrun) rfl rfl (Interner.le_refl _) hlinks hlink
  refine ⟨_, hpath, rfl, rfl, ?_⟩
  intro free
  have hstart : (({} : Program).compile Sample.items).1[1]? = some (.ok (some 6)) := by decide
  exact (completed_sound (i := 1) rfl rfl rfl hstart hpath rfl).2 free

end HornMachine
