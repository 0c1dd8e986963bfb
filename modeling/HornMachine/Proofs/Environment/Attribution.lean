import HornMachine.Proofs.Environment.Resolution
import HornMachine.Proofs.Environment.Tree
import Mathlib.Order.Bounds.Defs

/-!
This module contains the features of a step by resolution. They are the instances of the features of its
clause under the unification of the call with the head, and there is a fault instead if one of them still
has a variable.
-/

namespace HornMachine

open Level

def Unbound (goal : Atom (Pattern Place)) (clause : Clause) (name : String) : Prop :=
  ∃ t, MostGeneral (Unifies goal.left clause.head.apart) t ∧ ∀ value, t (.inr name) ≠ .const value

def LeavesOpen (goal : Atom (Pattern Place)) (clause : Clause) : Prop :=
  ∃ name ∈ clause.features.flatMap Literal.vars, Unbound goal clause name

def Aliases (symbols : SymbolTable) (s : State) (goal : Atom (Pattern Place)) (clause : Clause)
    (name : String) : Set Nat :=
  {addr | addr < s.heap.size ∧ ∀ t, MostGeneral (Unifies goal.left clause.head.apart) t →
    (((s.pattern symbols).cell addr).eval fun v => t (.inl v)) = t (.inr name)}

def Clause.instances (clause : Clause) (assign : String → String) : List Goal :=
  match clause.features with
  | [] => [.noFeatures]
  | features => features.map (Literal.goal assign)

/--
The features have exactly the instances of those of the clause, each with weight 1.
-/
def Attributes (goal : Atom (Pattern Place)) (clause : Clause) (features : Features) : Prop :=
  ∃ ρ : String → String,
    (∀ t, MostGeneral (Unifies goal.left clause.head.apart) t →
      ∀ name ∈ clause.features.flatMap Literal.vars, t (.inr name) = .const (ρ name)) ∧
    ∀ feature : Goal, features[feature]? = if feature ∈ clause.instances ρ then some 1 else none

theorem exists_fits [Domain D] {m : Machine} (hvalid : m.state.heap.Valid m.symbols)
    (vars : List String) (free : Nat → D)
    : ∃ v θ, Fits vars m v θ ∧ ∀ addr, m.state.heap.IsFree addr → v addr = free addr := by
  have hagrees : Agrees vars m (Valuation.mk (m.state.heap.value m.symbols free) free).cell _ :=
    Agrees.of_read
  refine ⟨_, _, ⟨hvalid.closed.models_value free, hagrees⟩, ?_⟩
  intro addr hfree
  apply hvalid.closed.value_root (.free hfree)
  intro id _ hconst _
  rw [Heap.IsConst, hfree] at hconst
  simp at hconst

section Entered

variable {program : Program} {clause : Clause} {pc : Nat} {l : Level} {ls : List Level}
  {m m₁ : Machine} (h : Waiting program m.symbols m.state clause.head.signature l ls)
  (hentered : Entered program clause pc l ls m m₁)
include h hentered

theorem Entered.fits_of_unifies {t : Place ⊕ String → Pattern (Place ⊕ String)}
    (ht : Unifies (awaited m.state clause.head.signature (m.state.pattern m.symbols).cell).left
      clause.head.apart t)
    : Fits clause.vars m₁ (m.state.valuation m.symbols fun v => t (.inl v)).cell
        (fun name => t (.inr name)) := by
  rw [hentered.fits_iff]
  refine ⟨h.valid.closed.models_value _, ?_⟩
  rw [← eval_awaited]
  exact unifies_apart_iff.mp ht

theorem Entered.exists_places [Domain D] {v : Nat → D} {θ : String → D} (hv : Fits clause.vars m₁ v θ)
    : ∃ g : Place → D,
        (awaited m.state clause.head.signature (m.state.pattern m.symbols).cell).eval g =
          clause.head.inst θ ∧
        ∀ addr < m.state.heap.size, ((m.state.pattern m.symbols).cell addr).eval g = v addr := by
  rcases (hentered.fits_iff D v θ).mp hv with ⟨hmodels, hcall⟩
  have hval : m.state.heap.Models m.symbols (Valuation.mk v v).cell := hmodels
  refine ⟨Valuation.place ⟨v, v⟩, ?_, ?_⟩
  . rw [eval_awaited, ← hcall]
    exact (h.valuation_eq hval).1
  . intro addr haddr
    rw [State.eval_cell]
    exact h.valid.closed.value_eq_of_models hmodels haddr

theorem Entered.exists_mostGeneral
    : ∃ t, MostGeneral (Unifies
        (awaited m.state clause.head.signature (m.state.pattern m.symbols).cell).left
        clause.head.apart) t := by
  rcases exists_fits hentered.valid clause.vars fun _ => (.const "" : Pattern (Place ⊕ String)) with
    ⟨v, θ, hfits, _⟩
  rcases hentered.exists_places h hfits with ⟨g, hg, _⟩
  exact exists_mostGeneral_unifier (u := Sum.elim g θ) (unifies_apart_iff.mpr hg)

theorem Entered.factor {v : Nat → Pattern Place} {θ : String → Pattern Place}
    (hv : Fits clause.vars m₁ v θ) {t : Place ⊕ String → Pattern (Place ⊕ String)}
    (ht : MostGeneral (Unifies
      (awaited m.state clause.head.signature (m.state.pattern m.symbols).cell).left
      clause.head.apart) t)
    : ∃ w : Place ⊕ String → Pattern Place,
        (∀ addr < m.state.heap.size,
          (((m.state.pattern m.symbols).cell addr).eval fun v => t (.inl v)).eval w = v addr) ∧
        ∀ name, (t (.inr name)).eval w = θ name := by
  rcases hentered.exists_places h hv with ⟨g, hg, hcell⟩
  rcases ht.factor_apart hg with ⟨w, hw, hwθ⟩
  refine ⟨w, ?_, hwθ⟩
  intro addr haddr
  rw [Pattern.eval_eval, funext hw, hcell addr haddr]

theorem Entered.not_unbound {name : String} (hname : name ∈ clause.vars)
    (hground : m₁.IsGround clause.vars name)
    : ¬Unbound (awaited m.state clause.head.signature (m.state.pattern m.symbols).cell) clause name := by
  rintro ⟨t, ht, hopen⟩
  rcases hentered.fits_of_unifies h ht.self with ⟨hmodels, hagrees⟩
  exact hopen _ (hground.eq_const hentered.valid hname hmodels hagrees)

theorem Entered.exists_fits_open {name : String} {root : Nat} (hname : name ∈ clause.vars)
    (hopen : m₁.IsOpen clause.vars name root)
    : ∃ (v : Nat → Pattern Place) (θ : String → Pattern Place), Fits clause.vars m₁ v θ ∧
        θ name = .var (.cell root) ∧ ∀ addr < m.state.heap.size, v addr = .var (.cell root) → root ≤ addr := by
  rcases hopen with ⟨addr, hreg, hleads, hfree⟩
  -- every free cell stands for itself
  rcases exists_fits hentered.valid clause.vars fun a => Pattern.var (Place.cell a) with
    ⟨v, θ, ⟨hv, hagrees⟩, hself⟩
  refine ⟨v, θ, ⟨hv, hagrees⟩, ?_, ?_⟩
  . rw [hagrees name hname addr hreg, hleads.eq_of_models hv, hself root hfree]
  . intro addr' haddr' heq
    have hlt : addr' < m₁.state.heap.size := by
      rw [hentered.heap_size, ← h.heap_size]
      exact haddr'
    rcases hentered.valid.exists_root hlt with ⟨root', _, hleads'⟩
    rw [hleads'.eq_of_models hv] at heq
    rcases hleads'.root_cases with hfree' | ⟨id, hconst⟩
    . rw [hself root' hfree'] at heq
      cases heq
      exact hentered.valid.root_le hleads'
    . rcases hentered.valid.named hconst with ⟨value, hvalue⟩
      rw [hv.eq_const hconst hvalue] at heq
      contradiction

theorem Entered.unbound {name : String} {root : Nat} (hname : name ∈ clause.vars)
    (hopen : m₁.IsOpen clause.vars name root)
    : Unbound (awaited m.state clause.head.signature (m.state.pattern m.symbols).cell) clause name ∧
      IsLeast (Aliases m.symbols m.state
        (awaited m.state clause.head.signature (m.state.pattern m.symbols).cell) clause name) root := by
  rcases hentered.exists_fits_open h hname hopen with ⟨v, θ, hfits, hθ, hleast⟩
  rcases hentered.exists_mostGeneral h with ⟨t, ht⟩
  rcases hentered.factor h hfits ht with ⟨w, hw, hwθ⟩
  refine ⟨⟨t, ht, ?_⟩, ⟨?_, ?_⟩, ?_⟩
  . intro value hvalue
    have heq := hwθ name
    rw [hvalue, hθ] at heq
    contradiction
  . rcases hopen with ⟨_, _, hleads, _⟩
    rw [h.heap_size, ← hentered.heap_size]
    exact hleads.root_lt_size
  . intro t' ht'
    rcases hopen with ⟨addr, hreg, hleads, _⟩
    rcases hentered.fits_of_unifies h ht'.self with ⟨hmodels, hagrees⟩
    have heq := hagrees name hname addr hreg
    rw [hleads.eq_of_models hmodels] at heq
    rw [State.eval_cell, ← heq]
  . intro addr haddr
    apply hleast addr haddr.1
    rw [← hw addr haddr.1, haddr.2 t ht, hwθ, hθ]

end Entered

/--
The first variable of the features that has no constant, and the address that a fault names for it.
-/
def FirstOpen (symbols : SymbolTable) (s : State) (goal : Atom (Pattern Place)) (clause : Clause)
    (root : Nat) : Prop :=
  ∃ before name after, clause.features.flatMap Literal.vars = before ++ name :: after ∧
    (∀ name' ∈ before, ¬Unbound goal clause name') ∧ Unbound goal clause name ∧
    IsLeast (Aliases symbols s goal clause name) root

theorem FirstOpen.leavesOpen {symbols : SymbolTable} {s : State} {goal : Atom (Pattern Place)}
    {clause : Clause} {root : Nat} (h : FirstOpen symbols s goal clause root)
    : LeavesOpen goal clause := by
  rcases h with ⟨before, name, after, heq, _, hopen, _⟩
  exact ⟨name, by simp [heq], hopen⟩

section Clause

variable {program : Program} {symbols symbols' : SymbolTable} {s : State} {sig : Signature} {l : Level}
  {ls : List Level} {clause : Clause}

theorem Halts.firstOpen {m : Machine} {root : Nat} (h : Waiting program m.symbols m.state sig l ls)
    (hsig : clause.head.signature = sig) (hhalts : Halts program clause l ls m root)
    : FirstOpen m.symbols m.state (awaited m.state sig (m.state.pattern m.symbols).cell) clause root := by
  subst hsig
  rcases hhalts with ⟨pc, m₁, before, name, after, hentered, heq, hground, hopen⟩
  have hvars : ∀ name' ∈ before ++ name :: after, name' ∈ clause.vars := by
    intro name' hmem
    rw [← heq] at hmem
    exact Clause.mem_vars_of_feature hmem
  rcases hentered.unbound h (hvars name (by simp)) hopen with ⟨hunbound, hleast⟩
  refine ⟨before, name, after, heq, ?_, hunbound, hleast⟩
  intro name' hname'
  exact hentered.not_unbound h (hvars name' (List.mem_append_left _ hname')) (hground name' hname')

variable (h : Waiting program symbols s sig l ls)
include h

theorem Waiting.eq_const_of_unifies {ρ : String → String} {t : Place ⊕ String → Pattern (Place ⊕ String)}
    (hground : ∀ (D : Type) [Domain D] (θ : String → D) (rest : List (Atom D)) (as : List D),
      awaits symbols s sig (l :: ls) D (clause.head.inst θ :: rest) as →
        ∀ name ∈ clause.features.flatMap Literal.vars, θ name = Domain.const (ρ name))
    (ht : Unifies (awaited s sig (s.pattern symbols).cell).left clause.head.apart t)
    : ∀ name ∈ clause.features.flatMap Literal.vars, t (.inr name) = .const (ρ name) := by
  rcases (h.awaits_iff _ _).mpr ⟨fun v => t (.inl v), rfl⟩ with ⟨as, hd⟩
  rw [List.map_cons, unifies_apart_iff.mp ht] at hd
  exact hground _ _ _ as hd

theorem Outcome.not_leavesOpen {link : Option Outlink}
    (houtcome : Outcome program symbols' clause (awaits symbols s sig (l :: ls)) true link)
    : ¬LeavesOpen (awaited s sig (s.pattern symbols).cell) clause := by
  rintro ⟨name, hname, t, ht, hopen⟩
  cases houtcome with
  | dropped hmismatch => exact hmismatch.not_unifies h t ht.self
  | next _ hreports =>
    rcases hreports with ⟨ρ, _, hground⟩
    exact hopen _ (h.eq_const_of_unifies hground ht.self name hname)

theorem Outcome.attributes {link : Outlink}
    (houtcome : Outcome program symbols' clause (awaits symbols s sig (l :: ls)) true (some link))
    : ∃ features, link.features = some features ∧
        Attributes (awaited s sig (s.pattern symbols).cell) clause features := by
  cases houtcome with
  | next _ hreports =>
    rcases hreports with ⟨ρ, rfl, hground⟩
    refine ⟨_, rfl, ρ, fun t ht => h.eq_const_of_unifies hground ht.self, ?_⟩
    intro feature
    rw [← Features.getElem?_ofGoals]
    unfold Clause.report Clause.instances
    cases clause.features with
    | nil => rfl
    | cons _ _ => rfl

end Clause

theorem Attributes.unique {goal : Atom (Pattern Place)} {clause : Clause} {features features' : Features}
    (h : Attributes goal clause features) (h' : Attributes goal clause features')
    (hunifies : ∃ t, Unifies goal.left clause.head.apart t) : features' = features := by
  rcases hunifies with ⟨u, hu⟩
  rcases exists_mostGeneral_unifier hu with ⟨t, ht⟩
  rcases h with ⟨ρ, hρ, hfeatures⟩
  rcases h' with ⟨ρ', hρ', hfeatures'⟩
  have heq : clause.instances ρ' = clause.instances ρ := by
    unfold Clause.instances
    split
    . rfl
    . apply List.map_congr_left
      intro lit hlit
      apply Literal.goal_congr
      intro name hname
      have hmem := List.mem_flatMap.mpr ⟨lit, hlit, hname⟩
      exact Pattern.const.inj ((hρ' t ht name hmem).symm.trans (hρ t ht name hmem))
  apply Std.ExtTreeMap.ext_getElem?
  intro feature
  rw [hfeatures, hfeatures', heq]

structure Attributed (program : Program) (symbols : SymbolTable) (goal : Atom (Pattern Place))
    (rest : List (Atom (Pattern Place))) (clause : Clause) (link : Outlink) : Prop where
  failed_eq : link.state.failed = false
  resolves : Resolves program symbols goal rest clause link.state
  attributes : ∃ features, link.features = some features ∧
    ∀ features', Attributes goal clause features' ↔ features' = features

open Classical in
noncomputable def matching (goal : Atom (Pattern Place)) (clauses : List Clause) : List Clause :=
  clauses.filter fun clause => ∃ t, Unifies goal.left clause.head.apart t

section Clauses

variable {program : Program} {gather : Nat → Exec (List Goal)} {symbols symbols' : SymbolTable}
  {s : State} {sig : Signature} {l : Level} {ls : List Level} {m : Machine}
  (h : Waiting program symbols s sig l ls)
include h

theorem Waiting.forall₂_matching {clauses : List Clause} {tried : List (Option Outlink)}
    (houtcomes : List.Forall₂ (fun clause link =>
      Outcome program symbols' clause (awaits symbols s sig (l :: ls)) true link) clauses tried)
    : List.Forall₂ (Attributed program symbols' (awaited s sig (s.pattern symbols).cell)
        (allGoals (s.pattern symbols) s.registers (l :: ls)))
        (matching (awaited s sig (s.pattern symbols).cell) clauses) tried.reduceOption := by
  induction houtcomes with
  | nil => exact .nil
  | cons houtcome _ ih =>
    cases houtcome with
    | dropped hmismatch =>
      have hno : ¬∃ t, Unifies (awaited s sig (s.pattern symbols).cell).left _ t :=
        fun ⟨t, ht⟩ => hmismatch.not_unifies h t ht
      rw [matching, List.filter_cons_of_neg (by simpa using hno), List.reduceOption_cons_of_none]
      exact ih
    | next hpaused hreports =>
      have hyes := hpaused.exists_unifier h
      rw [matching, List.filter_cons_of_pos (by simpa using hyes), List.reduceOption_cons_of_some]
      rcases (Outcome.next hpaused hreports).attributes h with ⟨features, heq, hattributes⟩
      refine .cons ⟨hpaused.failed_eq, hpaused.resolves h, features, heq, fun features' => ?_⟩ ih
      constructor
      . exact fun hattributes' => hattributes.unique hattributes' hyes
      . rintro rfl
        exact hattributes

theorem Waiting.clauseOutlink_attributes {clause : Clause} {addr : Nat}
    (hoffers : program.Offers sig addr clause) (hle : symbols ≤ m.symbols)
    (hrun : Unexhausted (Environment.clauseOutlink (program.run gather) s true addr m))
    : (∃ root m', Environment.clauseOutlink (program.run gather) s true addr m =
          .error (.notConstant root "fpushboundvar") m' ∧
        FirstOpen symbols s (awaited s sig (s.pattern symbols).cell) clause root) ∨
      (¬LeavesOpen (awaited s sig (s.pattern symbols).cell) clause ∧
        ∃ link m', Environment.clauseOutlink (program.run gather) s true addr m = .ok link m' ∧
          m.symbols ≤ m'.symbols ∧
          Outcome program m'.symbols clause (awaits symbols s sig (l :: ls)) true link) := by
  have hpattern : s.pattern m.symbols = s.pattern symbols := State.pattern_mono h.valid hle
  rcases (h.mono hle).clauseOutlink_true hoffers hrun with
    ⟨root, m', heq, hhalts⟩ | ⟨link, m', heq, hle', houtcome⟩
  . left
    have hfirst := hhalts.firstOpen (h.mono hle) hoffers.signature_eq
    simp only [FirstOpen, Aliases, hpattern] at hfirst
    exact ⟨root, m', heq, hfirst⟩
  . right
    have houtcome := houtcome.congr (awaits_mono h.valid hle)
    exact ⟨houtcome.not_leavesOpen h, link, m', heq, hle', houtcome⟩

theorem Waiting.mapM_firstOpen {addrs : List Nat} {clauses clauses' : List Clause} {clause : Clause}
    (hoffers : List.Forall₂ (program.Offers sig) addrs (clauses ++ clause :: clauses'))
    (hbefore : ∀ c ∈ clauses, ¬LeavesOpen (awaited s sig (s.pattern symbols).cell) c)
    (hopen : LeavesOpen (awaited s sig (s.pattern symbols).cell) clause) (hle : symbols ≤ m.symbols)
    (hrun : Unexhausted (addrs.mapM (Environment.clauseOutlink (program.run gather) s true) m))
    : ∃ root m', addrs.mapM (Environment.clauseOutlink (program.run gather) s true) m =
          .error (.notConstant root "fpushboundvar") m' ∧
        FirstOpen symbols s (awaited s sig (s.pattern symbols).cell) clause root := by
  induction clauses generalizing addrs m with
  | nil =>
    rcases hoffers with _ | ⟨hoffer, _⟩
    rw [List.mapM_cons] at hrun ⊢
    rcases h.clauseOutlink_attributes hoffer hle hrun.of_bind with ⟨root, m', heq, hfirst⟩ | ⟨hno, _⟩
    . exact ⟨root, m', Exec.bind_of_error heq, hfirst⟩
    . contradiction
  | cons c clauses ih =>
    rcases hoffers with _ | ⟨hoffer, hoffers⟩
    rw [List.mapM_cons] at hrun ⊢
    rcases h.clauseOutlink_attributes hoffer hle hrun.of_bind with
      ⟨_, _, _, hfirst⟩ | ⟨_, link, m₁, heq, hle₁, _⟩
    . exact absurd hfirst.leavesOpen (hbefore c List.mem_cons_self)
    . have hrun₁ := hrun.of_bind_ok heq
      rcases ih hoffers (fun c' hc' => hbefore c' (List.mem_cons_of_mem c hc'))
        (Interner.le_trans hle hle₁) hrun₁.of_bind with ⟨root, m', heq', hfirst⟩
      refine ⟨root, m', ?_, hfirst⟩
      rw [Exec.bind_of_ok heq, Exec.bind_of_error heq']

theorem Waiting.mapM_attributes {addrs : List Nat} {clauses : List Clause}
    (hoffers : List.Forall₂ (program.Offers sig) addrs clauses)
    (hclosed : ∀ c ∈ clauses, ¬LeavesOpen (awaited s sig (s.pattern symbols).cell) c)
    (hle : symbols ≤ m.symbols)
    (hrun : Unexhausted (addrs.mapM (Environment.clauseOutlink (program.run gather) s true) m))
    : ∃ tried m', addrs.mapM (Environment.clauseOutlink (program.run gather) s true) m = .ok tried m' ∧
        m.symbols ≤ m'.symbols ∧
        List.Forall₂ (fun clause link => Outcome program m'.symbols clause
          (awaits symbols s sig (l :: ls)) true link) clauses tried := by
  have hoffers' := ((List.forall₂_and_left _ _).mpr ⟨hclosed, hoffers.flip⟩).flip
  have hcases := Exec.mapM_cases (Q := fun _ => False)
    (R := fun symbols' clause link => Outcome program symbols' clause (awaits symbols s sig (l :: ls))
      true link)
    (fun hR hle => hR.mono hle) (fun hoffer hle hrun => ?_) hoffers' hle hrun
  . rcases hcases with ⟨_, _, _, hfalse⟩ | hok
    . contradiction
    . exact hok
  . rcases h.clauseOutlink_attributes hoffer.2 hle hrun with ⟨_, _, _, hfirst⟩ | ⟨_, hok⟩
    . exact absurd hfirst.leavesOpen hoffer.1
    . exact .inr hok

end Clauses

section Independence

variable {program : Program} {symbols : SymbolTable} {s : State} {sig : Signature} {l : Level}
  {ls : List Level}

theorem Waiting.outlinks_independent {env : Environment} {tables : List FactTable} {m m₁ : Machine}
    {computeFeatures : Bool} (h : Waiting env.program symbols s sig l ls) (hfenced : env.program.Fenced)
    (hplugins : env.plugins = tables.map FactTable.plugin) (hle : symbols ≤ m.symbols)
    (hsymbols : m₁.symbols = m.symbols) (hrun : Unexhausted (env.outlinks s computeFeatures m))
    (hrun₁ : Unexhausted (env.outlinks s computeFeatures m₁))
    : (Exec.outcome (env.outlinks s computeFeatures m₁)).1 =
        (Exec.outcome (env.outlinks s computeFeatures m)).1 ∧
      (Exec.outcome (env.outlinks s computeFeatures m₁)).2.symbols =
        (Exec.outcome (env.outlinks s computeFeatures m)).2.symbols := by
  have halike : s.Alike ⟨m.symbols, m₁.symbols⟩ s := by
    rw [hsymbols]
    exact State.alike_self (h.valid.mono hle)
  exact (Environment.agree_outlinks hfenced halike hplugins (h.rests computeFeatures)).outcome_eq
    hsymbols.symm hrun hrun₁

end Independence

theorem exists_first {p : α → Prop} {as : List α} (h : ∃ a ∈ as, p a)
    : ∃ before a after, as = before ++ a :: after ∧ (∀ b ∈ before, ¬p b) ∧ p a := by
  classical
  have hsome : (as.find? fun a => decide (p a)).isSome := List.find?_isSome.mpr (by simpa using h)
  rcases Option.isSome_iff_exists.mp hsome with ⟨a, ha⟩
  rcases List.find?_eq_some_iff_append.mp ha with ⟨hp, before, after, heq, hbefore⟩
  exact ⟨before, a, after, heq, by simpa using hbefore, by simpa using hp⟩

/--
With features computed, the successors of a waiting state are one for each clause whose head unifies with
the first goal, with the instances of the features of this clause. If one of these still has a variable,
the fault names the first one that has. The state that the machine was in before has no effect.
-/
theorem Reached.outlinks_attribute {env : Environment} {items : List Item} {i start : Nat}
    {goals : List Literal} {symbols : SymbolTable} {s : State}
    (hprogram : env.program = (({} : Program).compile items).2) (hplugins : env.plugins = [])
    (hitem : items[i]? = some (.query goals))
    (hstart : (({} : Program).compile items).1[i]? = some (.ok (some start)))
    (h : Reached env start symbols s) (hfailed : s.failed = false) (hcompleted : s.completed = false)
    : (∃ goal rest, s.Denotes env.program symbols goal rest) ∧
      ∀ goal rest, s.Denotes env.program symbols goal rest →
        clausesOf (rulesOf items) goal.signature ≠ [] →
        ∀ m : Machine, symbols ≤ m.symbols → m.HasRoom env.program.constants →
          ((∃ clause ∈ clausesOf (rulesOf items) goal.signature, LeavesOpen goal clause) →
            ∃ clauses clause clauses' root m',
              clausesOf (rulesOf items) goal.signature = clauses ++ clause :: clauses' ∧
              (∀ c ∈ clauses, ¬LeavesOpen goal c) ∧ FirstOpen symbols s goal clause root ∧
              env.outlinks s true m = .error (.notConstant root "fpushboundvar") m') ∧
          ((∀ clause ∈ clausesOf (rulesOf items) goal.signature, ¬LeavesOpen goal clause) →
            ∃ links m', env.outlinks s true m = .ok links m' ∧ m.symbols ≤ m'.symbols ∧
              List.Forall₂ (Attributed env.program m'.symbols goal rest)
                (matching goal (clausesOf (rulesOf items) goal.signature)) links) ∧
          ∀ m₁ : Machine, m₁.symbols = m.symbols →
            (Exec.outcome (env.outlinks s true m₁)).1 = (Exec.outcome (env.outlinks s true m)).1 ∧
            (Exec.outcome (env.outlinks s true m₁)).2.symbols =
              (Exec.outcome (env.outlinks s true m)).2.symbols := by
  rcases Program.compile_query hprogram hitem hstart with ⟨hrules, hquery⟩
  have htables : env.plugins = [].map FactTable.plugin := hplugins
  rcases h.rested hrules hquery htables (by simp) with ⟨hfailed', _⟩ | ⟨d, hpaused⟩
  . rw [hfailed] at hfailed'
    contradiction
  rcases hpaused.waiting_of_not_completed hcompleted with ⟨sig, l, ls, hwaiting, _⟩
  have hdenotes := hwaiting.denotes
  refine ⟨⟨_, _, hdenotes⟩, ?_⟩
  intro goal rest hgoal hne m hle hroom
  rcases hdenotes.unique hgoal with ⟨hgoal, hrest⟩
  have hsig : goal.signature = sig := by
    rw [hgoal, awaited, Atom.signature, length_cells]
  rw [hsig] at hne ⊢
  have hroomy := env.roomy_outlinks ⟨fun _ hname => hname, by simp [hplugins]⟩ s true
  have hrun := hroomy.unexhausted hroom
  rcases hrules.addresses_cases sig with ⟨_, hnil⟩ | ⟨addrs, haddrs, _, hoffers⟩
  . contradiction
  have heq : env.outlinks s true m =
      (List.reduceOption <$> addrs.mapM (Environment.clauseOutlink env.run s true)) m := by
    rw [Environment.outlinks_eq_mapM hwaiting.completed_eq hwaiting.jumpTo_eq (by simp [hplugins]) haddrs]
  have hmap := hrun
  rw [heq] at hmap
  refine ⟨?_, ?_, ?_⟩
  . intro hopen
    rcases exists_first hopen with ⟨clauses, clause, clauses', hsplit, hbefore, hopen⟩
    rw [hgoal] at hbefore hopen
    rw [hsplit] at hoffers
    rcases hwaiting.mapM_firstOpen hoffers hbefore hopen hle hmap.of_map with ⟨root, m', hfault, hfirst⟩
    rw [← hgoal] at hbefore hfirst
    refine ⟨clauses, clause, clauses', root, m', hsplit, hbefore, hfirst, ?_⟩
    rw [heq, Exec.map_apply, Environment.run, hfault]
  . intro hclosed
    rw [hgoal] at hclosed
    rcases hwaiting.mapM_attributes hoffers hclosed hle hmap.of_map with ⟨tried, m', hok, hle', houtcomes⟩
    refine ⟨tried.reduceOption, m', ?_, hle', ?_⟩
    . rw [heq, Exec.map_apply, Environment.run, hok]
    . rw [hgoal, hrest]
      exact hwaiting.forall₂_matching houtcomes
  . intro m₁ hsymbols
    have hroom₁ : m₁.HasRoom env.program.constants := by
      rw [Machine.HasRoom, hsymbols]
      exact hroom
    have hfenced : env.program.Fenced := by
      rw [hprogram]
      exact Program.fenced_compile items
    exact hwaiting.outlinks_independent hfenced htables hle hsymbols hrun (hroomy.unexhausted hroom₁)

namespace Sample

def beside : Clause where
  head := ⟨"near", [.var "X", .var "Y"]⟩
  features := [⟨"left", [.var "X"]⟩, ⟨"left", [.const "a"]⟩]

def beyond : Clause where
  head := ⟨"near", [.var "X", .var "Y"]⟩
  features := [⟨"right", [.var "Y"]⟩]

def sides : List Item :=
  [.clause beside, .clause beyond, .query [⟨"near", [.const "a", .var "W"]⟩],
    .query [⟨"near", [.const "a", .const "a"]⟩]]

def sideEnv : Environment where
  program := (({} : Program).compile sides).2

def openSide : State where
  heap := #[.const 0, .ref 1]
  registers := #[some 1]
  calls := [⟨2, 1, 22, none⟩]
  pc := none
  jumpTo := some "near/2"

def closedSide : State where
  heap := #[.const 0, .const 0]
  calls := [⟨2, 0, 27, none⟩]
  pc := none
  jumpTo := some "near/2"

theorem unifies_near {p q : Pattern Place} {t : Place ⊕ String → Pattern (Place ⊕ String)}
    : Unifies (Atom.left ⟨"near", [p, q]⟩) (Literal.apart ⟨"near", [.var "X", .var "Y"]⟩) t ↔
      (p.eval fun v => t (.inl v)) = t (.inr "X") ∧ (q.eval fun v => t (.inl v)) = t (.inr "Y") := by
  rw [unifies_apart_iff]
  simp [Atom.eval, Atom.map, Literal.inst, Term.eval]

theorem leavesOpen_beyond : LeavesOpen ⟨"near", [.const "a", .var (.cell 1)]⟩ beyond := by
  refine ⟨"Y", by decide, fun v => if v = .inr "X" then .const "a" else
    if v = .inr "Y" then .var (.inl (.cell 1)) else .var v, ⟨?_, ?_⟩, by simp⟩
  . exact unifies_near.mpr ⟨rfl, rfl⟩
  . intro u hu
    rcases unifies_near.mp hu with ⟨hX, hY⟩
    refine ⟨u, ?_⟩
    intro v
    by_cases heqX : v = .inr "X"
    . rw [if_pos heqX, heqX, ← hX]
      rfl
    . by_cases heqY : v = .inr "Y"
      . rw [if_neg heqX, if_pos heqY, heqY, ← hY]
        rfl
      . rw [if_neg heqX, if_neg heqY]
        rfl

theorem not_leavesOpen_sides {clause : Clause} (h : clause ∈ [beside, beyond])
    : ¬LeavesOpen ⟨"near", [.const "a", .const "a"]⟩ clause := by
  have hconst : ∀ {t : Place ⊕ String → Pattern (Place ⊕ String)},
      Unifies (Atom.left ⟨"near", [.const "a", .const "a"]⟩)
        (Literal.apart ⟨"near", [.var "X", .var "Y"]⟩) t →
      t (.inr "X") = .const "a" ∧ t (.inr "Y") = .const "a" := by
    intro t ht
    exact ⟨(unifies_near.mp ht).1.symm, (unifies_near.mp ht).2.symm⟩
  rintro ⟨name, hname, t, ht, hopen⟩
  simp only [List.mem_cons, List.not_mem_nil, or_false] at h
  rcases h with rfl | rfl
  . have heq : name = "X" := by simpa [beside, Literal.vars, Term.var?] using hname
    rw [heq] at hopen
    exact hopen _ (hconst ht.self).1
  . have heq : name = "Y" := by simpa [beyond, Literal.vars, Term.var?] using hname
    rw [heq] at hopen
    exact hopen _ (hconst ht.self).2

end Sample

theorem Reached.outlinks_attribute_sample
    : (∃ clause root m', FirstOpen Sample.letters Sample.openSide
          ⟨"near", [.const "a", .var (.cell 1)]⟩ clause root ∧
        Sample.sideEnv.outlinks Sample.openSide true { symbols := Sample.letters } =
          .error (.notConstant root "fpushboundvar") m') ∧
      ∃ links m', Sample.sideEnv.outlinks Sample.closedSide true { symbols := Sample.letters } =
          .ok links m' ∧
        List.Forall₂ (Attributed Sample.sideEnv.program m'.symbols
          ⟨"near", [.const "a", .const "a"]⟩ []) 
          (matching ⟨"near", [.const "a", .const "a"]⟩ [Sample.beside, Sample.beyond]) links := by
  have hopen : Sample.sideEnv.run (some 18) false {} =
      .ok ∅ { state := Sample.openSide, symbols := Sample.letters } := by decide +kernel
  have hclosed : Sample.sideEnv.run (some 23) false {} =
      .ok ∅ { state := Sample.closedSide, symbols := Sample.letters } := by decide +kernel
  have hdenotes : Sample.openSide.Denotes Sample.sideEnv.program Sample.letters
      ⟨"near", [.const "a", .var (.cell 1)]⟩ [] := by
    refine ⟨rfl, rfl, rfl, ?_, ?_, ?_, ?_⟩
    . decide
    . decide
    . decide +kernel
    . decide +kernel
  have hdenotes' : Sample.closedSide.Denotes Sample.sideEnv.program Sample.letters
      ⟨"near", [.const "a", .const "a"]⟩ [] := by
    refine ⟨rfl, rfl, rfl, ?_, ?_, ?_, ?_⟩
    . decide
    . decide
    . decide +kernel
    . decide +kernel
  have hstart : (({} : Program).compile Sample.sides).1[2]? = some (.ok (some 18)) := by decide
  have hstart' : (({} : Program).compile Sample.sides).1[3]? = some (.ok (some 23)) := by decide
  have hroom : Machine.HasRoom Sample.sideEnv.program.constants { symbols := Sample.letters } := by
    apply Interner.room_of_length
    decide
  have hclauses : clausesOf (rulesOf Sample.sides) ⟨"near", 2⟩ = [Sample.beside, Sample.beyond] := by
    decide
  constructor
  . rcases ((outlinks_attribute (i := 2) rfl rfl rfl hstart (.start rfl hopen) rfl rfl).2 _ _ hdenotes
      (by decide) _ (Interner.le_refl _) hroom).1 ⟨Sample.beyond, by decide, Sample.leavesOpen_beyond⟩ with
      ⟨_, clause, _, root, m', _, _, hfirst, heq⟩
    exact ⟨clause, root, m', hfirst, heq⟩
  . rcases ((outlinks_attribute (i := 3) rfl rfl rfl hstart' (.start rfl hclosed) rfl rfl).2 _ _ hdenotes'
      (by decide) _ (Interner.le_refl _) hroom).2.1 (fun clause hmem =>
        Sample.not_leavesOpen_sides (hclauses ▸ hmem)) with ⟨links, m', heq, _, hlinks⟩
    exact ⟨links, m', heq, hclauses ▸ hlinks⟩

end HornMachine
