import HornMachine.Program.Build
import HornMachine.Proofs.Logic.Forest
import HornMachine.Proofs.Program.Block
import HornMachine.Proofs.Program.Label
import Mathlib.Data.List.Forall2

/-!
This module contains the programs that result from clauses and queries. Such a program has the blocks of
all accepted clauses and of all queries, and its table of clauses lists the accepted ones in order.
-/

namespace HornMachine

theorem exists_of_forall₂ {R : α → β → Prop} {as : List α} {bs : List β} {i : Nat}
    {b : β} (h : List.Forall₂ R as bs) (hb : bs[i]? = some b) : ∃ a, as[i]? = some a ∧ R a b := by
  induction h generalizing i with
  | nil => simp at hb
  | cons hr _ ih =>
    cases i with
    | zero =>
      rw [List.getElem?_cons_zero] at hb ⊢
      cases hb
      exact ⟨_, rfl, hr⟩
    | succ i =>
      rw [List.getElem?_cons_succ] at hb ⊢
      exact ih hb

theorem exists_of_forall₂_left {R : α → β → Prop} {as : List α} {bs : List β} {i : Nat}
    {a : α} (h : List.Forall₂ R as bs) (ha : as[i]? = some a) : ∃ b, bs[i]? = some b ∧ R a b :=
  exists_of_forall₂ h.flip ha

namespace Item

def accepted : Item → List Clause
  | .clause c => [c].takeWhile (·.unboundFeatureVariable?.isNone)
  | .clauses cs => cs.takeWhile (·.unboundFeatureVariable?.isNone)
  | .query _ => []

end Item

/--
Adds items one after another and answers where each one begins, or why it was refused.
-/
def Program.compile (program : Program) : List Item → List (Except Fault (Option Nat)) × Program
  | [] => ([], program)
  | item :: items =>
    match Build.item item program with
    | .ok addr program =>
      let (answers, program) := compile program items
      (.ok addr :: answers, program)
    | .error fault program =>
      let (answers, program) := compile program items
      (.error fault :: answers, program)

def rulesOf (items : List Item) : List Clause :=
  items.flatMap Item.accepted

namespace Program

structure HasClause (program : Program) (entry : String × Nat) (clause : Clause) : Prop where
  label_eq : entry.1 = clause.head.signature.label
  code : program.Has entry.2 clause.code
  features : clause.unboundFeatureVariable? = none

/--
The table of a program lists the clauses of some rules in their order.
-/
def Implements (program : Program) (rules : List Clause) : Prop :=
  List.Forall₂ program.HasClause program.clauses.toList rules

/--
The later program has the code of the earlier one at its beginning.
-/
instance : LE Program where
  le program program' := program.code.toList <+: program'.code.toList

theorem le_refl (program : Program) : program ≤ program :=
  List.prefix_refl _

theorem le_trans {a b c : Program} (hab : a ≤ b) (hbc : b ≤ c) : a ≤ c :=
  List.IsPrefix.trans hab hbc

theorem HasClause.mono {program program' : Program} {entry : String × Nat} {clause : Clause}
    (h : program.HasClause entry clause) (hle : program ≤ program') : program'.HasClause entry clause where
  label_eq := h.label_eq
  code := h.code.mono hle
  features := h.features

theorem le_append (program : Program) (block : List Instruction) : program ≤ program.append block := by
  refine ⟨block, ?_⟩
  simp [append]

theorem has_append (program : Program) (block : List Instruction)
    : (program.append block).Has program.size block := by
  refine ⟨[], ?_⟩
  simp [append, size]

def addedClause (program : Program) (c : Clause) : Program :=
  (program.append c.code).addClause c.head.signature.label program.size

theorem le_addedClause (program : Program) (c : Clause) : program ≤ program.addedClause c :=
  le_append program c.code

theorem Implements.mono {program program' : Program} {rules : List Clause}
    (h : program.Implements rules) (hle : program ≤ program')
    (hclauses : program'.clauses = program.clauses) : program'.Implements rules := by
  unfold Implements
  rw [hclauses]
  apply List.Forall₂.imp _ h
  intro entry clause hentry
  exact hentry.mono hle

theorem Implements.addedClause {program : Program} {rules : List Clause} {c : Clause}
    (h : program.Implements rules) (hfeatures : c.unboundFeatureVariable? = none)
    : (program.addedClause c).Implements (rules ++ [c]) := by
  have hclauses : (program.addedClause c).clauses.toList =
      program.clauses.toList ++ [(c.head.signature.label, program.size)] := by
    simp [Program.addedClause, addClause, append]
  unfold Implements
  rw [hclauses]
  apply List.rel_append
  . apply List.Forall₂.imp _ h
    intro entry clause hentry
    exact hentry.mono (le_addedClause program c)
  . apply List.Forall₂.cons _ List.Forall₂.nil
    exact ⟨rfl, has_append program c.code, hfeatures⟩

end Program

namespace Build

def after (build : Build α) (program : Program) : Program :=
  match build program with
  | .ok _ program => program
  | .error _ program => program

def answer (build : Build α) (program : Program) : Except Fault α :=
  match build program with
  | .ok a _ => .ok a
  | .error fault _ => .error fault

theorem clause_apply (c : Clause) (program : Program)
    : clause c program = match c.unboundFeatureVariable? with
      | some name => .error (.unboundFeatureVariable name) program
      | none => .ok program.size (program.addedClause c) := by
  unfold clause
  cases c.unboundFeatureVariable? with
  | none => rfl
  | some name => rfl

theorem clauses_apply (c : Clause) (cs : List Clause) (program : Program)
    : clauses (c :: cs) program = match c.unboundFeatureVariable? with
      | some name => .error (.unboundFeatureVariable name) program
      | none => clauses cs (program.addedClause c) := by
  show EStateM.bind (clause c) _ program = _
  unfold EStateM.bind
  rw [clause_apply]
  cases c.unboundFeatureVariable? with
  | none => rfl
  | some name => rfl

theorem after_clauses {cs : List Clause} {program : Program} {rules : List Clause}
    (h : program.Implements rules)
    : program ≤ after (clauses cs) program ∧
      (after (clauses cs) program).Implements
        (rules ++ cs.takeWhile (·.unboundFeatureVariable?.isNone)) := by
  induction cs generalizing program rules with
  | nil =>
    rw [List.takeWhile_nil, List.append_nil]
    exact ⟨Program.le_refl program, h⟩
  | cons c cs ih =>
    unfold after
    rw [clauses_apply]
    match hfeatures : c.unboundFeatureVariable? with
    | some name =>
      rw [List.takeWhile_cons_of_neg (by simp [hfeatures]), List.append_nil]
      exact ⟨Program.le_refl program, h⟩
    | none =>
      rcases ih (h.addedClause hfeatures) with ⟨hle, himpl⟩
      rw [List.takeWhile_cons_of_pos (by simp [hfeatures])]
      rw [List.append_assoc] at himpl
      exact ⟨Program.le_trans (program.le_addedClause c) hle, himpl⟩

theorem after_map (f : α → β) (build : Build α) (program : Program)
    : after (f <$> build) program = after build program := by
  unfold after
  show (match EStateM.map f build program with
    | .ok _ program => program
    | .error _ program => program) = _
  unfold EStateM.map
  cases build program with
  | ok _ _ => rfl
  | error _ _ => rfl

theorem after_item_clause (c : Clause) (program : Program)
    : after (Build.item (.clause c)) program = after (clauses [c]) program := by
  rw [Build.item, after_map, after, after, clause_apply, clauses_apply]
  cases c.unboundFeatureVariable? with
  | none => rfl
  | some name => rfl

theorem item_clauses_apply (cs : List Clause) (program : Program)
    : Build.item (.clauses cs) program = match clauses cs program with
      | .ok _ program => .ok none program
      | .error fault program => .error fault program := by
  show EStateM.bind (clauses cs) _ program = _
  unfold EStateM.bind
  cases clauses cs program with
  | ok _ _ => rfl
  | error _ _ => rfl

theorem after_item_clauses (cs : List Clause) (program : Program)
    : after (Build.item (.clauses cs)) program = after (clauses cs) program := by
  rw [after, after, item_clauses_apply]
  cases clauses cs program with
  | ok _ _ => rfl
  | error _ _ => rfl

theorem after_item_query (goals : List Literal) (program : Program)
    : after (Build.item (.query goals)) program = program.append (queryCode goals) := by
  rw [Build.item, after_map]
  rfl

theorem after_item (item : Item) {program : Program} {rules : List Clause}
    (h : program.Implements rules)
    : program ≤ after (Build.item item) program ∧
      (after (Build.item item) program).Implements (rules ++ item.accepted) := by
  cases item with
  | clause c =>
    rw [after_item_clause]
    exact after_clauses h
  | clauses cs =>
    rw [after_item_clauses]
    exact after_clauses h
  | query goals =>
    rw [after_item_query, Item.accepted, List.append_nil]
    exact ⟨Program.le_append program _, h.mono (Program.le_append program _) rfl⟩

end Build

namespace Program

theorem compile_cons (program : Program) (item : Item) (items : List Item)
    : program.compile (item :: items) =
      (Build.answer (Build.item item) program :: ((Build.after (Build.item item) program).compile items).1,
      ((Build.after (Build.item item) program).compile items).2) := by
  rw [compile, Build.after, Build.answer]
  cases Build.item item program with
  | ok _ _ => rfl
  | error _ _ => rfl

theorem compile_keeps {P : Program → Prop}
    (hclause : ∀ {program : Program} (c : Clause), P program → P (program.addedClause c))
    (hquery : ∀ {program : Program} (goals : List Literal), P program →
      P (program.append (queryCode goals)))
    {program : Program} (h : P program) (items : List Item) : P (program.compile items).2 := by
  have hclauses : ∀ (cs : List Clause) {program : Program}, P program →
      P (Build.after (Build.clauses cs) program) := by
    intro cs
    induction cs with
    | nil => exact id
    | cons c cs ih =>
      intro program h
      unfold Build.after
      rw [Build.clauses_apply]
      cases c.unboundFeatureVariable? with
      | none => exact ih (hclause c h)
      | some name => exact h
  induction items generalizing program with
  | nil => exact h
  | cons item items ih =>
    rw [compile_cons]
    apply ih
    cases item with
    | clause c =>
      rw [Build.after_item_clause]
      exact hclauses [c] h
    | clauses cs =>
      rw [Build.after_item_clauses]
      exact hclauses cs h
    | query goals =>
      rw [Build.after_item_query]
      exact hquery goals h

theorem compile_implements {program : Program} {rules : List Clause} (h : program.Implements rules)
    (items : List Item)
    : program ≤ (program.compile items).2 ∧
      (program.compile items).2.Implements (rules ++ rulesOf items) := by
  induction items generalizing program rules with
  | nil =>
    rw [rulesOf, List.flatMap_nil, List.append_nil]
    exact ⟨le_refl program, h⟩
  | cons item items ih =>
    rcases Build.after_item item h with ⟨hle, himpl⟩
    rcases ih himpl with ⟨hle', himpl'⟩
    rw [compile_cons, rulesOf, List.flatMap_cons, ← List.append_assoc]
    exact ⟨le_trans hle hle', himpl'⟩

theorem implements_nil : ({} : Program).Implements [] :=
  List.Forall₂.nil

theorem compile_has_query {program : Program} {rules : List Clause} (h : program.Implements rules)
    {items : List Item} {i start : Nat} {goals : List Literal}
    (hitem : items[i]? = some (.query goals))
    (hstart : (program.compile items).1[i]? = some (.ok (some start)))
    : (program.compile items).2.Has start (queryCode goals) := by
  -- items that come later are compiled behind the query and leave its block in place
  induction items generalizing program rules i with
  | nil => simp at hitem
  | cons item items ih =>
    rcases Build.after_item item h with ⟨hle, himpl⟩
    rw [compile_cons] at hstart ⊢
    cases i with
    | zero =>
      rw [List.getElem?_cons_zero, Option.some.injEq] at hitem hstart
      subst hitem
      have hquery : Build.item (.query goals) program =
          .ok (some program.size) (program.append (queryCode goals)) := rfl
      rw [Build.answer, hquery] at hstart
      cases hstart
      rw [Build.after, hquery] at himpl ⊢
      exact (program.has_append _).mono (compile_implements himpl items).1
    | succ i =>
      rw [List.getElem?_cons_succ] at hitem hstart
      exact ih himpl hitem hstart

theorem compile_query {program : Program} {items : List Item} {i start : Nat} {goals : List Literal}
    (hprogram : program = (({} : Program).compile items).2)
    (hitem : items[i]? = some (.query goals))
    (hstart : (({} : Program).compile items).1[i]? = some (.ok (some start)))
    : program.Implements (rulesOf items) ∧ program.Has start (queryCode goals) := by
  have hrules := (compile_implements implements_nil items).2
  rw [List.nil_append] at hrules
  rw [hprogram]
  exact ⟨hrules, compile_has_query implements_nil hitem hstart⟩

theorem mem_clauses_of_addresses? {program : Program} {label : String} {addrs : List Nat} {addr : Nat}
    (haddrs : program.addresses? label = some addrs) (haddr : addr ∈ addrs)
    : (label, addr) ∈ program.clauses := by
  unfold addresses? at haddrs
  split at haddrs
  . contradiction
  . cases haddrs
    rcases List.mem_filterMap.mp haddr with ⟨⟨l, addr'⟩, hentry, heq⟩
    simp only [Option.ite_none_right_eq_some, Option.some.injEq] at heq
    rw [← heq.1, ← heq.2]
    exact Array.mem_toList_iff.mp hentry

theorem Implements.exists_clause {program : Program} {rules : List Clause} {entry : String × Nat}
    (h : program.Implements rules) (hentry : entry ∈ program.clauses)
    : ∃ clause ∈ rules, program.HasClause entry clause := by
  rcases List.getElem?_of_mem (Array.mem_toList_iff.mpr hentry) with ⟨i, hi⟩
  rcases exists_of_forall₂_left h hi with ⟨clause, hi', hclause⟩
  exact ⟨clause, List.mem_of_getElem? hi', hclause⟩

theorem Implements.features_of_mem {program : Program} {rules : List Clause} {clause : Clause}
    (h : program.Implements rules) (hclause : clause ∈ rules) : clause.unboundFeatureVariable? = none := by
  rcases List.getElem?_of_mem hclause with ⟨i, hi⟩
  rcases exists_of_forall₂ h hi with ⟨entry, _, hentry⟩
  exact hentry.features

structure Offers (program : Program) (sig : Signature) (addr : Nat) (clause : Clause) : Prop where
  signature_eq : clause.head.signature = sig
  code : program.Has addr clause.code
  features : clause.unboundFeatureVariable? = none

theorem Implements.offers {program : Program} {rules : List Clause} (h : program.Implements rules)
    (sig : Signature)
    : List.Forall₂ (program.Offers sig)
        (program.clauses.toList.filterMap fun (l, addr) => if l = sig.label then some addr else none)
        (clausesOf rules sig) := by
  unfold Implements at h
  generalize program.clauses.toList = entries at h
  induction h with
  | nil => exact .nil
  | @cons entry clause _ _ hentry _ ih =>
    -- labels are injective, so entries and clauses of other predicates drop out together
    by_cases hsig : clause.head.signature = sig
    . have hlabel : entry.1 = sig.label := by
        rw [hentry.label_eq, hsig]
      rw [List.filterMap_cons_some (b := entry.2) (by simp [hlabel]), clausesOf,
        List.filter_cons_of_pos (by simpa using hsig)]
      exact .cons ⟨hsig, hentry.code, hentry.features⟩ ih
    . have hlabel : entry.1 ≠ sig.label := by
        rw [hentry.label_eq]
        intro heq
        exact hsig (Signature.label_injective heq)
      rw [List.filterMap_cons_none (by simp [hlabel]), clausesOf,
        List.filter_cons_of_neg (by simpa using hsig)]
      exact ih

theorem Implements.addresses_cases {program : Program} {rules : List Clause}
    (h : program.Implements rules) (sig : Signature)
    : (program.addresses? sig.label = none ∧ clausesOf rules sig = []) ∨
      ∃ addrs, program.addresses? sig.label = some addrs ∧ clausesOf rules sig ≠ [] ∧
        List.Forall₂ (program.Offers sig) addrs (clausesOf rules sig) := by
  have hoffers := h.offers sig
  unfold addresses?
  split
  . next heq =>
    left
    rw [heq] at hoffers
    exact ⟨rfl, List.forall₂_nil_left_iff.mp hoffers⟩
  . next hne =>
    right
    refine ⟨_, rfl, ?_, hoffers⟩
    intro hnil
    rw [hnil] at hoffers
    exact hne (List.forall₂_nil_right_iff.mp hoffers)

end Program

end HornMachine
