import HornMachine.Proofs.Program.Compile
import Mathlib.Data.List.Chain

/-!
This module contains the layout of the instructions that build features. In compiled code they stand in
blocks from an `fclear` to a `freport`, so what was on the feature stack before has no effect.
-/

namespace HornMachine

namespace Instruction

def Before (a b : Instruction) : Prop :=
  (∀ addr, b ≠ .ffindall addr) ∧
    (b.isFeature = true → b = .fclear ∨ (a.isFeature = true ∧ a ≠ .freport))

theorem before_of_not_isFeature (a : Instruction) {b : Instruction} (h : b.isFeature = false)
    : a.Before b := by
  refine ⟨?_, by simp [h]⟩
  rintro addr rfl
  simp [isFeature] at h

theorem before_fclear (a : Instruction) : a.Before .fclear :=
  ⟨by simp, fun _ => .inl rfl⟩

structure Builds (instr : Instruction) : Prop where
  isFeature_eq : instr.isFeature = true
  not_freport : instr ≠ .freport
  not_ffindall : ∀ addr, instr ≠ .ffindall addr

theorem Builds.before {a b : Instruction} (h : a.Builds) (hb : ∀ addr, b ≠ .ffindall addr)
    : a.Before b :=
  ⟨hb, fun _ => .inr ⟨h.isFeature_eq, h.not_freport⟩⟩

end Instruction

namespace Code

def Fenced (block : List Instruction) : Prop :=
  ∀ a, List.IsChain Instruction.Before (a :: block)

theorem fenced_nil : Fenced [] :=
  fun _ => .singleton _

theorem Fenced.append {block block' : List Instruction} (h : Fenced block) (h' : Fenced block')
    : Fenced (block ++ block') := by
  intro a
  apply List.IsChain.append (h a) (h' a).tail
  intro x _ y hy
  exact (List.isChain_cons.mp (h' x)).1 y hy

theorem fenced_of_not_isFeature {block : List Instruction}
    (h : ∀ instr ∈ block, instr.isFeature = false) : Fenced block := by
  induction block with
  | nil => exact fenced_nil
  | cons instr block ih =>
    intro a
    rw [List.isChain_cons_cons]
    exact ⟨a.before_of_not_isFeature (h instr List.mem_cons_self),
      ih (fun instr' hmem => h instr' (List.mem_cons_of_mem _ hmem)) instr⟩

theorem not_isFeature_head (vars : List String) (offset : Int) (seen : List String) (args : List Term)
    : ∀ instr ∈ head vars offset seen args, instr.isFeature = false := by
  fun_induction head vars offset seen args with
  | case1 => simp
  | case2 => simp_all [Instruction.isFeature]
  | case3 => simp_all [Instruction.isFeature]
  | case4 => simp_all [Instruction.isFeature]

theorem not_isFeature_arguments (vars seen : List String) (args : List Term)
    : ∀ instr ∈ arguments vars seen args, instr.isFeature = false := by
  fun_induction arguments vars seen args with
  | case1 => simp
  | case2 => simp_all [Instruction.isFeature]
  | case3 => simp_all [Instruction.isFeature]
  | case4 => simp_all [Instruction.isFeature]

theorem not_isFeature_calls (vars seen : List String) (lits : List Literal)
    : ∀ instr ∈ calls vars seen lits, instr.isFeature = false := by
  fun_induction calls vars seen lits with
  | case1 => simp
  | case2 seen lit lits ih =>
    intro instr hinstr
    simp only [List.mem_append, List.mem_cons] at hinstr
    rcases hinstr with hinstr | rfl | hinstr
    . exact not_isFeature_arguments _ _ _ instr hinstr
    . rfl
    . exact ih instr hinstr

theorem isChain_freport {a : Instruction} {block : List Instruction} (ha : a.Builds)
    (h : ∀ instr ∈ block, instr.Builds)
    : List.IsChain Instruction.Before (a :: (block ++ [.freport])) := by
  induction block generalizing a with
  | nil => exact List.isChain_cons_cons.mpr ⟨ha.before (by simp), .singleton _⟩
  | cons instr block ih =>
    have hinstr := h instr List.mem_cons_self
    exact List.isChain_cons_cons.mpr ⟨ha.before hinstr.not_ffindall,
      ih hinstr fun instr' hmem => h instr' (List.mem_cons_of_mem _ hmem)⟩

theorem builds_of_mem_feature {vars : List String} {lit : Literal} {instr : Instruction}
    (h : instr ∈ feature vars lit) : instr.Builds := by
  rcases List.mem_cons.mp h with rfl | h
  . exact ⟨rfl, by simp, by simp⟩
  . rcases List.mem_map.mp h with ⟨term, _, rfl⟩
    cases term with
    | const name => exact ⟨rfl, by simp, by simp⟩
    | var name => exact ⟨rfl, by simp, by simp⟩

theorem fenced_features (vars : List String) (lits : List Literal) : Fenced (features vars lits) := by
  intro a
  refine List.isChain_cons_cons.mpr ⟨a.before_fclear, isChain_freport ⟨rfl, by simp, by simp⟩ ?_⟩
  intro instr hinstr
  rcases List.mem_flatMap.mp hinstr with ⟨lit, _, hmem⟩
  exact builds_of_mem_feature hmem

theorem fenced_queryCode (goals : List Literal) : Fenced (queryCode goals) := by
  apply fenced_of_not_isFeature
  intro instr hinstr
  simp only [queryCode, List.mem_append, List.mem_cons, List.not_mem_nil, or_false] at hinstr
  rcases hinstr with (rfl | hinstr) | rfl
  . rfl
  . exact not_isFeature_calls _ _ _ instr hinstr
  . rfl

theorem fenced_clause (clause : Clause) : Fenced clause.code := by
  have hhead : Fenced (.grow clause.vars.length ::
      head clause.vars (-clause.head.args.length) [] clause.head.args) := by
    apply fenced_of_not_isFeature
    intro instr hinstr
    rcases List.mem_cons.mp hinstr with rfl | hinstr
    . rfl
    . exact not_isFeature_head _ _ _ _ instr hinstr
  have hbody : Fenced (calls clause.vars clause.head.vars clause.body ++ [.returnp]) := by
    apply fenced_of_not_isFeature
    intro instr hinstr
    simp only [List.mem_append, List.mem_cons, List.not_mem_nil, or_false] at hinstr
    rcases hinstr with hinstr | rfl
    . exact not_isFeature_calls _ _ _ instr hinstr
    . rfl
  have hcode := (hhead.append (fenced_features clause.vars clause.features)).append hbody
  simpa only [Clause.code, List.cons_append, List.append_assoc] using hcode

end Code

namespace Program

def Clean (program : Program) (pc : Nat) : Prop :=
  ∀ instr, program.code[pc]? = some instr → instr.isFeature = true → instr = .fclear

/--
Clauses begin with no feature, and all features are cleared before they are built.
-/
structure Fenced (program : Program) : Prop where
  code : Code.Fenced program.code.toList
  clauses : ∀ entry ∈ program.clauses, program.Clean entry.2

theorem Clean.of_getElem? {program : Program} {pc : Nat} {instr : Instruction}
    (hinstr : program.code[pc]? = some instr) (hplain : instr.isFeature = false)
    : program.Clean pc := by
  intro instr' hinstr' hfeature
  rw [hinstr] at hinstr'
  cases hinstr'
  simp [hplain] at hfeature

theorem fenced_compile (items : List Item) : (({} : Program).compile items).2.Fenced := by
  constructor
  . apply compile_keeps (P := fun program => Code.Fenced program.code.toList)
    . intro program c h
      rw [addedClause, addClause, append, Array.toList_appendList]
      exact h.append (Code.fenced_clause c)
    . intro program goals h
      rw [append, Array.toList_appendList]
      exact h.append (Code.fenced_queryCode goals)
    . exact Code.fenced_nil
  . intro entry hentry
    have hrules := (compile_implements implements_nil items).2
    rcases hrules.exists_clause hentry with ⟨clause, _, hclause⟩
    exact .of_getElem? hclause.code.head rfl

theorem Fenced.clean_of_mem_addresses? {program : Program} (h : program.Fenced) {label : String}
    {addrs : List Nat} {addr : Nat} (haddrs : program.addresses? label = some addrs)
    (haddr : addr ∈ addrs) : program.Clean addr :=
  h.clauses _ (mem_clauses_of_addresses? haddrs haddr)

theorem Fenced.before {program : Program} (h : program.Fenced) {pc : Nat} {a b : Instruction}
    (ha : program.code[pc]? = some a) (hb : program.code[pc + 1]? = some b) : a.Before b := by
  have hchain := List.isChain_iff_getElem.mp (h.code .returnp)
  rw [← Array.getElem?_toList, List.getElem?_eq_some_iff] at ha hb
  rcases ha with ⟨hlt, ha⟩
  rcases hb with ⟨hlt', hb⟩
  have := hchain (pc + 1) (by simpa using hlt')
  simpa [ha, hb] using this

theorem Fenced.not_ffindall {program : Program} (h : program.Fenced) {pc : Nat} {instr : Instruction}
    (hinstr : program.code[pc]? = some instr) (addr : Nat) : instr ≠ .ffindall addr := by
  have hchain := List.isChain_iff_getElem.mp (h.code .returnp)
  rw [← Array.getElem?_toList, List.getElem?_eq_some_iff] at hinstr
  rcases hinstr with ⟨hlt, hinstr⟩
  have := hchain pc (by simpa using hlt)
  simp only [List.getElem_cons_succ, hinstr] at this
  exact this.1 addr

theorem Fenced.getElem?_ne_ffindall {program : Program} (h : program.Fenced) (pc addr : Nat)
    : program.code[pc]? ≠ some (.ffindall addr) :=
  fun hinstr => h.not_ffindall hinstr addr rfl

theorem Fenced.clean_succ {program : Program} (h : program.Fenced) {pc : Nat} {a : Instruction}
    (ha : program.code[pc]? = some a) (hends : a.isFeature = false ∨ a = .freport)
    : program.Clean (pc + 1) := by
  intro b hb hfeature
  rcases (h.before ha hb).2 hfeature with hclear | ⟨hbuilds, hreport⟩
  . exact hclear
  . rcases hends with hplain | hends
    . simp [hplain] at hbuilds
    . contradiction

end Program

end HornMachine
