import HornMachine.Proofs.Program.Compile
import HornMachine.Proofs.Program.Registers

/-!
This module contains what compiled code keeps of a clause. Two clauses have the same block and the same label
if and only if they differ in nothing but the names of their variables, and the same holds for queries.
-/

namespace HornMachine

namespace Term

def rename (f : String → String) : Term → Term
  | .const name => .const name
  | .var name => .var (f name)

end Term

namespace Literal

def rename (f : String → String) (lit : Literal) : Literal :=
  ⟨lit.functor, lit.args.map (Term.rename f)⟩

theorem vars_rename (f : String → String) (lit : Literal) : (lit.rename f).vars = lit.vars.map f := by
  rw [vars, rename, vars, List.filterMap_map, List.map_filterMap]
  apply List.filterMap_congr
  intro term _
  cases term with
  | const name => rfl
  | var name => rfl

theorem signature_rename (f : String → String) (lit : Literal) : (lit.rename f).signature = lit.signature := by
  simp [signature, rename]

end Literal

namespace Clause

def rename (f : String → String) (clause : Clause) : Clause where
  head := clause.head.rename f
  body := clause.body.map (Literal.rename f)
  features := clause.features.map (Literal.rename f)

/--
The other clause has other names for the variables, and different ones for different variables.
-/
def Variant (clause clause' : Clause) : Prop :=
  ∃ f : String → String, Set.InjOn f {name | name ∈ clause.vars} ∧ clause' = clause.rename f

end Clause

def QueryVariant (goals goals' : List Literal) : Prop :=
  ∃ f : String → String, Set.InjOn f {name | name ∈ queryVars goals} ∧ goals' = goals.map (Literal.rename f)

section Rename

variable {f : String → String} {names vars seen : List String} {name : String}

theorem eraseDups_map (names : List String) (hf : Set.InjOn f {name | name ∈ names})
    : (names.map f).eraseDups = names.eraseDups.map f := by
  match names with
  | [] => simp
  | name :: names =>
    have hlt : (names.filter (!· == name)).length < names.length + 1 :=
      Nat.lt_succ_of_le (List.length_filter_le _ names)
    have hfilter : (names.map f).filter (!· == f name) = (names.filter (!· == name)).map f := by
      rw [List.filter_map]
      congr 1
      apply List.filter_congr
      intro other hother
      have hinj : f other = f name ↔ other = name :=
        hf.eq_iff (List.mem_cons_of_mem name hother) List.mem_cons_self
      simp [hinj]
    rw [List.map_cons, List.eraseDups_cons, List.eraseDups_cons, List.map_cons, hfilter,
      eraseDups_map _ (hf.mono _)]
    intro other hother
    exact List.mem_cons_of_mem name (List.mem_of_mem_filter hother)
termination_by names.length

theorem queryVars_rename {lits : List Literal} (hf : Set.InjOn f {name | name ∈ queryVars lits})
    : queryVars (lits.map (Literal.rename f)) = (queryVars lits).map f := by
  have hvars : (lits.map (Literal.rename f)).flatMap Literal.vars = (lits.flatMap Literal.vars).map f := by
    rw [List.flatMap_map, List.map_flatMap]
    simp only [Literal.vars_rename]
  rw [queryVars, hvars]
  apply eraseDups_map _
  intro name hname name' hname'
  exact hf (List.mem_eraseDups.mpr hname) (List.mem_eraseDups.mpr hname')

namespace Code

variable (hf : Set.InjOn f {name | name ∈ vars})
include hf

theorem register_rename (hname : name ∈ vars) : register (vars.map f) (f name) = register vars name := by
  have hindex : (vars.map f).idxOf (f name) = vars.idxOf name :=
    idxOf_map_of_iff fun other hother => hf.eq_iff hother hname
  rw [register, register, hindex]

theorem mem_rename (hseen : ∀ name ∈ seen, name ∈ vars) (hname : name ∈ vars)
    : f name ∈ seen.map f ↔ name ∈ seen := by
  constructor
  . intro hmem
    rcases List.mem_map.mp hmem with ⟨name', hname', heq⟩
    exact hf (hseen name' hname') hname heq ▸ hname'
  . exact List.mem_map_of_mem

theorem head_rename {offset : Int} {args : List Term} (hseen : ∀ name ∈ seen, name ∈ vars)
    (hargs : ∀ name, .var name ∈ args → name ∈ vars)
    : head (vars.map f) offset (seen.map f) (args.map (Term.rename f)) = head vars offset seen args := by
  induction args generalizing offset seen with
  | nil => rfl
  | cons term args ih =>
    have hrest : ∀ name, .var name ∈ args → name ∈ vars := fun name h => hargs name (List.mem_cons_of_mem term h)
    cases term with
    | const name => exact congrArg _ (ih hseen hrest)
    | var name =>
      have hname := hargs name List.mem_cons_self
      rw [List.map_cons, Term.rename, head, head]
      simp only [register_rename hf hname, mem_rename hf hseen hname]
      split
      . rw [ih hseen hrest]
      . rw [← List.map_cons, ih _ hrest]
        exact List.forall_mem_cons.mpr ⟨hname, hseen⟩

theorem arguments_rename {args : List Term} (hseen : ∀ name ∈ seen, name ∈ vars)
    (hargs : ∀ name, .var name ∈ args → name ∈ vars)
    : arguments (vars.map f) (seen.map f) (args.map (Term.rename f)) = arguments vars seen args := by
  induction args generalizing seen with
  | nil => rfl
  | cons term args ih =>
    have hrest : ∀ name, .var name ∈ args → name ∈ vars := fun name h => hargs name (List.mem_cons_of_mem term h)
    cases term with
    | const name => exact congrArg _ (ih hseen hrest)
    | var name =>
      have hname := hargs name List.mem_cons_self
      rw [List.map_cons, Term.rename, arguments, arguments]
      simp only [register_rename hf hname, mem_rename hf hseen hname]
      split
      . rw [ih hseen hrest]
      . rw [← List.map_cons, ih _ hrest]
        exact List.forall_mem_cons.mpr ⟨hname, hseen⟩

theorem calls_rename {lits : List Literal} (hseen : ∀ name ∈ seen, name ∈ vars)
    (hlits : ∀ lit ∈ lits, ∀ name ∈ lit.vars, name ∈ vars)
    : calls (vars.map f) (seen.map f) (lits.map (Literal.rename f)) = calls vars seen lits := by
  induction lits generalizing seen with
  | nil => rfl
  | cons lit lits ih =>
    rcases List.forall_mem_cons.mp hlits with ⟨hlit, hrest⟩
    rw [List.map_cons, calls, calls, Literal.signature_rename, Literal.vars_rename, ← List.map_append,
      ih _ hrest]
    . congr 1
      exact arguments_rename hf hseen fun name hname => hlit name (Literal.mem_vars.mpr hname)
    . exact List.forall_mem_append.mpr ⟨hlit, hseen⟩

theorem features_rename {lits : List Literal} (hlits : ∀ lit ∈ lits, ∀ name ∈ lit.vars, name ∈ vars)
    : features (vars.map f) (lits.map (Literal.rename f)) = features vars lits := by
  have hfeature : ∀ lit ∈ lits, feature (vars.map f) (lit.rename f) = feature vars lit := by
    intro lit hlit
    rw [feature, feature, Literal.rename, List.length_map, List.map_map]
    congr 1
    apply List.map_congr_left
    intro term hterm
    cases term with
    | const name => rfl
    | var name =>
      have hname := hlits lit hlit name (Literal.mem_vars.mpr hterm)
      exact congrArg Instruction.fpushBoundVar (register_rename hf hname)
  rw [features, features, List.flatMap_map, List.flatMap_congr hfeature]

end Code

theorem Clause.vars_eq (clause : Clause)
    : clause.vars = queryVars (clause.head :: clause.features ++ clause.body) := rfl

theorem Clause.vars_rename {clause : Clause} (hf : Set.InjOn f {name | name ∈ clause.vars})
    : (clause.rename f).vars = clause.vars.map f := by
  rw [vars_eq, vars_eq, ← queryVars_rename hf, List.map_append, List.map_cons]
  rfl

theorem Clause.code_rename {clause : Clause} (hf : Set.InjOn f {name | name ∈ clause.vars})
    : (clause.rename f).code = clause.code := by
  have hhead : ∀ name ∈ clause.head.vars, name ∈ clause.vars :=
    fun name hname => mem_vars.mpr ⟨clause.head, by simp, hname⟩
  have hfeatures : ∀ lit ∈ clause.features, ∀ name ∈ lit.vars, name ∈ clause.vars :=
    fun lit hlit name hname => mem_vars.mpr ⟨lit, by simp [hlit], hname⟩
  have hbody : ∀ lit ∈ clause.body, ∀ name ∈ lit.vars, name ∈ clause.vars :=
    fun lit hlit name hname => mem_vars_of_body hlit hname
  have hnone : ∀ name ∈ ([] : List String), name ∈ clause.vars := nofun
  have hargs : ∀ offset, Code.head (clause.vars.map f) offset [] (clause.head.rename f).args =
      Code.head clause.vars offset [] clause.head.args :=
    fun offset => Code.head_rename hf hnone fun name hname => hhead name (Literal.mem_vars.mpr hname)
  have harity : (clause.head.rename f).args.length = clause.head.args.length := List.length_map _
  rw [code, code, vars_rename hf]
  simp only [rename, hargs, harity, Literal.vars_rename, Code.features_rename hf hfeatures,
    Code.calls_rename hf hhead hbody, List.length_map]

theorem queryCode_rename {goals : List Literal} (hf : Set.InjOn f {name | name ∈ queryVars goals})
    : queryCode (goals.map (Literal.rename f)) = queryCode goals := by
  have hgoals : ∀ lit ∈ goals, ∀ name ∈ lit.vars, name ∈ queryVars goals :=
    fun lit hlit name hname => mem_queryVars.mpr ⟨lit, hlit, hname⟩
  have hnone : ∀ name ∈ ([] : List String), name ∈ queryVars goals := nofun
  have hcalls := Code.calls_rename hf hnone hgoals
  rw [List.map_nil] at hcalls
  rw [queryCode, queryCode, queryVars_rename hf, hcalls, List.length_map]

end Rename

section Decode

variable {vars vars' seen seen' : List String} {rest rest' : List Instruction} {lits lits' : List Literal}

theorem eq_map_of_map_eq {f : α → γ} {g : β → γ} {h : α → β} {as : List α} {bs : List β}
    (heq : as.map f = bs.map g) (hstep : ∀ a, ∀ b ∈ bs, f a = g b → b = h a) : bs = as.map h := by
  induction as generalizing bs with
  | nil =>
    rw [List.map_nil, eq_comm, List.map_eq_nil_iff] at heq
    exact heq
  | cons a as ih =>
    cases bs with
    | nil => contradiction
    | cons b bs =>
      rw [List.map_cons, List.map_cons, List.cons.injEq] at heq
      rw [List.map_cons, ← hstep a b List.mem_cons_self heq.1,
        ← ih heq.2 fun a b hb => hstep a b (List.mem_cons_of_mem _ hb)]

def translate (vars vars' : List String) (name : String) : String :=
  vars'[vars.idxOf name]?.getD name

theorem Term.rename_translate {term term' : Term} (hvars : ∀ name, term' = .var name → name ∈ vars')
    (heq : term.eval (Code.numbered vars) = term'.eval (Code.numbered vars'))
    : term' = term.rename (translate vars vars') := by
  cases term with
  | const name =>
    cases term' with
    | const name' =>
      cases heq
      rfl
    | var name' => cases heq
  | var name =>
    cases term' with
    | const name' => cases heq
    | var name' =>
      have hindex : vars.idxOf name = vars'.idxOf name' := by
        have hregister : Code.register vars name = Code.register vars' name' := by
          injection heq
        unfold Code.register at hregister
        omega
      have hlt := List.idxOf_lt_length_of_mem (hvars name' rfl)
      rw [rename, translate, hindex, List.getElem?_eq_getElem hlt, List.getElem_idxOf]
      rfl

theorem Literal.rename_translate {lit lit' : Literal} (hvars : ∀ name ∈ lit'.vars, name ∈ vars')
    (heq : lit.inst (Code.numbered vars) = lit'.inst (Code.numbered vars'))
    : lit' = lit.rename (translate vars vars') := by
  rcases lit with ⟨functor, args⟩
  rcases lit' with ⟨functor', args'⟩
  rw [inst, inst, Atom.mk.injEq] at heq
  rw [rename, mk.injEq]
  refine ⟨heq.1.symm, eq_map_of_map_eq heq.2 ?_⟩
  intro term term' hterm' hterm
  apply Term.rename_translate _ hterm
  rintro name rfl
  exact hvars name (mem_vars.mpr hterm')

theorem leftInvOn_of_rename {f g : String → String}
    (h : (lits.map (Literal.rename f)).map (Literal.rename g) = lits)
    : Set.LeftInvOn g f {name | name ∈ queryVars lits} := by
  intro name hname
  rcases mem_queryVars.mp hname with ⟨lit, hlit, hmem⟩
  have hlits : lits.map (Literal.rename g ∘ Literal.rename f) = lits.map id := by
    rw [← List.map_map, h, List.map_id]
  have hlit' : (lit.rename f).rename g = lit := List.map_inj_left.mp hlits lit hlit
  have hargs : lit.args.map (Term.rename g ∘ Term.rename f) = lit.args.map id := by
    rw [← List.map_map, List.map_id]
    exact congrArg Literal.args hlit'
  have hterm := List.map_inj_left.mp hargs (.var name) (Literal.mem_vars.mp hmem)
  injection hterm

theorem exists_rename
    (heq : lits.map (Literal.inst (Code.numbered (queryVars lits))) =
      lits'.map (Literal.inst (Code.numbered (queryVars lits'))))
    : ∃ f : String → String, Set.InjOn f {name | name ∈ queryVars lits} ∧
        lits' = lits.map (Literal.rename f) := by
  have hrename : lits' = lits.map (Literal.rename (translate (queryVars lits) (queryVars lits'))) :=
    eq_map_of_map_eq heq fun lit lit' hlit' =>
      Literal.rename_translate fun name hname => mem_queryVars.mpr ⟨lit', hlit', hname⟩
  have hback : lits = lits'.map (Literal.rename (translate (queryVars lits') (queryVars lits))) :=
    eq_map_of_map_eq heq.symm fun lit lit' hlit' =>
      Literal.rename_translate fun name hname => mem_queryVars.mpr ⟨lit', hlit', hname⟩
  exact ⟨_, (leftInvOn_of_rename (hrename ▸ hback.symm)).injOn, hrename⟩

namespace Code

theorem inst_of_head {offset offset' : Int} {lit lit' : Literal} (hsig : lit.signature = lit'.signature)
    (heq : head vars offset seen lit.args ++ rest = head vars' offset' seen' lit'.args ++ rest')
    : lit.inst (numbered vars) = lit'.inst (numbered vars') ∧ rest = rest' := by
  rw [Literal.signature, Literal.signature, Signature.mk.injEq] at hsig
  rcases List.append_inj heq (by rw [length_head, length_head, hsig.2]) with ⟨hhead, hrest⟩
  refine ⟨?_, hrest⟩
  rw [Literal.inst, Literal.inst, Atom.mk.injEq, ← operands_head vars offset seen, hhead, operands_head]
  exact ⟨hsig.1, rfl⟩

theorem inst_of_feature {lit lit' : Literal} (heq : feature vars lit ++ rest = feature vars' lit' ++ rest')
    : lit.inst (numbered vars) = lit'.inst (numbered vars') ∧ rest = rest' := by
  have hstart := (List.cons.inj heq).1
  rw [Instruction.fpushStart.injEq] at hstart
  have hlength : (feature vars lit).length = (feature vars' lit').length := by
    simp [feature, hstart.2]
  rcases List.append_inj heq hlength with ⟨hfeature, hrest⟩
  refine ⟨?_, hrest⟩
  rw [Literal.inst, Literal.inst, Atom.mk.injEq, ← operands_feature, hfeature, operands_feature]
  exact ⟨hstart.1, rfl⟩

theorem inst_of_features
    (heq : lits.flatMap (feature vars) ++ .freport :: rest = lits'.flatMap (feature vars') ++ .freport :: rest')
    : lits.map (Literal.inst (numbered vars)) = lits'.map (Literal.inst (numbered vars')) ∧ rest = rest' := by
  induction lits generalizing lits' with
  | nil =>
    cases lits' with
    | nil => exact ⟨rfl, (List.cons.inj heq).2⟩
    | cons lit' lits' => cases (List.cons.inj heq).1
  | cons lit lits ih =>
    cases lits' with
    | nil => cases (List.cons.inj heq).1
    | cons lit' lits' =>
      rw [List.flatMap_cons, List.flatMap_cons, List.append_assoc, List.append_assoc] at heq
      rcases inst_of_feature heq with ⟨hlit, heq'⟩
      rcases ih heq' with ⟨hlits, hrest⟩
      exact ⟨by rw [List.map_cons, List.map_cons, hlit, hlits], hrest⟩

theorem inst_of_calls
    (heq : calls vars seen lits ++ .returnp :: rest = calls vars' seen' lits' ++ .returnp :: rest')
    : lits.map (Literal.inst (numbered vars)) = lits'.map (Literal.inst (numbered vars')) := by
  have hliterals := congrArg (literals Pattern.var []) heq
  rw [literals_calls, literals_calls] at hliterals
  exact hliterals

end Code

theorem Clause.inst_of_code {clause clause' : Clause} (hcode : clause.code = clause'.code)
    (hsig : clause.head.signature = clause'.head.signature)
    : clause.head.inst (Code.numbered clause.vars) = clause'.head.inst (Code.numbered clause'.vars) ∧
      clause.features.map (Literal.inst (Code.numbered clause.vars)) =
        clause'.features.map (Literal.inst (Code.numbered clause'.vars)) ∧
      clause.body.map (Literal.inst (Code.numbered clause.vars)) =
        clause'.body.map (Literal.inst (Code.numbered clause'.vars)) := by
  rw [code, code, List.append_assoc, List.append_assoc, List.append_assoc, List.append_assoc] at hcode
  rcases Code.inst_of_head hsig (List.cons.inj hcode).2 with ⟨hhead, hrest⟩
  rw [Code.features, Code.features, List.cons_append, List.cons_append, List.append_assoc, List.append_assoc]
    at hrest
  rcases Code.inst_of_features (List.cons.inj hrest).2 with ⟨hfeatures, hrest'⟩
  exact ⟨hhead, hfeatures, Code.inst_of_calls hrest'⟩

end Decode

theorem Clause.variant_iff {clause clause' : Clause}
    : clause.code = clause'.code ∧ clause.head.signature.label = clause'.head.signature.label ↔
      clause.Variant clause' := by
  constructor
  . rintro ⟨hcode, hlabel⟩
    rcases inst_of_code hcode (Signature.label_injective hlabel) with ⟨hhead, hfeatures, hbody⟩
    have hlits : (clause.head :: clause.features ++ clause.body).map (Literal.inst (Code.numbered clause.vars)) =
        (clause'.head :: clause'.features ++ clause'.body).map (Literal.inst (Code.numbered clause'.vars)) := by
      simp only [List.map_append, List.map_cons, hhead, hfeatures, hbody]
    rcases exists_rename hlits with ⟨f, hf, hrename⟩
    refine ⟨f, hf, ?_⟩
    have hlength : clause'.features.length = (clause.features.map (Literal.rename f)).length := by
      simpa using (congrArg List.length hfeatures).symm
    rw [List.map_append, List.map_cons, List.cons_append, List.cons_append, List.cons.injEq] at hrename
    rcases List.append_inj hrename.2 hlength with ⟨hfeatures', hbody'⟩
    rcases clause' with ⟨head', body', features'⟩
    rw [rename, mk.injEq]
    exact ⟨hrename.1, hbody', hfeatures'⟩
  . rintro ⟨f, hf, rfl⟩
    refine ⟨(code_rename hf).symm, ?_⟩
    rw [rename, Literal.signature_rename]

theorem queryVariant_iff {goals goals' : List Literal}
    : queryCode goals = queryCode goals' ↔ QueryVariant goals goals' := by
  constructor
  . intro hcode
    exact exists_rename (Code.inst_of_calls (List.cons.inj hcode).2)
  . rintro ⟨f, hf, rfl⟩
    exact (queryCode_rename hf).symm

theorem Build.clause_eq_ok {clause : Clause} {program program' : Program} {addr : Nat}
    (h : Build.clause clause program = .ok addr program')
    : clause.unboundFeatureVariable? = none ∧ addr = program.size ∧
        program' = (program.append clause.code).addClause clause.head.signature.label addr := by
  rw [clause_apply] at h
  split at h
  . contradiction
  . next hfeatures =>
    cases h
    exact ⟨hfeatures, rfl, rfl⟩

/--
A block together with its label tells everything about a clause but the names of its variables.
-/
theorem Build.block_variant
    : (∀ (clause : Clause) (program program' : Program) (addr : Nat),
        Build.clause clause program = .ok addr program' →
          ∃ block label, addr = program.size ∧ program' = (program.append block).addClause label addr ∧
            Code.Seats (clause.head :: clause.features ++ clause.body) block ∧
            ∀ (other : Clause) (p p' : Program) (start : Nat), Build.clause other p = .ok start p' →
              ∃ block' label', start = p.size ∧ p' = (p.append block').addClause label' start ∧
                (block = block' ∧ label = label' ↔ clause.Variant other)) ∧
      ∀ (goals : List Literal) (program : Program),
        ∃ block, query goals program = .ok program.size (program.append block) ∧ Code.Seats goals block ∧
          ∀ (other : List Literal) (p : Program),
            ∃ block', query other p = .ok p.size (p.append block') ∧
              (block = block' ↔ QueryVariant goals other) := by
  constructor
  . intro clause program program' addr hclause
    rcases clause_eq_ok hclause with ⟨hfeatures, haddr, hprogram⟩
    refine ⟨clause.code, clause.head.signature.label, haddr, hprogram, Code.seats_clause hfeatures, ?_⟩
    intro other p p' start hother
    rcases clause_eq_ok hother with ⟨_, hstart, hprogram'⟩
    exact ⟨other.code, other.head.signature.label, hstart, hprogram', Clause.variant_iff⟩
  . intro goals program
    refine ⟨queryCode goals, rfl, Code.seats_queryCode goals, ?_⟩
    intro other p
    exact ⟨queryCode other, rfl, queryVariant_iff⟩

namespace Sample

def crossed : Clause where
  head := ⟨"p", [.var "X", .var "Y", .var "X"]⟩
  body := [⟨"q", [.var "Z", .const "a", .var "Y"]⟩]
  features := [⟨"by", [.var "Y"]⟩]

def recrossed : Clause where
  head := ⟨"p", [.var "Y", .var "X", .var "Y"]⟩
  body := [⟨"q", [.var "W", .const "a", .var "X"]⟩]
  features := [⟨"by", [.var "X"]⟩]

def uncrossed : Clause where
  head := ⟨"p", [.var "X", .var "Y", .var "Y"]⟩
  body := [⟨"q", [.var "Z", .const "a", .var "Y"]⟩]
  features := [⟨"by", [.var "Y"]⟩]

def recross (name : String) : String :=
  if name = "X" then "Y" else if name = "Y" then "X" else "W"

end Sample

theorem Build.block_variant_sample
    : ∃ program program' program'' : Program,
        Build.clause Sample.crossed {} = .ok 0 program ∧ Build.clause Sample.recrossed {} = .ok 0 program' ∧
          Build.clause Sample.uncrossed {} = .ok 0 program'' ∧ program' = program ∧ program'' ≠ program := by
  have hcrossed : ∃ program, Build.clause Sample.crossed {} = .ok 0 program := ⟨_, rfl⟩
  have hrecrossed : ∃ program, Build.clause Sample.recrossed {} = .ok 0 program := ⟨_, rfl⟩
  have huncrossed : ∃ program, Build.clause Sample.uncrossed {} = .ok 0 program := ⟨_, rfl⟩
  rcases hcrossed with ⟨program, hcrossed⟩
  rcases hrecrossed with ⟨program', hrecrossed⟩
  rcases huncrossed with ⟨program'', huncrossed⟩
  refine ⟨program, program', program'', hcrossed, hrecrossed, huncrossed, ?_⟩
  rcases block_variant.1 _ _ _ _ hcrossed with ⟨block, label, _, rfl, _, hothers⟩
  constructor
  . rcases hothers _ _ _ _ hrecrossed with ⟨block', label', _, rfl, hvariant⟩
    have hvars : Sample.crossed.vars = ["X", "Y", "Z"] := by decide
    have hinj : Set.InjOn Sample.recross {name | name ∈ Sample.crossed.vars} := by
      have hapart : ∀ name ∈ ["X", "Y", "Z"], ∀ name' ∈ ["X", "Y", "Z"],
          Sample.recross name = Sample.recross name' → name = name' := by decide
      rw [hvars]
      exact fun name hname name' hname' => hapart name hname name' hname'
    rcases hvariant.mpr ⟨Sample.recross, hinj, rfl⟩ with ⟨rfl, rfl⟩
    rfl
  . rcases hothers _ _ _ _ huncrossed with ⟨block', label', _, rfl, hvariant⟩
    intro heq
    have hsame : block = block' ∧ label = label' := by
      simpa [Program.addClause, Program.append, eq_comm] using heq
    rcases hvariant.mp hsame with ⟨f, _, hrename⟩
    have hargs := congrArg (·.head.args) hrename
    simp only [Sample.uncrossed, Sample.crossed, Clause.rename, Literal.rename, Term.rename, List.map_cons,
      List.cons.injEq, Term.var.injEq] at hargs
    exact absurd (hargs.1.trans hargs.2.2.1.symm) (by decide)

end HornMachine
