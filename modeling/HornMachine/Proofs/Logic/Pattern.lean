import HornMachine.Proofs.Logic.Atom

/-!
This module contains atoms with variables and their unification. Terms are flat, so unification always
ends and needs no occurs check.
-/

namespace HornMachine

inductive Pattern (V : Type) where
  | const (name : String)
  | var (v : V)
deriving DecidableEq

instance : Domain (Pattern V) where
  const := .const
  const_inj h := by
    cases h
    rfl

namespace Pattern

def eval [Domain D] (f : V → D) : Pattern V → D
  | const name => Domain.const name
  | var v => f v

theorem eval_eval [Domain D] (t : V → Pattern W) (f : W → D) (p : Pattern V)
    : (p.eval t).eval f = p.eval fun v => (t v).eval f := by
  cases p with
  | const _ => rfl
  | var _ => rfl

theorem eval_var (p : Pattern V) : p.eval var = p := by
  cases p with
  | const _ => rfl
  | var _ => rfl

end Pattern

namespace Atom

def eval [Domain D] (f : V → D) (atom : Atom (Pattern V)) : Atom D :=
  atom.map (Pattern.eval f)

theorem eval_eval [Domain D] (t : V → Pattern W) (f : W → D) (atom : Atom (Pattern V))
    : (atom.eval t).eval f = atom.eval fun v => (t v).eval f := by
  simp [eval, map, Pattern.eval_eval, Function.comp_def]

theorem eval_var (atom : Atom (Pattern V)) : atom.eval Pattern.var = atom := by
  have hargs : atom.args.map (Pattern.eval .var) = atom.args := by
    rw [funext Pattern.eval_var, List.map_id']
  rw [eval, map, hargs]

end Atom

theorem Literal.eval_inst [Domain D] (θ : String → Pattern V) (f : V → D) (lit : Literal)
    : (lit.inst θ).eval f = lit.inst fun name => (θ name).eval f := by
  simp only [inst, Atom.eval, Atom.map, Atom.mk.injEq, List.map_map, true_and]
  apply List.map_congr_left
  intro term _
  cases term with
  | const _ => rfl
  | var _ => rfl

structure MostGeneral (P : (V → Pattern V) → Prop) (t : V → Pattern V) : Prop where
  self : P t
  factor : ∀ u, P u → ∃ w : V → Pattern V, ∀ v, (t v).eval w = u v

def Unifies (a b : Atom (Pattern V)) (t : V → Pattern V) : Prop :=
  a.eval t = b.eval t

section Unification

variable [DecidableEq V]

theorem exists_mostGeneral_var (v : V) (p : Pattern V)
    : ∃ t : V → Pattern V, MostGeneral (fun t => t v = p.eval t) t := by
  refine ⟨fun v' => if v' = v then p else .var v', ?_, ?_⟩
  . cases p with
    | const _ => simp [Pattern.eval, Domain.const]
    | var v' => simp [Pattern.eval]
  . intro u hu
    refine ⟨u, ?_⟩
    intro v'
    by_cases heq : v' = v
    . rw [if_pos heq, heq, hu]
    . rw [if_neg heq]
      rfl

theorem exists_mostGeneral_pattern {p q : Pattern V} {u : V → Pattern V} (h : p.eval u = q.eval u)
    : ∃ t : V → Pattern V, MostGeneral (fun t => p.eval t = q.eval t) t := by
  cases p with
  | var v => exact exists_mostGeneral_var v q
  | const name =>
    cases q with
    | var v =>
      rcases exists_mostGeneral_var v (.const name) with ⟨t, ht, hfactor⟩
      exact ⟨t, ht.symm, fun u hu => hfactor u hu.symm⟩
    | const name' =>
      exact ⟨.var, Domain.const_inj h ▸ rfl, fun u _ => ⟨u, fun _ => rfl⟩⟩

theorem exists_mostGeneral_list {ps qs : List (Pattern V)} {u : V → Pattern V}
    (h : ps.map (Pattern.eval u) = qs.map (Pattern.eval u))
    : ∃ t : V → Pattern V,
        MostGeneral (fun t => ps.map (Pattern.eval t) = qs.map (Pattern.eval t)) t := by
  induction ps generalizing qs with
  | nil =>
    have hnil : qs = [] := by simpa using h.symm
    rw [hnil]
    exact ⟨.var, rfl, fun u _ => ⟨u, fun _ => rfl⟩⟩
  | cons p ps ih =>
    cases qs with
    | nil => simp at h
    | cons q qs =>
      simp only [List.map_cons, List.cons.injEq] at h ⊢
      -- the tail is solved first, and then the heads under its solution
      rcases ih h.2 with ⟨t, ht, hfactor⟩
      have hsplit : ∀ u w : V → Pattern V, (∀ v, (t v).eval w = u v) → p.eval u = q.eval u →
          (p.eval t).eval w = (q.eval t).eval w := by
        intro u w hw heq
        rw [Pattern.eval_eval, Pattern.eval_eval, funext hw, heq]
      rcases hfactor u h.2 with ⟨w, hw⟩
      rcases exists_mostGeneral_pattern (hsplit u w hw h.1) with ⟨t', ht', hfactor'⟩
      refine ⟨fun v => (t v).eval t', ⟨?_, ?_⟩, ?_⟩
      . rw [← Pattern.eval_eval, ← Pattern.eval_eval, ht']
      . have hmap := congrArg (List.map (Pattern.eval t')) ht
        simpa [Pattern.eval_eval, Function.comp_def] using hmap
      . intro u hu
        rcases hfactor u hu.2 with ⟨w, hw⟩
        rcases hfactor' w (hsplit u w hw hu.1) with ⟨w', hw'⟩
        refine ⟨w', ?_⟩
        intro v
        rw [Pattern.eval_eval, funext hw', hw]

theorem exists_mostGeneral_unifier {a b : Atom (Pattern V)} {u : V → Pattern V} (h : Unifies a b u)
    : ∃ t, MostGeneral (Unifies a b) t := by
  have hunifies : ∀ t : V → Pattern V, Unifies a b t ↔
      a.functor = b.functor ∧ a.args.map (Pattern.eval t) = b.args.map (Pattern.eval t) := by
    intro t
    simp only [Unifies, Atom.eval, Atom.map, Atom.mk.injEq]
  rcases (hunifies u).mp h with ⟨hfunctor, hargs⟩
  rcases exists_mostGeneral_list hargs with ⟨t, ht, hfactor⟩
  exact ⟨t, (hunifies t).mpr ⟨hfunctor, ht⟩, fun u hu => hfactor u ((hunifies u).mp hu).2⟩

end Unification

def Occurs (v : V) (atoms : List (Atom (Pattern V))) : Prop :=
  ∃ atom ∈ atoms, .var v ∈ atom.args

/--
The atoms `ys` are the atoms `xs` with other names for the variables, different ones for different ones.
-/
def Renames (xs : List (Atom (Pattern V))) (ys : List (Atom (Pattern W))) : Prop :=
  ∃ f : V → W, (∀ v v', Occurs v xs → Occurs v' xs → f v = f v' → v = v') ∧
    ys = xs.map (Atom.eval fun v => .var (f v))

theorem eval_eq_of_map_eq {xs : List (Atom (Pattern V))} {u : V → Pattern V}
    (h : xs.map (Atom.eval u) = xs) {v : V} (hv : Occurs v xs) : u v = .var v := by
  rcases hv with ⟨atom, hatom, harg⟩
  have heval := List.map_inj_left.mp (h.trans xs.map_id.symm) atom hatom
  have hargs := congrArg Atom.args heval
  exact List.map_inj_left.mp (hargs.trans atom.args.map_id.symm) (.var v) harg

theorem eval_congr_of_vars [Domain D] {xs : List (Atom (Pattern V))} {f g : V → D}
    (h : ∀ v, Occurs v xs → f v = g v) : xs.map (Atom.eval f) = xs.map (Atom.eval g) := by
  apply List.map_congr_left
  intro atom hatom
  simp only [Atom.eval, Atom.map, Atom.mk.injEq, true_and]
  apply List.map_congr_left
  intro p hp
  cases p with
  | const _ => rfl
  | var v => exact h v ⟨atom, hatom, hp⟩

theorem renames_of_instances [Inhabited W] {xs : List (Atom (Pattern V))}
    {ys : List (Atom (Pattern W))} {u : V → Pattern W} {w : W → Pattern V}
    (hys : ys = xs.map (Atom.eval u)) (hxs : xs = ys.map (Atom.eval w)) : Renames xs ys := by
  have hself : xs.map (Atom.eval fun v => (u v).eval w) = xs := by
    conv => rhs; rw [hxs, hys]
    simp [Atom.eval_eval, Function.comp_def]
  have hback : ∀ v, Occurs v xs → (u v).eval w = .var v := fun v hv => eval_eq_of_map_eq hself hv
  -- a constant would not lead back to a variable, so `u` only changes names
  have hvar : ∀ v, ∃ v' : W, Occurs v xs → u v = .var v' := by
    intro v
    match hu : u v with
    | .var v' => exact ⟨v', fun _ => rfl⟩
    | .const name =>
      refine ⟨default, ?_⟩
      intro hv
      have := hback v hv
      rw [hu] at this
      contradiction
  rcases Classical.axiomOfChoice hvar with ⟨f, hf⟩
  refine ⟨f, ?_, ?_⟩
  . intro v v' hv hv' heq
    have h := hback v hv
    rw [hf v hv, heq, ← hf v' hv', hback v' hv'] at h
    cases h
    rfl
  . rw [hys]
    apply eval_congr_of_vars
    exact hf

section Apart

variable [Domain D]

def Atom.left (atom : Atom (Pattern V)) : Atom (Pattern (V ⊕ String)) :=
  atom.eval fun v => .var (.inl v)

def Literal.apart (lit : Literal) : Atom (Pattern (V ⊕ String)) :=
  lit.inst fun name => .var (.inr name)

theorem Atom.eval_left (atom : Atom (Pattern V)) (f : V ⊕ String → D)
    : atom.left.eval f = atom.eval fun v => f (.inl v) :=
  Atom.eval_eval _ f atom

theorem Literal.eval_apart (lit : Literal) (f : V ⊕ String → D)
    : (lit.apart : Atom (Pattern (V ⊕ String))).eval f = lit.inst fun name => f (.inr name) :=
  Literal.eval_inst _ f lit

theorem unifies_apart_iff {atom : Atom (Pattern V)} {lit : Literal}
    {t : V ⊕ String → Pattern (V ⊕ String)}
    : Unifies atom.left lit.apart t ↔
      (atom.eval fun v => t (.inl v)) = lit.inst fun name => t (.inr name) := by
  rw [Unifies, Atom.eval_left, Literal.eval_apart]

theorem MostGeneral.factor_apart {atom : Atom (Pattern V)} {lit : Literal}
    {t : V ⊕ String → Pattern (V ⊕ String)} {g : V → Pattern V} {θ : String → Pattern V}
    (h : MostGeneral (Unifies atom.left lit.apart) t) (heq : atom.eval g = lit.inst θ)
    : ∃ w : V ⊕ String → Pattern V, (∀ v, (t (.inl v)).eval w = g v) ∧
        ∀ name, (t (.inr name)).eval w = θ name := by
  -- the common instance has no variables of the clause, so they can all be dropped again
  rcases h.factor (fun x => (Sum.elim g θ x).eval fun v => .var (.inl v)) (by
    rw [unifies_apart_iff]
    simp only [Sum.elim_inl, Sum.elim_inr]
    rw [← Atom.eval_eval, heq, Literal.eval_inst]) with ⟨w, hw⟩
  refine ⟨fun x => (w x).eval (Sum.elim .var fun _ => .const ""), ?_, ?_⟩
  . intro v
    rw [← Pattern.eval_eval, hw, Pattern.eval_eval]
    exact Pattern.eval_var (g v)
  . intro name
    rw [← Pattern.eval_eval, hw, Pattern.eval_eval]
    exact Pattern.eval_var (θ name)

end Apart

end HornMachine
