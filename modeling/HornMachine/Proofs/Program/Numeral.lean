import HornMachine.Clause.Basic
import HornMachine.Proofs.Program.Label
import Mathlib.Data.List.Basic
import Mathlib.Data.List.Induction
import Mathlib.Data.Nat.Digits.Defs

/-!
This module contains the texts that are read as labels. A text is one if an arity is written behind its last
slash, and it is the label of what it is read as if that arity is written plainly.
-/

namespace HornMachine

def decimalValue (digits : List Char) : Nat :=
  Nat.ofDigits 10 (digits.reverse.map fun c => c.toNat - '0'.toNat)

/--
The text consists of one or more decimal digits, with at most one plus sign before them.
-/
def WritesArity (text : String) (arity : Nat) : Prop :=
  ∃ digits : List Char, (text.toList = digits ∨ text.toList = '+' :: digits) ∧ digits ≠ [] ∧
    (∀ c ∈ digits, '0' ≤ c ∧ c ≤ '9') ∧ decimalValue digits = arity ∧ arity < 2 ^ 64

def WrittenPlainly (text : String) : Prop :=
  '+' ∉ text.toList ∧ (text.toList.head? = some '0' → text.toList = ['0'])

def LastSlash (text before after : String) : Prop :=
  text = before ++ "/" ++ after ∧ '/' ∉ after.toList

section Digits

variable {digits : List Char} {c : Char} {n : Nat}

theorem isDigit_iff : c.isDigit = true ↔ '0' ≤ c ∧ c ≤ '9' := by
  simp [Char.isDigit, Char.le_def]

theorem digit_range (h : c.isDigit = true) : 48 ≤ c.toNat ∧ c.toNat - '0'.toNat < 10 := by
  have hrange := Char.isDigit_iff_toNat.mp h
  change 48 ≤ c.toNat ∧ c.toNat ≤ 57 at hrange
  change 48 ≤ c.toNat ∧ c.toNat - 48 < 10
  omega

theorem toDigits_digit (h : c.isDigit = true) : Nat.toDigits 10 (c.toNat - '0'.toNat) = [c] := by
  rcases digit_range h with ⟨hlow, hlt⟩
  rw [Nat.toDigits_of_lt_base hlt, List.singleton_inj]
  apply Char.toNat_inj.mp
  rw [Nat.toNat_digitChar_of_lt_ten hlt]
  change 48 + (c.toNat - 48) = c.toNat
  omega

theorem decimalValue_append (digits : List Char) (c : Char)
    : decimalValue (digits ++ [c]) = 10 * decimalValue digits + (c.toNat - '0'.toNat) := by
  simp [decimalValue, Nat.ofDigits_cons, Nat.add_comm]

theorem ofDigitChars_eq_decimalValue (digits : List Char)
    : Nat.ofDigitChars 10 digits 0 = decimalValue digits := by
  induction digits using List.reverseRecOn with
  | nil => rfl
  | append_singleton digits c ih =>
    rw [Nat.ofDigitChars_append, ih, Nat.ofDigitChars_cons, Nat.ofDigitChars_nil, decimalValue_append]

theorem head?_toDigits (h : n ≠ 0) : (Nat.toDigits 10 n).head? ≠ some '0' := by
  induction n using Nat.strongRecOn with
  | ind n ih =>
    rw [Nat.toDigits_eq_if (by decide)]
    split
    . simpa using h
    . rw [List.head?_append_of_ne_nil _ Nat.toDigits_ne_nil]
      exact ih (n / 10) (by omega) (by omega)

theorem toDigits_decimalValue (hne : digits ≠ []) (hdigits : ∀ c ∈ digits, c.isDigit = true)
    (hzero : digits.head? = some '0' → digits = ['0'])
    : Nat.toDigits 10 (decimalValue digits) = digits := by
  -- the last digit is the remainder by ten, and the others are those of the quotient
  induction digits using List.reverseRecOn with
  | nil => contradiction
  | append_singleton digits c ih =>
    have hc : c.isDigit = true := hdigits c (by simp)
    have hlast := toDigits_digit hc
    rw [decimalValue_append]
    by_cases hnil : digits = []
    . subst hnil
      simpa [decimalValue] using hlast
    . have hhead : digits.head? ≠ some '0' := by
        intro hhead
        have hlength := congrArg List.length (hzero (by rw [List.head?_append_of_ne_nil _ hnil, hhead]))
        simp [hnil] at hlength
      have hdigits' := ih hnil (fun c hc => hdigits c (by simp [hc])) (fun h => absurd h hhead)
      have hpos : 0 < decimalValue digits := by
        apply Nat.pos_of_ne_zero
        intro heq
        rw [heq, Nat.toDigits_zero] at hdigits'
        rw [← hdigits'] at hhead
        contradiction
      rw [← Nat.toDigits_append_toDigits (by decide) hpos (digit_range hc).2, hdigits', hlast]

end Digits

theorem exists_lastSlash {text : String} (h : '/' ∈ text.toList)
    : ∃ before after, LastSlash text before after := by
  rcases List.eq_append_cons_of_mem (List.mem_reverse.mpr h) with ⟨after, before, htext, hafter⟩
  rw [List.reverse_eq_iff] at htext
  refine ⟨.ofList before.reverse, .ofList after.reverse, ?_, by simpa using hafter⟩
  rw [← String.toList_inj, htext]
  simp

namespace Signature

variable {cs digits : List Char} {text before after : String} {n : Nat}

theorem splitLast_of_lastSlash (h : LastSlash text before after)
    : splitLast '/' text.toList = some (before.toList, after.toList) := by
  rw [h.1, String.toList_append, String.toList_append, List.append_assoc]
  exact splitLast_append before.toList h.2

theorem lastSlash_unique {before' after' : String} (h : LastSlash text before after)
    (h' : LastSlash text before' after') : before' = before ∧ after' = after := by
  have hsplit := splitLast_of_lastSlash h
  rw [splitLast_of_lastSlash h', Option.some.injEq, Prod.mk.injEq] at hsplit
  exact ⟨String.toList_injective hsplit.1, String.toList_injective hsplit.2⟩

theorem arityBound_eq : arityBound = 2 ^ 64 := by
  decide

theorem readArity_eq_some : readArity text.toList = some n ↔ WritesArity text n := by
  have hdigits : ∀ digits : List Char, (digits ≠ [] ∧ digits.all Char.isDigit) ↔
      digits ≠ [] ∧ ∀ c ∈ digits, '0' ≤ c ∧ c ≤ '9' := by
    simp [isDigit_iff]
  unfold readArity WritesArity
  simp only [hdigits, ofDigitChars_eq_decimalValue, arityBound_eq, Option.ite_none_right_eq_some,
    Option.some.injEq]
  constructor
  . rintro ⟨⟨hne, hdigits⟩, hlt, rfl⟩
    refine ⟨_, ?_, hne, hdigits, rfl, hlt⟩
    split
    . next hplus =>
      right
      exact (List.cons_head?_tail hplus).symm
    . exact .inl rfl
  . rintro ⟨digits, htext, hne, hdigits, rfl, hlt⟩
    have hunsigned : (if text.toList.head? = some '+' then text.toList.tail else text.toList) = digits := by
      rcases htext with htext | htext
      . rw [htext, if_neg]
        intro hplus
        have := hdigits '+' (List.mem_of_mem_head? hplus)
        revert this
        decide
      . rw [htext]
        rfl
    rw [hunsigned]
    exact ⟨⟨hne, hdigits⟩, hlt, rfl⟩

theorem label_eq_iff (h : LastSlash text before after)
    : (mk before n).label = text ↔ Nat.toDigits 10 n = after.toList := by
  rw [← String.toList_inj, toList_label, h.1]
  simp

theorem toDigits_eq_iff (h : WritesArity text n) : Nat.toDigits 10 n = text.toList ↔ WrittenPlainly text := by
  constructor
  . intro htext
    rw [WrittenPlainly, ← htext]
    constructor
    . intro hplus
      have := Nat.isDigit_of_mem_toDigits (by decide) (by decide) hplus
      contradiction
    . intro hhead
      have hzero : n = 0 := by_contra fun hne => head?_toDigits hne hhead
      rw [hzero, Nat.toDigits_zero]
  . rintro ⟨hplus, hzero⟩
    rcases h with ⟨digits, htext | htext, hne, hdigits, rfl, _⟩
    . rw [htext] at hzero ⊢
      exact toDigits_decimalValue hne (fun c hc => isDigit_iff.mpr (hdigits c hc)) hzero
    . rw [htext] at hplus
      simp at hplus

theorem ofLabel?_of_lastSlash (h : LastSlash text before after)
    : ofLabel? text = match readArity after.toList with
      | none => .error (.malformedLabel text)
      | some arity => .ok ⟨before, arity⟩ := by
  unfold ofLabel?
  rw [splitLast_of_lastSlash h]
  cases harity : readArity after.toList with
  | none => simp [harity]
  | some arity => simp [harity]

theorem ofLabel?_eq_ok {sig : Signature}
    : ofLabel? text = .ok sig ↔
        ∃ after, LastSlash text sig.functor after ∧ WritesArity after sig.arity := by
  constructor
  . intro h
    by_cases hslash : '/' ∈ text.toList
    . rcases exists_lastSlash hslash with ⟨before, after, hlast⟩
      rw [ofLabel?_of_lastSlash hlast] at h
      split at h
      . contradiction
      . next harity =>
        cases h
        exact ⟨after, hlast, readArity_eq_some.mp harity⟩
    . rw [ofLabel?, splitLast_eq_none hslash] at h
      contradiction
  . rintro ⟨after, hlast, harity⟩
    rw [ofLabel?_of_lastSlash hlast, readArity_eq_some.mpr harity]

theorem ofLabel?_cases (text : String)
    : (∃ sig, ofLabel? text = .ok sig) ∨ ofLabel? text = .error (.malformedLabel text) := by
  unfold ofLabel?
  split
  . exact .inr rfl
  . split
    . exact .inr rfl
    . exact .inl ⟨_, rfl⟩

/--
A label tells its predicate, and exactly the texts that write an arity behind their last slash are read.
-/
theorem label_exact
    : (∀ sig : Signature, sig.arity < 2 ^ 64 → ofLabel? sig.label = .ok sig) ∧
      (∀ lit lit' : Literal, lit.signature.label = lit'.signature.label →
        lit.functor = lit'.functor ∧ lit.args.length = lit'.args.length) ∧
      ∀ text : String,
        (∀ sig, ofLabel? text = .ok sig ↔
          ∃ after, LastSlash text sig.functor after ∧ WritesArity after sig.arity) ∧
        (∀ fault, ofLabel? text = .error fault ↔ fault = .malformedLabel text ∧
          ¬∃ before after arity, LastSlash text before after ∧ WritesArity after arity) ∧
        ∀ (sig : Signature) (before after : String), LastSlash text before after →
          ofLabel? text = .ok sig → (sig.label = text ↔ WrittenPlainly after) := by
  refine ⟨?_, ?_, fun text => ⟨fun sig => ofLabel?_eq_ok, ?_, ?_⟩⟩
  . intro sig harity
    exact ofLabel?_label (arityBound_eq ▸ harity)
  . intro lit lit' hlabel
    have hsig := label_injective hlabel
    simpa [Literal.signature] using hsig
  . intro fault
    have hread : (∃ sig, ofLabel? text = .ok sig) ↔
        ∃ before after arity, LastSlash text before after ∧ WritesArity after arity := by
      constructor
      . rintro ⟨sig, hsig⟩
        rcases ofLabel?_eq_ok.mp hsig with ⟨after, hlast, harity⟩
        exact ⟨sig.functor, after, sig.arity, hlast, harity⟩
      . rintro ⟨before, after, arity, hlast, harity⟩
        exact ⟨⟨before, arity⟩, ofLabel?_eq_ok.mpr ⟨after, hlast, harity⟩⟩
    rw [← hread]
    rcases ofLabel?_cases text with ⟨sig, hsig⟩ | herror
    . simp [hsig]
    . simp [herror, eq_comm]
  . intro sig before after hlast hsig
    rcases ofLabel?_eq_ok.mp hsig with ⟨after', hlast', harity⟩
    rw [(lastSlash_unique hlast hlast').2] at harity hlast'
    exact (label_eq_iff hlast').trans (toDigits_eq_iff harity)

theorem label_exact_sample
    : ofLabel? (mk "a/b" 7).label = .ok ⟨"a/b", 7⟩ ∧ ofLabel? "a/b/+007" = .ok ⟨"a/b", 7⟩ ∧
      (mk "a/b" 7).label ≠ "a/b/+007" ∧ ofLabel? "a/-7" = .error (.malformedLabel "a/-7") := by
  have hlast : LastSlash "a/b/+007" "a/b" "+007" := ⟨by decide, by decide⟩
  have hdigits : ∀ c ∈ ['0', '0', '7'], '0' ≤ c ∧ c ≤ '9' := by
    simp
  have harity : WritesArity "+007" 7 :=
    ⟨['0', '0', '7'], .inr (by decide), by decide, hdigits, by decide, by decide⟩
  have hsigned := (label_exact.2.2 "a/b/+007").1 ⟨"a/b", 7⟩
  refine ⟨label_exact.1 _ (by decide), hsigned.mpr ⟨_, hlast, harity⟩, ?_, ?_⟩
  . intro hlabel
    have hplain := ((label_exact.2.2 _).2.2 _ _ _ hlast (hsigned.mpr ⟨_, hlast, harity⟩)).mp hlabel
    exact hplain.1 (by decide)
  . rw [(label_exact.2.2 _).2.1]
    refine ⟨rfl, ?_⟩
    rintro ⟨before, after, arity, hlast, harity⟩
    have hminus : LastSlash "a/-7" "a" "-7" := ⟨by decide, by decide⟩
    have hafter := (lastSlash_unique hlast hminus).2
    have hnone : readArity "-7".toList = none := by decide
    rw [← hafter, ← readArity_eq_some, hnone] at harity
    simp at harity

end Signature

end HornMachine
