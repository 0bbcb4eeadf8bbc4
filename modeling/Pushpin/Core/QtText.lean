import Mathlib.Tactic.Ring
import Mathlib.Tactic.IntervalCases
import Mathlib.Data.Nat.Digits

/-! # Decimal text of worker indices

`QString("-%1").arg(i)` and `QByteArray::number(n)` render a non-negative `int` as its
decimal digits; on `Nat` that is Lean's `toString`, i.e. `Nat.toDigits 10`. Reading the
digits back gives the number, and no digit is a `-`, so a string that ends in `-` and a
number determines the number whatever stands before the dash.
-/

namespace Pushpin.QtText
set_option autoImplicit false

/-- `QString::startsWith(prefix)`, on the characters of the two strings. -/
def hasPrefix (s pre : String) : Bool := pre.data.isPrefixOf s.data

def decimalValue (acc : Nat) (digits : List Char) : Nat :=
  digits.foldl (fun a c => 10 * a + (c.toNat - '0'.toNat)) acc

theorem decimalValue_acc (acc : Nat) (digits : List Char) :
    decimalValue acc digits = acc * 10 ^ digits.length + decimalValue 0 digits := by
  induction digits generalizing acc with
  | nil => simp [decimalValue]
  | cons c cs ih =>
    simp only [decimalValue, List.foldl_cons] at ih ⊢
    rw [ih, ih (10 * 0 + _), List.length_cons, Nat.pow_succ]
    ring

theorem digitChar_toNat (d : Nat) (hd : d < 10) : (Nat.digitChar d).toNat = '0'.toNat + d := by
  interval_cases d <;> rfl

theorem digitChar_ne_dash (d : Nat) (hd : d < 10) : Nat.digitChar d ≠ '-' := by
  interval_cases d <;> decide

theorem decimalValue_toDigitsCore (fuel n : Nat) (acc : List Char) (hFuel : n < fuel) :
    decimalValue 0 (Nat.toDigitsCore 10 fuel n acc) = n * 10 ^ acc.length + decimalValue 0 acc := by
  induction fuel generalizing n acc with
  | zero => omega
  | succ fuel ih =>
    have hDigit : (Nat.digitChar (n % 10)).toNat - '0'.toNat = n % 10 := by
      rw [digitChar_toNat _ (Nat.mod_lt _ (by decide))]; omega
    have hCons : decimalValue 0 (Nat.digitChar (n % 10) :: acc) =
        n % 10 * 10 ^ acc.length + decimalValue 0 acc := by
      rw [decimalValue, List.foldl_cons, ← decimalValue, decimalValue_acc, hDigit]; simp
    simp only [Nat.toDigitsCore]
    split
    · rw [hCons, Nat.mod_eq_of_lt (by omega)]
    · rw [ih (n / 10) _ (by omega), hCons, List.length_cons, Nat.pow_succ]
      calc n / 10 * (10 ^ acc.length * 10) + (n % 10 * 10 ^ acc.length + decimalValue 0 acc)
          = (10 * (n / 10) + n % 10) * 10 ^ acc.length + decimalValue 0 acc := by ring
        _ = n * 10 ^ acc.length + decimalValue 0 acc := by rw [Nat.div_add_mod]

theorem decimalValue_toString (n : Nat) : decimalValue 0 (toString n).data = n := by
  simpa using decimalValue_toDigitsCore (n + 1) n [] (Nat.lt_succ_self n)

theorem toString_injective {i j : Nat} (h : toString i = toString j) : i = j := by
  rw [← decimalValue_toString i, ← decimalValue_toString j, h]

theorem dash_not_mem_toDigitsCore (fuel n : Nat) (acc : List Char) (hAcc : '-' ∉ acc) :
    '-' ∉ Nat.toDigitsCore 10 fuel n acc := by
  induction fuel generalizing n acc with
  | zero => exact hAcc
  | succ fuel ih =>
    have hNew : '-' ∉ Nat.digitChar (n % 10) :: acc := by
      simp only [List.mem_cons, not_or]
      exact ⟨(digitChar_ne_dash _ (Nat.mod_lt _ (by decide))).symm, hAcc⟩
    simp only [Nat.toDigitsCore]
    split
    · exact hNew
    · exact ih _ _ hNew

theorem dash_not_mem_toString (n : Nat) : '-' ∉ (toString n).data :=
  dash_not_mem_toDigitsCore _ n [] (List.not_mem_nil _)

theorem prefix_eq_of_append_cons {α : Type} (c : α) :
    ∀ (p p' q q' : List α), p ++ c :: q = p' ++ c :: q' → c ∉ p → c ∉ p' → p = p'
  | [], [], _, _, _, _, _ => rfl
  | [], d :: _, _, _, h, _, hp' => absurd (List.cons.inj h).1 (fun e => hp' (e ▸ List.mem_cons_self _ _))
  | d :: _, [], _, _, h, hp, _ => absurd (List.cons.inj h).1.symm (fun e => hp (e ▸ List.mem_cons_self _ _))
  | d :: p, d' :: p', q, q', h, hp, hp' => by
    obtain ⟨rfl, hTail⟩ := List.cons.inj h
    rw [prefix_eq_of_append_cons c p p' q q' hTail (fun m => hp (List.mem_cons_of_mem _ m))
      (fun m => hp' (List.mem_cons_of_mem _ m))]

/-- The number after the last dash: `a-i = b-j` forces `i = j`, whatever `a` and `b` are. -/
theorem dash_suffix_injective {a b : String} {i j : Nat}
    (h : a ++ "-" ++ toString i = b ++ "-" ++ toString j) : i = j := by
  have hData := congrArg (fun s => (String.data s).reverse) h
  simp only [String.data_append, List.reverse_append] at hData
  have hRev := prefix_eq_of_append_cons '-' (toString i).data.reverse (toString j).data.reverse
    a.data.reverse b.data.reverse (by simpa using hData)
    (by simpa using dash_not_mem_toString i) (by simpa using dash_not_mem_toString j)
  exact toString_injective (String.ext (List.reverse_inj.mp hRev))

end Pushpin.QtText
