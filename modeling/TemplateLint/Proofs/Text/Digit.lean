import Mathlib.Data.List.Induction
import TemplateLint.Text.Digit

/-!
# Numbers written by digits

The digits of a number in a base have it as their value (`foldl_toDigits`), and hexadecimal digits
stay below the power of sixteen that their number gives (`valueInBase_lt`).
-/

namespace TemplateLint.Text

theorem digitValue?_digitChar : ∀ digit < 10, digitValue? (Nat.digitChar digit) = some digit := by
  decide

theorem hexValue?_digitChar : ∀ digit < 16, hexValue? (Nat.digitChar digit) = some digit := by
  decide

section Digits

variable {base : Nat} (large : 1 < base)

include large

theorem forall_mem_toDigits {holds : Char → Prop} (each : ∀ digit < base, holds (Nat.digitChar digit))
    (value : Nat) : ∀ c ∈ Nat.toDigits base value, holds c := by
  induction value using Nat.strongRecOn with
  | _ value ih =>
    rw [Nat.toDigits_eq_if large]
    split
    case isTrue small =>
      intro c member
      exact List.mem_singleton.1 member ▸ each value small
    case isFalse more =>
      have smaller : value / base < value := Nat.div_lt_self (by omega) large
      rw [List.forall_mem_append]
      refine ⟨ih (value / base) smaller, ?_⟩
      intro c member
      exact List.mem_singleton.1 member ▸ each (value % base) (Nat.mod_lt _ (by omega))

/-- The digits of a number are read back as the number. -/
theorem foldl_toDigits {value? : Char → Option Nat}
    (known : ∀ digit < base, value? (Nat.digitChar digit) = some digit) (value : Nat) :
    (Nat.toDigits base value).foldl (fun value c => value * base + (value? c).getD 0) 0 = value := by
  induction value using Nat.strongRecOn with
  | _ value ih =>
    rw [Nat.toDigits_eq_if large]
    split
    case isTrue small =>
      simp [known value small]
    case isFalse more =>
      have smaller : value / base < value := Nat.div_lt_self (by omega) large
      have last := known (value % base) (Nat.mod_lt _ (by omega))
      rw [List.foldl_append, ih (value / base) smaller, List.foldl_cons, List.foldl_nil, last,
        Option.getD_some, Nat.mul_comm, Nat.div_add_mod]

end Digits

theorem decimalValue_toDigits (value : Nat) : decimalValue (Nat.toDigits 10 value) = value :=
  foldl_toDigits (by decide) digitValue?_digitChar value

theorem valueInBase_toDigits (value : Nat) : valueInBase 16 (Nat.toDigits 16 value) = value :=
  foldl_toDigits (by decide) hexValue?_digitChar value

theorem all_isHexDigit_toDigits (value : Nat) : (Nat.toDigits 16 value).all isHexDigit = true :=
  List.all_eq_true.2 (forall_mem_toDigits (by decide) (by decide) value)

theorem getD_hexValue?_lt (c : Char) : (hexValue? c).getD 0 < 16 := by
  unfold hexValue?
  simp only [Bool.and_eq_true, decide_eq_true_eq, Char.le_def, UInt32.le_iff_toNat_le]
  grind [Char.toNat]

/-- The value of hexadecimal digits is bounded by their count. -/
theorem valueInBase_lt (digits : List Char) :
    valueInBase 16 digits < Nat.pow 16 digits.length := by
  induction digits using List.reverseRecOn with
  | nil => decide
  | append_singleton front c ih =>
    have last := getD_hexValue?_lt c
    rw [valueInBase, List.foldl_append, List.length_append]
    show valueInBase 16 front * 16 + (hexValue? c).getD 0 < Nat.pow 16 front.length * 16
    omega

end TemplateLint.Text
