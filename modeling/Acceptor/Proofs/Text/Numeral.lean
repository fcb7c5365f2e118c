import Mathlib.Data.Nat.Digits.Defs
import Acceptor.Proofs.Text.Words
import Acceptor.Text.Numeral

namespace Acceptor.Text

def IsReadable (n : Nat) : Prop := (Nat.toDigits 10 n).length ≤ maxDigits

instance (n : Nat) : Decidable (IsReadable n) := Nat.decLe _ _

theorem isReadable_of_lt {n e : Nat} (h : n < 10 ^ e) (positive : 0 < e) (few : e ≤ maxDigits) :
    IsReadable n := (Nat.toDigits_length 10 n e positive h).trans few

theorem toList_toString (n : Nat) : (toString n).toList = Nat.toDigits 10 n :=
  String.toList_ofList

theorem isDigit_toDigits {n : Nat} {c : Char} (h : c ∈ Nat.toDigits 10 n) :
    0x30 ≤ c.toNat ∧ c.toNat ≤ 0x39 := by
  simpa using Char.isDigit_iff_toNat.1 (Nat.isDigit_of_mem_toDigits (by decide) (by decide) h)

theorem ne_of_isDigit {c d : Char} (digit : 0x30 ≤ c.toNat ∧ c.toNat ≤ 0x39)
    (other : d.toNat < 0x30 ∨ 0x39 < d.toNat) : c ≠ d := by
  rintro rfl
  omega

theorem digitValue?_of_isDigit {c : Char} (h : 0x30 ≤ c.toNat ∧ c.toNat ≤ 0x39) :
    digitValue? c = some (c.toNat - 0x30) := by
  have ascii : c.toNat < 0x80 := by omega
  simp [digitValue?, ascii, h]

theorem digitValues?_of_isDigit {cs : List Char} (nonempty : cs ≠ [])
    (h : ∀ c ∈ cs, 0x30 ≤ c.toNat ∧ c.toNat ≤ 0x39) :
    digitValues? cs = some (cs.map fun c => c.toNat - 0x30) := by
  fun_induction digitValues? cs with
  | case1 => exact absurd rfl nonempty
  | case2 c => simp [digitValue?_of_isDigit (h c (by simp))]
  | case3 c cs ih => exact absurd rfl (ne_of_isDigit (h '_' (by simp)) (by decide))
  | case4 c cs single underscore ih =>
      obtain ⟨here, rest⟩ := List.forall_mem_cons.1 h
      have more : cs ≠ [] := fun none => single none
      simp [digitValue?_of_isDigit here, ih more rest]

theorem natural?_toDigits (n : Nat) :
    natural? (Nat.toDigits 10 n) = if IsReadable n then some n else none := by
  have values := digitValues?_of_isDigit Nat.toDigits_ne_nil fun c hc => isDigit_toDigits (n := n) hc
  have value : ((Nat.toDigits 10 n).map fun c => c.toNat - 0x30).foldl (10 * · + ·) 0 = n := by
    rw [List.foldl_map]
    exact Nat.ofDigitChars_ten_toDigits
  simp only [natural?, values, Option.bind_eq_bind, Option.bind_some, List.length_map, value,
    Option.pure_def, IsReadable]

theorem surroundsNumeral_of_isDigit {c : Char} (h : 0x30 ≤ c.toNat ∧ c.toNat ≤ 0x39) :
    surroundsNumeral c = false := by
  have : isBlank c = false := by
    simp only [isBlank, Bool.or_eq_false_iff, Bool.and_eq_false_iff, decide_eq_false_iff_not,
      beq_eq_false_iff_ne]
    omega
  simp [surroundsNumeral, this]

theorem integer?_toString (n : Nat) :
    integer? (toString n) = if IsReadable n then some (n : Int) else none := by
  have digits : ∀ c ∈ Nat.toDigits 10 n, 0x30 ≤ c.toNat ∧ c.toNat ≤ 0x39 :=
    fun c hc => isDigit_toDigits hc
  have kept : trim surroundsNumeral (Nat.toDigits 10 n) = Nat.toDigits 10 n :=
    trim_eq_self (fun c h => surroundsNumeral_of_isDigit (digits c (List.mem_of_head? h)))
      (fun c h => surroundsNumeral_of_isDigit (digits c (List.mem_of_getLast? h)))
  unfold integer?
  rw [toList_toString, kept]
  split
  · rename_i cs signed
    exact absurd rfl (ne_of_isDigit (digits '-' (signed ▸ List.mem_cons_self)) (by decide))
  · rename_i cs signed
    exact absurd rfl (ne_of_isDigit (digits '+' (signed ▸ List.mem_cons_self)) (by decide))
  · rw [natural?_toDigits]
    split <;> rfl

theorem head?_toString (n : Nat) : (toString n).toList.head? ≠ some '-' := by
  intro h
  rw [toList_toString] at h
  exact absurd rfl (ne_of_isDigit (isDigit_toDigits (List.mem_of_head? h)) (by decide))

theorem quoteWord_toString (n : Nat) : quoteWord (toString n) = toString n := by
  have plain : (Nat.toDigits 10 n).all needsNoQuote = true := by
    rw [List.all_eq_true]
    intro c hc
    have digit := Nat.isDigit_of_mem_toDigits (by decide) (by decide) hc
    simp [needsNoQuote, Char.isAlphanum, digit]
  have nonempty : (Nat.toDigits 10 n).isEmpty = false := by simp
  rw [quoteWord, toList_toString, quoteWordChars, nonempty, plain]
  rfl

end Acceptor.Text
