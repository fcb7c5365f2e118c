import Acceptor.Proofs.CharClass.RoundTrip
import Acceptor.Text.Numeral
import Acceptor.Proofs.Text.Lines

namespace Acceptor.CharClass
open Acceptor.Text

theorem head?_escape (syntaxChars : List Char) {c : Char} {rest : List Char}
    (h : escape syntaxChars (String.singleton c) = '-' :: rest) : rest = [] := by
  simp only [escape, String.toList_singleton, escapeChars] at h
  split at h
  · simp at h
  · split at h <;> simp at h
    exact h.2

theorem print_dash {k : CharClass} (h : k.WellFormed) :
    ∀ rest, k.print = '-' :: rest → ∀ c ∈ rest.head?, c = '|' := by
  induction k with
  | literal c =>
      obtain ⟨c, rfl⟩ := everywhere_literal.1 h
      intro rest dash
      simp [head?_escape special dash]
  | any => simp [print]
  | bracket ranges negated =>
      intro rest dash
      cases negated <;> simp [print] at dash
  | complement k ih =>
      intro rest dash
      simp [print_complement] at dash
  | union ks ih =>
      refine printUnion_induction (P := fun s => ∀ rest, s = '-' :: rest → ∀ c ∈ rest.head?, c = '|')
        (by simp) (fun k hk => ih k hk ((everywhere_union.1 h).2 k hk)) fun s u first others => ?_
      intro rest dash c hc
      cases s with
      | nil => simp at dash
      | cons d s =>
          obtain ⟨rfl, rfl⟩ := List.cons.inj dash
          cases s with
          -- the first member is `-` alone, and the `|` comes next
          | nil => simpa using hc.symm
          | cons e s => exact first _ rfl c hc

theorem text_ne_divider {k : CharClass} (h : k.WellFormed) : k.text ≠ "--" := by
  intro divider
  have dash : k.print = ['-', '-'] := by
    have := congrArg String.toList divider
    simpa [text] using this
  exact absurd (print_dash h _ dash '-' rfl) (by decide)

theorem isNegativeNumber_text {k : CharClass} (h : k.WellFormed) :
    isNegativeNumber k.text = false := by
  unfold isNegativeNumber
  rw [text, String.toList_ofList]
  split
  · rename_i rest dash
    have bar := print_dash h rest dash
    cases rest with
    | nil => rfl
    | cons c rest =>
        obtain rfl := bar c rfl
        -- a line end that is dropped is not the `|`, which is neither a digit nor a `.`
        have kept : ∃ rest', (if ('|' :: rest).getLast? = some '\n' then ('|' :: rest).dropLast
            else '|' :: rest) = '|' :: rest' := by
          split
          · rename_i ended
            cases rest with
            | nil => simp at ended
            | cons d rest => exact ⟨_, rfl⟩
          · exact ⟨rest, rfl⟩
        obtain ⟨rest', kept⟩ := kept
        simp only [kept, List.dropWhile_cons, show isDecimal '|' = false by decide]
        rfl
  · rfl

theorem isLine_text {k : CharClass} (h : k.WellFormed) : IsLine k.text := by
  intro c hc
  rw [text, String.toList_ofList] at hc
  have plain := not_isControl_print h c hc
  constructor <;> rintro rfl <;> exact absurd plain (by decide)

end Acceptor.CharClass
