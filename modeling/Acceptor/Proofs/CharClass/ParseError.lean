import Acceptor.Proofs.CharClass.Places
import Mathlib.Data.List.Infix

namespace Acceptor.CharClass

variable {s u u' rest : List Char} {k k' : CharClass} {ks : List CharClass} {n depth : Nat}

theorem repeated_suffix {α : Type} {p : Reader α}
    (suffix : ∀ {cs a rest}, p cs = some (a, rest) → rest <:+ cs) (n : Nat) (cs : List Char) :
    (repeated p n cs).2 <:+ cs := by
  induction n generalizing cs with
  | zero => exact List.suffix_refl cs
  | succ n ih =>
      unfold repeated
      split
      · exact List.suffix_refl cs
      · rename_i read
        exact (ih _).trans (suffix read)

theorem readMember_suffix {cs rest : List Char} (h : readMember (readTerm depth) cs = some (k, rest)) :
    rest <:+ cs := by
  unfold readMember at h
  split at h
  · obtain ⟨s, rfl, -⟩ := readTerm_sound h
    exact ⟨'|' :: s, rfl⟩
  · cases h

theorem repeated_readMember_reaches {s : List Char} {ks : List CharClass} (h : DerivesTerms s ks)
    {depth : Nat} (deep : s.length < depth) {n : Nat} (enough : ks.length ≤ n) (rest : List Char) :
    (repeated (readMember (readTerm depth)) n ('|' :: s ++ rest)).2 <:+ rest := by
  cases h with
  | one term =>
      obtain ⟨m, rfl⟩ : ∃ m, n = m + 1 := ⟨n - 1, by simp at enough; omega⟩
      simp only [repeated, readMember, List.cons_append, readTerm_complete term deep rest]
      exact repeated_suffix readMember_suffix m rest
  | @more s u k ks term terms =>
      obtain ⟨m, rfl⟩ : ∃ m, n = m + 1 := ⟨n - 1, by simp at enough; omega⟩
      have shallow : s.length < depth := by
        simp at deep
        omega
      have first := readTerm_complete term shallow ('|' :: u ++ rest)
      have others : (repeated (readMember (readTerm depth)) m ('|' :: u ++ rest)).2 <:+ rest :=
        repeated_readMember_reaches terms (by simp at deep; omega) (by simpa using enough) rest
      simp only [List.append_assoc, List.cons_append] at first others ⊢
      simpa only [repeated, readMember, first] using others
termination_by s.length

theorem readClass_reaches (h : Derives s k) (rest : List Char) :
    ∃ k' rest', readClass (s ++ rest) = some (k', rest') ∧ rest' <:+ rest := by
  obtain ⟨ks, terms, rfl⟩ := h
  unfold readClass readUnion
  cases terms with
  | one term =>
      have deep : s.length < (s ++ rest).length + 1 := by
        rw [List.length_append]
        omega
      simp only [readTerm_complete term deep rest]
      exact ⟨_, _, rfl, repeated_suffix readMember_suffix _ rest⟩
  | @more s u k ks term terms =>
      have lengths : ((s ++ '|' :: u) ++ rest).length = s.length + (u.length + 1) + rest.length := by
        rw [List.length_append, List.length_append, List.length_cons]
      have deep : s.length < ((s ++ '|' :: u) ++ rest).length + 1 := by omega
      have deep' : u.length < ((s ++ '|' :: u) ++ rest).length + 1 := by omega
      have first := readTerm_complete term deep ('|' :: u ++ rest)
      have enough : ks.length ≤ ('|' :: u ++ rest).length := by
        have := terms.length_le
        simp only [List.length_append, List.length_cons]
        omega
      have others := repeated_readMember_reaches terms deep' enough rest
      simp only [List.append_assoc, List.cons_append] at first others ⊢
      simp only [first]
      exact ⟨_, _, rfl, others⟩

theorem not_derives_of_readClass (none : readClass s = none) (front : u <+: s) : ¬ Derives u k := by
  intro derives
  obtain ⟨rest, rfl⟩ := front
  obtain ⟨k', rest', read, -⟩ := readClass_reaches derives rest
  rw [none] at read
  cases read

theorem length_le_of_readClass (read : readClass (u ++ rest) = some (k, rest)) (front : u' <+: u ++ rest)
    (derives : Derives u' k') : u'.length ≤ u.length := by
  obtain ⟨rest', split⟩ := front
  obtain ⟨j, left, read', suffix⟩ := readClass_reaches derives rest'
  rw [split, read] at read'
  obtain ⟨rfl, rfl⟩ := Prod.mk.inj (Option.some.inj read')
  have lengths := congrArg List.length split
  have := suffix.length_le
  simp only [List.length_append] at lengths
  omega

/-- It is what remains of the text after its longest beginning that derives a class. -/
def Remains (s rest : List Char) : Prop :=
  ∃ u, s = u ++ rest ∧ (∃ k, Derives u k) ∧
    ∀ u' k, u' <+: s → Derives u' k → u'.length ≤ u.length

def LeadsReversed (s : List Char) (i : Nat) (r : Symbol × Symbol) : Prop :=
  InTerms s i r ∧ r.2 < r.1 ∧ ∀ j r', InTerms s j r' → r'.2 < r'.1 → i ≤ j

variable {text : String}

theorem parse_of_none (read : readClass text.toList = none) : parse text = .error ⟨text⟩ := by
  rw [parse, read]

theorem parse_of_rest (read : readClass text.toList = some (k, rest)) (left : rest ≠ []) :
    parse text = .error ⟨String.ofList rest⟩ := by
  rw [parse, read]
  split
  · rename_i none
    cases none
  · rename_i whole
    exact absurd (congrArg Prod.snd (Option.some.inj whole)) left
  · rename_i same
    cases same
    rfl

theorem parse_of_reversed {lo hi : Symbol} (read : readClass text.toList = some (k, []))
    (reversed : k.firstReversed = some (lo, hi)) : parse text = .error ⟨lo ++ "-" ++ hi⟩ := by
  rw [parse, read]
  simp only [check, reversed]
  rfl

theorem parse_of_not_derives (none : ∀ k, ¬ Derives text.toList k) :
    (∃ rest, Remains text.toList rest ∧ parse text = .error ⟨String.ofList rest⟩) ∨
      (∀ u k, u <+: text.toList → ¬ Derives u k) ∧ parse text = .error ⟨text⟩ := by
  cases read : readClass text.toList with
  | none =>
      exact .inr ⟨fun u k front => not_derives_of_readClass read front, parse_of_none read⟩
  | some found =>
      obtain ⟨k, rest⟩ := found
      obtain ⟨u, split, derives⟩ := readClass_sound read
      have left : rest ≠ [] := by
        rintro rfl
        exact none k (by simpa [split] using derives)
      refine .inl ⟨rest, ⟨u, split, ⟨k, derives⟩, fun u' k' front derives' => ?_⟩,
        parse_of_rest read left⟩
      rw [split] at read front
      exact length_le_of_readClass read front derives'

theorem parse_of_derives (derives : Derives text.toList k) :
    (parse text = .ok k ∧ ∀ i r, InTerms text.toList i r → ¬ r.2 < r.1) ∨
      ∃ i lo hi, LeadsReversed text.toList i (lo, hi) ∧ parse text = .error ⟨lo ++ "-" ++ hi⟩ := by
  have first := firstReversed_of_derives derives
  cases reversed : k.firstReversed with
  | none =>
      rw [reversed] at first
      exact .inl ⟨parse_eq_ok.2 ⟨derives, firstReversed_eq_none.1 reversed⟩, first⟩
  | some r =>
      rw [reversed] at first
      obtain ⟨wrong, i, there, least⟩ := first
      exact .inr ⟨i, r.1, r.2, ⟨there, wrong, least⟩,
        parse_of_reversed (readClass_complete derives) reversed⟩

/-- A text is refused if it derives no class or has a range that is the wrong way round. In the first case
the message is about what remains after the longest beginning that derives a class, or about all of it if
none does, and otherwise about the range of that kind that stands first. -/
theorem parse_error_points (text : String) :
    ((∃ e, parse text = .error e) ↔
      (∀ k, ¬ Derives text.toList k) ∨ ∃ i r, InTerms text.toList i r ∧ r.2 < r.1) ∧
    ∀ e, parse text = .error e →
      ((∀ k, ¬ Derives text.toList k) →
        (∃ rest, Remains text.toList rest ∧
          e.message = s!"invalid character class at '{String.ofList rest}'") ∨
        (∀ u k, u <+: text.toList → ¬ Derives u k) ∧
          e.message = s!"invalid character class at '{text}'") ∧
      ∀ k, Derives text.toList k →
        ∃ i lo hi, LeadsReversed text.toList i (lo, hi) ∧
          e.message = s!"invalid character class at '{lo}-{hi}'" := by
  refine ⟨⟨?_, ?_⟩, fun e refused => ⟨fun none => ?_, fun k derives => ?_⟩⟩
  · rintro ⟨e, refused⟩
    by_cases derivable : ∃ k, Derives text.toList k
    · obtain ⟨k, derives⟩ := derivable
      rcases parse_of_derives derives with ⟨ok, -⟩ | ⟨i, lo, hi, leads, -⟩
      · rw [refused] at ok
        cases ok
      · exact .inr ⟨i, _, leads.1, leads.2.1⟩
    · exact .inl (not_exists.1 derivable)
  · rintro (none | ⟨i, r, there, reversed⟩)
    · rcases parse_of_not_derives none with ⟨rest, -, refused⟩ | ⟨-, refused⟩
      · exact ⟨_, refused⟩
      · exact ⟨_, refused⟩
    · obtain ⟨ks, terms⟩ := there.derives
      rcases parse_of_derives ⟨ks, terms, rfl⟩ with ⟨-, ordered⟩ | ⟨j, lo, hi, -, refused⟩
      · exact absurd reversed (ordered i r there)
      · exact ⟨_, refused⟩
  · rcases parse_of_not_derives none with ⟨rest, remains, refused'⟩ | ⟨nowhere, refused'⟩
    · obtain rfl := Except.error.inj (refused.symm.trans refused')
      exact .inl ⟨rest, remains, rfl⟩
    · obtain rfl := Except.error.inj (refused.symm.trans refused')
      exact .inr ⟨nowhere, rfl⟩
  · rcases parse_of_derives derives with ⟨ok, -⟩ | ⟨i, lo, hi, leads, refused'⟩
    · rw [refused] at ok
      cases ok
    · obtain rfl := Except.error.inj (refused.symm.trans refused')
      exact ⟨i, lo, hi, leads, rfl⟩

theorem parse_error_points_nested :
    (∃ rest, Remains "a|[z-a]|".toList rest ∧
      ParseError.message ⟨"|"⟩ = s!"invalid character class at '{String.ofList rest}'") ∧
    ∃ i lo hi, LeadsReversed "(b|![ac-a])|[^z-a]".toList i (lo, hi) ∧
      ParseError.message ⟨"c-a"⟩ = s!"invalid character class at '{lo}-{hi}'" := by
  have cut : parse "a|[z-a]|" = .error ⟨"|"⟩ := by decide
  have reversed : parse "(b|![ac-a])|[^z-a]" = .error ⟨"c-a"⟩ := by decide
  have none : ∀ k, ¬ Derives "a|[z-a]|".toList k := by
    intro k derives
    have read := readClass_complete derives
    cases read
  refine ⟨?_, ((parse_error_points _).2 _ reversed).2 _ (readClass_eq_some_nil.1 rfl)⟩
  rcases ((parse_error_points _).2 _ cut).1 none with remains | ⟨nowhere, -⟩
  · exact remains
  · exact absurd (readClass_eq_some_nil.1 rfl) (nowhere ['a'] _ ⟨_, rfl⟩)

end Acceptor.CharClass
