import Acceptor.Proofs.CharClass.Grammar

namespace Acceptor.CharClass

variable {s s' u u' : List Char} {r r' : Symbol × Symbol} {rs : List (Symbol × Symbol)}
  {k k' : CharClass} {ks : List CharClass} {i : Nat}

theorem DerivesRange.front_unique (h : DerivesRange s r) (h' : DerivesRange s' r')
    (same : s ++ u = s' ++ u') (follow : u.head? ≠ some '-') (follow' : u'.head? ≠ some '-') :
    s = s' ∧ r = r' ∧ u = u' := by
  have read := readRange_complete h follow
  rw [same, readRange_complete h' follow'] at read
  obtain ⟨rfl, rfl⟩ := Prod.mk.inj (Option.some.inj read)
  exact ⟨List.append_cancel_right same, rfl, rfl⟩

theorem DerivesTerm.front_unique (h : DerivesTerm s k) (h' : DerivesTerm s' k')
    (same : s ++ u = s' ++ u') : s = s' ∧ k = k' ∧ u = u' := by
  have deep : s.length < s.length + s'.length + 1 := by omega
  have read := readTerm_complete h deep u
  rw [same, readTerm_complete h' (by omega)] at read
  obtain ⟨rfl, rfl⟩ := Prod.mk.inj (Option.some.inj read)
  exact ⟨List.append_cancel_right same, rfl, rfl⟩

theorem DerivesRanges.ne_nil (h : DerivesRanges s rs) : s ≠ [] := by
  cases h with
  | one range => exact range.ne_nil
  | more range => exact List.append_ne_nil_of_left_ne_nil range.ne_nil _

theorem DerivesRanges.head?_ne_dash (h : DerivesRanges s rs) : s.head? ≠ some '-' := by
  have := h.head?_ne (u := []) (d := '-') (by decide) (by decide)
  rwa [List.append_nil] at this

inductive InRanges : List Char → Nat → Symbol × Symbol → Prop
  | only {s : List Char} {r : Symbol × Symbol} (range : DerivesRange s r) : InRanges s 0 r
  | first {s u : List Char} {r : Symbol × Symbol} {rs : List (Symbol × Symbol)}
      (range : DerivesRange s r) (ranges : DerivesRanges u rs) : InRanges (s ++ u) 0 r
  | later {s u : List Char} {r r' : Symbol × Symbol} {i : Nat} (range : DerivesRange s r')
      (there : InRanges u i r) : InRanges (s ++ u) (s.length + i) r

mutual

inductive InTerm : List Char → Nat → Symbol × Symbol → Prop
  | complement {s : List Char} {i : Nat} {r : Symbol × Symbol} (there : InTerm s i r) :
      InTerm ('!' :: s) (1 + i) r
  | bracket {s : List Char} {i : Nat} {r : Symbol × Symbol} (there : InRanges s i r) :
      InTerm ('[' :: s ++ [']']) (1 + i) r
  | negated {s : List Char} {i : Nat} {r : Symbol × Symbol} (there : InRanges s i r) :
      InTerm ('[' :: '^' :: s ++ [']']) (2 + i) r
  | group {s : List Char} {i : Nat} {r : Symbol × Symbol} (there : InTerms s i r) :
      InTerm ('(' :: s ++ [')']) (1 + i) r

inductive InTerms : List Char → Nat → Symbol × Symbol → Prop
  | only {s : List Char} {i : Nat} {r : Symbol × Symbol} (there : InTerm s i r) : InTerms s i r
  | first {s u : List Char} {i : Nat} {r : Symbol × Symbol} {ks : List CharClass}
      (there : InTerm s i r) (terms : DerivesTerms u ks) : InTerms (s ++ '|' :: u) i r
  | later {s u : List Char} {i : Nat} {r : Symbol × Symbol} {k : CharClass}
      (term : DerivesTerm s k) (there : InTerms u i r) :
      InTerms (s ++ '|' :: u) (s.length + 1 + i) r

end

theorem InRanges.derives (h : InRanges s i r) : ∃ rs, DerivesRanges s rs := by
  induction h with
  | only range => exact ⟨_, .one range⟩
  | first range ranges => exact ⟨_, .more range ranges⟩
  | later range _ ih => exact ⟨_, .more range ih.choose_spec⟩

mutual

theorem InTerm.derives : {s : List Char} → {i : Nat} → {r : Symbol × Symbol} → InTerm s i r →
    ∃ k, DerivesTerm s k
  | _, _, _, .complement there => ⟨_, .complement there.derives.choose_spec⟩
  | _, _, _, .bracket there => ⟨_, .bracket there.derives.choose_spec⟩
  | _, _, _, .negated there => ⟨_, .negated there.derives.choose_spec⟩
  | _, _, _, .group there => ⟨_, .group there.derives.choose_spec⟩
termination_by s => (s.length, 0)

theorem InTerms.derives : {s : List Char} → {i : Nat} → {r : Symbol × Symbol} → InTerms s i r →
    ∃ ks, DerivesTerms s ks
  | _, _, _, .only there => ⟨_, .one there.derives.choose_spec⟩
  | _, _, _, .first there terms => ⟨_, .more there.derives.choose_spec terms⟩
  | _, _, _, .later term there => ⟨_, .more term there.derives.choose_spec⟩
termination_by s => (s.length, 1)

end

def StandsAt (s : List Char) (i : Nat) (r : Symbol × Symbol) : Prop :=
  ∃ before range after, s = before ++ range ++ after ∧ before.length = i ∧ DerivesRange range r

theorem StandsAt.lt (h : StandsAt s i r) : i < s.length := by
  obtain ⟨before, range, after, rfl, rfl, derives⟩ := h
  have := List.length_pos_iff.2 derives.ne_nil
  simp only [List.length_append]
  omega

theorem StandsAt.within (h : StandsAt s i r) (front back : List Char) :
    StandsAt (front ++ s ++ back) (front.length + i) r := by
  obtain ⟨before, range, after, rfl, rfl, derives⟩ := h
  exact ⟨front ++ before, range, after ++ back, by simp, by simp, derives⟩

theorem InRanges.standsAt (h : InRanges s i r) : StandsAt s i r := by
  induction h with
  | only range => exact ⟨[], _, [], by simp, rfl, range⟩
  | first range ranges => exact ⟨[], _, _, rfl, rfl, range⟩
  | later range there ih => simpa using ih.within _ []

mutual

theorem InTerm.standsAt : {s : List Char} → {i : Nat} → {r : Symbol × Symbol} → InTerm s i r →
    StandsAt s i r
  | _, _, _, .complement there => by simpa using there.standsAt.within ['!'] []
  | _, _, _, .bracket there => there.standsAt.within ['['] [']']
  | _, _, _, .negated there => there.standsAt.within ['[', '^'] [']']
  | _, _, _, .group there => there.standsAt.within ['('] [')']
termination_by s => (s.length, 0)

theorem InTerms.standsAt : {s : List Char} → {i : Nat} → {r : Symbol × Symbol} → InTerms s i r →
    StandsAt s i r
  | _, _, _, .only there => there.standsAt
  | _, _, _, .first there _ => by simpa using there.standsAt.within [] _
  | _, _, _, .later (s := s) _ there => by simpa using there.standsAt.within (s ++ ['|']) []
termination_by s => (s.length, 1)

end

theorem inRanges_one (range : DerivesRange s r) : InRanges s i r' ↔ i = 0 ∧ r' = r := by
  constructor
  · intro h
    cases h with
    | only range' =>
        have noRest : ([] : List Char).head? ≠ some '-' := by simp
        obtain ⟨-, same, -⟩ := range.front_unique range' rfl noRest noRest
        exact ⟨rfl, same.symm⟩
    | @first s u r' rs range' ranges =>
        obtain ⟨-, -, empty⟩ := range.front_unique range' (List.append_nil _) (by simp)
          ranges.head?_ne_dash
        exact absurd empty.symm ranges.ne_nil
    | @later s u r' r₁ i range' there =>
        obtain ⟨rs, ranges⟩ := there.derives
        obtain ⟨-, -, empty⟩ := range.front_unique range' (List.append_nil _) (by simp)
          ranges.head?_ne_dash
        exact absurd empty.symm ranges.ne_nil
  · rintro ⟨rfl, rfl⟩
    exact .only range

theorem inRanges_more (range : DerivesRange s r) (ranges : DerivesRanges u rs) :
    InRanges (s ++ u) i r' ↔ (i = 0 ∧ r' = r) ∨ ∃ j, i = s.length + j ∧ InRanges u j r' := by
  constructor
  · generalize whole : s ++ u = text
    intro h
    cases h with
    | only range' =>
        obtain ⟨-, -, empty⟩ := range.front_unique range' (whole.trans (List.append_nil _).symm)
          ranges.head?_ne_dash (by simp)
        exact absurd empty ranges.ne_nil
    | first range' ranges' =>
        obtain ⟨-, same, -⟩ := range.front_unique range' whole ranges.head?_ne_dash
          ranges'.head?_ne_dash
        exact .inl ⟨rfl, same.symm⟩
    | later range' there =>
        obtain ⟨rs', ranges'⟩ := there.derives
        obtain ⟨rfl, -, rfl⟩ := range.front_unique range' whole ranges.head?_ne_dash
          ranges'.head?_ne_dash
        exact .inr ⟨_, rfl, there⟩
  · rintro (⟨rfl, rfl⟩ | ⟨j, rfl, there⟩)
    · exact .first range ranges
    · exact .later range there

theorem not_inTerm_any : ¬ InTerm ['.'] i r := by
  intro h
  cases h

theorem not_inTerm_literal {c : Char} (char : DerivesChar special s c) : ¬ InTerm s i r := by
  -- the rule of a term with a range begins with syntax, and a character does not
  have head : ∀ d ∈ special, d ≠ '\\' → s.head? ≠ some d := fun d isSyntax plain => by
    have := char.head?_ne (u := []) isSyntax plain
    rwa [List.append_nil] at this
  intro h
  cases h with
  | complement => exact head '!' (by decide) (by decide) rfl
  | bracket => exact head '[' (by decide) (by decide) rfl
  | negated => exact head '[' (by decide) (by decide) rfl
  | group => exact head '(' (by decide) (by decide) rfl

theorem inTerm_complement : InTerm ('!' :: s) i r ↔ ∃ j, i = 1 + j ∧ InTerm s j r := by
  constructor
  · intro h
    cases h with
    | complement there => exact ⟨_, rfl, there⟩
  · rintro ⟨j, rfl, there⟩
    exact .complement there

theorem inTerm_bracket (ranges : DerivesRanges s rs) :
    InTerm ('[' :: s ++ [']']) i r ↔ ∃ j, i = 1 + j ∧ InRanges s j r := by
  constructor
  · generalize whole : '[' :: s ++ [']'] = text
    intro h
    cases h with
    | bracket there =>
        obtain rfl := List.append_cancel_right (List.cons.inj whole).2
        exact ⟨_, rfl, there⟩
    | negated there =>
        have caret := congrArg List.head? (List.cons.inj whole).2
        exact absurd caret (ranges.head?_ne (by decide) (by decide))
    | complement | group => cases whole
  · rintro ⟨j, rfl, there⟩
    exact .bracket there

theorem inTerm_negated :
    InTerm ('[' :: '^' :: s ++ [']']) i r ↔ ∃ j, i = 2 + j ∧ InRanges s j r := by
  constructor
  · generalize whole : '[' :: '^' :: s ++ [']'] = text
    intro h
    cases h with
    | bracket there =>
        obtain ⟨rs, ranges⟩ := there.derives
        have caret := congrArg List.head? (List.cons.inj whole).2.symm
        exact absurd caret (ranges.head?_ne (by decide) (by decide))
    | negated there =>
        obtain rfl := List.append_cancel_right (List.cons.inj (List.cons.inj whole).2).2
        exact ⟨_, rfl, there⟩
    | complement | group => cases whole
  · rintro ⟨j, rfl, there⟩
    exact .negated there

theorem inTerm_group : InTerm ('(' :: s ++ [')']) i r ↔ ∃ j, i = 1 + j ∧ InTerms s j r := by
  constructor
  · generalize whole : '(' :: s ++ [')'] = text
    intro h
    cases h with
    | group there =>
        obtain rfl := List.append_cancel_right (List.cons.inj whole).2
        exact ⟨_, rfl, there⟩
    | complement | bracket | negated => cases whole
  · rintro ⟨j, rfl, there⟩
    exact .group there

theorem inTerms_one (term : DerivesTerm s k) : InTerms s i r ↔ InTerm s i r := by
  constructor
  · intro h
    cases h with
    | only there => exact there
    | @first s u i r ks there terms =>
        obtain ⟨k', term'⟩ := there.derives
        obtain ⟨-, -, empty⟩ := term.front_unique term' (List.append_nil _)
        cases empty
    | later term' there =>
        obtain ⟨-, -, empty⟩ := term.front_unique term' (List.append_nil _)
        cases empty
  · exact .only

theorem inTerms_more (term : DerivesTerm s k) (terms : DerivesTerms u ks) :
    InTerms (s ++ '|' :: u) i r ↔
      InTerm s i r ∨ ∃ j, i = s.length + 1 + j ∧ InTerms u j r := by
  constructor
  · generalize whole : s ++ '|' :: u = text
    intro h
    cases h with
    | only there =>
        obtain ⟨k', term'⟩ := there.derives
        obtain ⟨-, -, empty⟩ := term.front_unique term' (whole.trans (List.append_nil _).symm)
        cases empty
    | first there terms' =>
        obtain ⟨k', term'⟩ := there.derives
        obtain ⟨rfl, -, -⟩ := term.front_unique term' whole
        exact .inl there
    | later term' there =>
        obtain ⟨rfl, -, same⟩ := term.front_unique term' whole
        obtain rfl := (List.cons.inj same).2
        exact .inr ⟨_, rfl, there⟩
  · rintro (there | ⟨j, rfl, there⟩)
    · exact .first there terms
    · exact .later term there

/-- What is the wrong way round, at the least place where that is so; nothing if it is so nowhere. -/
def IsFirstReversed (stands : Nat → Symbol × Symbol → Prop) : Option (Symbol × Symbol) → Prop
  | none => ∀ i r, stands i r → ¬ r.2 < r.1
  | some r => r.2 < r.1 ∧ ∃ i, stands i r ∧ ∀ j r', stands j r' → r'.2 < r'.1 → i ≤ j

variable {stands front back : Nat → Symbol × Symbol → Prop} {o o' : Option (Symbol × Symbol)}

theorem IsFirstReversed.shift (h : IsFirstReversed back o) (n : Nat)
    (moved : ∀ i r, stands i r ↔ ∃ j, i = n + j ∧ back j r) : IsFirstReversed stands o := by
  cases o with
  | none =>
      intro i r there
      obtain ⟨j, -, there⟩ := (moved i r).1 there
      exact h j r there
  | some r =>
      obtain ⟨reversed, i, there, least⟩ := h
      refine ⟨reversed, n + i, (moved _ _).2 ⟨i, rfl, there⟩, fun j r' there' reversed' => ?_⟩
      obtain ⟨j, rfl, inBack⟩ := (moved j r').1 there'
      exact Nat.add_le_add_left (least j r' inBack reversed') n

theorem IsFirstReversed.orElse (h : IsFirstReversed front o) (h' : IsFirstReversed back o')
    (n : Nat) (before : ∀ i r, front i r → i ≤ n)
    (split : ∀ i r, stands i r ↔ front i r ∨ ∃ j, i = n + j ∧ back j r) :
    IsFirstReversed stands (o <|> o') := by
  cases o with
  | some r =>
      obtain ⟨reversed, i, there, least⟩ := h
      refine ⟨reversed, i, (split i r).2 (.inl there), fun j r' there' reversed' => ?_⟩
      rcases (split j r').1 there' with inFront | ⟨j, rfl, -⟩
      · exact least j r' inFront reversed'
      · exact Nat.le_trans (before i r there) (Nat.le_add_right n j)
  | none =>
      cases o' with
      | none =>
          intro i r there
          rcases (split i r).1 there with inFront | ⟨j, -, inBack⟩
          · exact h i r inFront
          · exact h' j r inBack
      | some r =>
          obtain ⟨reversed, i, there, least⟩ := h'
          refine ⟨reversed, n + i, (split _ r).2 (.inr ⟨i, rfl, there⟩), fun j r' there' reversed' => ?_⟩
          rcases (split j r').1 there' with inFront | ⟨j, rfl, inBack⟩
          · exact absurd reversed' (h j r' inFront)
          · exact Nat.add_le_add_left (least j r' inBack reversed') n

theorem isFirstReversed_single (r : Symbol × Symbol)
    (stands_iff : ∀ i r', stands i r' ↔ i = 0 ∧ r' = r) :
    IsFirstReversed stands (if r.2 < r.1 then some r else none) := by
  split
  · rename_i reversed
    exact ⟨reversed, 0, (stands_iff 0 r).2 ⟨rfl, rfl⟩, fun j _ _ _ => Nat.zero_le j⟩
  · rename_i ordered
    intro i r' there
    obtain ⟨-, rfl⟩ := (stands_iff i r').1 there
    exact ordered

theorem find?_cons_orElse (r : Symbol × Symbol) (rs : List (Symbol × Symbol)) :
    (r :: rs).find? (fun r => r.2 < r.1) =
      ((if r.2 < r.1 then some r else none) <|> rs.find? fun r => r.2 < r.1) := by
  rw [List.find?_cons]
  by_cases reversed : r.2 < r.1
  · simp only [decide_eq_true reversed, if_pos reversed]
    rfl
  · simp only [decide_eq_false reversed, if_neg reversed]
    rfl

theorem isFirstReversed_ranges (h : DerivesRanges s rs) :
    IsFirstReversed (InRanges s) (rs.find? fun r => r.2 < r.1) := by
  induction h with
  | @one s r range =>
      rw [find?_cons_orElse, List.find?_nil, Option.orElse_eq_orElse, Option.orElse_eq_or, Option.or_none]
      exact isFirstReversed_single r fun i r' => inRanges_one range
  | @more s u r rs range ranges ih =>
      rw [find?_cons_orElse]
      have here : IsFirstReversed (fun i r' => i = 0 ∧ r' = r) (if r.2 < r.1 then some r else none) :=
        isFirstReversed_single r fun _ _ => .rfl
      refine here.orElse ih s.length ?_ fun i r' => inRanges_more range ranges
      rintro i r' ⟨rfl, -⟩
      exact Nat.zero_le _

theorem firstReversed_joined (ks : List CharClass) :
    (joined ks).firstReversed = firstReversedIn ks := by
  match ks with
  | [] => rfl
  | [k] => simp [joined, firstReversedIn]
  | k :: k' :: ks => rfl

mutual

theorem isFirstReversed_term : {s : List Char} → {k : CharClass} → DerivesTerm s k →
    IsFirstReversed (InTerm s) k.firstReversed
  | _, _, .any => fun _ _ there => absurd there not_inTerm_any
  | _, _, .complement term => (isFirstReversed_term term).shift 1 fun _ _ => inTerm_complement
  | _, _, .bracket ranges =>
      (isFirstReversed_ranges ranges).shift 1 fun _ _ => inTerm_bracket ranges
  | _, _, .negated ranges => (isFirstReversed_ranges ranges).shift 2 fun _ _ => inTerm_negated
  | _, _, .group terms => by
      rw [firstReversed_joined]
      exact (isFirstReversed_terms terms).shift 1 fun _ _ => inTerm_group
  | _, _, .literal char => fun _ _ there => absurd there (not_inTerm_literal char)
termination_by s => (s.length, 0)

theorem isFirstReversed_terms : {s : List Char} → {ks : List CharClass} → DerivesTerms s ks →
    IsFirstReversed (InTerms s) (firstReversedIn ks)
  | _, _, .one term => by
      rw [firstReversedIn, firstReversedIn, Option.orElse_eq_orElse, Option.orElse_eq_or,
        Option.or_none]
      exact (isFirstReversed_term term).shift 0 fun i r => by simp [inTerms_one term]
  | _, _, .more (s := s) term terms =>
      (isFirstReversed_term term).orElse (isFirstReversed_terms terms) (s.length + 1)
        (fun _ _ there => Nat.le_of_lt (Nat.lt_succ_of_lt there.standsAt.lt))
        fun _ _ => inTerms_more term terms
termination_by s => (s.length, 1)

end

theorem firstReversed_of_derives (h : Derives s k) : IsFirstReversed (InTerms s) k.firstReversed := by
  obtain ⟨ks, terms, rfl⟩ := h
  rw [firstReversed_joined]
  exact isFirstReversed_terms terms

end Acceptor.CharClass
