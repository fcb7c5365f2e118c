import Acceptor.Proofs.CharClass.Grammar

/-!
# Printing a class and reading it back

The text of a well-formed class derives that class with its unions spliced together, by induction
on the class: `derivesTerms_print` says it for the terms of an alternation, so that the terms of
nested unions fall into one row. What is read from a text has no union of fewer than two members,
and on such classes splicing keeps the text (`print_flat`).
-/

namespace Acceptor.CharClass
open Acceptor.Text

/-! ## Well-formed classes -/

def IsSingle (c : Symbol) : Prop := ∃ d, c = String.singleton d

def IsSound : CharClass → Prop
  | literal c => IsSingle c
  | bracket ranges _ => ranges ≠ [] ∧ ∀ r ∈ ranges, IsSingle r.1 ∧ IsSingle r.2 ∧ r.1 ≤ r.2
  | union ks => ks ≠ []
  | _ => True

abbrev WellFormed (k : CharClass) : Prop := k.Everywhere IsSound

def IsPlural : CharClass → Prop
  | union ks => 2 ≤ ks.length
  | _ => True

def isUnion : CharClass → Bool
  | union _ => true
  | _ => false

def IsSpliced : CharClass → Prop
  | union ks => ∀ k ∈ ks, k.isUnion = false
  | _ => True

theorem WellFormed.ordered {k : CharClass} (h : k.WellFormed) : k.Everywhere HasOrderedRanges :=
  h.imp fun
    | bracket _ _, ⟨_, ranges⟩ => fun r hr => (ranges r hr).2.2
    | literal _, _ | any, _ | complement _, _ | union _, _ => trivial

theorem DerivesRanges.sound {s : List Char} {rs : List (Symbol × Symbol)}
    (h : DerivesRanges s rs) : rs ≠ [] ∧ ∀ r ∈ rs, IsSingle r.1 ∧ IsSingle r.2 := by
  have single : ∀ {s r}, DerivesRange s r → IsSingle r.1 ∧ IsSingle r.2 := by
    intro s r h
    cases h with
    | pair => exact ⟨⟨_, rfl⟩, ⟨_, rfl⟩⟩
    | one => exact ⟨⟨_, rfl⟩, ⟨_, rfl⟩⟩
  induction h with
  | one range => simpa using single range
  | more range _ ih => exact ⟨by simp, List.forall_mem_cons.2 ⟨single range, ih.2⟩⟩

def IsDerivable (k : CharClass) : Prop := IsPlural k ∧ (HasOrderedRanges k → IsSound k)

theorem everywhere_joined {P : CharClass → Prop} {ks : List CharClass}
    (union : ks.length ≠ 1 → P (union ks)) (members : ∀ k ∈ ks, k.Everywhere P) :
    (joined ks).Everywhere P := by
  unfold joined
  split
  · exact members _ (by simp)
  · rename_i plural
    refine everywhere_union.2 ⟨union fun one => ?_, members⟩
    obtain ⟨k, rfl⟩ := List.length_eq_one_iff.1 one
    exact plural k rfl

theorem DerivesTerms.ne_nil {s : List Char} {ks : List CharClass} (h : DerivesTerms s ks) :
    ks ≠ [] := by
  cases h <;> simp

theorem DerivesRanges.isDerivable {s : List Char} {rs : List (Symbol × Symbol)}
    (h : DerivesRanges s rs) (negated : Bool) : IsDerivable (.bracket rs negated) :=
  ⟨trivial, fun ordered => ⟨h.sound.1, fun r hr =>
    ⟨(h.sound.2 r hr).1, (h.sound.2 r hr).2, ordered r hr⟩⟩⟩

theorem DerivesTerms.isDerivable_union {s : List Char} {ks : List CharClass}
    (h : DerivesTerms s ks) (plural : ks.length ≠ 1) : IsDerivable (union ks) := by
  refine ⟨?_, fun _ => h.ne_nil⟩
  have := List.length_pos_iff.2 h.ne_nil
  change 2 ≤ ks.length
  omega

mutual

theorem DerivesTerm.derivable {s : List Char} {k : CharClass} :
    DerivesTerm s k → k.Everywhere IsDerivable
  | .any => everywhere_any.2 ⟨trivial, fun _ => trivial⟩
  | .complement term => everywhere_complement.2 ⟨⟨trivial, fun _ => trivial⟩, term.derivable⟩
  | .bracket ranges => everywhere_bracket.2 (ranges.isDerivable false)
  | .negated ranges => everywhere_bracket.2 (ranges.isDerivable true)
  | .group terms => everywhere_joined (terms.isDerivable_union) terms.derivable
  | .literal _ => everywhere_literal.2 ⟨trivial, fun _ => ⟨_, rfl⟩⟩

theorem DerivesTerms.derivable {s : List Char} {ks : List CharClass} :
    DerivesTerms s ks → ∀ k ∈ ks, k.Everywhere IsDerivable
  | .one term => List.forall_mem_singleton.2 term.derivable
  | .more term terms => List.forall_mem_cons.2 ⟨term.derivable, terms.derivable⟩

end

theorem parse_wellFormed {s : String} {k : CharClass} (h : parse s = .ok k) :
    k.WellFormed ∧ k.Everywhere IsPlural := by
  obtain ⟨⟨ks, terms, rfl⟩, ordered⟩ := parse_eq_ok.1 h
  have derivable := everywhere_joined terms.isDerivable_union terms.derivable
  exact ⟨fun j hj => (derivable j hj).2 (ordered j hj), fun j hj => (derivable j hj).1⟩

/-! ## Splicing -/

def members : CharClass → List CharClass
  | union ks => ks
  | k => [k]

mutual

/-- The class with a member in place of each union of one, and the members of a union in place of
each union among the members of another. -/
def flat : CharClass → CharClass
  | complement k => complement k.flat
  | union ks => joined (flatMembers ks)
  | k => k

def flatMembers : List CharClass → List CharClass
  | [] => []
  | k :: ks => members k.flat ++ flatMembers ks

end

theorem mem_flatMembers {j : CharClass} {ks : List CharClass} :
    j ∈ flatMembers ks ↔ ∃ k ∈ ks, j ∈ members k.flat := by
  induction ks with
  | nil => simp [flatMembers]
  | cons k ks ih => simp [flatMembers, ih]

theorem members_of_isUnion_eq_false {k : CharClass} (h : k.isUnion = false) : members k = [k] := by
  cases k with
  | union => cases h
  | _ => rfl

theorem members_joined {ks : List CharClass} (h : ∀ k ∈ ks, k.isUnion = false) :
    members (joined ks) = ks := by
  unfold joined
  split
  · exact members_of_isUnion_eq_false (h _ (by simp))
  · rfl

theorem isUnion_of_mem_members_flat {k : CharClass} : ∀ j ∈ members k.flat, j.isUnion = false := by
  induction k with
  | literal c => simp [flat, members, isUnion]
  | any => simp [flat, members, isUnion]
  | bracket ranges negated => simp [flat, members, isUnion]
  | complement k ih => simp [flat, members, isUnion]
  | union ks ih =>
      have single : ∀ j ∈ flatMembers ks, j.isUnion = false := by
        intro j hj
        obtain ⟨k, hk, hj⟩ := mem_flatMembers.1 hj
        exact ih k hk j hj
      rw [flat, members_joined single]
      exact single

theorem members_flat_union {ks : List CharClass} : members (union ks).flat = flatMembers ks := by
  refine members_joined fun j hj => ?_
  obtain ⟨k, -, hj⟩ := mem_flatMembers.1 hj
  exact isUnion_of_mem_members_flat j hj

theorem joined_members_flat (k : CharClass) : joined (members k.flat) = k.flat := by
  cases k with
  | union ks => rw [members_flat_union, flat]
  | _ => rfl

/-! ### What splicing keeps -/

theorem anyAccepts_eq {ks : List CharClass} {c : Symbol} :
    anyAccepts ks c = ks.any fun k => k.accepts c := by
  induction ks with
  | nil => rfl
  | cons k ks ih => simp [anyAccepts, ih]

theorem accepts_joined {ks : List CharClass} {c : Symbol} :
    (joined ks).accepts c = ks.any fun k => k.accepts c := by
  unfold joined
  split
  · simp
  · simp [accepts, anyAccepts_eq]

theorem any_members {k : CharClass} {c : Symbol} :
    (members k).any (fun j => j.accepts c) = k.accepts c := by
  cases k with
  | union ks => simp [members, accepts, anyAccepts_eq]
  | _ => simp [members]

theorem accepts_flat (k : CharClass) (c : Symbol) : k.flat.accepts c = k.accepts c := by
  induction k with
  | literal d => rfl
  | any => rfl
  | bracket ranges negated => rfl
  | complement k ih => simp [flat, accepts, ih]
  | union ks ih =>
      rw [flat, accepts_joined, accepts, anyAccepts_eq]
      induction ks with
      | nil => rfl
      | cons k ks rest =>
          rw [flatMembers, List.any_append, any_members, List.any_cons, ih k (by simp),
            rest fun j hj => ih j (by simp [hj])]

theorem everywhere_members {P : CharClass → Prop} {k : CharClass} (h : k.Everywhere P) :
    ∀ j ∈ members k, j.Everywhere P := by
  cases k with
  | union ks => exact (everywhere_union.1 h).2
  | _ => simpa [members] using h

theorem ordered_flat {k : CharClass} (h : k.Everywhere HasOrderedRanges) :
    k.flat.Everywhere HasOrderedRanges := by
  induction k with
  | literal c => exact h
  | any => exact h
  | bracket ranges negated => exact h
  | complement k ih =>
      exact everywhere_complement.2 ⟨trivial, ih (everywhere_complement.1 h).2⟩
  | union ks ih =>
      refine everywhere_joined (fun _ => trivial) fun j hj => ?_
      obtain ⟨k, hk, hj⟩ := mem_flatMembers.1 hj
      exact everywhere_members (ih k hk ((everywhere_union.1 h).2 k hk)) j hj

/-! ## The text derives the spliced class -/

theorem hexDigits_two (n : Nat) : hexDigits 2 n = [hexDigit (n / 16 % 16), hexDigit (n % 16)] := by
  simp [hexDigits]

theorem isHexDigit_hexDigit {n : Nat} (h : n < 16) : IsHexDigit (hexDigit n) n := by
  have all : ∀ n < 16, IsHexDigit (hexDigit n) n := by decide
  exact all n h

theorem isControl_iff {c : Char} : isControl c = true ↔ c.toNat < 0x20 ∨ c.toNat = 0x7f := by
  simp [isControl]

theorem derivesChar_escape {syntaxChars : List Char} (noCode : 'x' ∉ syntaxChars) (c : Char) :
    DerivesChar syntaxChars (escape syntaxChars (String.singleton c)) c := by
  simp only [escape, String.toList_singleton, escapeChars]
  split
  · rename_i control
    have small := isControl_iff.1 control
    have code : Char.ofNat (16 * (c.toNat / 16 % 16) + c.toNat % 16) = c := by
      rw [show 16 * (c.toNat / 16 % 16) + c.toNat % 16 = c.toNat by omega, Char.ofNat_toNat]
    rw [hexDigits_two]
    refine .escape ?_
    conv => rhs; rw [← code]
    exact .code (isHexDigit_hexDigit (by omega)) (isHexDigit_hexDigit (by omega))
  · split
    · rename_i isSyntax
      exact .escape (.char fun e => noCode (e ▸ isSyntax))
    · rename_i plain
      exact .plain plain

theorem derivesRange_print {r : Symbol × Symbol} (lo : IsSingle r.1) (hi : IsSingle r.2) :
    DerivesRange (printRange r) r := by
  obtain ⟨lo', hi'⟩ := r
  obtain ⟨lo, rfl⟩ := lo
  obtain ⟨hi, rfl⟩ := hi
  unfold printRange
  split
  · rename_i same
    simp only at same
    rw [← same]
    exact .one (derivesChar_escape (by decide) lo)
  · exact .pair (derivesChar_escape (by decide) lo) (derivesChar_escape (by decide) hi)

theorem derivesRanges_print {rs : List (Symbol × Symbol)} (nonempty : rs ≠ [])
    (single : ∀ r ∈ rs, IsSingle r.1 ∧ IsSingle r.2) :
    DerivesRanges (rs.flatMap printRange) rs := by
  induction rs with
  | nil => exact absurd rfl nonempty
  | cons r rs ih =>
      have first := derivesRange_print (single r (by simp)).1 (single r (by simp)).2
      cases rs with
      | nil => simpa using .one first
      | cons r₂ rs =>
          rw [List.flatMap_cons]
          exact .more first (ih (by simp) fun r hr => single r (by simp [hr]))

theorem DerivesTerms.append {s u : List Char} {js ks : List CharClass} :
    DerivesTerms s js → DerivesTerms u ks → DerivesTerms (s ++ '|' :: u) (js ++ ks)
  | .one term, h => .more term h
  | .more term terms, h => by simpa using DerivesTerms.more term (terms.append h)

theorem DerivesTerms.single {s : List Char} {k : CharClass} (h : DerivesTerms s [k]) :
    DerivesTerm s k := by
  cases h with
  | one term => exact term
  | more _ terms => exact absurd rfl terms.ne_nil

theorem print_complement (k : CharClass) :
    (complement k).print = '!' :: if k.isUnion then '(' :: k.print ++ [')'] else k.print := by
  cases k <;> rfl

theorem isUnion_flat_of_isUnion_eq_false {k : CharClass} (h : k.isUnion = false) :
    k.flat.isUnion = false := by
  cases k with
  | union => cases h
  | _ => rfl

theorem derivesTerms_print {k : CharClass} (h : k.WellFormed) :
    DerivesTerms k.print (members k.flat) := by
  induction k with
  | literal c =>
      obtain ⟨c, rfl⟩ := everywhere_literal.1 h
      exact .one (.literal (derivesChar_escape (by decide) c))
  | any => exact .one .any
  | bracket ranges negated =>
      obtain ⟨nonempty, single⟩ := everywhere_bracket.1 h
      have derives := derivesRanges_print nonempty fun r hr => ⟨(single r hr).1, (single r hr).2.1⟩
      cases negated with
      | false => exact .one (.bracket derives)
      | true => exact .one (.negated derives)
  | complement k ih =>
      have terms := ih (everywhere_complement.1 h).2
      refine .one ?_
      rw [print_complement]
      split
      · rw [flat, ← joined_members_flat k]
        exact .complement (.group terms)
      · rename_i notUnion
        rw [members_of_isUnion_eq_false (isUnion_flat_of_isUnion_eq_false (by simpa using notUnion))]
          at terms
        exact .complement terms.single
  | union ks ih =>
      obtain ⟨nonempty, all⟩ := everywhere_union.1 h
      -- a member that is a union prints without parentheses, so its terms join the row
      rw [members_flat_union, print]
      induction ks with
      | nil => exact absurd rfl nonempty
      | cons k ks rest =>
          have first := ih k (by simp) (all k (by simp))
          cases ks with
          | nil => simpa [flatMembers, printUnion] using first
          | cons k₂ ks =>
              have others := rest (fun j hj => ih j (by simp [hj])) (everywhere_union.2
                ⟨by simp [IsSound], fun j hj => all j (by simp [hj])⟩) (by simp [IsSound])
                fun j hj => all j (by simp [hj])
              simpa [flatMembers, printUnion] using first.append others

theorem parse_text_wellFormed {k : CharClass} (h : k.WellFormed) : parse k.text = .ok k.flat := by
  refine parse_eq_ok.2 ⟨⟨_, ?_, (joined_members_flat k).symm⟩, ordered_flat h.ordered⟩
  rw [text, String.toList_ofList]
  exact derivesTerms_print h

/-! ## What is read from a text -/

theorem length_flatMembers {ks : List CharClass}
    (h : ∀ k ∈ ks, 1 ≤ (members k.flat).length) : ks.length ≤ (flatMembers ks).length := by
  induction ks with
  | nil => simp
  | cons k ks ih =>
      have first := h k (by simp)
      have others := ih fun j hj => h j (by simp [hj])
      simp only [flatMembers, List.length_append, List.length_cons]
      omega

theorem one_le_length_members_flat {k : CharClass} (h : k.Everywhere IsPlural) :
    1 ≤ (members k.flat).length := by
  induction k with
  | union ks ih =>
      obtain ⟨plural, all⟩ := everywhere_union.1 h
      have := length_flatMembers fun k hk => ih k hk (all k hk)
      rw [members_flat_union]
      change 2 ≤ ks.length at plural
      omega
  | _ => simp [flat, members]

theorem two_le_length_flatMembers {ks : List CharClass} (h : (union ks).Everywhere IsPlural) :
    2 ≤ (flatMembers ks).length := by
  obtain ⟨plural, all⟩ := everywhere_union.1 h
  exact Nat.le_trans plural
    (length_flatMembers fun k hk => one_le_length_members_flat (all k hk))

theorem joined_of_two_le {ks : List CharClass} (h : 2 ≤ ks.length) : joined ks = union ks := by
  match ks, h with
  | _ :: _ :: _, _ => rfl

theorem flat_union {ks : List CharClass} (h : (union ks).Everywhere IsPlural) :
    (union ks).flat = union (flatMembers ks) :=
  joined_of_two_le (two_le_length_flatMembers h)

theorem isUnion_flat {k : CharClass} (h : k.Everywhere IsPlural) :
    k.flat.isUnion = k.isUnion := by
  cases k with
  | union ks => rw [flat_union h]; rfl
  | _ => rfl

theorem printUnion_cons {k : CharClass} {ks : List CharClass} (h : ks ≠ []) :
    printUnion (k :: ks) = k.print ++ '|' :: printUnion ks := by
  cases ks with
  | nil => exact absurd rfl h
  | cons => rfl

theorem printUnion_append {js ks : List CharClass} (hj : js ≠ []) (hk : ks ≠ []) :
    printUnion (js ++ ks) = printUnion js ++ '|' :: printUnion ks := by
  induction js with
  | nil => exact absurd rfl hj
  | cons j js ih =>
      cases js with
      | nil => exact printUnion_cons hk
      | cons j₂ js =>
          have first : printUnion (j :: j₂ :: js) = j.print ++ '|' :: printUnion (j₂ :: js) := rfl
          rw [List.cons_append, printUnion_cons (by simp), ih (by simp), first]
          simp

theorem printUnion_members (k : CharClass) : printUnion (members k) = k.print := by
  cases k <;> rfl

theorem printUnion_flatMembers {ks : List CharClass} (h : ∀ k ∈ ks, k.Everywhere IsPlural)
    (ih : ∀ k ∈ ks, k.flat.print = k.print) : printUnion (flatMembers ks) = printUnion ks := by
  induction ks with
  | nil => rfl
  | cons k ks rest =>
      have first := one_le_length_members_flat (h k (by simp))
      have nonempty : members k.flat ≠ [] := List.length_pos_iff.1 first
      cases ks with
      | nil => simp [flatMembers, printUnion, printUnion_members, ih k (by simp)]
      | cons k₂ ks =>
          have others := length_flatMembers fun j hj =>
            one_le_length_members_flat (h j (List.mem_cons_of_mem k hj))
          have := List.length_pos_iff.1 (Nat.lt_of_lt_of_le (by simp) others)
          rw [flatMembers, printUnion_append nonempty this, printUnion_members, ih k (by simp),
            rest (fun j hj => h j (by simp [hj])) (fun j hj => ih j (by simp [hj]))]
          rfl

theorem print_flat {k : CharClass} (h : k.Everywhere IsPlural) : k.flat.print = k.print := by
  induction k with
  | complement k ih =>
      have inner := (everywhere_complement.1 h).2
      rw [flat, print_complement, print_complement, isUnion_flat inner, ih inner]
  | union ks ih =>
      have all := (everywhere_union.1 h).2
      rw [flat_union h]
      exact printUnion_flatMembers all fun k hk => ih k hk (all k hk)
  | _ => rfl

theorem flatMembers_of_spliced {ks : List CharClass} (single : ∀ k ∈ ks, k.isUnion = false)
    (same : ∀ k ∈ ks, k.flat = k) : flatMembers ks = ks := by
  induction ks with
  | nil => rfl
  | cons k ks ih =>
      rw [flatMembers, same k (by simp), members_of_isUnion_eq_false (single k (by simp)),
        ih (fun j hj => single j (by simp [hj])) fun j hj => same j (by simp [hj])]
      rfl

theorem flatMembers_eq_map {ks : List CharClass} (single : ∀ k ∈ ks, k.isUnion = false) :
    flatMembers ks = ks.map flat := by
  induction ks with
  | nil => rfl
  | cons k ks ih =>
      have first := isUnion_flat_of_isUnion_eq_false (single k (by simp))
      rw [flatMembers, members_of_isUnion_eq_false first,
        ih fun j hj => single j (by simp [hj])]
      rfl

theorem flat_eq_self_iff {k : CharClass} (h : k.Everywhere IsPlural) :
    k.flat = k ↔ k.Everywhere IsSpliced := by
  induction k with
  | complement k ih =>
      simp [flat, IsSpliced, ih (everywhere_complement.1 h).2]
  | union ks ih =>
      have all := (everywhere_union.1 h).2
      rw [flat_union h, everywhere_union, union.injEq]
      constructor
      · intro same
        -- what was spliced holds no union, and the members are what was spliced
        have single : ∀ k ∈ ks, k.isUnion = false := by
          intro k hk
          rw [← same] at hk
          obtain ⟨j, -, hj⟩ := mem_flatMembers.1 hk
          exact isUnion_of_mem_members_flat k hj
        rw [flatMembers_eq_map single] at same
        refine ⟨single, fun k hk => (ih k hk (all k hk)).1 ?_⟩
        exact List.map_inj_left.1 (same.trans (List.map_id ks).symm) k hk
      · rintro ⟨single, spliced⟩
        exact flatMembers_of_spliced single fun k hk => (ih k hk (all k hk)).2 (spliced k hk)
  | _ => simp [flat, IsSpliced]

/-! ## Control characters -/

theorem isControl_hexDigit {n : Nat} (h : n < 16) : isControl (hexDigit n) = false := by
  have all : ∀ n < 16, isControl (hexDigit n) = false := by decide
  exact all n h

theorem not_isControl_escape (syntaxChars : List Char) (c : Char) :
    ∀ d ∈ escape syntaxChars (String.singleton c), isControl d = false := by
  simp only [escape, String.toList_singleton, escapeChars]
  split
  · have high := isControl_hexDigit (n := c.toNat / 16 % 16) (by omega)
    have low := isControl_hexDigit (n := c.toNat % 16) (by omega)
    rw [hexDigits_two]
    simp only [List.forall_mem_cons]
    exact ⟨rfl, rfl, high, low, by simp⟩
  · rename_i plain
    split
    · simp only [List.forall_mem_cons]
      exact ⟨rfl, by simpa using plain, by simp⟩
    · simpa using plain

theorem not_isControl_printRange {r : Symbol × Symbol} (lo : IsSingle r.1) (hi : IsSingle r.2) :
    ∀ d ∈ printRange r, isControl d = false := by
  obtain ⟨lo', hi'⟩ := r
  obtain ⟨lo, rfl⟩ := lo
  obtain ⟨hi, rfl⟩ := hi
  unfold printRange
  split
  · exact not_isControl_escape _ lo
  · simp only [List.forall_mem_append, List.forall_mem_cons]
    exact ⟨not_isControl_escape _ lo, rfl, not_isControl_escape _ hi⟩

theorem printUnion_induction {P : List Char → Prop} {ks : List CharClass} (empty : P [])
    (members : ∀ k ∈ ks, P k.print) (append : ∀ s u, P s → P u → P (s ++ '|' :: u)) :
    P (printUnion ks) := by
  induction ks with
  | nil => exact empty
  | cons k ks ih =>
      obtain ⟨first, others⟩ := List.forall_mem_cons.1 members
      by_cases last : ks = []
      · subst last
        exact first
      · rw [printUnion_cons last]
        exact append _ _ first (ih others)

theorem not_isControl_print {k : CharClass} (h : k.WellFormed) :
    ∀ c ∈ k.print, isControl c = false := by
  induction k with
  | literal c =>
      obtain ⟨c, rfl⟩ := everywhere_literal.1 h
      exact not_isControl_escape _ c
  | any => simpa [print] using by decide
  | bracket ranges negated =>
      obtain ⟨-, single⟩ := everywhere_bracket.1 h
      simp only [print, List.forall_mem_append, List.mem_flatMap, List.forall_mem_singleton]
      refine ⟨⟨by cases negated <;> simp [isControl], ?_⟩, rfl⟩
      rintro c ⟨r, hr, hc⟩
      exact not_isControl_printRange (single r hr).1 (single r hr).2.1 c hc
  | complement k ih =>
      have inner := ih (everywhere_complement.1 h).2
      rw [print_complement]
      split
      · simp only [List.forall_mem_cons, List.cons_append, List.forall_mem_append]
        exact ⟨rfl, rfl, inner, rfl, by simp⟩
      · simp only [List.forall_mem_cons]
        exact ⟨rfl, inner⟩
  | union ks ih =>
      refine printUnion_induction (P := fun s => ∀ c ∈ s, isControl c = false) (by simp)
        (fun k hk => ih k hk ((everywhere_union.1 h).2 k hk)) fun s u first others => ?_
      simp only [List.forall_mem_append, List.forall_mem_cons]
      exact ⟨first, rfl, others⟩

/-! ## The round trip -/

/-- A well-formed class prints on one line as a text of its spliced form, which accepts the same
symbols. The class that is read from a text prints as a text of itself if no union in it is a member
of a union, and otherwise of another class with the same text and the same symbols. -/
theorem parse_text :
    (∀ k : CharClass, k.WellFormed →
      parse k.text = .ok k.flat ∧ (∀ c, k.flat.accepts c = k.accepts c) ∧
        ∀ c ∈ k.text.toList, 0x20 ≤ c.toNat ∧ c.toNat ≠ 0x7f) ∧
    ∀ (s : String) (k : CharClass), parse s = .ok k →
      ∃ j, parse k.text = .ok j ∧ j.text = k.text ∧ (∀ c, j.accepts c = k.accepts c) ∧
        (j = k ↔ k.Everywhere IsSpliced) := by
  refine ⟨fun k h => ⟨parse_text_wellFormed h, accepts_flat k, fun c hc => ?_⟩, fun s k h => ?_⟩
  · rw [text, String.toList_ofList] at hc
    have := not_isControl_print h c hc
    simp only [isControl, Bool.or_eq_false_iff, decide_eq_false_iff_not, beq_eq_false_iff_ne] at this
    omega
  · obtain ⟨sound, plural⟩ := parse_wellFormed h
    refine ⟨k.flat, parse_text_wellFormed sound, ?_, accepts_flat k, flat_eq_self_iff plural⟩
    rw [text, text, print_flat plural]

theorem parse_text_nested :
    let k := union [union [literal "a", complement (union [literal "\n", any])],
      bracket [("-", "-"), ("a", "z")] true]
    k.WellFormed ∧ k.text = "a|!(\\x0a|.)|[^\\-a-z]" ∧
      parse k.text = .ok (union [literal "a", complement (union [literal "\n", any]),
        bracket [("-", "-"), ("a", "z")] true]) := by
  intro k
  have sound : k.WellFormed := by
    simp only [k, WellFormed, everywhere_union, everywhere_literal, everywhere_complement,
      everywhere_bracket, everywhere_any, List.forall_mem_cons, IsSound]
    exact ⟨by simp, ⟨by simp, ⟨'a', rfl⟩, ⟨trivial, by simp, ⟨'\n', rfl⟩, trivial, by simp⟩,
      by simp⟩, ⟨by simp, ⟨⟨'-', rfl⟩, ⟨'-', rfl⟩, by decide⟩, ⟨⟨'a', rfl⟩, ⟨'z', rfl⟩, by decide⟩,
      by simp⟩, by simp⟩
  exact ⟨sound, rfl, (parse_text.1 k sound).1⟩

end Acceptor.CharClass
