import Acceptor.CharClass.Parser
import Acceptor.Proofs.CharClass.Shape

/-!
# The grammar of character classes

The grammar as relations between a text and what it derives, without order among alternatives and
without greed. The reader takes exactly the derivable texts:

* `readClass_sound`: what a reader takes is derivable, and the rest is given back untouched;
* `readClass_complete`: a derivable text is taken whole. No alternative that is taken early blocks
  a derivation, because the first character of a term decides which rule made it, a term ends where
  its rule says, and neither a range nor a term begins with the character that goes on with the
  one before.
-/

namespace Acceptor.CharClass

/-! ## The rules -/

def IsHexDigit (c : Char) (n : Nat) : Prop :=
  "0123456789abcdef".toList[n]? = some c ∨ "0123456789ABCDEF".toList[n]? = some c

inductive DerivesEscape : List Char → Char → Prop
  | code {h l : Char} {m n : Nat} (high : IsHexDigit h m) (low : IsHexDigit l n) :
      DerivesEscape ['\\', 'x', h, l] (Char.ofNat (16 * m + n))
  | char {c : Char} (plain : c ≠ 'x') : DerivesEscape ['\\', c] c

inductive DerivesChar (syntaxChars : List Char) : List Char → Char → Prop
  | escape {s : List Char} {c : Char} (escape : DerivesEscape s c) : DerivesChar syntaxChars s c
  | plain {c : Char} (plain : c ∉ syntaxChars) : DerivesChar syntaxChars [c] c

inductive DerivesRange : List Char → Symbol × Symbol → Prop
  | pair {s u : List Char} {lo hi : Char} (low : DerivesChar bracketSpecial s lo)
      (high : DerivesChar bracketSpecial u hi) :
      DerivesRange (s ++ '-' :: u) (String.singleton lo, String.singleton hi)
  | one {s : List Char} {c : Char} (char : DerivesChar bracketSpecial s c) :
      DerivesRange s (String.singleton c, String.singleton c)

inductive DerivesRanges : List Char → List (Symbol × Symbol) → Prop
  | one {s : List Char} {r : Symbol × Symbol} (range : DerivesRange s r) : DerivesRanges s [r]
  | more {s u : List Char} {r : Symbol × Symbol} {rs : List (Symbol × Symbol)}
      (range : DerivesRange s r) (ranges : DerivesRanges u rs) : DerivesRanges (s ++ u) (r :: rs)

def joined : List CharClass → CharClass
  | [k] => k
  | ks => union ks

mutual

inductive DerivesTerm : List Char → CharClass → Prop
  | any : DerivesTerm ['.'] any
  | complement {s : List Char} {k : CharClass} (term : DerivesTerm s k) :
      DerivesTerm ('!' :: s) (complement k)
  | bracket {s : List Char} {rs : List (Symbol × Symbol)} (ranges : DerivesRanges s rs) :
      DerivesTerm ('[' :: s ++ [']']) (bracket rs false)
  | negated {s : List Char} {rs : List (Symbol × Symbol)} (ranges : DerivesRanges s rs) :
      DerivesTerm ('[' :: '^' :: s ++ [']']) (bracket rs true)
  | group {s : List Char} {ks : List CharClass} (terms : DerivesTerms s ks) :
      DerivesTerm ('(' :: s ++ [')']) (joined ks)
  | literal {s : List Char} {c : Char} (char : DerivesChar special s c) :
      DerivesTerm s (literal (String.singleton c))

inductive DerivesTerms : List Char → List CharClass → Prop
  | one {s : List Char} {k : CharClass} (term : DerivesTerm s k) : DerivesTerms s [k]
  | more {s u : List Char} {k : CharClass} {ks : List CharClass} (term : DerivesTerm s k)
      (terms : DerivesTerms u ks) : DerivesTerms (s ++ '|' :: u) (k :: ks)

end

def Derives (s : List Char) (k : CharClass) : Prop := ∃ ks, DerivesTerms s ks ∧ k = joined ks

/-! ## Characters -/

instance (c : Char) (n : Nat) : Decidable (IsHexDigit c n) :=
  inferInstanceAs (Decidable (_ ∨ _))

theorem IsHexDigit.small {c : Char} {n : Nat} (h : IsHexDigit c n) : c.toNat < 128 ∧ n < 16 := by
  have all : ("0123456789abcdef".toList ++ "0123456789ABCDEF".toList).all (·.toNat < 128) = true := by
    decide
  have ascii := fun d h => of_decide_eq_true (List.all_eq_true.1 all d h)
  rcases h with h | h
  · exact ⟨ascii c (List.mem_append_left _ (List.mem_of_getElem? h)),
      (List.getElem?_eq_some_iff.1 h).1⟩
  · exact ⟨ascii c (List.mem_append_right _ (List.mem_of_getElem? h)),
      (List.getElem?_eq_some_iff.1 h).1⟩

theorem hexValue?_small {c : Char} {n : Nat} (h : hexValue? c = some n) :
    c.toNat < 128 ∧ n < 16 := by
  simp only [hexValue?, Bool.and_eq_true, decide_eq_true_eq] at h
  repeat' split at h
  all_goals cases h
  all_goals omega

theorem hexValue?_eq_some {c : Char} {n : Nat} : hexValue? c = some n ↔ IsHexDigit c n := by
  have agree : ∀ k < 128, ∀ n < 16,
      hexValue? (Char.ofNat k) = some n ↔ IsHexDigit (Char.ofNat k) n := by decide +kernel
  have back : Char.ofNat c.toNat = c := Char.ofNat_toNat c
  constructor
  · intro h
    obtain ⟨hc, hn⟩ := hexValue?_small h
    have := (agree c.toNat hc n hn).1
    rw [back] at this
    exact this h
  · intro h
    obtain ⟨hc, hn⟩ := h.small
    have := (agree c.toNat hc n hn).2
    rw [back] at this
    exact this h

theorem readEscaped_sound {cs rest : List Char} {c : Char}
    (h : readEscaped cs = some (c, rest)) :
    ∃ s, cs = s ++ rest ∧ DerivesEscape ('\\' :: s) c := by
  unfold readEscaped at h
  split at h
  · rename_i high low rest'
    simp only [Option.bind_eq_bind, Option.bind_eq_some_iff, Option.pure_def, Option.some.injEq,
      Prod.mk.injEq] at h
    obtain ⟨m, hm, n, hn, rfl, rfl⟩ := h
    exact ⟨['x', high, low], rfl, .code (hexValue?_eq_some.1 hm) (hexValue?_eq_some.1 hn)⟩
  · rename_i d rest' _
    split at h
    · cases h
    · rename_i plain
      simp only [Option.some.injEq, Prod.mk.injEq] at h
      obtain ⟨rfl, rfl⟩ := h
      exact ⟨[d], rfl, .char plain⟩
  · cases h

theorem readChar_sound {syntaxChars cs rest : List Char} {c : Char}
    (h : readChar syntaxChars cs = some (c, rest)) :
    ∃ s, cs = s ++ rest ∧ DerivesChar syntaxChars s c := by
  unfold readChar at h
  split at h
  · cases h
  · rename_i cs'
    obtain ⟨s, rfl, derives⟩ := readEscaped_sound h
    exact ⟨'\\' :: s, rfl, .escape derives⟩
  · rename_i d cs' _
    split at h
    · cases h
    · rename_i plain
      simp only [Option.some.injEq, Prod.mk.injEq] at h
      obtain ⟨rfl, rfl⟩ := h
      exact ⟨[d], rfl, .plain plain⟩

theorem readChar_complete {syntaxChars s : List Char} {c : Char}
    (backslash : '\\' ∈ syntaxChars) (h : DerivesChar syntaxChars s c) (rest : List Char) :
    readChar syntaxChars (s ++ rest) = some (c, rest) := by
  cases h with
  | escape h =>
      cases h with
      | code high low =>
          simp [readChar, readEscaped, hexValue?_eq_some.2 high, hexValue?_eq_some.2 low]
      | char plain =>
          simp only [List.cons_append, List.nil_append, readChar]
          unfold readEscaped
          split
          · rename_i eq
            cases eq
            exact absurd rfl plain
          · rename_i eq
            cases eq
            rw [if_neg plain]
          · rename_i eq
            cases eq
  | plain plain =>
      have : c ≠ '\\' := fun e => plain (e ▸ backslash)
      simp [readChar, plain]

theorem DerivesChar.ne_nil {syntaxChars s : List Char} {c : Char}
    (h : DerivesChar syntaxChars s c) : s ≠ [] := by
  cases h with
  | escape h => cases h <;> simp
  | plain => simp

theorem DerivesChar.head?_ne {syntaxChars s u : List Char} {c d : Char}
    (h : DerivesChar syntaxChars s c) (isSyntax : d ∈ syntaxChars) (notEscape : d ≠ '\\') :
    (s ++ u).head? ≠ some d := by
  cases h with
  | escape h => cases h <;> simpa using notEscape.symm
  | plain plain =>
      rintro eq
      cases eq
      exact plain isSyntax

/-! ## Brackets -/

theorem DerivesRange.head?_ne {s u : List Char} {r : Symbol × Symbol} {d : Char}
    (h : DerivesRange s r) (isSyntax : d ∈ bracketSpecial) (notEscape : d ≠ '\\') :
    (s ++ u).head? ≠ some d := by
  cases h with
  | pair low => rw [List.append_assoc]; exact low.head?_ne isSyntax notEscape
  | one char => exact char.head?_ne isSyntax notEscape

theorem DerivesRange.ne_nil {s : List Char} {r : Symbol × Symbol} (h : DerivesRange s r) :
    s ≠ [] := by
  cases h with
  | pair => simp
  | one h => exact h.ne_nil

theorem readRange_sound {cs rest : List Char} {r : Symbol × Symbol}
    (h : readRange cs = some (r, rest)) : ∃ s, cs = s ++ rest ∧ DerivesRange s r := by
  unfold readRange at h
  split at h
  · cases h
  · rename_i lo rest' low
    obtain ⟨s, rfl, hs⟩ := readChar_sound low
    split at h
    · rename_i hi rest'' high
      obtain ⟨u, rfl, hu⟩ := readChar_sound high
      cases h
      exact ⟨s ++ '-' :: u, by simp, .pair hs hu⟩
    · cases h
      exact ⟨s, rfl, .one hs⟩
  · rename_i c rest' _ char
    obtain ⟨s, rfl, hs⟩ := readChar_sound char
    cases h
    exact ⟨s, rfl, .one hs⟩

theorem readRange_complete {s rest : List Char} {r : Symbol × Symbol} (h : DerivesRange s r)
    (follow : rest.head? ≠ some '-') : readRange (s ++ rest) = some (r, rest) := by
  have backslash : '\\' ∈ bracketSpecial := by decide
  cases h with
  | pair low high =>
      simp [readRange, readChar_complete backslash low, readChar_complete backslash high]
  | one char =>
      unfold readRange
      rw [readChar_complete backslash char]
      split
      · rename_i eq
        cases eq
      · rename_i eq
        cases eq
        simp at follow
      · rename_i eq
        cases eq
        rfl

theorem repeated_nil {α : Type} {p : Reader α} {n : Nat} {cs rest : List Char}
    (h : repeated p n cs = ([], rest)) : rest = cs := by
  cases n with
  | zero => cases h; rfl
  | succ n =>
      unfold repeated at h
      split at h <;> cases h
      rfl

theorem repeated_cons {α : Type} {p : Reader α} {n : Nat} {cs rest : List Char} {a : α}
    {as : List α} (h : repeated p n cs = (a :: as, rest)) :
    ∃ m mid, n = m + 1 ∧ p cs = some (a, mid) ∧ repeated p m mid = (as, rest) := by
  cases n with
  | zero => cases h
  | succ n =>
      unfold repeated at h
      split at h
      · cases h
      · rename_i first
        cases h
        exact ⟨n, _, rfl, first, rfl⟩

theorem repeated_stop {α : Type} {p : Reader α} {cs : List Char} (h : p cs = none) (n : Nat) :
    repeated p n cs = ([], cs) := by
  cases n with
  | zero => rfl
  | succ n => simp [repeated, h]

theorem repeated_readRange_sound {n : Nat} {cs rest : List Char} {r : Symbol × Symbol}
    {rs : List (Symbol × Symbol)} (h : repeated readRange n cs = (r :: rs, rest)) :
    ∃ s, cs = s ++ rest ∧ DerivesRanges s (r :: rs) := by
  induction rs generalizing n cs r with
  | nil =>
      obtain ⟨m, mid, rfl, first, none_left⟩ := repeated_cons h
      obtain ⟨s, rfl, hs⟩ := readRange_sound first
      obtain rfl := repeated_nil none_left
      exact ⟨s, rfl, .one hs⟩
  | cons r₂ rs ih =>
      obtain ⟨m, mid, rfl, first, more⟩ := repeated_cons h
      obtain ⟨s, rfl, hs⟩ := readRange_sound first
      obtain ⟨u, rfl, hu⟩ := ih more
      exact ⟨s ++ u, by simp, .more hs hu⟩

theorem readRanges_sound {negated : Bool} {cs rest : List Char} {k : CharClass}
    (h : readRanges negated cs = some (k, rest)) :
    ∃ s rs, cs = s ++ ']' :: rest ∧ DerivesRanges s rs ∧ k = bracket rs negated := by
  unfold readRanges at h
  split at h
  · cases h
  · rename_i rs rest' nonempty all
    cases h
    cases rs with
    | nil => exact (nonempty rfl).elim
    | cons r rs =>
        obtain ⟨s, eq, hs⟩ := repeated_readRange_sound all
        exact ⟨s, _, eq, hs, rfl⟩
  · cases h

theorem DerivesRanges.length_le {s : List Char} {rs : List (Symbol × Symbol)}
    (h : DerivesRanges s rs) : rs.length ≤ s.length := by
  have one_le : ∀ {s r}, DerivesRange s r → 1 ≤ s.length :=
    fun h => List.length_pos_iff.2 h.ne_nil
  induction h with
  | one range => exact one_le range
  | more range _ ih =>
      have := one_le range
      simp only [List.length_cons, List.length_append]
      omega

theorem DerivesRanges.head?_ne {s u : List Char} {rs : List (Symbol × Symbol)} {d : Char}
    (h : DerivesRanges s rs) (isSyntax : d ∈ bracketSpecial) (notEscape : d ≠ '\\') :
    (s ++ u).head? ≠ some d := by
  cases h with
  | one range => exact range.head?_ne isSyntax notEscape
  | more range => rw [List.append_assoc]; exact range.head?_ne isSyntax notEscape

theorem repeated_readRange_complete {s rest : List Char} {rs : List (Symbol × Symbol)}
    (h : DerivesRanges s rs) {n : Nat} (enough : rs.length ≤ n) :
    repeated readRange n (s ++ ']' :: rest) = (rs, ']' :: rest) := by
  induction h generalizing n with
  | @one s r range =>
      obtain ⟨m, rfl⟩ : ∃ m, n = m + 1 := ⟨n - 1, by simp at enough; omega⟩
      have read : readRange (s ++ ']' :: rest) = some (r, ']' :: rest) :=
        readRange_complete range (by simp)
      have stop : readRange (']' :: rest) = none := rfl
      simp [repeated, read, repeated_stop stop]
  | more range ranges ih =>
      obtain ⟨m, rfl⟩ : ∃ m, n = m + 1 := ⟨n - 1, by simp at enough; omega⟩
      rw [List.append_assoc]
      simp [repeated, readRange_complete range (ranges.head?_ne (d := '-') (by decide) (by decide)),
        ih (Nat.le_of_succ_le_succ enough)]

theorem readRanges_complete {negated : Bool} {s : List Char} {rs : List (Symbol × Symbol)}
    (h : DerivesRanges s rs) (rest : List Char) :
    readRanges negated (s ++ ']' :: rest) = some (bracket rs negated, rest) := by
  have enough : rs.length ≤ (s ++ ']' :: rest).length := by
    have := h.length_le
    simp only [List.length_append, List.length_cons]
    omega
  unfold readRanges
  rw [repeated_readRange_complete h enough]
  cases h <;> rfl

theorem readBracket_sound {cs rest : List Char} {k : CharClass}
    (h : readBracket cs = some (k, rest)) :
    ∃ s, '[' :: cs = s ++ rest ∧ DerivesTerm s k := by
  unfold readBracket at h
  split at h
  · obtain ⟨s, rs, rfl, hs, rfl⟩ := readRanges_sound h
    exact ⟨_, by simp, .negated hs⟩
  · obtain ⟨s, rs, rfl, hs, rfl⟩ := readRanges_sound h
    exact ⟨_, by simp, .bracket hs⟩

theorem readBracket_complete {s : List Char} {rs : List (Symbol × Symbol)}
    (h : DerivesRanges s rs) (rest : List Char) :
    readBracket (s ++ ']' :: rest) = some (bracket rs false, rest) := by
  unfold readBracket
  split
  · rename_i eq
    exact absurd (congrArg List.head? eq) (h.head?_ne (by decide) (by decide))
  · exact readRanges_complete h rest

/-! ## Terms -/

theorem ofTerms_eq (k : CharClass) (ks : List CharClass) : ofTerms k ks = joined (k :: ks) := by
  cases ks <;> rfl

theorem repeated_readMember_sound {term : Reader CharClass}
    (sound : ∀ {cs k rest}, term cs = some (k, rest) → ∃ s, cs = s ++ rest ∧ DerivesTerm s k)
    {n : Nat} {cs rest : List Char} {ks : List CharClass}
    (h : repeated (readMember term) n cs = (ks, rest)) {s : List Char} {k : CharClass}
    (first : DerivesTerm s k) : ∃ u, cs = u ++ rest ∧ DerivesTerms (s ++ u) (k :: ks) := by
  induction ks generalizing n cs s k with
  | nil =>
      obtain rfl := repeated_nil h
      exact ⟨[], rfl, by simpa using .one first⟩
  | cons k₂ ks ih =>
      obtain ⟨m, mid, rfl, member, more⟩ := repeated_cons h
      unfold readMember at member
      split at member
      · obtain ⟨s₂, rfl, second⟩ := sound member
        obtain ⟨u, rfl, terms⟩ := ih more second
        exact ⟨'|' :: (s₂ ++ u), by simp, .more first terms⟩
      · cases member

theorem readUnion_sound {term : Reader CharClass}
    (sound : ∀ {cs k rest}, term cs = some (k, rest) → ∃ s, cs = s ++ rest ∧ DerivesTerm s k)
    {cs rest : List Char} {k : CharClass} (h : readUnion term cs = some (k, rest)) :
    ∃ s, cs = s ++ rest ∧ Derives s k := by
  unfold readUnion at h
  split at h
  · cases h
  · rename_i k₁ mid first
    obtain ⟨s, rfl, hs⟩ := sound first
    cases h
    obtain ⟨u, eq, terms⟩ := repeated_readMember_sound sound rfl hs
    exact ⟨s ++ u, by rw [List.append_assoc, ← eq], _, terms, ofTerms_eq _ _⟩

theorem readTerm_sound {depth : Nat} {cs rest : List Char} {k : CharClass}
    (h : readTerm depth cs = some (k, rest)) : ∃ s, cs = s ++ rest ∧ DerivesTerm s k := by
  induction depth generalizing cs rest k with
  | zero => cases h
  | succ depth ih =>
      unfold readTerm at h
      split at h
      · rename_i eq; cases eq
      · cases h
      · cases h
        exact ⟨['.'], rfl, .any⟩
      · rename_i depth' cs' eq
        obtain rfl : depth = depth' := by simpa using eq
        simp only [Option.map_eq_some_iff, Prod.mk.injEq, Prod.exists] at h
        obtain ⟨k', _, h, rfl, rfl⟩ := h
        obtain ⟨s, rfl, hs⟩ := ih h
        exact ⟨'!' :: s, rfl, .complement hs⟩
      · exact readBracket_sound h
      · rename_i depth' cs' eq
        obtain rfl : depth = depth' := by simpa using eq
        split at h
        · rename_i group
          cases h
          obtain ⟨s, rfl, ks, hs, rfl⟩ := readUnion_sound ih group
          exact ⟨_, by simp, .group hs⟩
        · cases h
      · simp only [Option.map_eq_some_iff, Prod.mk.injEq, Prod.exists] at h
        obtain ⟨c, _, h, rfl, rfl⟩ := h
        obtain ⟨s, rfl, hs⟩ := readChar_sound h
        exact ⟨s, rfl, .literal hs⟩

theorem DerivesTerm.ne_nil {s : List Char} {k : CharClass} (h : DerivesTerm s k) : s ≠ [] := by
  cases h with
  | literal char => exact char.ne_nil
  | _ => simp

theorem DerivesTerms.length_le {s : List Char} {ks : List CharClass} (h : DerivesTerms s ks) :
    ks.length ≤ s.length := by
  cases h with
  | one term => exact List.length_pos_iff.2 term.ne_nil
  | more _ terms =>
      have := terms.length_le
      simp only [List.length_cons, List.length_append]
      omega

theorem readMember_eq_none {term : Reader CharClass} {cs : List Char}
    (h : cs.head? ≠ some '|') : readMember term cs = none := by
  unfold readMember
  split
  · exact absurd rfl h
  · rfl

theorem readTerm_literal {depth : Nat} {s : List Char} {c : Char} (h : DerivesChar special s c)
    (rest : List Char) :
    readTerm (depth + 1) (s ++ rest) = some (literal (String.singleton c), rest) := by
  have read := readChar_complete (by decide) h rest
  -- the text starts with no syntax but `\`, so no earlier alternative takes it
  have head : ∀ d ∈ special, d ≠ '\\' → (s ++ rest).head? ≠ some d :=
    fun d => h.head?_ne (u := rest)
  unfold readTerm
  split
  · rename_i eq; cases eq
  · rename_i eq
    exact absurd (List.append_eq_nil_iff.1 eq).1 h.ne_nil
  · rename_i eq
    exact absurd (congrArg List.head? eq) (head '.' (by decide) (by decide))
  · rename_i eq
    exact absurd (congrArg List.head? eq) (head '!' (by decide) (by decide))
  · rename_i eq
    exact absurd (congrArg List.head? eq) (head '[' (by decide) (by decide))
  · rename_i eq
    exact absurd (congrArg List.head? eq) (head '(' (by decide) (by decide))
  · simp [read]

mutual

theorem readTerm_complete {s : List Char} {k : CharClass} (h : DerivesTerm s k) {depth : Nat}
    (deep : s.length < depth) (rest : List Char) :
    readTerm depth (s ++ rest) = some (k, rest) := by
  obtain ⟨depth, rfl⟩ : ∃ d, depth = d + 1 := ⟨depth - 1, by omega⟩
  cases h with
  | any => rfl
  | complement term =>
      simp [readTerm, readTerm_complete term (by simpa using deep) rest]
  | bracket ranges =>
      simpa [readTerm] using readBracket_complete ranges rest
  | negated ranges =>
      simpa [readTerm, readBracket] using readRanges_complete ranges rest
  | @group s ks terms =>
      have inner : readUnion (readTerm depth) (s ++ ')' :: rest) = some (joined ks, ')' :: rest) :=
        readUnion_complete terms (by simp at deep; omega) (by simp)
      simp [readTerm, inner]
  | literal char => exact readTerm_literal char rest
-- parts are shorter than their terms; a row of terms may be as long as its only term
termination_by (s.length, 0)

theorem repeated_readMember_complete {s : List Char} {ks : List CharClass}
    (h : DerivesTerms s ks) {depth : Nat} (deep : s.length < depth) {rest : List Char}
    (follow : rest.head? ≠ some '|') {n : Nat} (enough : ks.length ≤ n) :
    repeated (readMember (readTerm depth)) n ('|' :: s ++ rest) = (ks, rest) := by
  cases h with
  | one term =>
      obtain ⟨m, rfl⟩ : ∃ m, n = m + 1 := ⟨n - 1, by simp at enough; omega⟩
      simp [repeated, readMember, readTerm_complete term deep rest,
        repeated_stop (readMember_eq_none follow)]
  | @more s u k ks term terms =>
      obtain ⟨m, rfl⟩ : ∃ m, n = m + 1 := ⟨n - 1, by simp at enough; omega⟩
      have first : readTerm depth (s ++ ('|' :: u ++ rest)) = some (k, '|' :: u ++ rest) :=
        readTerm_complete term (by simp at deep; omega) _
      have others : repeated (readMember (readTerm depth)) m ('|' :: u ++ rest) = (ks, rest) :=
        repeated_readMember_complete terms (by simp at deep; omega) follow (by simpa using enough)
      simp only [List.append_assoc, List.cons_append] at first others ⊢
      simp only [repeated, readMember, first, others]
termination_by (s.length, 1)

theorem readUnion_complete {s : List Char} {ks : List CharClass} (h : DerivesTerms s ks)
    {depth : Nat} (deep : s.length < depth) {rest : List Char} (follow : rest.head? ≠ some '|') :
    readUnion (readTerm depth) (s ++ rest) = some (joined ks, rest) := by
  cases h with
  | one term =>
      simp [readUnion, readTerm_complete term deep rest,
        repeated_stop (readMember_eq_none follow), ofTerms_eq]
  | @more s u k ks term terms =>
      have enough : ks.length ≤ ('|' :: u ++ rest).length := by
        have := terms.length_le
        simp only [List.length_append, List.length_cons]
        omega
      have first : readTerm depth (s ++ ('|' :: u ++ rest)) = some (k, '|' :: u ++ rest) :=
        readTerm_complete term (by simp at deep; omega) _
      have others : repeated (readMember (readTerm depth)) ('|' :: u ++ rest).length
          ('|' :: u ++ rest) = (ks, rest) :=
        repeated_readMember_complete terms (by simp at deep; omega) follow enough
      simp only [List.append_assoc, List.cons_append] at first others ⊢
      simp only [readUnion, first, others, ofTerms_eq]
termination_by (s.length, 1)

end

/-! ## Whole texts -/

theorem readClass_sound {cs rest : List Char} {k : CharClass}
    (h : readClass cs = some (k, rest)) : ∃ s, cs = s ++ rest ∧ Derives s k :=
  readUnion_sound readTerm_sound h

theorem readClass_complete {s : List Char} {k : CharClass} (h : Derives s k) :
    readClass s = some (k, []) := by
  obtain ⟨ks, terms, rfl⟩ := h
  have whole : readUnion (readTerm (s.length + 1)) (s ++ []) = some (joined ks, []) :=
    readUnion_complete terms (Nat.lt_succ_self _) (by simp)
  simpa [readClass] using whole

theorem readClass_eq_some_nil {s : List Char} {k : CharClass} :
    readClass s = some (k, []) ↔ Derives s k := by
  refine ⟨fun h => ?_, readClass_complete⟩
  obtain ⟨u, rfl, hu⟩ := readClass_sound h
  simpa using hu

theorem Derives.unique {s : List Char} {j k : CharClass} (hj : Derives s j) (hk : Derives s k) :
    j = k := by
  have := (readClass_complete hj).symm.trans (readClass_complete hk)
  simpa using this

theorem check_eq_ok {k : CharClass} : k.check = .ok () ↔ k.Everywhere HasOrderedRanges := by
  rw [← firstReversed_eq_none]
  unfold check
  split
  · rename_i eq; simp [eq]
  · rename_i eq; simp [eq]

theorem parse_eq_ok {s : String} {k : CharClass} :
    parse s = .ok k ↔ Derives s.toList k ∧ k.Everywhere HasOrderedRanges := by
  rw [← readClass_eq_some_nil, ← check_eq_ok]
  unfold parse
  split
  · rename_i eq
    simp [eq]
  · rename_i k' eq
    rw [eq]
    cases checked : k'.check with
    | error e =>
        simp only [bind, Except.bind, reduceCtorEq, false_iff]
        rintro ⟨eq, ok⟩
        cases eq
        rw [checked] at ok
        cases ok
    | ok =>
        simp only [bind, Except.bind, pure, Except.pure, Except.ok.injEq, Option.some.injEq,
          Prod.mk.injEq, and_true]
        exact ⟨fun e => ⟨e, e ▸ checked⟩, fun e => e.1⟩
  · rename_i nonempty eq
    rw [eq]
    simp only [reduceCtorEq, Option.some.injEq, Prod.mk.injEq, false_iff]
    rintro ⟨⟨-, rfl⟩, -⟩
    exact nonempty rfl

/-- A text is read as the class that it derives, unless a range is the wrong way round, and derives
no other class. -/
theorem parse_ok_iff_derives (s : String) :
    (∀ k, parse s = .ok k ↔ Derives s.toList k ∧ k.Everywhere HasOrderedRanges) ∧
      ∀ j k, Derives s.toList j → Derives s.toList k → j = k :=
  ⟨fun _ => parse_eq_ok, fun _ _ => Derives.unique⟩

theorem parse_ok_iff_derives_nested :
    Derives "!(a|[^\\x41-c\\-]|.)|\\!".toList
      (union [complement (union [literal "a", bracket [("A", "c"), ("-", "-")] true, any]),
        literal "!"]) :=
  (((parse_ok_iff_derives "!(a|[^\\x41-c\\-]|.)|\\!").1 _).1 rfl).1

end Acceptor.CharClass
