import Acceptor.Text.Utf8

namespace Acceptor.Text.Utf8

variable {begun left : Option Begun} {b : Nat} {bs : List Nat} {c : Char} {cs : List Char}

def Decodes (begun : Option Begun) (bs : List Nat) (cs : List Char) (left : Option Begun) : Prop :=
  ∀ position, decode position begun bs = .ok (cs, left)

theorem decode_cons_ok {position : Nat} (h : decode position begun (b :: bs) = .ok (cs, left)) :
    (∃ c cs' position', advance begun b = .char c ∧
        decode position' none bs = .ok (cs', left) ∧ cs = c :: cs') ∨
      ∃ next, advance begun b = .more next ∧ decode position (some next) bs = .ok (cs, left) := by
  rw [decode] at h
  cases step : advance begun b with
  | char c =>
      simp only [step, bind, Except.bind, pure, Except.pure] at h
      cases rest : decode (position + countOf begun + 1) none bs with
      | error e => simp [rest] at h
      | ok r =>
          simp only [rest, Except.ok.injEq, Prod.mk.injEq] at h
          obtain ⟨rfl, rfl⟩ := h
          exact .inl ⟨c, r.1, _, rfl, rest, rfl⟩
  | more next =>
      simp only [step] at h
      exact .inr ⟨next, rfl, h⟩
  | refused reason => simp [step] at h

theorem Decodes.char (h : advance begun b = .char c) (rest : Decodes none bs cs left) :
    Decodes begun (b :: bs) (c :: cs) left := by
  intro position
  rw [decode, h]
  simp only [rest _, bind, Except.bind, pure, Except.pure]

theorem Decodes.more {next : Begun} (h : advance begun b = .more next)
    (rest : Decodes (some next) bs cs left) : Decodes begun (b :: bs) cs left := by
  intro position
  rw [decode, h]
  exact rest position

theorem decodes_of_decode {position : Nat} (h : decode position begun bs = .ok (cs, left)) :
    Decodes begun bs cs left := by
  induction bs generalizing position begun cs with
  | nil => exact fun _ => h
  | cons b bs ih =>
      rcases decode_cons_ok h with ⟨c, cs', _, first, rest, rfl⟩ | ⟨next, first, rest⟩
      · exact .char first (ih rest)
      · exact .more first (ih rest)

theorem decodes_cons (h : Decodes begun (b :: bs) cs left) :
    (∃ c cs', advance begun b = .char c ∧ Decodes none bs cs' left ∧ cs = c :: cs') ∨
      ∃ next, advance begun b = .more next ∧ Decodes (some next) bs cs left := by
  rcases decode_cons_ok (h 0) with ⟨c, cs', _, first, rest, rfl⟩ | ⟨next, first, rest⟩
  · exact .inl ⟨c, cs', first, decodes_of_decode rest, rfl⟩
  · exact .inr ⟨next, first, decodes_of_decode rest⟩

/-- A text whose bytes are cut in two is the text of the parts. -/
theorem Decodes.cut {p q : List Nat} (h : Decodes begun (p ++ q) cs left) :
    ∃ cs₁ middle cs₂, Decodes begun p cs₁ middle ∧ Decodes middle q cs₂ left ∧
      cs = cs₁ ++ cs₂ := by
  induction p generalizing begun cs with
  | nil => exact ⟨[], begun, cs, fun _ => rfl, h, rfl⟩
  | cons b p ih =>
      rcases decodes_cons h with ⟨c, cs', first, rest, rfl⟩ | ⟨next, first, rest⟩
      · obtain ⟨cs₁, middle, cs₂, h₁, h₂, rfl⟩ := ih rest
        exact ⟨c :: cs₁, middle, cs₂, .char first h₁, h₂, rfl⟩
      · obtain ⟨cs₁, middle, cs₂, h₁, h₂, rfl⟩ := ih rest
        exact ⟨cs₁, middle, cs₂, .more first h₁, h₂, rfl⟩

theorem toNat_valid (c : Char) :
    c.toNat < 0xD800 ∨ 0xDFFF < c.toNat ∧ c.toNat < 0x110000 := c.valid

theorem advance_of_admits {h : Begun} (admits : h.admits (0x80 + b) = true) :
    advance (some h) (0x80 + b) =
      if h.missing = 1 then .char (Char.ofNat (64 * h.value + b))
      else .more ⟨h.first, h.count + 1, h.missing - 1, 64 * h.value + b⟩ := by
  simp [advance, Begun.extend, admits]

theorem Decodes.last {h : Begun} (admits : h.admits (0x80 + b) = true) (missing : h.missing = 1)
    (value : Char.ofNat (64 * h.value + b) = c) (rest : Decodes none bs cs left) :
    Decodes (some h) ((0x80 + b) :: bs) (c :: cs) left := by
  refine .char ?_ rest
  rw [advance_of_admits admits, if_pos missing, value]

theorem Decodes.next {h : Begun} (admits : h.admits (0x80 + b) = true) (missing : h.missing ≠ 1)
    (rest : Decodes (some ⟨h.first, h.count + 1, h.missing - 1, 64 * h.value + b⟩) bs cs left) :
    Decodes (some h) ((0x80 + b) :: bs) cs left := by
  refine .more ?_ rest
  rw [advance_of_admits admits, if_neg missing]

theorem admits_second {h : Begun} (second : h.count = 1)
    (e0 : h.first = 0xE0 → 0x20 ≤ b) (f0 : h.first = 0xF0 → 0x10 ≤ b)
    (ed : h.first = 0xED → b ≤ 0x1F) (f4 : h.first = 0xF4 → b ≤ 0x0F) (small : b < 64) :
    h.admits (0x80 + b) = true := by
  simp only [Begun.admits, second, decide_true, Bool.true_and, decide_eq_true_eq,
    Bool.and_eq_true]
  grind

theorem admits_later {h : Begun} (later : h.count ≠ 1) (small : b < 64) :
    h.admits (0x80 + b) = true := by
  simp only [Begun.admits, later, decide_false, Bool.false_and, Bool.false_eq_true, if_false,
    Bool.and_eq_true, decide_eq_true_eq]
  omega

theorem decodes_encodeChar (c : Char) (rest : Decodes none bs cs left) :
    Decodes none (encodeChar c ++ bs) (c :: cs) left := by
  have valid := toNat_valid c
  have back : Char.ofNat c.toNat = c := Char.ofNat_toNat c
  unfold encodeChar
  generalize c.toNat = n at valid back
  -- the bounds on the second byte leave out just the surrogates and the numbers of other lengths
  simp only [Nat.div_one]
  split
  · refine .char ?_ rest
    simp only [advance, start, back]
    rw [if_pos (by omega)]
  · split
    · have lead : advance none (0xC0 + n / 64) = .more ⟨0xC0 + n / 64, 1, 1, n / 64⟩ := by
        simp only [advance, start]
        rw [if_neg (by omega), if_neg (by omega), if_pos (by omega), Nat.add_sub_cancel_left]
      refine .more lead (.last (admits_second rfl ?_ ?_ ?_ ?_ (by omega)) rfl ?value rest)
      case value => rw [Nat.div_add_mod, back]
      all_goals simp only; omega
    · split
      · have lead : advance none (0xE0 + n / 4096) = .more ⟨0xE0 + n / 4096, 1, 2, n / 4096⟩ := by
          simp only [advance, start]
          rw [if_neg (by omega), if_neg (by omega), if_neg (by omega), if_pos (by omega),
            Nat.add_sub_cancel_left]
        refine .more lead (.next (admits_second rfl ?_ ?_ ?_ ?_ (by omega)) (by simp)
          (.last (admits_later (by simp) (by omega)) rfl ?value rest))
        case value =>
          rw [show 64 * (64 * (n / 4096) + n / 64 % 64) + n % 64 = n by omega, back]
        all_goals simp only; omega
      · have lead : advance none (0xF0 + n / 262144) =
            .more ⟨0xF0 + n / 262144, 1, 3, n / 262144⟩ := by
          simp only [advance, start]
          rw [if_neg (by omega), if_neg (by omega), if_neg (by omega), if_neg (by omega),
            if_pos (by omega), Nat.add_sub_cancel_left]
        refine .more lead (.next (admits_second rfl ?_ ?_ ?_ ?_ (by omega)) (by simp)
          (.next (admits_later (by simp) (by omega)) (by simp)
            (.last (admits_later (by simp) (by omega)) rfl ?value rest)))
        case value =>
          rw [show 64 * (64 * (64 * (n / 262144) + n / 4096 % 64) + n / 64 % 64) + n % 64 = n by
            omega, back]
        all_goals simp only; omega

theorem decodes_encode (cs : List Char) : Decodes none (encode cs) cs none := by
  induction cs with
  | nil => exact fun _ => rfl
  | cons c cs ih => exact decodes_encodeChar c ih

end Acceptor.Text.Utf8
