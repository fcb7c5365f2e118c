import Mathlib.Data.List.Basic
import Acceptor.Proofs.Text.Lines
import Acceptor.Text.Blank
import Acceptor.Text.Words

namespace Acceptor.Text

def lineOf (words : List String) : String := String.intercalate " " (words.map quoteWord)

theorem toNat_of_isAlphanum {c : Char} (h : c.isAlphanum = true) :
    (0x41 ≤ c.toNat ∧ c.toNat ≤ 0x5a) ∨ (0x61 ≤ c.toNat ∧ c.toNat ≤ 0x7a) ∨
      (0x30 ≤ c.toNat ∧ c.toNat ≤ 0x39) := by
  change ((decide ('A'.val ≤ c.val ∧ c.val ≤ 'Z'.val) ||
    (decide ('a'.val ≤ c.val) && decide (c.val ≤ 'z'.val))) || c.isDigit) = true at h
  simpa [UInt32.le_iff_toNat_le, Char.isDigit_iff_toNat, or_assoc] using h

theorem needsNoQuote_toNat {c : Char} (h : needsNoQuote c = true) :
    (0x21 ≤ c.toNat ∧ c.toNat < 0x7f) ∧
      c.toNat ≠ 0x22 ∧ c.toNat ≠ 0x23 ∧ c.toNat ≠ 0x27 ∧ c.toNat ≠ 0x5c := by
  simp only [needsNoQuote, Bool.or_eq_true, decide_eq_true_eq] at h
  rcases h with ((((((((((alphanum | rfl) | rfl) | rfl) | rfl) | rfl) | rfl) | rfl) | rfl) | rfl) |
    rfl)
  · have := toNat_of_isAlphanum alphanum
    omega
  all_goals decide

theorem bare_of_needsNoQuote {c : Char} (h : needsNoQuote c = true) :
    separatesWords c = false ∧ c ≠ '\'' ∧ c ≠ '"' ∧ c ≠ '\\' := by
  obtain ⟨⟨low, _⟩, doubleQuote, _, quote, backslash⟩ := needsNoQuote_toNat h
  refine ⟨?_, ?_, ?_, ?_⟩
  · simp only [separatesWords, Bool.or_eq_false_iff, decide_eq_false_iff_not]
    refine ⟨⟨⟨?_, ?_⟩, ?_⟩, ?_⟩ <;> rintro rfl <;> simp at low
  · rintro rfl
    exact quote rfl
  · rintro rfl
    exact doubleQuote rfl
  · rintro rfl
    exact backslash rfl

theorem scanWords_bare {cs : List Char} (h : cs.all needsNoQuote = true) (word rest : List Char) :
    scanWords .bare word (cs ++ rest) = scanWords .bare (cs.reverse ++ word) rest := by
  induction cs generalizing word with
  | nil => rfl
  | cons c cs ih =>
      simp only [List.all_cons, Bool.and_eq_true] at h
      obtain ⟨separator, quote, doubleQuote, backslash⟩ := bare_of_needsNoQuote h.1
      simp [scanWords, separator, quote, doubleQuote, backslash, ih h.2]

theorem scanWords_single (cs word rest : List Char) :
    scanWords .single word
        (cs.flatMap (fun c => if c = '\'' then ['\'', '"', '\'', '"', '\''] else [c]) ++
          '\'' :: rest) =
      scanWords .bare (cs.reverse ++ word) rest := by
  induction cs generalizing word with
  | nil => simp [scanWords]
  | cons c cs ih =>
      by_cases quote : c = '\'' <;> simp [scanWords, separatesWords, quote, ih]

theorem scanWords_quoteWordChars (cs rest : List Char) :
    scanWords .gap [] (quoteWordChars cs ++ rest) = scanWords .bare cs.reverse rest := by
  unfold quoteWordChars
  split
  · rename_i plain
    cases cs with
    | nil => simp at plain
    | cons c cs =>
        simp only [List.isEmpty_cons, Bool.not_false, Bool.true_and, List.all_cons,
          Bool.and_eq_true] at plain
        obtain ⟨separator, quote, doubleQuote, backslash⟩ := bare_of_needsNoQuote plain.1
        simp [scanWords, separator, quote, doubleQuote, backslash, scanWords_bare plain.2]
  · have single := scanWords_single cs [] rest
    simpa [scanWords, separatesWords] using single

theorem splitWords_lineOf (words : List String) : splitWords (lineOf words) = .ok words := by
  unfold splitWords lineOf
  induction words with
  | nil => rfl
  | cons word words ih =>
      cases words with
      | nil =>
          have scan := scanWords_quoteWordChars word.toList []
          simpa [quoteWord, scanWords] using scan
      | cons next words =>
          have scan := scanWords_quoteWordChars word.toList
            (' ' :: (String.intercalate " " ((next :: words).map quoteWord)).toList)
          rw [List.map_cons, String.intercalate_cons_of_ne_nil (by simp)]
          simp only [String.toList_append, quoteWord, String.toList_ofList, List.append_assoc,
            String.reduceToList, List.singleton_append]
          rw [scan]
          simp only [scanWords, separatesWords, decide_true, Bool.true_or, if_true, ih, bind,
            Except.bind, pure, Except.pure, List.reverse_reverse, String.ofList_toList]

theorem isBlank_of_needsNoQuote {c : Char} (h : needsNoQuote c = true) : isBlank c = false := by
  obtain ⟨⟨low, high⟩, _⟩ := needsNoQuote_toNat h
  simp only [isBlank, Bool.or_eq_false_iff, Bool.and_eq_false_iff, decide_eq_false_iff_not,
    beq_eq_false_iff_ne]
  omega

theorem mem_ends_quoteWordChars {cs : List Char} {c : Char}
    (h : (quoteWordChars cs).head? = some c ∨ (quoteWordChars cs).getLast? = some c) :
    isBlank c = false ∧ c ≠ '#' := by
  unfold quoteWordChars at h
  split at h
  · rename_i plain
    simp only [Bool.and_eq_true, List.all_eq_true] at plain
    have mem : c ∈ cs := h.elim List.mem_of_head? List.mem_of_getLast?
    refine ⟨isBlank_of_needsNoQuote (plain.2 c mem), ?_⟩
    rintro rfl
    exact absurd (plain.2 _ mem) (by decide)
  · have quote : c = '\'' := by
      rcases h with first | last
      · exact (Option.some.inj first).symm
      · rw [List.getLast?_concat] at last
        exact (Option.some.inj last).symm
    subst quote
    decide

theorem quoteWordChars_ne_nil (cs : List Char) : quoteWordChars cs ≠ [] := by
  unfold quoteWordChars
  cases cs <;> simp
  split <;> simp

theorem lineOf_cons (word : String) {words : List String} (h : words ≠ []) :
    (lineOf (word :: words)).toList = quoteWordChars word.toList ++ ' ' :: (lineOf words).toList := by
  unfold lineOf
  rw [List.map_cons, String.intercalate_cons_of_ne_nil (by simpa using h)]
  simp [quoteWord]

theorem lineOf_singleton (word : String) :
    (lineOf [word]).toList = quoteWordChars word.toList := by
  simp [lineOf, quoteWord]

theorem lineOf_ne_nil {words : List String} (h : words ≠ []) : (lineOf words).toList ≠ [] := by
  cases words with
  | nil => exact absurd rfl h
  | cons word words =>
      by_cases none : words = []
      · rw [none, lineOf_singleton]
        exact quoteWordChars_ne_nil _
      · simp [lineOf_cons word none]

theorem head?_lineOf {words : List String} {c : Char}
    (h : (lineOf words).toList.head? = some c) : isBlank c = false ∧ c ≠ '#' := by
  cases words with
  | nil => simp [lineOf] at h
  | cons word words =>
      have first : (quoteWordChars word.toList).head? = some c := by
        by_cases none : words = []
        · rwa [none, lineOf_singleton] at h
        · rwa [lineOf_cons word none,
            List.head?_append_of_ne_nil _ (quoteWordChars_ne_nil _)] at h
      exact mem_ends_quoteWordChars (.inl first)

theorem getLast?_lineOf {words : List String} {c : Char}
    (h : (lineOf words).toList.getLast? = some c) : isBlank c = false := by
  induction words with
  | nil => simp [lineOf] at h
  | cons word words ih =>
      by_cases none : words = []
      · rw [none, lineOf_singleton] at h
        exact (mem_ends_quoteWordChars (.inr h)).1
      · rw [lineOf_cons word none, List.getLast?_append_cons,
          List.getLast?_cons_of_ne_nil (lineOf_ne_nil none)] at h
        exact ih h

theorem trim_eq_self {blank : Char → Bool} {cs : List Char}
    (first : ∀ c, cs.head? = some c → blank c = false)
    (last : ∀ c, cs.getLast? = some c → blank c = false) : trim blank cs = cs := by
  have keeps : ∀ ds : List Char, (∀ c, ds.head? = some c → blank c = false) →
      ds.dropWhile blank = ds := by
    intro ds h
    cases ds with
    | nil => rfl
    | cons d ds => simp [h d rfl]
  unfold trim
  rw [keeps cs first, keeps cs.reverse (by simpa using last), List.reverse_reverse]

theorem strip_lineOf (words : List String) : strip (lineOf words) = lineOf words := by
  unfold strip
  rw [trim_eq_self (fun c h => (head?_lineOf h).1) (fun c h => getLast?_lineOf h),
    String.ofList_toList]

theorem mem_quoteWordChars {cs : List Char} {c : Char} (h : c ∈ quoteWordChars cs) :
    c ∈ cs ∨ c = '\'' ∨ c = '"' := by
  unfold quoteWordChars at h
  split at h
  · exact .inl h
  · simp only [List.cons_append, List.mem_cons, List.mem_append, List.mem_flatMap, List.not_mem_nil,
      or_false] at h
    rcases h with quote | ⟨d, hd, here⟩ | quote
    · exact .inr (.inl quote)
    · split at here
      · simp at here
        exact .inr (by tauto)
      · obtain rfl := List.mem_singleton.1 here
        exact .inl hd
    · exact .inr (.inl quote)

theorem isLine_quoteWord {word : String} (h : IsLine word) : IsLine (quoteWord word) := by
  intro c hc
  rw [quoteWord, String.toList_ofList] at hc
  rcases mem_quoteWordChars hc with mem | rfl | rfl
  · exact h c mem
  · decide
  · decide

theorem isLine_lineOf {words : List String} (h : ∀ word ∈ words, IsLine word) :
    IsLine (lineOf words) := by
  induction words with
  | nil => simp [IsLine, lineOf]
  | cons word words ih =>
      obtain ⟨first, others⟩ := List.forall_mem_cons.1 h
      have quoted : ∀ c ∈ quoteWordChars word.toList, c ≠ '\n' ∧ c ≠ '\r' := by
        simpa [IsLine, quoteWord] using isLine_quoteWord first
      intro c hc
      by_cases none : words = []
      · rw [none, lineOf_singleton] at hc
        exact quoted c hc
      · rw [lineOf_cons word none, List.mem_append, List.mem_cons] at hc
        rcases hc with here | rfl | later
        · exact quoted c here
        · decide
        · exact ih others c later

section Parts

variable {separates : Char → Bool} {part cs ds : List Char} {c : Char} {word : String}

theorem partsBetween_append (part cs ds : List Char) (h : separates c = true) :
    partsBetween separates part (cs ++ c :: ds) =
      partsBetween separates part cs ++ partsBetween separates [] ds := by
  induction cs generalizing part with
  | nil =>
      simp only [List.nil_append, partsBetween, h, if_true]
      split <;> rfl
  | cons d cs ih =>
      simp only [List.cons_append, partsBetween, ih]
      split
      · split <;> rfl
      · rfl

theorem partsBetween_of_whole (whole : ∀ c ∈ cs, separates c = false) (h : part ≠ [] ∨ cs ≠ []) :
    partsBetween separates part cs = [String.ofList (part.reverse ++ cs)] := by
  induction cs generalizing part with
  | nil =>
      have nonempty : part ≠ [] := by simpa using h
      simp [partsBetween, nonempty]
  | cons d cs ih =>
      obtain ⟨first, others⟩ := List.forall_mem_cons.1 whole
      simp [partsBetween, first, ih others (.inl (List.cons_ne_nil d part))]

theorem forall_ofList_reverse {P : Char → Prop} (nonempty : part ≠ []) (early : ∀ c ∈ part, P c) :
    String.ofList part.reverse ≠ "" ∧ ∀ c ∈ (String.ofList part.reverse).toList, P c := by
  refine ⟨fun empty => nonempty ?_, by simpa using early⟩
  simpa using congrArg String.toList empty

theorem forall_mem_partsBetween {P : Char → Prop}
    (early : ∀ c ∈ part, separates c = false ∧ P c) (late : ∀ c ∈ cs, P c)
    (h : word ∈ partsBetween separates part cs) :
    word ≠ "" ∧ ∀ c ∈ word.toList, separates c = false ∧ P c := by
  have none : ∀ c ∈ ([] : List Char), separates c = false ∧ P c := by simp
  induction cs generalizing part with
  | nil =>
      by_cases empty : part = []
      · simp [partsBetween, empty] at h
      · obtain rfl : word = _ := by simpa [partsBetween, empty] using h
        exact forall_ofList_reverse empty early
  | cons d cs ih =>
      obtain ⟨here, later⟩ := List.forall_mem_cons.1 late
      cases separator : separates d with
      | false =>
          simp only [partsBetween, separator, Bool.false_eq_true, if_false] at h
          exact ih (List.forall_mem_cons.2 ⟨⟨separator, here⟩, early⟩) later h
      | true =>
          by_cases empty : part = []
          · simp only [partsBetween, separator, empty, List.isEmpty_nil, if_true] at h
            exact ih none later h
          · simp only [partsBetween, separator, List.isEmpty_iff, empty, if_true, if_false,
              List.mem_cons] at h
            rcases h with rfl | others
            · exact forall_ofList_reverse empty early
            · exact ih none later others

theorem mem_part_of_mem (separates : Char → Bool) {part : List Char} (h : c ∈ part ∨ c ∈ cs)
    (inside : separates c = false) :
    ∃ word ∈ partsBetween separates part cs, c ∈ word.toList := by
  induction cs generalizing part with
  | nil =>
      have mem : c ∈ part := by simpa using h
      have nonempty := List.ne_nil_of_mem mem
      exact ⟨String.ofList part.reverse, by simp [partsBetween, nonempty], by simpa using mem⟩
  | cons d cs ih =>
      cases separator : separates d with
      | false =>
          have mem : c ∈ d :: part ∨ c ∈ cs := by
            rcases h with early | late
            · exact .inl (List.mem_cons_of_mem d early)
            · rcases List.mem_cons.1 late with rfl | later
              · exact .inl List.mem_cons_self
              · exact .inr later
          simpa [partsBetween, separator] using ih mem
      | true =>
          have other : c ≠ d := fun same => by simp [same, separator] at inside
          have mem : c ∈ part ∨ c ∈ cs := by simpa [other] using h
          by_cases empty : part = []
          · simpa [partsBetween, separator, empty] using ih (mem.imp (empty ▸ ·) id)
          · rcases mem with early | late
            · exact ⟨String.ofList part.reverse, by simp [partsBetween, separator, empty],
                by simpa using early⟩
            · obtain ⟨word, there, here⟩ := @ih [] (.inr late)
              exact ⟨word, by simp [partsBetween, separator, empty, there], here⟩

end Parts

end Acceptor.Text
