import Mathlib.Data.List.TakeDrop
import Mathlib.Data.List.TakeWhile
import Acceptor.Text.Lines

namespace Acceptor.Text

/-- A text with every line end a `\n`, where a `\r` may have been held back before it. -/
def unified (held : Bool) (cs : List Char) : List Char :=
  (unifyLineEnds held cs).1 ++ if (unifyLineEnds held cs).2 then ['\n'] else []

theorem unifyLineEnds_append (held : Bool) (cs ds : List Char) :
    unifyLineEnds held (cs ++ ds) =
      ((unifyLineEnds held cs).1 ++ (unifyLineEnds (unifyLineEnds held cs).2 ds).1,
        (unifyLineEnds (unifyLineEnds held cs).2 ds).2) := by
  induction cs generalizing held with
  | nil => rfl
  | cons c cs ih => simp [unifyLineEnds, ih]

theorem unified_append (held : Bool) (cs ds : List Char) :
    unified held (cs ++ ds) =
      (unifyLineEnds held cs).1 ++ unified (unifyLineEnds held cs).2 ds := by
  simp [unified, unifyLineEnds_append]

theorem unified_cons (held : Bool) (c : Char) (cs : List Char) :
    unified held (c :: cs) =
      (if held then ['\n'] else []) ++
        (if c = '\r' ∨ held = true ∧ c = '\n' then [] else [c]) ++ unified (c = '\r') cs := by
  cases held <;> by_cases h : c = '\r' <;> simp [unified, unifyLineEnds, h]

theorem return_notMem_unified (held : Bool) (cs : List Char) : '\r' ∉ unified held cs := by
  induction cs generalizing held with
  | nil => cases held <;> decide
  | cons c cs ih =>
      rw [unified_cons]
      simp only [List.mem_append, not_or]
      refine ⟨⟨by cases held <;> decide, ?_⟩, ih _⟩
      split
      · simp
      · rename_i h
        simp only [not_or] at h
        simpa using Ne.symm h.1

theorem cutLines_cons {line : List Char} {c : Char} {cs : List Char} (h : c ≠ '\r') :
    cutLines line (c :: cs) =
      if c = '\n' then String.ofList line.reverse :: cutLines [] cs
      else cutLines (c :: line) cs := by
  simp [cutLines, h]

theorem cutLines_return {line cs : List Char} (h : cs.head? ≠ some '\n') :
    cutLines line ('\r' :: cs) = String.ofList line.reverse :: cutLines [] cs := by
  cases cs with
  | nil => rfl
  | cons c cs =>
      have : c ≠ '\n' := fun e => h (congrArg some e)
      simp [cutLines, this]

theorem cutLines_unified (held : Bool) (line cs : List Char) :
    cutLines line (if held then '\r' :: cs else cs) = cutLines line (unified held cs) := by
  induction cs generalizing held line with
  | nil => cases held <;> rfl
  | cons c cs ih =>
      rw [unified_cons]
      -- only a `\n` after the `\r` that was held ends no line of its own
      by_cases isReturn : c = '\r'
      · subst isReturn
        cases held with
        | false => simpa using ih true line
        | true =>
            rw [if_pos rfl, cutLines_return (by simp)]
            simpa [cutLines] using ih true []
      · by_cases isNewline : c = '\n'
        · subst isNewline
          cases held with
          | false => simpa [cutLines] using ih false []
          | true => simpa [cutLines] using ih false []
        · cases held with
          | false => simpa [cutLines_cons, isReturn, isNewline] using ih false (c :: line)
          | true =>
              rw [if_pos rfl, cutLines_return (by simpa using isNewline)]
              simpa [cutLines_cons, isReturn, isNewline] using ih false [c]

theorem span_of_notMem {cs : List Char} (h : '\n' ∉ cs) : cs.span (· ≠ '\n') = (cs, []) := by
  have others : ∀ c ∈ cs, decide (c ≠ '\n') = true :=
    fun c hc => decide_eq_true fun e => h (e ▸ hc)
  rw [List.span_eq_takeWhile_dropWhile, List.takeWhile_eq_self_iff.2 others,
    List.dropWhile_eq_nil_iff.2 others]

theorem span_newline {front : List Char} (h : '\n' ∉ front) (rest : List Char) :
    (front ++ '\n' :: rest).span (· ≠ '\n') = (front, '\n' :: rest) := by
  have others : ∀ c ∈ front, decide (c ≠ '\n') = true :=
    fun c hc => decide_eq_true fun e => h (e ▸ hc)
  rw [List.span_eq_takeWhile_dropWhile, List.takeWhile_append_of_pos others,
    List.dropWhile_append_of_pos others]
  simp

def firstLine (cs : List Char) : Option (List Char × List Char) :=
  match cs.span (· ≠ '\n') with
  | (line, _ :: rest) => some (line, rest)
  | ([], []) => none
  | (line, []) => some (line, [])

theorem firstLine_append {front rest : List Char} (h : '\n' ∉ front) :
    firstLine (front ++ '\n' :: rest) = some (front, rest) := by
  simp only [firstLine, span_newline h]

theorem firstLine_of_notMem {cs : List Char} (h : '\n' ∉ cs) :
    firstLine cs = if cs.isEmpty then none else some (cs, []) := by
  simp only [firstLine, span_of_notMem h]
  cases cs <;> rfl

theorem firstLine_subset {cs line rest : List Char} (h : firstLine cs = some (line, rest)) :
    rest ⊆ cs := by
  by_cases ended : '\n' ∈ cs
  · obtain ⟨front, after, rfl, unended⟩ := List.eq_append_cons_of_mem ended
    rw [firstLine_append unended, Option.some.injEq, Prod.mk.injEq] at h
    obtain ⟨rfl, rfl⟩ := h
    simp
  · rw [firstLine_of_notMem ended] at h
    split at h
    · simp at h
    · rw [Option.some.injEq, Prod.mk.injEq] at h
      simp [← h.2]

theorem cutLines_line {cs : List Char} (h : ∀ c ∈ cs, c ≠ '\n' ∧ c ≠ '\r') (line rest : List Char) :
    cutLines line (cs ++ '\n' :: rest) = String.ofList (line.reverse ++ cs) :: cutLines [] rest := by
  induction cs generalizing line with
  | nil => simp [cutLines]
  | cons c cs ih =>
      obtain ⟨here, rest⟩ := List.forall_mem_cons.1 h
      rw [List.cons_append, cutLines_cons here.2, if_neg here.1, ih rest]
      simp

theorem cutLines_unended {cs : List Char} (h : ∀ c ∈ cs, c ≠ '\n' ∧ c ≠ '\r') (line : List Char) :
    cutLines line cs =
      if line.isEmpty && cs.isEmpty then [] else [String.ofList (line.reverse ++ cs)] := by
  induction cs generalizing line with
  | nil => simp [cutLines]
  | cons c cs ih =>
      obtain ⟨here, rest⟩ := List.forall_mem_cons.1 h
      rw [cutLines_cons here.2, if_neg here.1, ih rest]
      simp

theorem cutLines_firstLine {cs : List Char} (noReturn : '\r' ∉ cs) :
    cutLines [] cs =
      match firstLine cs with
      | none => []
      | some (line, rest) => String.ofList line :: cutLines [] rest := by
  by_cases ended : '\n' ∈ cs
  · obtain ⟨front, rest, rfl, unended⟩ := List.eq_append_cons_of_mem ended
    have plain : ∀ c ∈ front, c ≠ '\n' ∧ c ≠ '\r' := fun c hc =>
      ⟨fun e => unended (e ▸ hc), fun e => noReturn (e ▸ List.mem_append_left _ hc)⟩
    rw [cutLines_line plain, firstLine_append unended]
    rfl
  · have plain : ∀ c ∈ cs, c ≠ '\n' ∧ c ≠ '\r' := fun c hc =>
      ⟨fun e => ended (e ▸ hc), fun e => noReturn (e ▸ hc)⟩
    rw [cutLines_unended plain, firstLine_of_notMem ended]
    cases cs <;> simp [cutLines]

theorem length_le_size (cs : List Char) : cs.length ≤ (String.ofList cs).utf8ByteSize := by
  induction cs with
  | nil => exact Nat.zero_le _
  | cons c cs ih =>
      rw [← List.singleton_append, String.ofList_append, String.utf8ByteSize_append,
        ← String.singleton_eq_ofList, String.utf8ByteSize_singleton]
      have := c.utf8Size_pos
      simp only [List.singleton_append, List.length_cons]
      omega

theorem length_cutLines_le (line cs : List Char) :
    (cutLines line cs).length ≤ cs.length + if line.isEmpty then 0 else 1 := by
  fun_induction cutLines line cs with
  | case1 | case2 => simp [*]
  | case3 line cs ih | case4 line c cs _ _ ih =>
      simp only [List.isEmpty_nil, if_true] at ih
      simp only [List.length_cons]
      omega
  | case5 line c cs _ _ ih =>
      simp only [List.isEmpty_cons, Bool.false_eq_true, if_false] at ih
      simp only [List.length_cons]
      omega

theorem length_linesOf_le (text : String) : (linesOf text).length ≤ text.utf8ByteSize := by
  have lines := length_cutLines_le [] text.toList
  have bytes := length_le_size text.toList
  rw [String.ofList_toList] at bytes
  simp only [List.isEmpty_nil, if_true] at lines
  exact Nat.le_trans lines bytes

theorem linesOf_eq (text : String) : linesOf text = cutLines [] (unified false text.toList) :=
  cutLines_unified false [] text.toList

def IsLine (s : String) : Prop := ∀ c ∈ s.toList, c ≠ '\n' ∧ c ≠ '\r'

instance (s : String) : Decidable (IsLine s) :=
  List.decidableBAll (fun c => c ≠ '\n' ∧ c ≠ '\r') s.toList

theorem linesOf_unlines {lines : List String} (h : ∀ s ∈ lines, IsLine s) :
    linesOf (unlines lines) = lines := by
  unfold linesOf unlines
  induction lines with
  | nil => rfl
  | cons s lines ih =>
      obtain ⟨here, rest⟩ := List.forall_mem_cons.1 h
      simp only [List.map_cons, String.join_cons, String.toList_append, List.append_assoc]
      rw [show "\n".toList = ['\n'] from rfl, List.singleton_append, cutLines_line here, ih rest]
      simp

end Acceptor.Text
