import Acceptor.Command.Basic
import Acceptor.Proofs.Text.Numeral

namespace Acceptor

namespace Arguments
open Text

theorem classify_of_head? {s : String} (h : s.toList.head? ≠ some '-') (flags : List Flag) :
    classify flags s = .ok (.plain s) := by
  simp [classify, h]

theorem ne_divider_of_head? {s : String} (h : s.toList.head? ≠ some '-') : s ≠ "--" := by
  rintro rfl
  exact h rfl

/-- The word would be a flag: only numbers that look like this are not taken for one. -/
def LooksLikeFlag (s : String) : Prop :=
  s.toList.head? = some '-' ∧ 1 < s.length ∧ ' ' ∉ s.toList

instance (s : String) : Decidable (LooksLikeFlag s) := inferInstanceAs (Decidable (_ ∧ _ ∧ _))

theorem eq_dash_iff {s : String} (h : s.toList.head? = some '-') : s = "-" ↔ ¬ 1 < s.length := by
  obtain ⟨cs, hcs⟩ := List.head?_eq_some_iff.1 h
  have size : s.length = cs.length + 1 := by rw [← String.length_toList, hcs, List.length_cons]
  rw [← String.toList_inj, hcs, size]
  simp

theorem classify_nil (s : String) :
    classify [] s =
      .ok (if LooksLikeFlag s ∧ isNegativeNumber s = false then .stray s else .plain s) := by
  by_cases dashed : s.toList.head? = some '-'
  · by_cases long : 1 < s.length
    · have other : s ≠ "-" := fun e => (eq_dash_iff dashed).1 e long
      simp only [classify, dashed, other, ofDashed, LooksLikeFlag, long]
      cases isNegativeNumber s <;> by_cases space : ' ' ∈ s.toList <;> simp [space]
    · have dash := (eq_dash_iff dashed).2 long
      subst dash
      rfl
  · simp [classify, dashed, LooksLikeFlag]

theorem classifyAll_cons {s : String} (h : s ≠ "--") (flags : List Flag) (ss : List String) :
    classifyAll flags (s :: ss) =
      (classify flags s).bind fun w => (classifyAll flags ss).map (w :: ·) := by
  rw [classifyAll, if_neg h]
  cases classify flags s with
  | error e => rfl
  | ok w => cases classifyAll flags ss <;> rfl

theorem values_singleton (o : Operand) {s : String} (h : s ≠ "--") :
    values o [.plain s] = (value o s).map ([·]) := by
  have kept : [s].erase "--" = [s] := by simp [h]
  simp only [values, List.map_cons, List.map_nil, Word.text, kept, List.mapM_cons, List.mapM_nil]
  cases value o s <;> rfl

theorem value_toString {o : Operand} (numeric : o.numeric = true) (n : Nat) :
    value o (toString n) =
      if IsReadable n then .ok (.number n) else .error (.notANumber o.name (toString n)) := by
  rw [value, if_pos numeric, integer?_toString]
  split <;> simp_all

theorem value_text {o : Operand} (text : o.numeric = false) (s : String) :
    value o s = .ok (.text s) := by
  simp [value, text]

theorem take?_one (s : String) {ws : List Word} (h : ws.head?.any Word.isDivider = false) :
    take? .one (.plain s :: ws) = some ([.plain s], ws) := by
  have plain : (Word.plain s).isDivider = false := rfl
  cases ws with
  | nil => rfl
  | cons w ws =>
      have next : w.isDivider = false := by simpa using h
      simp [take?, takeOne?, plain, next]

theorem fill_one {a : Filled} {o : Operand} {os : List Operand} {s : String} {ws : List Word}
    (one : o.arity = .one) (h : s ≠ "--") (next : ws.head?.any Word.isDivider = false) :
    a.fill (o :: os) (.plain s :: ws) =
      (value o s).bind fun v => Filled.fill { a with operands := a.operands ++ [(o, [v])] } os ws := by
  simp only [Filled.fill, one, take?_one s next, values_singleton o h, bind]
  cases value o s <;> rfl

theorem fill_last {a : Filled} {o : Operand} {s : String} (h : s ≠ "--") :
    a.fill [o] [.plain s] =
      (value o s).bind fun v => .ok { a with operands := a.operands ++ [(o, [v])], todo := [] } := by
  have takes : take? o.arity [.plain s] = some ([.plain s], []) := by cases o.arity <;> rfl
  simp only [Filled.fill, takes, values_singleton o h, bind]
  cases value o s with
  | error e => rfl
  | ok v => simp [Except.map, Except.bind]

theorem fill_numbers {a : Filled} {o o' : Operand} {os : List Operand} {ws : List Word}
    (one : o.arity = .one ∧ o'.arity = .one) (numeric : o.numeric = true ∧ o'.numeric = true)
    (i j : Nat) (next : ws.head?.any Word.isDivider = false) :
    a.fill (o :: o' :: os) (.plain (toString i) :: .plain (toString j) :: ws) =
      if ¬ IsReadable i then .error (.notANumber o.name (toString i))
      else if ¬ IsReadable j then .error (.notANumber o'.name (toString j))
      else Filled.fill
        { a with operands := a.operands ++ [(o, [.number i])] ++ [(o', [.number j])] } os ws := by
  have plain : ∀ n : Nat, toString n ≠ "--" := fun n => ne_divider_of_head? (head?_toString n)
  rw [fill_one one.1 (plain i) rfl, value_toString numeric.1]
  by_cases readable : IsReadable i
  · simp only [readable, if_true, not_true, if_false, Except.bind]
    rw [fill_one one.2 (plain j) next, value_toString numeric.2]
    by_cases readable' : IsReadable j
    · simp only [readable', if_true, not_true, if_false, Except.bind]
    · simp only [readable', if_false, not_false_eq_true, if_true, Except.bind]
  · simp only [readable, if_false, not_false_eq_true, if_true, Except.bind]

theorem values_texts {o : Operand} (text : o.numeric = false) (ss : List String) :
    ss.mapM (value o) = .ok (ss.map .text) := by
  induction ss with
  | nil => rfl
  | cons s ss ih =>
      rw [List.mapM_cons, value_text text, ih]
      rfl

theorem take_plain {a : Filled} (ss : List String) (run : List Word) :
    a.take run (ss.map .plain) = a.fill a.todo (run ++ ss.map .plain) := by
  induction ss generalizing run with
  | nil => rw [List.map_nil, Filled.take, List.append_nil]
  | cons s ss ih =>
      have read : a.take run (.plain s :: ss.map .plain) =
          a.take (run ++ [.plain s]) (ss.map .plain) := by simp [Filled.take]
      rw [List.map_cons, read, ih, List.append_assoc, List.singleton_append]

theorem fill_divided {a : Filled} {o : Operand} {ss : List String} (many : o.arity = .many)
    (text : o.numeric = false) (h : ss ≠ []) :
    a.fill [o] (.divider :: ss.map .plain) =
      .ok { a with operands := a.operands ++ [(o, ss.map .text)], todo := [] } := by
  have some : ((Word.divider :: ss.map Word.plain).all Word.isDivider) = false := by
    obtain ⟨s, ss, rfl⟩ := List.exists_cons_of_ne_nil h
    rfl
  have takes : take? o.arity (.divider :: ss.map .plain) = .some (.divider :: ss.map .plain, []) := by
    rw [many, take?, some]
    rfl
  have texts : (Word.divider :: ss.map Word.plain).map Word.text = "--" :: ss := by
    rw [List.map_cons, List.map_map]
    exact congrArg ("--" :: ·) (List.map_id ss)
  have read : values o (.divider :: ss.map .plain) = .ok (ss.map .text) := by
    rw [values, texts, List.erase_cons_head, values_texts text]
  simp only [Filled.fill, takes, read, bind, Except.bind, List.map_nil, List.append_nil]

theorem arguments_of_classifyAll {spec : Spec} {words : List String} {ws : List Word}
    (h : classifyAll spec.flags words = .ok ws) :
    spec.arguments words =
      (Filled.take { todo := spec.operands } [] ws).bind fun a =>
        if a.missing.isEmpty then .ok a else .error (.missing a.missing) := by
  simp only [Spec.arguments, h, bind, Except.bind]
  rfl

end Arguments

namespace Command
open Arguments Text

theorem ofWords_cons {name : String} {rest : List String} {spec : Spec}
    (plain : name.toList.head? ≠ some '-') (found : Spec.find? name = some spec) :
    ofWords (name :: rest) =
      (spec.arguments rest).bind fun a =>
        if a.leftOver.isEmpty then .ok (ofArguments spec a) else .error (.leftOver a.leftOver) := by
  have notStray : isStray name = false := by
    simp [isStray, classify_of_head? plain]
  have notDivider := ne_divider_of_head? plain
  have strays : (name :: rest).takeWhile isStray = [] := by simp [notStray]
  have kept : (name :: rest).dropWhile isStray = name :: rest := by simp [notStray]
  unfold ofWords
  rw [strays, kept]
  split
  · rename_i none
    simp at none
  · rename_i divider
    exact absurd (List.cons.inj divider).1 notDivider
  · rename_i name' rest' _ same
    obtain ⟨rfl, rfl⟩ := List.cons.inj same
    rw [found]
    rfl

theorem ofWords_start (n : Nat) :
    ofWords ["start", toString n] =
      if IsReadable n then .ok (.setStart n) else .error (.notANumber "STATE" (toString n)) := by
  have head := head?_toString n
  have plain : ∀ flags, classifyAll flags [toString n] = .ok [.plain (toString n)] := by
    intro flags
    rw [classifyAll_cons (ne_divider_of_head? head), classify_of_head? head]
    rfl
  rw [ofWords_cons (by decide) rfl, arguments_of_classifyAll (plain _)]
  simp only [Filled.take, List.nil_append]
  rw [fill_last (ne_divider_of_head? head), value_toString rfl]
  split <;> rfl

def edgeComplaint (i j : Nat) (label : String) : Option Complaint :=
  if ¬ IsReadable i then some (.notANumber "SOURCE" (toString i))
  else if ¬ IsReadable j then some (.notANumber "DEST" (toString j))
  else if LooksLikeFlag label ∧ isNegativeNumber label = false then some (.missing ["CLASS"])
  else none

theorem ofWords_edge (i j : Nat) {label : String} (h : label ≠ "--") :
    ofWords ["edge", toString i, toString j, label] =
      (edgeComplaint i j label).elim (.ok (.addEdge i (some j) (some label))) .error := by
  have headI := head?_toString i
  have headJ := head?_toString j
  have classified : classifyAll [] [toString i, toString j, label] =
      .ok [.plain (toString i), .plain (toString j),
        if LooksLikeFlag label ∧ isNegativeNumber label = false then .stray label
        else .plain label] := by
    rw [classifyAll_cons (ne_divider_of_head? headI), classify_of_head? headI,
      classifyAll_cons (ne_divider_of_head? headJ), classify_of_head? headJ,
      classifyAll_cons h, classify_nil]
    rfl
  rw [ofWords_cons (by decide) rfl, arguments_of_classifyAll classified, edgeComplaint]
  by_cases flag : LooksLikeFlag label ∧ isNegativeNumber label = false
  · simp only [if_pos flag, Filled.take, List.nil_append, List.cons_append, Filled.pass,
      List.isEmpty_cons, Bool.false_eq_true, if_false]
    rw [fill_numbers ⟨rfl, rfl⟩ ⟨rfl, rfl⟩ i j rfl]
    split
    · rfl
    · split <;> rfl
  · simp only [if_neg flag, Filled.take, List.nil_append, List.cons_append]
    rw [fill_numbers ⟨rfl, rfl⟩ ⟨rfl, rfl⟩ i j rfl]
    split
    · rfl
    · split
      · rfl
      · rw [fill_last h, value_text rfl]
        rfl

theorem classifyAll_singleton {s : String} (h : s ≠ "--") :
    classifyAll [] [s] =
      .ok [if LooksLikeFlag s ∧ isNegativeNumber s = false then .stray s else .plain s] := by
  rw [classifyAll_cons h, classify_nil]
  rfl

theorem ofWords_save {file : String} (h : file ≠ "--") :
    ofWords ["save", file] =
      if LooksLikeFlag file ∧ isNegativeNumber file = false then .error (.leftOver [file])
      else .ok (.save (some file)) := by
  rw [ofWords_cons (by decide) rfl, arguments_of_classifyAll (classifyAll_singleton h)]
  split
  · rfl
  · simp only [Filled.take, List.nil_append]
    rw [fill_last h, value_text rfl]
    rfl

theorem ofWords_source {file : String} (h : file ≠ "--") :
    ofWords ["source", file] =
      if LooksLikeFlag file ∧ isNegativeNumber file = false then .error (.missing ["FILE"])
      else .ok (.source [file]) := by
  rw [ofWords_cons (by decide) rfl, arguments_of_classifyAll (classifyAll_singleton h)]
  split
  · rfl
  · simp only [Filled.take, List.nil_append]
    rw [fill_last h, value_text rfl]
    rfl

theorem ofWords_match {texts : List String} (h : texts ≠ []) :
    ofWords ("match" :: "--" :: texts) = .ok (.run texts false) := by
  have classified : ∀ flags, classifyAll flags ("--" :: texts) =
      .ok (.divider :: texts.map .plain) := fun _ => rfl
  rw [ofWords_cons (by decide) rfl, arguments_of_classifyAll (classified _)]
  simp only [Filled.take, List.nil_append, take_plain, List.singleton_append]
  rw [fill_divided rfl rfl h]
  simp [Except.bind, ofArguments, Filled.missing, Filled.has, Filled.texts, Filled.values,
    List.filterMap_map]

end Command

end Acceptor
