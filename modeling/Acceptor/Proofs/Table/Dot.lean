import Mathlib.Data.List.Sort
import Acceptor.Proofs.Table.WellFormed
import Acceptor.Proofs.Text.Numeral
import Acceptor.Table.Dot

/-!
# Reading a graph back

Every line of a graph ends where it says, whatever stands in the labels and whatever follows
(`DotItem.chars_append_inj`). So a graph tells what its table is (`dot_eq_iff`).
-/

namespace Acceptor

open Text

/-! ## Labels and numerals -/

/-- Reads up to the quote that ends a label, and gives what follows it. A backslash takes the character
after it as it is. -/
def readLabel : List Char → List Char × List Char
  | [] => ([], [])
  | '"' :: cs => ([], cs)
  | '\\' :: c :: cs => (c :: (readLabel cs).1, (readLabel cs).2)
  | c :: cs => (c :: (readLabel cs).1, (readLabel cs).2)

theorem readLabel_plain {c : Char} (noBackslash : c ≠ '\\') (noQuote : c ≠ '"') (cs : List Char) :
    readLabel (c :: cs) = (c :: (readLabel cs).1, (readLabel cs).2) := by
  rw [readLabel]
  · exact noQuote
  · exact fun _ _ same _ => noBackslash same

theorem readLabel_dotLabel (label rest : List Char) :
    readLabel (Table.dotLabel label ++ '"' :: rest) = (label, rest) := by
  induction label with
  | nil => rfl
  | cons c label ih =>
      rw [Table.dotLabel, List.flatMap_cons, ← Table.dotLabel, List.append_assoc]
      split
      · rw [List.cons_append, List.singleton_append, readLabel, ih]
      · rename_i plain
        simp only [Bool.or_eq_true, decide_eq_true_eq, not_or] at plain
        rw [List.singleton_append, readLabel_plain plain.1 plain.2, ih]

example : readLabel (Table.dotLabel "\\\"];\n".toList ++ "\"];\n".toList) =
    ("\\\"];\n".toList, "];\n".toList) := by
  decide

theorem dotLabel_append_inj {label label' rest rest' : List Char}
    (h : Table.dotLabel label ++ '"' :: rest = Table.dotLabel label' ++ '"' :: rest') :
    label = label' ∧ rest = rest' := by
  have read := congrArg readLabel h
  rw [readLabel_dotLabel, readLabel_dotLabel] at read
  exact Prod.mk.inj read

theorem span_toDigits {c : Char} (n : Nat) (other : c.isDigit = false) (rest : List Char) :
    (Nat.toDigits 10 n ++ c :: rest).span Char.isDigit = (Nat.toDigits 10 n, c :: rest) := by
  have digits : ∀ d ∈ Nat.toDigits 10 n, d.isDigit = true :=
    fun d hd => Nat.isDigit_of_mem_toDigits (by decide) (by decide) hd
  rw [List.span_eq_takeWhile_dropWhile, List.takeWhile_append_of_pos digits,
    List.dropWhile_append_of_pos digits]
  simp [other]

theorem toDigits_append_inj {m n : Nat} {c d : Char} {rest rest' : List Char}
    (ends : c.isDigit = false) (ends' : d.isDigit = false)
    (h : Nat.toDigits 10 m ++ c :: rest = Nat.toDigits 10 n ++ d :: rest') :
    m = n ∧ c :: rest = d :: rest' := by
  have read := congrArg (List.span Char.isDigit) h
  rw [span_toDigits m ends, span_toDigits n ends'] at read
  obtain ⟨digits, same⟩ := Prod.mk.inj read
  have value := congrArg (Nat.ofDigitChars 10 · 0) digits
  simp only [Nat.ofDigitChars_ten_toDigits] at value
  exact ⟨value, same⟩

theorem toDigits_append_ne_quote (n : Nat) (rest rest' : List Char) :
    Nat.toDigits 10 n ++ rest ≠ '"' :: rest' := by
  intro h
  obtain ⟨none, -⟩ | ⟨more, digits, -⟩ := List.append_eq_cons_iff.1 h
  · exact Nat.toDigits_ne_nil none
  · have quote : '"' ∈ Nat.toDigits 10 n := digits ▸ List.mem_cons_self
    exact absurd (Nat.isDigit_of_mem_toDigits (by decide) (by decide) quote) (by decide)

/-! ## Lines -/

inductive DotItem
  | accepting (state : Nat)
  | start (state : Nat)
  | edge (source dest : Nat) (label : String)
  deriving DecidableEq, Repr

namespace DotItem

def line : DotItem → String
  | accepting s => s!"\t{s} [shape = doublecircle];"
  | start s => s!"\t\"\" -> {s};"
  | edge source dest label =>
      let escaped := String.ofList (Table.dotLabel label.toList)
      s!"\t{source} -> {dest} [label = \"{escaped}\"];"

def chars (x : DotItem) : List Char := x.line.toList ++ ['\n']

theorem chars_accepting (s : Nat) :
    (accepting s).chars =
      '\t' :: (Nat.toDigits 10 s ++ ' ' :: '[' :: "shape = doublecircle];\n".toList) := by
  have line : (accepting s).line = "\t" ++ toString s ++ " [shape = doublecircle];" := rfl
  simp [chars, line]

theorem chars_start (s : Nat) :
    (start s).chars = '\t' :: '"' :: ("\" -> ".toList ++ (Nat.toDigits 10 s ++ [';', '\n'])) := by
  have line : (start s).line = "\t\"\" -> " ++ toString s ++ ";" := rfl
  simp [chars, line]

theorem chars_edge (source dest : Nat) (label : String) :
    (edge source dest label).chars =
      '\t' :: (Nat.toDigits 10 source ++ ' ' :: '-' :: ("> ".toList ++ (Nat.toDigits 10 dest ++
        ' ' :: ("[label = \"".toList ++ (Table.dotLabel label.toList ++ '"' :: "];\n".toList))))) := by
  have line : (edge source dest label).line =
      "\t" ++ toString source ++ " -> " ++ toString dest ++ " [label = \"" ++
        String.ofList (Table.dotLabel label.toList) ++ "\"];" := rfl
  simp [chars, line]

theorem head?_chars (x : DotItem) : x.chars.head? = some '\t' := by
  cases x with
  | accepting s => rw [chars_accepting, List.head?_cons]
  | start s => rw [chars_start, List.head?_cons]
  | edge source dest label => rw [chars_edge, List.head?_cons]

theorem chars_append_inj {x y : DotItem} {rest rest' : List Char}
    (h : x.chars ++ rest = y.chars ++ rest') : x = y ∧ rest = rest' := by
  have space : (' ').isDigit = false := rfl
  have semicolon : (';').isDigit = false := rfl
  cases x <;> cases y <;>
    simp only [chars_accepting, chars_start, chars_edge, List.cons_append, List.append_assoc,
      List.cons.injEq, true_and] at h
  case accepting.accepting s s' =>
    obtain ⟨rfl, same⟩ := toDigits_append_inj space space h
    simp only [List.cons.injEq, true_and, List.append_cancel_left_eq] at same
    exact ⟨rfl, same⟩
  case start.start s s' =>
    rw [List.append_cancel_left_eq] at h
    obtain ⟨rfl, same⟩ := toDigits_append_inj semicolon semicolon h
    simp only [List.cons.injEq, true_and, List.nil_append] at same
    exact ⟨rfl, same⟩
  case edge.edge s d label s' d' label' =>
    obtain ⟨rfl, same⟩ := toDigits_append_inj space space h
    simp only [List.cons.injEq, true_and, List.append_cancel_left_eq] at same
    obtain ⟨rfl, same⟩ := toDigits_append_inj space space same
    simp only [List.cons.injEq, true_and, List.append_cancel_left_eq] at same
    obtain ⟨labels, same⟩ := dotLabel_append_inj same
    rw [List.append_cancel_left_eq] at same
    exact ⟨by rw [String.toList_inj.1 labels], same⟩
  case accepting.edge s s' d label =>
    obtain ⟨-, same⟩ := toDigits_append_inj space space h
    cases same
  case edge.accepting s d label s' =>
    obtain ⟨-, same⟩ := toDigits_append_inj space space h
    cases same
  case accepting.start | edge.start => exact (toDigits_append_ne_quote _ _ _ h).elim
  case start.accepting | start.edge => exact (toDigits_append_ne_quote _ _ _ h.symm).elim

theorem flatMap_chars_inj {xs ys : List DotItem} {c : Char} {rest : List Char} (other : c ≠ '\t')
    (h : xs.flatMap chars ++ c :: rest = ys.flatMap chars ++ c :: rest) : xs = ys := by
  have tab : ∀ (x : DotItem) (r : List Char), x.chars ++ r ≠ c :: rest := by
    intro x r same
    have head := congrArg List.head? same
    rw [List.head?_append, head?_chars, Option.some_or, List.head?_cons] at head
    exact other (Option.some.inj head).symm
  induction xs generalizing ys with
  | nil =>
      cases ys with
      | nil => rfl
      | cons y ys =>
          rw [List.flatMap_cons, List.append_assoc] at h
          exact absurd h.symm (tab y _)
  | cons x xs ih =>
      rw [List.flatMap_cons, List.append_assoc] at h
      cases ys with
      | nil => exact absurd h (tab x _)
      | cons y ys =>
          rw [List.flatMap_cons, List.append_assoc] at h
          obtain ⟨rfl, later⟩ := chars_append_inj h
          rw [ih later]

def accepting? : DotItem → Option Nat
  | accepting s => some s
  | _ => none

def start? : DotItem → Option Nat
  | start s => some s
  | _ => none

def edge? : DotItem → Option (Nat × Nat × String)
  | edge source dest label => some (source, dest, label)
  | _ => none

end DotItem

/-! ## Graphs -/

namespace Table

def acceptingStates (t : Table) : List Nat :=
  t.states.toList.zipIdx.filterMap fun (s, i) => if s.accepting then some i else none

def startStates (t : Table) : List Nat := if t.states.isEmpty then [] else [t.start]

def printedEdges (t : Table) : List (Nat × Nat × String) :=
  t.edges.map fun (source, e) => (source, e.dest, e.predicate.text)

def items (t : Table) : List DotItem :=
  t.acceptingStates.map .accepting ++ t.startStates.map .start ++
    t.printedEdges.map fun (source, dest, label) => .edge source dest label

theorem toList_unlines (lines : List String) :
    (unlines lines).toList = lines.flatMap fun line => line.toList ++ ['\n'] := by
  induction lines with
  | nil => rfl
  | cons line lines ih =>
      rw [unlines] at ih ⊢
      simp [String.join_cons, ih]

def dotOpening : List String :=
  ["digraph automaton \x7b", "\trankdir=LR;", "\tnode [shape = circle];", "\t\"\" [shape = none];"]

theorem dot_eq (t : Table) :
    t.dot = unlines (dotOpening ++ t.items.map DotItem.line ++ ["\x7d"]) := by
  have states : t.states.toList.zipIdx.filterMap dotState =
      t.acceptingStates.map fun s => (DotItem.accepting s).line := by
    rw [acceptingStates, List.map_filterMap]
    refine List.filterMap_congr fun (s, i) _ => ?_
    simp only [dotState]
    split <;> rfl
  have start : (if t.states.isEmpty then [] else [s!"\t\"\" -> {t.start};"]) =
      t.startStates.map fun s => (DotItem.start s).line := by
    unfold startStates
    split <;> rfl
  rw [dot, states, start]
  simp only [items, printedEdges, dotOpening, List.map_append, List.map_map, List.append_assoc]
  rfl

theorem toList_dot (t : Table) :
    t.dot.toList = (unlines dotOpening).toList ++ (t.items.flatMap DotItem.chars ++ ['\x7d', '\n']) := by
  rw [dot_eq]
  simp only [toList_unlines, List.flatMap_append, List.flatMap_map, List.append_assoc]
  rfl

theorem dot_inj {a b : Table} : a.dot = b.dot ↔ a.items = b.items := by
  constructor
  · intro same
    have chars := congrArg String.toList same
    rw [toList_dot, toList_dot, List.append_cancel_left_eq] at chars
    exact DotItem.flatMap_chars_inj (by decide) chars
  · intro same
    rw [dot_eq, dot_eq, same]

theorem mem_acceptingStates {t : Table} {s : Nat} :
    s ∈ t.acceptingStates ↔ t.isAccepting s = true := by
  simp only [acceptingStates, List.mem_filterMap, Prod.exists, List.mem_zipIdx_iff_getElem?,
    Array.getElem?_toList, isAccepting, Option.any_eq_true, Option.ite_none_right_eq_some,
    Option.some.injEq]
  constructor
  · rintro ⟨st, i, found, accepting, rfl⟩
    exact ⟨st, found, accepting⟩
  · rintro ⟨st, found, accepting⟩
    exact ⟨st, s, found, accepting, rfl⟩

theorem pairwise_acceptingStates (t : Table) : t.acceptingStates.Pairwise (· < ·) := by
  have ascending : (t.states.toList.zipIdx.map Prod.snd).Pairwise (· < ·) := by
    rw [List.zipIdx_map_snd]
    exact List.pairwise_lt_range'
  refine (List.pairwise_map.1 ascending).filterMap _ ?_
  intro (st, i) (st', j) below k first l second
  simp only [Option.ite_none_right_eq_some, Option.some.injEq] at first second
  omega

theorem acceptingStates_inj {a b : Table} :
    a.acceptingStates = b.acceptingStates ↔ ∀ s, a.isAccepting s = b.isAccepting s := by
  constructor
  · intro same s
    rw [Bool.eq_iff_iff, ← mem_acceptingStates, ← mem_acceptingStates, same]
  · intro same
    refine (pairwise_acceptingStates a).eq_of_mem_iff (pairwise_acceptingStates b) fun s => ?_
    rw [mem_acceptingStates, mem_acceptingStates, same]

theorem startStates_of_empty {t : Table} (empty : t.size = 0) : t.startStates = [] := by
  rw [startStates, if_pos (by rwa [Array.isEmpty_iff_size_eq_zero])]

theorem startStates_of_pos {t : Table} (nonempty : 0 < t.size) : t.startStates = [t.start] := by
  rw [startStates, if_neg]
  rw [Array.isEmpty_iff_size_eq_zero]
  exact Nat.ne_of_gt nonempty

theorem startStates_inj {a b : Table} :
    a.startStates = b.startStates ↔
      a.size = 0 ∧ b.size = 0 ∨ 0 < a.size ∧ 0 < b.size ∧ a.start = b.start := by
  rcases Nat.eq_zero_or_pos a.size with empty | nonempty <;>
    rcases Nat.eq_zero_or_pos b.size with empty' | nonempty'
  · simp [startStates_of_empty, empty, empty']
  · simp [startStates_of_empty, startStates_of_pos, empty, nonempty', Nat.ne_of_gt]
  · simp [startStates_of_empty, startStates_of_pos, nonempty, empty', Nat.ne_of_gt]
  · simp [startStates_of_pos, nonempty, nonempty', Nat.ne_of_gt]

theorem filterMap_items (t : Table) :
    t.items.filterMap DotItem.accepting? = t.acceptingStates ∧
      t.items.filterMap DotItem.start? = t.startStates ∧
      t.items.filterMap DotItem.edge? = t.printedEdges := by
  simp [items, List.filterMap_append, List.filterMap_map, Function.comp_def, DotItem.accepting?,
    DotItem.start?, DotItem.edge?]

theorem items_inj {a b : Table} :
    a.items = b.items ↔ a.acceptingStates = b.acceptingStates ∧ a.startStates = b.startStates ∧
      a.printedEdges = b.printedEdges := by
  constructor
  · intro same
    obtain ⟨accepting, start, edges⟩ := a.filterMap_items
    rw [same] at accepting start edges
    obtain ⟨accepting', start', edges'⟩ := b.filterMap_items
    exact ⟨accepting.symm.trans accepting', start.symm.trans start', edges.symm.trans edges'⟩
  · rintro ⟨accepting, start, edges⟩
    rw [items, items, accepting, start, edges]

end Table

/-- The graphs of two tables are the same exactly if the tables have the same accepting states, the same
start, if any, and print the same edges. A quoted label is read back whatever follows it, and no line of
a graph is the beginning of another one. -/
theorem dot_eq_iff :
    (∀ a b : Table, a.dot = b.dot ↔
      (∀ s, a.isAccepting s = b.isAccepting s) ∧
      (a.size = 0 ∧ b.size = 0 ∨ 0 < a.size ∧ 0 < b.size ∧ a.start = b.start) ∧
      a.printedEdges = b.printedEdges) ∧
    (∀ label rest, readLabel (Table.dotLabel label ++ '"' :: rest) = (label, rest)) ∧
    (∀ t : Table, t.dot.toList =
      (unlines Table.dotOpening).toList ++ (t.items.flatMap DotItem.chars ++ ['\x7d', '\n'])) ∧
    ∀ (x y : DotItem) (rest rest' : List Char),
      x.chars ++ rest = y.chars ++ rest' ↔ x = y ∧ rest = rest' := by
  refine ⟨fun a b => ?_, readLabel_dotLabel, Table.toList_dot, fun x y rest rest' => ?_⟩
  · rw [Table.dot_inj, Table.items_inj, Table.acceptingStates_inj, Table.startStates_inj]
  · constructor
    · exact DotItem.chars_append_inj
    · rintro ⟨rfl, rfl⟩
      rfl

end Acceptor
