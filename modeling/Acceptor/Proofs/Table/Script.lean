import Acceptor.Proofs.CharClass.Label
import Acceptor.Proofs.Table.Sound
import Acceptor.Proofs.Text.Numeral
import Acceptor.Table.Script

namespace Acceptor.Table
open Text

variable {t : Table}

def stateWords (s : State) : List String :=
  if s.accepting then ["state", "--accepting"] else ["state"]

def edgeWords (e : Nat × Edge) : List String :=
  ["edge", toString e.1, toString e.2.dest, e.2.predicate.text]

def stateCommands (t : Table) : List (List String) :=
  ["new"] :: t.states.toList.map stateWords ++
    if t.states.isEmpty then [] else [["start", toString t.start]]

def commands (t : Table) : List (List String) := t.stateCommands ++ t.edges.map edgeWords

theorem lineOf_stateWords (s : State) : lineOf (stateWords s) = stateLine s := by
  unfold stateWords stateLine
  split <;> rfl

theorem lineOf_start (n : Nat) : lineOf ["start", toString n] = s!"start {n}" := by
  have start : quoteWord "start" = "start" := rfl
  simp only [lineOf, List.map_cons, List.map_nil, quoteWord_toString, start]
  rfl

theorem lineOf_edgeWords (source : Nat) (k : CharClass) (dest : Nat) :
    lineOf (edgeWords (source, ⟨.charClass k, dest⟩)) =
      s!"edge {source} {dest} {quoteWord k.text}" := by
  have edge : quoteWord "edge" = "edge" := rfl
  simp only [edgeWords, lineOf, List.map_cons, List.map_nil, quoteWord_toString, edge]
  rfl

theorem writable_ok (lines : List String) : writable (lines.map .ok) = (lines, none) := by
  induction lines with
  | nil => rfl
  | cons line lines ih => simp [writable, ih]

theorem mem_commands {words : List String} (h : words ∈ t.commands) :
    words = ["new"] ∨ (∃ st : State, words = stateWords st) ∨
      words = ["start", toString t.start] ∨ ∃ e ∈ t.edges, words = edgeWords e := by
  unfold commands stateCommands at h
  simp only [List.cons_append, List.mem_cons, List.mem_append, List.mem_map] at h
  rcases h with rfl | (⟨st, -, rfl⟩ | start) | ⟨e, he, rfl⟩
  · exact .inl rfl
  · exact .inr (.inl ⟨st, rfl⟩)
  · split at start
    · simp at start
    · exact .inr (.inr (.inl (List.mem_singleton.1 start)))
  · exact .inr (.inr (.inr ⟨e, he, rfl⟩))

theorem script_eq (h : t.IsRead) : t.script = ⟨unlines (t.commands.map lineOf), none⟩ := by
  have edgeLines : t.edges.map edgeLine = (t.edges.map fun e => lineOf (edgeWords e)).map .ok := by
    rw [List.map_map]
    refine List.map_congr_left fun e he => ?_
    obtain ⟨source, ⟨predicate, dest⟩⟩ := e
    obtain ⟨k, rfl, -⟩ := h.of_mem_edges he
    simp only [edgeLine, Function.comp, lineOf_edgeWords]
  have stateLines : t.stateLines = t.stateCommands.map lineOf := by
    unfold Table.stateLines stateCommands
    simp only [List.map_append, List.map_cons, List.map_map, Function.comp_def, lineOf_stateWords]
    split
    · rfl
    · simp only [List.map_cons, List.map_nil, lineOf_start]
      rfl
  unfold script
  rw [edgeLines, writable_ok, stateLines, commands, List.map_append, List.map_map]
  rfl

/-- `e` is the first of the edges whose predicate is no class, and `before` are those before it. -/
structure FirstUnsavable (edges before : List (Nat × Edge)) (e : Nat × Edge) : Prop where
  split : ∃ after, edges = before ++ e :: after
  saved : ∀ e ∈ before, ∃ k, e.2.predicate = .charClass k
  unsavable : ∃ text holds, e.2.predicate = .test text holds

theorem writable_of_fault {edges : List (Nat × Edge)} {f : Fault}
    (fault : (writable (edges.map edgeLine)).2 = some f) :
    ∃ before e, FirstUnsavable edges before e ∧ f = .unsavable e.1 e.2.dest ∧
      (writable (edges.map edgeLine)).1 = before.map fun e => lineOf (edgeWords e) := by
  induction edges with
  | nil => cases fault
  | cons e edges ih =>
      obtain ⟨source, ⟨predicate, dest⟩⟩ := e
      cases predicate with
      | test text holds =>
          obtain rfl := Option.some.inj fault
          exact ⟨[], _, ⟨⟨edges, rfl⟩, nofun, text, holds, rfl⟩, rfl, rfl⟩
      | charClass k =>
          obtain ⟨before, e, ⟨⟨after, split⟩, saved, unsavable⟩, isFault, written⟩ := ih fault
          refine ⟨(source, ⟨.charClass k, dest⟩) :: before, e, ⟨⟨after, ?_⟩, ?_, unsavable⟩, isFault, ?_⟩
          · rw [split]
            rfl
          · exact List.forall_mem_cons.2 ⟨⟨k, rfl⟩, saved⟩
          · simp only [List.map_cons, lineOf_edgeWords, ← written]
            rfl

theorem isLine_toString (n : Nat) : IsLine (toString n) := by
  intro c hc
  rw [toList_toString] at hc
  have digit := isDigit_toDigits hc
  exact ⟨ne_of_isDigit digit (by decide), ne_of_isDigit digit (by decide)⟩

theorem isLine_commands (h : t.IsRead) :
    ∀ words ∈ t.commands, ∀ word ∈ words, IsLine word := by
  have plain : ∀ word ∈ ["new", "state", "--accepting", "start", "edge"], IsLine word := by
    simp only [List.forall_mem_cons]
    exact ⟨by decide, by decide, by decide, by decide, by decide, by simp⟩
  intro words hw
  rcases mem_commands hw with rfl | ⟨st, rfl⟩ | rfl | ⟨e, he, rfl⟩
  · exact List.forall_mem_singleton.2 (plain _ (by simp))
  · unfold stateWords
    split
    · simp only [List.forall_mem_cons]
      exact ⟨plain _ (by simp), plain _ (by simp), by simp⟩
    · exact List.forall_mem_singleton.2 (plain _ (by simp))
  · simp only [List.forall_mem_cons]
    exact ⟨plain _ (by simp), isLine_toString _, by simp⟩
  · obtain ⟨source, ⟨predicate, dest⟩⟩ := e
    obtain ⟨k, rfl, wellFormed, -⟩ := h.of_mem_edges he
    simp only [edgeWords, List.forall_mem_cons]
    exact ⟨plain _ (by simp), isLine_toString _, isLine_toString _, CharClass.isLine_text wellFormed,
      by simp⟩

theorem linesOf_script (h : t.IsRead) : linesOf t.script.text = t.commands.map lineOf := by
  rw [script_eq h]
  refine linesOf_unlines fun line hline => ?_
  obtain ⟨words, hw, rfl⟩ := List.mem_map.1 hline
  exact isLine_lineOf (isLine_commands h words hw)

end Acceptor.Table
