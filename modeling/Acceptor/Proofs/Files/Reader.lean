import Acceptor.Files.Reader
import Acceptor.Proofs.Text.Lines
import Acceptor.Proofs.Text.Utf8

namespace Acceptor.Reader
open Text Utf8

variable {r : Reader} {bytes : List Nat} {cs : List Char}

/-- What is left of a file with these bytes is the text `cs`, in which lines end with `\n`. -/
def Expects (r : Reader) (bytes : List Nat) (cs : List Char) : Prop :=
  ∃ ahead, Decodes r.begun (bytes.drop r.offset) ahead none ∧
    cs = r.ready ++ unified r.heldReturn ahead

theorem expects_start (path : Path) (text : String) :
    ({ path } : Reader).Expects (encode text.toList) (unified false text.toList) :=
  ⟨text.toList, decodes_encode _, rfl⟩

theorem flatten_cutPieces (piece : List Nat) (room : Nat) (bs : List Nat) :
    (cutPieces piece room bs).flatten = piece.reverse ++ bs := by
  fun_induction cutPieces piece room bs <;> simp_all

theorem Expects.take {piece rest : List Nat} (h : r.Expects bytes cs)
    (ahead : bytes.drop r.offset = piece ++ rest) :
    ∃ r', r.take piece = .ok r' ∧ r'.path = r.path ∧ bytes.drop r'.offset = rest ∧
      r'.Expects bytes cs := by
  obtain ⟨text, decodes, rfl⟩ := h
  rw [ahead] at decodes
  obtain ⟨first, middle, last, decodesFirst, decodesLast, rfl⟩ := decodes.cut
  have further : bytes.drop (r.offset + piece.length) = rest := by
    rw [← List.drop_drop, ahead, List.drop_left]
  refine ⟨⟨r.path, r.offset + piece.length, middle, (unifyLineEnds r.heldReturn first).2,
    r.ready ++ (unifyLineEnds r.heldReturn first).1⟩, ?_, rfl, further, last, ?_, ?_⟩
  · simp [Reader.take, decodesFirst 0, bind, Except.bind, pure, Except.pure]
  · rw [further]
    exact decodesLast
  · rw [unified_append, List.append_assoc]

theorem Expects.finish (h : r.Expects bytes cs) (ahead : bytes.drop r.offset = []) :
    ∃ r', r.finish = .ok r' ∧ r'.path = r.path ∧ r'.ready = cs ∧
      ∀ rest, ({ r' with ready := rest } : Reader).Expects bytes rest := by
  obtain ⟨text, decodes, rfl⟩ := h
  rw [ahead] at decodes
  have ended := decodes 0
  simp only [decode, Except.ok.injEq, Prod.mk.injEq] at ended
  obtain ⟨rfl, complete⟩ := ended
  refine ⟨{ r with
    heldReturn := false, ready := r.ready ++ if r.heldReturn then ['\n'] else [] },
    by simp [Reader.finish, complete], rfl, rfl, fun rest => ⟨[], ?_, by simp [unified, unifyLineEnds]⟩⟩
  simp only [ahead, complete]
  exact fun _ => rfl

theorem cut?_append {front rest : List Char} (h : '\n' ∉ front)
    (ready : r.ready = front ++ '\n' :: rest) :
    r.cut? = some (String.ofList front, { r with ready := rest }) := by
  simp only [cut?, ready, span_newline h]

theorem cut?_of_notMem (h : '\n' ∉ r.ready) : r.cut? = none := by
  simp only [cut?, span_of_notMem h]

def Gives (path : Path) (bytes : List Nat) (cs : List Char)
    (answer : Except Malformed (Option (String × Reader))) : Prop :=
  match firstLine cs with
  | none => answer = .ok none
  | some (line, rest) =>
      ∃ r, answer = .ok (some (String.ofList line, r)) ∧ r.path = path ∧ r.Expects bytes rest

theorem Expects.cut (h : r.Expects bytes cs) :
    r.cut? = none ∨ ∃ found, r.cut? = some found ∧ Gives r.path bytes cs (.ok (some found)) := by
  by_cases ended : '\n' ∈ r.ready
  · obtain ⟨front, rest, ready, unended⟩ := List.eq_append_cons_of_mem ended
    obtain ⟨text, decodes, rfl⟩ := h
    refine .inr ⟨_, cut?_append unended ready, ?_⟩
    simp only [Gives, ready, List.append_assoc, List.cons_append, firstLine_append unended]
    exact ⟨_, rfl, rfl, text, decodes, rfl⟩
  · exact .inl (cut?_of_notMem ended)

theorem Expects.lineFrom {pieces : List (List Nat)} (h : r.Expects bytes cs)
    (ahead : bytes.drop r.offset = pieces.flatten) :
    Gives r.path bytes cs (r.lineFrom pieces) := by
  induction pieces generalizing r with
  | nil =>
      -- nothing is ahead, so all that is left is ready
      obtain ⟨r', finished, path, ready, expects⟩ := h.finish ahead
      simp only [Reader.lineFrom, finished, bind, Except.bind, pure, Except.pure]
      by_cases ended : '\n' ∈ cs
      · obtain ⟨front, rest, rfl, unended⟩ := List.eq_append_cons_of_mem ended
        simp only [cut?_append unended ready, Gives, firstLine_append unended]
        exact ⟨_, rfl, path, expects rest⟩
      · simp only [cut?_of_notMem (ready ▸ ended), Gives, firstLine_of_notMem ended, last?, ready]
        cases cs with
        | nil => rfl
        | cons c cs => exact ⟨_, rfl, path, expects []⟩
  | cons piece pieces ih =>
      obtain ⟨r', taken, path, further, expects⟩ := h.take ahead
      simp only [Reader.lineFrom, taken, bind, Except.bind, pure, Except.pure]
      rcases expects.cut with none | ⟨found, some, gives⟩
      · simpa only [none, path] using ih expects further
      · simpa only [some, path] using gives

theorem Expects.line? {d : Disk} (h : r.Expects (encode (d.text r.path).toList) cs) :
    Gives r.path (encode (d.text r.path).toList) cs (r.line? d) := by
  unfold Reader.line?
  rcases h.cut with none | ⟨found, some, gives⟩
  · rw [none]
    refine h.lineFrom ?_
    simp [ahead, flatten_cutPieces]
  · rw [some]
    exact gives

end Acceptor.Reader
