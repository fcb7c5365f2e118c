import Acceptor.Proofs.Command.Words
import Acceptor.Proofs.Shell.Play
import Acceptor.Proofs.Table.Graft
import Acceptor.Proofs.Table.Script

/-!
# Playing the commands of a table

The commands that a sound table is saved as make that table again, with its unions spliced, up to
the first that is refused (`report_commands`). The commands for the states are followed by
`report_stateCommands`, those for the edges by induction on the edges (`report_edges`).
-/

namespace Acceptor.Session
open Text Arguments

variable {s : Session} {t : Table}

theorem isComment_lineOf (words : List String) : isComment (lineOf words) = false := by
  unfold isComment
  cases first : (lineOf words).toList.head? with
  | none => rfl
  | some c => simpa using (head?_lineOf first).2

theorem ofWords_edgeWords {e : Nat × Edge} (h : e.2.predicate.IsRead) :
    Command.ofWords (Table.edgeWords e) =
      (Command.edgeComplaint e.1 e.2.dest e.2.predicate.text).elim
        (.ok (.addEdge e.1 (some e.2.dest) (some e.2.predicate.text))) .error := by
  obtain ⟨i, ⟨predicate, j⟩⟩ := e
  obtain ⟨k, rfl, wellFormed, -⟩ := h
  exact Command.ofWords_edge i j (CharClass.text_ne_divider wellFormed)

theorem report_cons_withTable {act : Session → String → Report} {exitFirst : Bool} {text : String}
    {rest : List String} {u : Table} (h : act s text = s.withTable u) :
    (Transcript.play act exitFirst s (text :: rest)).report s =
      (Transcript.play act exitFirst { s with table := u } rest).report { s with table := u } := by
  have goes : (act s text).outcome.goesOn exitFirst = true := by rw [h]; rfl
  rw [Transcript.report_play_cons_of_goesOn goes, h]
  rfl

theorem change_place (u : Except Fault Table) : (s.change u).session.place = s.place := by
  cases u <;> rfl

def readBack (e : Nat × Edge) : Nat × Edge := (e.1, e.2.flat)

theorem flat_edges : t.flat.edges = t.edges.map readBack := by
  unfold Table.edges Table.flat
  rw [Array.toList_map, List.zipIdx_map, List.flatMap_map, List.map_flatMap]
  simp only [State.flat, Prod.map, id, List.map_map, Function.comp_def, readBack]

theorem graft_readBack : t.bare.graft (t.edges.map readBack) = t.flat := by
  have bare : t.flat.bare = t.bare := by
    simp [Table.bare, Table.flat, Function.comp_def, State.bare, State.flat]
  rw [← flat_edges, ← bare, Table.graft_edges]

theorem exists_first_flag {es : List (Nat × Edge)}
    (h : ∃ e ∈ es, LooksLikeFlag e.2.predicate.text) :
    ∃ before e after, es = before ++ e :: after ∧ LooksLikeFlag e.2.predicate.text ∧
      ∀ e ∈ before, ¬ LooksLikeFlag e.2.predicate.text := by
  have found : (es.find? fun e => LooksLikeFlag e.2.predicate.text).isSome = true := by
    simpa [List.find?_isSome] using h
  obtain ⟨e, isFirst⟩ := Option.isSome_iff_exists.1 found
  obtain ⟨flag, before, after, split, plain⟩ := List.find?_eq_some_iff_append.1 isFirst
  exact ⟨before, e, after, split, by simpa using flag, fun e he => by simpa using plain e he⟩

theorem setStart_place (state : Int) : (s.setStart state).session.place = s.place := by
  unfold setStart
  split
  · exact change_place _
  · rfl

theorem addEdge_place (source : Int) (dest : Option Int) (label : Option String) :
    (s.addEdge source dest label).session.place = s.place := by
  unfold addEdge
  split
  · rfl
  · cases dest with
    | none => rfl
    | some dest =>
        simp only
        split
        · rfl
        · split
          · rfl
          · exact change_place _

structure Fits (t : Table) (e : Nat × Edge) : Prop where
  source : e.1 < t.size
  dest : e.2.dest < t.size
  isRead : e.2.predicate.IsRead

theorem edges_fit [Memory] (h : t.Sound) : ∀ e ∈ t.edges, Fits t e := by
  intro e he
  obtain ⟨st, hst, mem⟩ := Table.mem_edges he
  have inside := h.edges st (Array.mem_of_getElem? hst) e.2 mem
  exact ⟨(Array.getElem?_eq_some_iff.1 hst).1, inside.1, inside.2⟩

theorem isReadable_of_le [Memory] {n : Nat} (h : n ≤ Memory.maxStates) : IsReadable n :=
  isReadable_of_lt (e := 19) (by have := Memory.maxStates_lt; omega) (by decide) (by decide)

theorem edgeComplaint_of_fits [Memory] {e : Nat × Edge} (fits : t.size ≤ Memory.maxStates) (h : Fits t e) :
    Command.edgeComplaint e.1 e.2.dest e.2.predicate.text =
      if LooksLikeFlag e.2.predicate.text then some (.missing ["CLASS"]) else none := by
  have source := isReadable_of_le (h.source.le.trans fits)
  have dest := isReadable_of_le (h.dest.le.trans fits)
  obtain ⟨k, isClass, wellFormed, -⟩ := h.isRead
  have noNumber := CharClass.isNegativeNumber_text wellFormed
  rw [isClass, Predicate.text]
  by_cases flag : LooksLikeFlag k.text
  · simp [Command.edgeComplaint, source, dest, flag, noNumber]
  · simp [Command.edgeComplaint, source, dest, flag]

variable [Host] {play : Player}

/-! ## Single lines -/

theorem line_lineOf {words : List String} (h : words ≠ []) :
    s.line play (lineOf words) =
      match Command.ofWords words with
      | .error c => s.complain c.message
      | .ok c => s.perform play c := by
  cases words with
  | nil => exact absurd rfl h
  | cons word words =>
      unfold line
      cases command : Command.ofWords (word :: words) <;>
        simp [strip_lineOf, isComment_lineOf, splitWords_lineOf, command]

theorem line_new : s.line play (lineOf ["new"]) = s.withTable s.table.reset := by
  rw [line_lineOf (by simp)]
  rfl

theorem line_stateWords (st : State) :
    s.line play (lineOf (Table.stateWords st)) = s.addStates 1 st.accepting false := by
  unfold Table.stateWords
  cases st.accepting with
  | true =>
      rw [if_pos rfl, line_lineOf (by simp)]
      rfl
  | false =>
      rw [if_neg (by decide), line_lineOf (by simp)]
      rfl

theorem addStates_one (room : s.table.size < Memory.maxStates) (accepting : Bool) :
    s.addStates 1 accepting false = s.withTable (s.table.addStates 1 accepting false) := by
  unfold addStates
  rw [if_neg (by decide), if_neg (by omega)]
  rfl

theorem line_start {n : Nat} (fits : s.table.size ≤ Memory.maxStates) (inside : n < s.table.size) :
    s.line play (lineOf ["start", toString n]) = s.withTable { s.table with start := n } := by
  have readable : IsReadable n := isReadable_of_le (by omega)
  have has : s.table.has n = true := Table.has_iff.2 (by omega)
  rw [line_lineOf (by simp), Command.ofWords_start, if_pos readable]
  simp only [perform, setStart, has, if_true, Table.setStart]
  rfl

theorem line_edgeWords_refused {e : Nat × Edge} (fits : t.size ≤ Memory.maxStates) (h : Fits t e)
    (flag : LooksLikeFlag e.2.predicate.text) :
    s.line play (lineOf (Table.edgeWords e)) =
      s.complain (Complaint.missing ["CLASS"]).message := by
  rw [line_lineOf (by simp [Table.edgeWords]), ofWords_edgeWords h.isRead,
    edgeComplaint_of_fits fits h, if_pos flag]
  rfl

theorem line_edgeWords {e : Nat × Edge} (fits : s.table.size ≤ Memory.maxStates)
    (h : Fits s.table e) (plain : ¬ LooksLikeFlag e.2.predicate.text) :
    s.line play (lineOf (Table.edgeWords e)) =
      s.withTable (s.table.attach (e.1, e.2.flat)) := by
  rw [line_lineOf (by simp [Table.edgeWords]), ofWords_edgeWords h.isRead,
    edgeComplaint_of_fits fits h, if_neg plain]
  obtain ⟨i, ⟨predicate, j⟩⟩ := e
  obtain ⟨source, dest, k, rfl, wellFormed, -⟩ := h
  have hasSource : s.table.has i = true := Table.has_iff.2 (by simpa using source)
  have hasDest : s.table.has j = true := Table.has_iff.2 (by simpa using dest)
  simp only [Option.elim, perform, addEdge, hasSource, hasDest, Option.getD_some, Predicate.text,
    CharClass.parse_text_wellFormed wellFormed, Table.addEdge, Bool.not_true,
    Bool.false_eq_true, if_false, Bool.and_self, if_true]
  rfl

/-! ## The commands for the states -/

variable {exitFirst : Bool} {rest : List String}

theorem report_stateWords (states : List State)
    (fits : s.table.size + states.length ≤ Memory.maxStates) :
    (Transcript.play (line play) exitFirst s
        (states.map (fun st => lineOf (Table.stateWords st)) ++ rest)).report s =
      let made : Session := { s with
        table := { s.table with states := s.table.states ++ (states.map State.bare).toArray } }
      (Transcript.play (line play) exitFirst made rest).report made := by
  induction states generalizing s with
  | nil => simp
  | cons st states ih =>
      rw [List.length_cons] at fits
      have line : s.line play (lineOf (Table.stateWords st)) = _ :=
        (line_stateWords st).trans (addStates_one (by omega) st.accepting)
      have size : (s.table.addStates 1 st.accepting false).size = s.table.size + 1 := by
        simp [Table.addStates, Table.size]
      rw [List.map_cons, List.cons_append, report_cons_withTable line, ih (by simp only [size]; omega)]
      simp [Table.addStates, State.bare]

def unstarted (s : Session) (t : Table) : Session :=
  { s with table := { t.bare.withStack s.table.capacity s.table.strict with start := 0 } }

theorem report_new_states (fits : t.size ≤ Memory.maxStates) (lines : List String) :
    (Transcript.play (line play) exitFirst s
        (lineOf ["new"] :: t.states.toList.map (fun st => lineOf (Table.stateWords st)) ++
          lines)).report s =
      (Transcript.play (line play) exitFirst (s.unstarted t) lines).report (s.unstarted t) := by
  have states : s.table.reset.states ++ (t.states.toList.map State.bare).toArray =
      t.bare.states := by
    simp [Table.reset, Table.bare, ← Array.toList_map]
  have room : s.table.reset.size + t.states.toList.length ≤ Memory.maxStates := by
    simpa [Table.reset, Table.size] using fits
  rw [List.cons_append, report_cons_withTable line_new, report_stateWords _ room]
  simp only [states]
  rfl

theorem report_stateCommands (h : t.Sound) :
    (Transcript.play (line play) exitFirst s (t.stateCommands.map lineOf ++ rest)).report s =
      let made : Session := { s with
        table := t.bare.withStack s.table.capacity s.table.strict }
      (Transcript.play (line play) exitFirst made rest).report made := by
  unfold Table.stateCommands
  simp only [List.cons_append, List.map_cons, List.map_append, List.map_map, List.append_assoc,
    Function.comp_def]
  rw [← List.cons_append, report_new_states h.size_le]
  by_cases empty : t.states.isEmpty = true
  · have start : t.start = 0 := h.wellFormed.start_eq (by simpa [Table.size] using empty)
    have same : s.unstarted t =
        { s with table := t.bare.withStack s.table.capacity s.table.strict } := by
      simp [unstarted, Table.withStack, Table.bare, start]
    simp only [if_pos empty, List.map_nil, List.nil_append, same]
  · have nonempty : 0 < t.size := by simpa [Table.size, Nat.pos_iff_ne_zero] using empty
    have size : (s.unstarted t).table.size = t.size := by
      simp [unstarted, Table.bare, Table.withStack, Table.size]
    have inside : t.start < (s.unstarted t).table.size := size ▸ h.wellFormed.start_lt nonempty
    simp only [if_neg empty, List.map_cons, List.map_nil, List.singleton_append]
    rw [report_cons_withTable (line_start (size ▸ h.size_le) inside)]
    rfl

/-! ## The commands for the edges -/

theorem report_edges {es : List (Nat × Edge)} (fits : s.table.size ≤ Memory.maxStates)
    (inside : ∀ e ∈ es, Fits s.table e) (plain : ∀ e ∈ es, ¬ LooksLikeFlag e.2.predicate.text) :
    (Transcript.play (line play) exitFirst s
        (es.map fun e => lineOf (Table.edgeWords e))).report s =
      ⟨{ s with table := s.table.graft (es.map readBack) }, [], .done⟩ := by
  induction es generalizing s with
  | nil => rfl
  | cons e es ih =>
      obtain ⟨here, others⟩ := List.forall_mem_cons.1 inside
      obtain ⟨plainHere, plainOthers⟩ := List.forall_mem_cons.1 plain
      have line : s.line play (lineOf (Table.edgeWords e)) = _ :=
        line_edgeWords fits here plainHere
      -- no state is added, so the ends of the other edges still exist
      have size : (s.table.attach (e.1, e.2.flat)).size = s.table.size := Array.size_modify
      rw [List.map_cons, report_cons_withTable line, ih (by simpa only [size] using fits) ?_ plainOthers]
      · rfl
      · intro e' he'
        have := others e' he'
        exact ⟨size ▸ this.source, size ▸ this.dest, this.isRead⟩

/-! ## The place -/

theorem addStates_place (count : Int) (accepting start : Bool) :
    (s.addStates count accepting start).session.place = s.place := by
  unfold addStates
  split
  · rfl
  · split <;> rfl

theorem line_commands_place (isRead : t.IsRead) :
    ∀ words ∈ t.commands, (s.line play (lineOf words)).session.place = s.place := by
  intro words hw
  rcases Table.mem_commands hw with rfl | ⟨st, rfl⟩ | rfl | ⟨e, he, rfl⟩
  · rw [line_new]
    rfl
  · rw [line_stateWords]
    exact addStates_place _ _ _
  · rw [line_lineOf (by simp), Command.ofWords_start]
    by_cases readable : IsReadable t.start
    · rw [if_pos readable]
      exact setStart_place _
    · rw [if_neg readable]
      rfl
  · rw [line_lineOf (by simp [Table.edgeWords]), ofWords_edgeWords (isRead.of_mem_edges he)]
    cases Command.edgeComplaint e.1 e.2.dest e.2.predicate.text with
    | some c => rfl
    | none => exact addEdge_place _ _ _

/-! ## The whole table -/

/-- No command of the table is refused: its numbers can be read, and no label is taken for a flag. -/
structure IsReplayable (t : Table) : Prop where
  start : 0 < t.size → IsReadable t.start
  ends : ∀ e ∈ t.edges, IsReadable e.1 ∧ IsReadable e.2.dest
  label : ∀ e ∈ t.edges, ¬ LooksLikeFlag e.2.predicate.text

theorem isReplayable_iff (h : t.Sound) :
    IsReplayable t ↔ ∀ e ∈ t.edges, ¬ LooksLikeFlag e.2.predicate.text := by
  constructor
  · exact IsReplayable.label
  · intro label
    refine ⟨fun nonempty => ?_, fun e he => ?_, label⟩
    · exact isReadable_of_le ((h.wellFormed.start_lt nonempty).le.trans h.size_le)
    · have inside := edges_fit h e he
      exact ⟨isReadable_of_le (inside.source.le.trans h.size_le),
        isReadable_of_le (inside.dest.le.trans h.size_le)⟩

theorem report_made (h : t.Sound) {es : List (Nat × Edge)} (some : es ⊆ t.edges)
    (plain : ∀ e ∈ es, ¬ LooksLikeFlag e.2.predicate.text) :
    (Transcript.play (line play) exitFirst s
        ((t.stateCommands ++ es.map Table.edgeWords).map lineOf)).report s =
      ⟨{ s with
        table := (t.bare.graft (es.map readBack)).withStack s.table.capacity s.table.strict },
        [], .done⟩ := by
  have size : (t.bare.withStack s.table.capacity s.table.strict).size = t.size := by
    simp [Table.bare, Table.withStack, Table.size]
  rw [List.map_append, report_stateCommands h, List.map_map, Function.comp_def,
    report_edges (size ▸ h.size_le) ?_ plain]
  · simp only [Table.graft_withStack]
  · intro e he
    have inside := edges_fit h e (some he)
    exact ⟨size ▸ inside.source, size ▸ inside.dest, inside.isRead⟩

theorem report_commands (h : t.Sound) (replayable : IsReplayable t) :
    (Transcript.play (line play) true s (t.commands.map lineOf)).report s =
      ⟨{ s with table := t.flat.withStack s.table.capacity s.table.strict }, [], .done⟩ := by
  unfold Table.commands
  rw [report_made h (List.Subset.refl _) replayable.label, graft_readBack]

theorem play_refused (h : t.Sound) {before after : List (Nat × Edge)} {e : Nat × Edge}
    (edges : t.edges = before ++ e :: after) (flag : LooksLikeFlag e.2.predicate.text)
    (plain : ∀ e ∈ before, ¬ LooksLikeFlag e.2.predicate.text) :
    let played := Transcript.play (line play) true s (t.commands.map lineOf)
    let made : Session := { s with
      table := (t.bare.graft (before.map readBack)).withStack s.table.capacity s.table.strict }
    played.report s = made.complain (Complaint.missing ["CLASS"]).message ∧
      played.reports.length = t.stateCommands.length + before.length + 1 := by
  intro played made
  have front : (Transcript.play (line play) true s
      ((t.stateCommands ++ before.map Table.edgeWords).map lineOf)).report s =
        ⟨made, [], .done⟩ := report_made h (by simp [edges]) plain
  generalize lines : (t.stateCommands ++ before.map Table.edgeWords).map lineOf = first at front
  have done : (Transcript.play (line play) true s first).outcome = .done :=
    congrArg Report.outcome front
  have session : (Transcript.play (line play) true s first).session s = made :=
    congrArg Report.session front
  have silent : (Transcript.play (line play) true s first).reports.flatMap Report.events = [] :=
    congrArg Report.events front
  have refused : made.line play (lineOf (Table.edgeWords e)) = _ :=
    line_edgeWords_refused h.size_le (edges_fit h e (by simp [edges])) flag
  have stops : (made.line play (lineOf (Table.edgeWords e))).outcome.goesOn true = false := by
    rw [refused]
    rfl
  have split : t.commands.map lineOf =
      first ++ lineOf (Table.edgeWords e) :: (after.map Table.edgeWords).map lineOf := by
    simp [← lines, Table.commands, edges]
  have whole : played =
      ⟨(Transcript.play (line play) true s first).reports ++
        [made.complain (Complaint.missing ["CLASS"]).message], .failed⟩ := by
    change Transcript.play (line play) true s (t.commands.map lineOf) = _
    rw [split, Transcript.play_append_of_done done, session, Transcript.play_cons_of_stops stops,
      refused]
    rfl
  constructor
  · rw [whole]
    simp [Transcript.report, Transcript.session, Transcript.events, silent, complain]
  · rw [whole, List.length_append, Transcript.length_reports_of_done done, ← lines]
    simp

theorem report_commands_refused (h : t.Sound) (refused : ¬ IsReplayable t) :
    ∃ made : Session, (Transcript.play (line play) true s (t.commands.map lineOf)).report s =
      made.complain (Complaint.missing ["CLASS"]).message := by
  have flagged : ∃ e ∈ t.edges, LooksLikeFlag e.2.predicate.text := by
    simpa [isReplayable_iff h] using refused
  obtain ⟨before, e, after, edges, flag, plain⟩ := exists_first_flag flagged
  exact ⟨_, (play_refused h edges flag plain).1⟩

end Acceptor.Session
