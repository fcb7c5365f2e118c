import Acceptor.Proofs.Shell.SaveSource

namespace Acceptor

/-- `u` has the states and the start of `t`, and its edges do what `es` do. -/
structure Table.Restores (u t : Table) (es : List (Nat × Edge)) : Prop where
  accepting : u.states.map State.accepting = t.states.map State.accepting
  start : u.start = t.start
  edges : List.Forall₂ (fun e f => f.1 = e.1 ∧ e.2.Same f.2) es u.edges

namespace Session
open Text Arguments

variable {t : Table} {es : List (Nat × Edge)}

theorem accepting_graft (es : List (Nat × Edge)) :
    (t.bare.graft es).states.map State.accepting = t.states.map State.accepting := by
  apply Array.ext_getElem?
  intro i
  simp only [Array.getElem?_map, Table.graft_states, Table.bare, Option.map_map]
  rfl

theorem restores_graft [Memory] (h : t.Sound) (first : es <+: t.edges) (capacity : Int) (strict : Bool) :
    ((t.bare.graft (es.map readBack)).withStack capacity strict).Restores t es := by
  have sorted : Table.IsSorted (es.map readBack) :=
    List.pairwise_map.2 (Table.isSorted_edges.sublist first.sublist)
  have inside : ∀ e ∈ es.map readBack, e.1 < t.size := by
    intro e he
    obtain ⟨e, mem, rfl⟩ := List.mem_map.1 he
    exact (edges_fit h e (first.subset mem)).source
  refine ⟨accepting_graft _, ?_, ?_⟩
  · rw [Table.graft_eq]
    rfl
  · have edges : ((t.bare.graft (es.map readBack)).withStack capacity strict).edges =
        es.map readBack := Table.edges_graft sorted inside
    rw [edges, List.forall₂_map_right_iff, List.forall₂_same]
    intro e he
    exact ⟨rfl, Edge.same_flat (edges_fit h e (first.subset he)).isRead⟩

theorem edgeLine_readBack {e : Nat × Edge} (h : e.2.predicate.IsRead) :
    Table.edgeLine (readBack e) = Table.edgeLine e := by
  obtain ⟨i, ⟨predicate, j⟩⟩ := e
  obtain ⟨k, rfl, -, plural⟩ := h
  have text : k.flat.text = k.text := congrArg String.ofList (CharClass.print_flat plural)
  simp only [readBack, Edge.flat, Predicate.flat, Table.edgeLine, text]

theorem script_flat (h : t.IsRead) : t.flat.script = t.script := by
  have edges : t.flat.edges.map Table.edgeLine = t.edges.map Table.edgeLine := by
    rw [flat_edges, List.map_map]
    exact List.map_congr_left fun e he => edgeLine_readBack (h.of_mem_edges he)
  have states : t.flat.stateLines = t.stateLines := by
    have empty : t.flat.states.isEmpty = t.states.isEmpty := by simp [Table.flat, Array.isEmpty]
    unfold Table.stateLines
    rw [empty, Table.flat, Array.toList_map, List.map_map]
    rfl
  unfold Table.script
  rw [edges, states]

theorem message_noClass [Host] :
    (Complaint.missing ["CLASS"]).message ++ "\n" =
      s!"{Host.program}: error: the following arguments are required: CLASS\n" := by
  simp only [Complaint.message, String.append_assoc]
  rfl

/-- Sourcing the script of a table gives the table again, or ends with one complaint, at the first
edge whose label is taken for a flag. -/
theorem source_script [Host] (a : Session) (reached : a.Reachable) (b : Session) (depth : Nat)
    (file name : String) (path : Path) (expanded : Place.expandHome file = .ok name)
    (noNul : Place.holdsNul name = false) (found : b.place.file name = .ok path)
    (text : b.place.disk.text path = a.table.script.text) :
    let r := b.perform (player (depth + 1)) (.source [file])
    let lines := linesOf a.table.script.text
    let played := Transcript.play (line (player depth)) true b lines
    let flagged := ∃ e ∈ a.table.edges, LooksLikeFlag e.2.predicate.text
    (a.table.script.fault = none ∧ r = ⟨played.session b, played.events, .done⟩ ∧
        r.session.table.capacity = b.table.capacity ∧ r.session.table.strict = b.table.strict) ∧
      (¬ flagged →
        played.reports.length = lines.length ∧ r.events = [] ∧
          r.session.table.Restores a.table a.table.edges ∧
          r.session.table.script = a.table.script) ∧
      (flagged → ∃ before e after front,
        a.table.edges = before ++ e :: after ∧ LooksLikeFlag e.2.predicate.text ∧
          (∀ e ∈ before, ¬ LooksLikeFlag e.2.predicate.text) ∧
          lines = front ++ lineOf (Table.edgeWords e) ::
            after.map (fun e => lineOf (Table.edgeWords e)) ∧
          played.reports.length = front.length + 1 ∧
          r.events =
            [.err s!"{Host.program}: error: the following arguments are required: CLASS\n"] ∧
          r.session.table.Restores a.table before) := by
  intro r lines played flagged
  have sound := reached.sound
  have commands : lines = a.table.commands.map lineOf := Table.linesOf_script sound.isRead
  have made : r = ⟨(played.report b).session, (played.report b).events, .done⟩ := by
    simp only [played, commands]
    exact perform_source sound expanded noNul found text
  have report : r = ⟨played.session b, played.events, .done⟩ := by rw [made, Transcript.report]
  have whole : a.table.script.fault = none := by rw [Table.script_eq sound.isRead]
  by_cases flag : flagged
  · obtain ⟨before, e, after, edges, isFlag, plain⟩ := exists_first_flag flag
    have refused := @play_refused b _ _ (player depth) sound _ _ _ edges isFlag plain
    rw [← commands] at refused
    obtain ⟨ends, stopped⟩ := refused
    rw [ends] at made
    have first : before <+: a.table.edges := edges ▸ List.prefix_append before (e :: after)
    refine ⟨⟨whole, report, ?_, ?_⟩, fun none => absurd flag none, fun _ =>
      ⟨before, e, after, (a.table.stateCommands ++ before.map Table.edgeWords).map lineOf, edges,
        isFlag, plain, ?_, ?_, ?_, ?_⟩⟩
    · rw [made]
      rfl
    · rw [made]
      rfl
    · simp [commands, Table.commands, edges]
    · rw [stopped]
      simp
    · rw [made, ← message_noClass]
      rfl
    · rw [made]
      exact restores_graft sound first _ _
  · have replayable : IsReplayable a.table :=
      (isReplayable_iff sound).2 fun e he isFlag => flag ⟨e, he, isFlag⟩
    have ends := @report_commands b _ _ (player depth) sound replayable
    rw [← commands] at ends
    rw [ends] at made
    have done : played.outcome = .done := congrArg Report.outcome ends
    refine ⟨⟨whole, report, ?_, ?_⟩, fun _ =>
      ⟨Transcript.length_reports_of_done done, ?_, ?_, ?_⟩, fun some => absurd some flag⟩
    · rw [made]
      rfl
    · rw [made]
      rfl
    · rw [made]
    · rw [made, ← graft_readBack]
      exact restores_graft sound (List.prefix_refl _) _ _
    · rw [made]
      exact script_flat sound.isRead

theorem source_script_dash :
    let _ : Host := .usual
    let start := start ⟨{}, []⟩
    let a := (start.play 1 false ["edge 2 2 '(-|a)'"]).session start
    let b : Session := ⟨{ capacity := 3, strict := true },
      ⟨({} : Disk).put ["f"] (.file a.table.script.text), []⟩⟩
    let r := b.perform (player 1) (.source ["f"])
    (a.Reachable ∧ Place.expandHome "f" = .ok "f" ∧ Place.holdsNul "f" = false ∧
        b.place.file "f" = .ok ["f"] ∧ b.place.disk.text ["f"] = a.table.script.text) ∧
      r.events = [.err "dfamatch: error: the following arguments are required: CLASS\n"] ∧
        r.session.table.capacity = 3 ∧
          ∃ before e after, a.table.edges = before ++ e :: after ∧
            r.session.table.Restores a.table before := by
  intro host start a b
  have reached : a.Reachable := ⟨_, 1, false, _, rfl⟩
  have edges : a.table.edges =
      [(1, ⟨.charClass (.literal "c"), 0⟩),
        (2, ⟨.charClass (.union [.literal "a", .literal "b"]), 1⟩),
        (2, ⟨.charClass (.union [.literal "-", .literal "a"]), 2⟩)] := rfl
  have flagged : ∃ e ∈ a.table.edges, LooksLikeFlag e.2.predicate.text :=
    ⟨(2, ⟨.charClass (.union [.literal "-", .literal "a"]), 2⟩), by simp [edges], by decide⟩
  have place : ∀ text, let p : Place := ⟨({} : Disk).put ["f"] (.file text), []⟩
      p.file "f" = .ok ["f"] ∧ p.disk.text ["f"] = text := fun _ => ⟨rfl, rfl⟩
  obtain ⟨found, text⟩ := place a.table.script.text
  have replayed := source_script a reached b 0 "f" "f" ["f"] rfl rfl found text
  rw [Nat.zero_add] at replayed
  obtain ⟨before, e, after, -, split, -, -, -, -, events, restores⟩ := replayed.2.2 flagged
  have called : s!"{Host.program}: error: the following arguments are required: CLASS\n" =
      "dfamatch: error: the following arguments are required: CLASS\n" := by decide +kernel
  rw [called] at events
  exact ⟨⟨reached, rfl, rfl, found, text⟩, events, replayed.1.2.2.1, before, e, after, split,
    restores⟩

end Session

end Acceptor
