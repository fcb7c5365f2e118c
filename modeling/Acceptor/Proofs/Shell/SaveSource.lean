import Acceptor.Proofs.Shell.Invariant
import Acceptor.Proofs.Shell.Replay

namespace Acceptor.Session
open Text

variable {s : Session} {file : String}

theorem settle_ne_done {caught : Fault → Bool} (f : Fault) :
    (s.settle caught (some f)).outcome ≠ .done := by
  unfold settle
  simp only
  split <;> nofun

theorem errText_complain (message : String) : Event.errText (s.complain message).events ≠ "" := by
  simp [complain, Event.errText]

section

variable [Host]

theorem save_wrote {depth : Nat} (isRead : s.table.IsRead)
    (done : (s.enter depth (lineOf ["save", file])).outcome = .done)
    (silent : (s.enter depth (lineOf ["save", file])).events = []) :
    ∃ name path, Command.ofWords ["source", file] = .ok (.source [file]) ∧
      s.Opens file name path ∧
      (s.enter depth (lineOf ["save", file])).session =
        s.withDisk (s.place.disk.put path (.file s.table.script.text)) := by
  have whole : s.table.script.fault = none := by rw [Table.script_eq isRead]
  unfold enter at done silent ⊢
  rw [line_lineOf (by simp)] at done silent ⊢
  -- a save without a file name prints the script, which is not silent
  by_cases divider : file = "--"
  · subst divider
    have words : Command.ofWords ["save", "--"] = .ok (.save none) := rfl
    simp [words, perform, save, named, whole, print] at silent
  · rw [Command.ofWords_save divider] at done silent ⊢
    rw [Command.ofWords_source divider]
    by_cases flag : Arguments.LooksLikeFlag file ∧ isNegativeNumber file = false
    · simp [if_pos flag, complain] at done
    · simp only [if_neg flag, perform] at done silent ⊢
      by_cases empty : file = ""
      · have noName : named (some file) = none := by simp [named, empty]
        simp [save, noName, whole, print] at silent
      · have name : named (some file) = some file := by simp [named, empty]
        simp only [save, name] at done silent ⊢
        have how := wrote s file s.table.script
        generalize s.write file s.table.script = left at how done silent ⊢
        cases how with
        | whole opens => exact ⟨_, _, trivial, opens, rfl⟩
        | nul | unopened =>
            exact absurd done (settle_ne_done _)
        | kept | removed => exact absurd done (settle_ne_done _)

def replay (s : Session) (depth : Nat) (t : Table) : Report :=
  (Transcript.play (line (player depth)) true s (t.commands.map lineOf)).report s

theorem playFile_script {act : Session → String → Report} {t : Table} {path : Path}
    (isRead : t.IsRead) (act_eq : ∃ play, act = line play) (text : s.place.disk.text path = t.script.text) :
    playFile act (max maxFileSize (s.place.disk.text path).utf8ByteSize) { path } s =
      (Transcript.play act true s (t.commands.map lineOf)).report s := by
  obtain ⟨play, rfl⟩ := act_eq
  have lines : linesOf (s.place.disk.text path) = t.commands.map lineOf := by
    rw [text, Table.linesOf_script isRead]
  have stays : ∀ r ∈ (Transcript.play (line play) true s (t.commands.map lineOf)).reports,
      r.session.place = s.place := by
    refine Transcript.forall_reports (I := fun s' => s'.place = s.place) ?_ rfl
    intro s' here text mem
    obtain ⟨words, hw, rfl⟩ := List.mem_map.1 mem
    exact (line_commands_place isRead words hw).trans here
  rw [playFile_eq_play, lines]
  rw [lines]
  intro r hr _
  rw [stays r hr]

theorem perform_source {depth : Nat} {t : Table} {name : String} {path : Path} (sound : t.Sound)
    (expanded : Place.expandHome file = .ok name) (noNul : Place.holdsNul name = false)
    (found : s.place.file name = .ok path) (text : s.place.disk.text path = t.script.text) :
    let played :=
      (Transcript.play (line (player depth)) true s (t.commands.map lineOf)).report s
    s.perform (player (depth + 1)) (.source [file]) = ⟨played.session, played.events, .done⟩ := by
  intro played
  have plays := playFile_script sound.isRead ⟨player depth, rfl⟩ text
  -- a line that is refused ends the file, but not the command that plays it
  have ends : played.outcome = .done ∨ played.outcome = .failed := by
    by_cases replayable : IsReplayable t
    · exact .inl (congrArg Report.outcome (report_commands sound replayable))
    · obtain ⟨made, refused⟩ := report_commands_refused sound replayable
      exact .inr (congrArg Report.outcome refused)
  simp only [perform, source, expanded, noNul, Bool.false_eq_true, if_false, player, found, plays]
  rcases ends with done | failed
  · simp [played, done, Report.after]
  · simp [played, failed, Report.after]

theorem enter_source {depth : Nat} {t : Table} {name : String} {path : Path} (sound : t.Sound)
    (words : Command.ofWords ["source", file] = .ok (.source [file]))
    (expanded : Place.expandHome file = .ok name) (noNul : Place.holdsNul name = false)
    (found : s.place.file name = .ok path) (text : s.place.disk.text path = t.script.text) :
    s.enter (depth + 1) (lineOf ["source", file]) =
      ⟨(s.replay depth t).session, (s.replay depth t).events, .done⟩ := by
  unfold enter
  rw [line_lineOf (by simp), words]
  exact perform_source sound expanded noNul found text

theorem errText_replay {depth : Nat} {t : Table} (sound : t.Sound) :
    Event.errText (s.replay depth t).events = "" ↔ IsReplayable t := by
  constructor
  · intro silent
    by_contra refused
    obtain ⟨made, report⟩ := report_commands_refused sound refused
    rw [replay, report] at silent
    exact errText_complain _ silent
  · intro replayable
    rw [replay, report_commands sound replayable]
    rfl

/-- Sourcing what was saved says nothing if and only if the table can be replayed: no label of it
looks like a flag, and its numbers can be read. Then it leaves the same automaton, which takes every
feed alike, and the stack as it was. -/
theorem source_save (a : Session) (reached : a.Reachable) (file : String) (depth depth' : Nat)
    (done : (a.enter depth (lineOf ["save", file])).outcome = .done)
    (silent : (a.enter depth (lineOf ["save", file])).events = []) (b : Session)
    (place : b.place = (a.enter depth (lineOf ["save", file])).session.place) :
    let r := b.enter (depth' + 1) (lineOf ["source", file])
    (Event.errText r.events = "" ↔ IsReplayable a.table) ∧
      (IsReplayable a.table →
        r.outcome = .done ∧ a.table.Same r.session.table ∧
          r.session.table.capacity = b.table.capacity ∧
          r.session.table.strict = b.table.strict ∧
          ∀ capacity strict w,
            (r.session.table.withStack capacity strict).run w =
                (a.table.withStack capacity strict).run w ∧
              (r.session.table.withStack capacity strict).accepts w =
                (a.table.withStack capacity strict).accepts w) := by
  intro r
  have sound := reached.sound
  obtain ⟨name, path, words, ⟨expanded, noNul, target⟩, wrote⟩ :=
    save_wrote sound.isRead done silent
  have found : b.place.file name = .ok path := by
    rw [place, wrote]
    exact Place.file_put target _
  have text : b.place.disk.text path = a.table.script.text := by
    obtain ⟨-, -, -, writable⟩ := Place.target_eq_ok target
    rw [place, wrote]
    exact Disk.text_put writable.ne_nil _
  have report : r = ⟨(b.replay depth' a.table).session, (b.replay depth' a.table).events, .done⟩ :=
    enter_source sound words expanded noNul found text
  refine ⟨?_, fun replayable => ?_⟩
  · rw [report]
    exact errText_replay sound
  · have made : (b.replay depth' a.table).session =
        { b with table := a.table.flat.withStack b.table.capacity b.table.strict } :=
      congrArg Report.session (report_commands sound replayable)
    have same : a.table.Same r.session.table := by
      rw [report, made]
      exact ⟨(Table.same_flat sound.isRead).states, rfl⟩
    refine ⟨congrArg Report.outcome report, same, ?_, ?_, fun capacity strict w =>
      ⟨same.run capacity strict w, same.accepts capacity strict w⟩⟩
    · rw [report, made]
      rfl
    · rw [report, made]
      rfl

end

theorem source_save_example :
    let _ : Host := .usual
    let a := start ⟨{}, []⟩
    let saved := a.enter 1 (lineOf ["save", "f"])
    let b : Session := ⟨{ capacity := 3, strict := true }, saved.session.place⟩
    (a.Reachable ∧ saved.outcome = .done ∧ saved.events = [] ∧ IsReplayable a.table) ∧
      Event.errText (b.enter 1 (lineOf ["source", "f"])).events = "" ∧
        a.table.Same (b.enter 1 (lineOf ["source", "f"])).session.table := by
  intro host a saved b
  have reached : a.Reachable := ⟨⟨{}, []⟩, 1, false, [], rfl⟩
  have edges : a.table.edges =
      [(1, ⟨.charClass (.literal "c"), 0⟩),
        (2, ⟨.charClass (.union [.literal "a", .literal "b"]), 1⟩)] := rfl
  have replayable : IsReplayable a.table := by
    refine ⟨fun _ => by decide, ?_, ?_⟩ <;> rw [edges] <;> simp only [List.forall_mem_cons]
    · exact ⟨by decide, by decide, by simp⟩
    · exact ⟨by decide, by decide, by simp⟩
  have done : saved.outcome = .done := by decide +kernel
  have silent : saved.events = [] := by decide +kernel
  have place : b.place = saved.session.place := by simp only [b]
  have made := source_save a reached "f" 1 0 done silent b place
  rw [Nat.zero_add] at made
  exact ⟨⟨reached, done, silent, replayable⟩, made.1.2 replayable, (made.2 replayable).2.1⟩

theorem source_save_dash :
    let _ : Host := .usual
    let start := start ⟨{}, []⟩
    let a := (start.play 1 false ["edge 0 0 '(-|a)'"]).session start
    let saved := a.enter 1 (lineOf ["save", "f"])
    let r := saved.session.enter 1 (lineOf ["source", "f"])
    (a.Reachable ∧ saved.outcome = .done ∧ saved.events = []) ∧
      a.table.edges.length = 3 ∧
      Event.errText r.events =
          "dfamatch: error: the following arguments are required: CLASS\n" ∧
        r.session.table.edges.length = 0 :=
  ⟨⟨⟨_, 1, false, _, rfl⟩, by decide +kernel, by decide +kernel⟩, by decide +kernel,
    by decide +kernel⟩

end Acceptor.Session
