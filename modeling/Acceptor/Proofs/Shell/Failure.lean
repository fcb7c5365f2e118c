import Acceptor.Proofs.Shell.Turn

namespace Acceptor
open Relation Session

def Report.TellsError (r : Report) : Prop := r.outcome = .failed ∨ ∃ message, .err message ∈ r.events

inductive Report.Plain (s : Session) : Report → Prop
  | silent (s' : Session) : Plain s ⟨s', [], .done⟩
  | kept (disk : Disk) (events : List Event) (outcome : Outcome) :
      Plain s ⟨s.withDisk disk, events, outcome⟩

structure Session.SameButFiles (s s' : Session) : Prop where
  table : s'.table = s.table
  folder : s'.place.folder = s.place.folder

theorem Report.Plain.sameButFiles {s : Session} {r : Report} (h : r.Plain s) (error : r.TellsError) :
    s.SameButFiles r.session := by
  cases h with
  | silent s' =>
      rcases error with failed | ⟨message, told⟩
      · cases failed
      · cases told
  | kept disk events outcome => exact ⟨rfl, rfl⟩

namespace Session

variable {s : Session} {c : Command} {text : String}

theorem plain_complain (message : String) : (s.complain message).Plain s := .kept s.place.disk _ _

theorem plain_print (text : String) : (s.print text).Plain s := .kept s.place.disk _ _

theorem plain_escape (f : Fault) : (s.escape f).Plain s := .kept s.place.disk _ _

theorem plain_change (t : Except Fault Table) : (s.change t).Plain s := by
  cases t with
  | ok u => exact .silent _
  | error f => exact plain_escape f

theorem plain_setStart (state : Int) : (s.setStart state).Plain s := by
  unfold setStart
  split
  · exact plain_change _
  · exact plain_complain _

theorem plain_setAccepting (states : List Int) (accepting : Bool) :
    (s.setAccepting states accepting).Plain s := by
  unfold setAccepting
  split
  · exact plain_complain _
  · exact plain_change _

theorem plain_addEdge (source : Int) (dest : Option Int) (label : Option String) :
    (s.addEdge source dest label).Plain s := by
  unfold addEdge
  split
  · exact plain_complain _
  · cases dest with
    | none => exact plain_escape _
    | some dest =>
        simp only
        split
        · exact plain_complain _
        · cases CharClass.parse (label.getD "[]") with
          | error e => exact plain_complain _
          | ok k => exact plain_change _

theorem plain_configure (capacity : Option Int) (strict : Option Bool) :
    (s.configure capacity strict).Plain s := by
  cases capacity with
  | some n =>
      simp only [configure]
      split
      · exact plain_complain _
      · exact .silent _
  | none =>
      cases strict with
      | none => exact plain_print _
      | some strict => exact .silent _

variable [Host] {play : Player}

theorem plain_changeFolder (name : String) : (s.changeFolder name).Plain s := by
  unfold changeFolder
  cases Place.expandHome name with
  | error f => exact plain_escape f
  | ok name =>
      simp only
      split
      · exact plain_escape _
      · cases s.place.goTo name with
        | error e => exact plain_complain _
        | ok folder => exact .silent _

theorem plain_addStates (count : Int) (accepting start : Bool) :
    (s.addStates count accepting start).Plain s := by
  unfold addStates
  split
  · exact plain_complain _
  · split
    · exact plain_escape _
    · exact .silent _

theorem plain_run (texts : List String) (trace : Bool) : (s.run texts trace).Plain s := by
  unfold run
  split
  · exact .kept s.place.disk _ _
  · exact .kept s.place.disk _ _

theorem Wrote.withDisk {name : String} {w : Written} {r : Session × Option Fault}
    (h : Wrote s name w r) : ∃ disk, r.1 = s.withDisk disk := by
  cases h with
  | nul | unopened => exact ⟨s.place.disk, rfl⟩
  | whole | kept | removed => exact ⟨_, rfl⟩

theorem plain_settle {name : String} {w : Written} (caught : Fault → Bool) :
    ((s.write name w).1.settle caught (s.write name w).2).Plain s := by
  obtain ⟨disk, left⟩ := (wrote s name w).withDisk
  rw [left]
  unfold settle
  cases (s.write name w).2 with
  | none => exact .kept disk _ _
  | some f =>
      simp only
      split
      · exact .kept disk _ _
      · exact .kept disk _ _

theorem plain_save (file : Option String) : (s.save file).Plain s := by
  unfold save
  simp only
  split
  · exact plain_settle _
  · split
    · exact plain_print _
    · exact .kept s.place.disk _ _

theorem plain_draw (file : Option String) (viewer : Bool) : (s.draw file viewer).Plain s := by
  unfold draw
  split
  · exact plain_settle _
  · split
    · exact .silent _
    · exact plain_print _

theorem perform_plain (noFiles : ∀ names, c ≠ .source names) : (s.perform play c).Plain s := by
  cases c with
  | changeFolder name => exact plain_changeFolder name
  | clear => exact .silent _
  | loadExample => exact .silent _
  | addStates count accepting start => exact plain_addStates count accepting start
  | setStart state => exact plain_setStart state
  | setAccepting states accepting => exact plain_setAccepting states accepting
  | addEdge source dest label => exact plain_addEdge source dest label
  | configure capacity strict => exact plain_configure capacity strict
  | run texts trace => exact plain_run texts trace
  | save file => exact plain_save file
  | draw file viewer => exact plain_draw file viewer
  | quit => exact .kept s.place.disk _ _
  | source names => exact absurd rfl (noFiles names)
  | help topic => exact plain_print _

theorem line_plain (noFiles : ∀ names, commandOf? text ≠ some (.source names)) :
    (s.line play text).Plain s := by
  cases command : commandOf? text with
  | none =>
      rcases @line_of_none _ play s text command with quiet | ⟨message, refused⟩
      · rw [quiet]
        exact .silent s
      · rw [refused]
        exact plain_complain message
  | some c =>
      rw [line_of_command command]
      exact perform_plain fun names isSource => noFiles names (isSource ▸ command)

theorem play_of_failed {depth : Nat} {lines : List String}
    (failed : (s.play depth true lines).outcome = .failed) :
    ∃ front text rest, lines = front ++ text :: rest ∧ (s.play depth true front).outcome = .done ∧
      (((s.play depth true front).session s).enter depth text).outcome = .failed ∧
      (s.play depth true lines).session s =
        (((s.play depth true front).session s).enter depth text).session := by
  obtain ⟨front, text, rest, rfl, done, last⟩ :=
    (Transcript.outcome_eq_iff (o := .failed) rfl).1 failed
  have stops : (enter depth ((Transcript.play (enter depth) true s front).session s) text).outcome.goesOn
      true = false := by
    rw [last]
    rfl
  refine ⟨front, text, rest, rfl, done, last, ?_⟩
  unfold Session.play
  rw [Transcript.play_append_of_done done, Transcript.play_cons_of_stops stops]
  simp [Transcript.session]

end Session

theorem Playing.of_failed {act : Session → String → Report} {p : Playing}
    (failed : (p.report act).outcome = .failed) :
    ∃ n reader s text reader', ReflTransGen (Next act) p ⟨n + 1, reader, s⟩ ∧
      reader.line? s.place.disk = .ok (some (text, reader')) ∧ (act s text).outcome = .failed ∧
      (p.report act).session = (act s text).session := by
  obtain ⟨q, r, reach, ended⟩ := Playing.ends act p
  obtain ⟨earlier, whole⟩ := Playing.continues reach
  rw [ended.report] at whole
  rw [whole] at failed ⊢
  cases ended with
  | outOfTurns | notText | endOfFile => cases failed
  | stops read stops => exact ⟨_, _, _, _, _, reach, read, failed, rfl⟩

/-- A line that plays no file and tells of an error leaves the automaton and the folder as they were.
So playing lines, or a file, up to a failure of such a line leaves what the lines before it left. -/
theorem unchanged_of_error [Host] (s : Session) :
    (∀ play text, (∀ names, commandOf? text ≠ some (.source names)) →
      (s.line play text).TellsError → s.SameButFiles (s.line play text).session) ∧
    (∀ depth lines, (s.play depth true lines).outcome = .failed →
      ∃ front text rest, lines = front ++ text :: rest ∧ (s.play depth true front).outcome = .done ∧
        (((s.play depth true front).session s).enter depth text).outcome = .failed ∧
        ((∀ names, commandOf? text ≠ some (.source names)) →
          ((s.play depth true front).session s).SameButFiles
            ((s.play depth true lines).session s))) ∧
    ∀ depth path, let act := line (player depth)
      ((opened s path).report act).outcome = .failed →
        ∃ n reader s' text reader', ReflTransGen (Playing.Next act) (opened s path) ⟨n + 1, reader, s'⟩ ∧
          reader.line? s'.place.disk = .ok (some (text, reader')) ∧
          (act s' text).outcome = .failed ∧
          ((∀ names, commandOf? text ≠ some (.source names)) →
            s'.SameButFiles ((opened s path).report act).session) := by
  refine ⟨fun play text noFiles error => (line_plain noFiles).sameButFiles error,
    fun depth lines failed => ?_, fun depth path => ?_⟩
  · obtain ⟨front, text, rest, split, done, last, left⟩ := play_of_failed failed
    refine ⟨front, text, rest, split, done, last, fun noFiles => ?_⟩
    rw [left]
    exact (line_plain noFiles).sameButFiles (.inl last)
  · intro act failed
    obtain ⟨n, reader, s', text, reader', reach, read, last, left⟩ := Playing.of_failed failed
    refine ⟨n, reader, s', text, reader', reach, read, last, fun noFiles => ?_⟩
    rw [left]
    exact (line_plain noFiles).sameButFiles (.inl last)

theorem unchanged_of_error_accept :
    let _ : Host := .usual
    let s := start ⟨{}, []⟩
    let lines := ["state 2", "accept --no 0 7", "new"]
    ((∀ names, commandOf? "accept --no 0 7" ≠ some (.source names)) ∧
        (s.enter 1 "accept --no 0 7").TellsError ∧
        s.SameButFiles (s.enter 1 "accept --no 0 7").session) ∧
      (s.play 1 true lines).outcome = .failed ∧
        ∃ front text rest, lines = front ++ text :: rest ∧ (s.play 1 true front).outcome = .done ∧
          (((s.play 1 true front).session s).enter 1 text).outcome = .failed := by
  intro host s lines
  have noFiles : ∀ names, commandOf? "accept --no 0 7" ≠ some (.source names) := by
    have command : commandOf? "accept --no 0 7" = some (.setAccepting [0, 7] false) := by
      decide +kernel
    intro names
    rw [command]
    nofun
  have error : (s.enter 1 "accept --no 0 7").TellsError := .inl (by decide +kernel)
  have failed : (s.play 1 true lines).outcome = .failed := by decide +kernel
  obtain ⟨line, script, -⟩ := unchanged_of_error s
  obtain ⟨front, text, rest, split, done, last, -⟩ := script 1 lines failed
  exact ⟨⟨noFiles, error, line _ _ noFiles error⟩, failed, front, text, rest, split, done, last⟩

end Acceptor
