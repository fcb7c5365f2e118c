import Acceptor.Proofs.Shell.Turn

/-!
# What ends everything

Lines are played to the end, or to the first failure if that is asked for, unless one of them quits or
a fault escapes. A line does this by its command (`Command.Ends`), or by a file that it sources
(`Turn.Ends`), at any depth (`Turn.outcome_iff`).
-/

namespace Acceptor
open Relation Session

variable {s : Session} {c : Command} {o : Outcome}

/-! ## Commands -/

inductive Report.Settled (r : Report) : Prop
  | done (done : r.outcome = .done)
  | told {message} (failed : r.outcome = .failed) (told : .err message ∈ r.events)

theorem Report.Settled.goesOn {r : Report} (h : r.Settled) : r.outcome.goesOn false = true := by
  cases h with
  | done done => rw [done]; rfl
  | told failed told => rw [failed]; rfl

theorem Report.Settled.after {r : Report} (h : r.Settled) (earlier : List Event) :
    (r.after earlier).Settled := by
  cases h with
  | done done => exact .done done
  | told failed told => exact .told failed (List.mem_append_right earlier told)

theorem settled_complain (message : String) : (s.complain message).Settled :=
  .told rfl List.mem_cons_self

section

variable [Host] {play : Player}

theorem Command.Did.settled_or_ends {r : Report} (h : c.Did s r) :
    r.Settled ∨ c.Ends s r.outcome := by
  cases h with
  | changed | wrote => exact .inl (.done rfl)
  | refused place events message =>
      have told := List.mem_append_right events (List.mem_singleton_self (Event.err message))
      exact .inl (.told rfl told)
  | ended place events ends => exact .inr ends

theorem Command.Ends.stops (h : c.Ends s o) : o.goesOn false = false := by
  cases h <;> rfl

theorem Command.Ends.outcome (sound : s.table.Sound) (h : c.Ends s o) :
    (s.perform play c).outcome = o := by
  cases h with
  | quit => rfl
  | folder nul =>
      rw [perform, changeFolder_of_nul nul]
      rfl
  | states positive many =>
      rw [perform, Session.addStates, if_neg (Int.not_le.2 positive), if_pos many]
      rfl
  | edge has =>
      rw [perform, Session.addEdge, has]
      rfl
  | run nonempty fault =>
      rename_i texts trace f
      rw [perform, (run_of_sound sound texts trace).2, if_neg nonempty, fault]
      rfl
  | draw isNamed nul =>
      rw [perform, Session.draw, isNamed]
      simp only [write_of_nul nul]
      rfl
  | encode isNamed opens breaks =>
      rw [perform, Session.draw, isNamed]
      simp only [opens.write_fault, delivered, breaks]
      rfl

/-! ## Turns -/

namespace Turn

variable {t u : Turn}

/-- The turn ends everything in this way, and no line that it plays does. -/
inductive Ends (t : Turn) : Outcome → Prop
  | command {c : Command} {o : Outcome} (command : commandOf? t.text = some c)
      (ends : c.Ends t.session o) : Ends t o
  | name {names name rest} {s : Session} (command : commandOf? t.text = some (.source names))
      (comes : ReflTransGen (Sourcing.Next (player t.depth)) ⟨t.session, names⟩ ⟨s, name :: rest⟩)
      (nul : Place.holdsNul name = true) : Ends t (.escaped .nulInName)
  | deep {names name rest path} {s : Session} (command : commandOf? t.text = some (.source names))
      (bottom : t.depth = 0)
      (comes : ReflTransGen (Sourcing.Next (player t.depth)) ⟨t.session, names⟩ ⟨s, name :: rest⟩)
      (found : s.Finds name path) : Ends t (.escaped .tooDeep)
  | file {depth names name rest path n reader e} {s s' : Session}
      (command : commandOf? t.text = some (.source names)) (isDepth : t.depth = depth + 1)
      (comes : ReflTransGen (Sourcing.Next (player t.depth)) ⟨t.session, names⟩ ⟨s, name :: rest⟩)
      (found : s.Finds name path)
      (arrives : ReflTransGen (Playing.Next (Session.line (player depth))) (opened s path)
        ⟨n + 1, reader, s'⟩)
      (read : reader.line? s'.place.disk = .error e) : Ends t (.escaped (.notText e))

theorem Ends.outcome (sound : t.session.table.Sound) (h : t.Ends o) : t.report.outcome = o := by
  cases h with
  | command command ends =>
      rw [report, line_of_command command]
      exact ends.outcome sound
  | name command comes nul =>
      rw [report_of_source command, (Sourcing.continues comes).outcome,
        (Sourcing.Ends.nul nul).report]
      rfl
  | deep command bottom comes found =>
      rename_i names name rest path s
      have stops : (player t.depth path s).outcome = .escaped .tooDeep := by
        rw [bottom]
        rfl
      rw [report_of_source command, (Sourcing.continues comes).outcome,
        (Sourcing.Ends.stops found (by rw [stops]; rfl)).report, stops]
  | file command isDepth comes found arrives read =>
      rename_i depth names name rest path n reader e s s'
      have file : ((opened s path).report (Session.line (player depth))).outcome =
          .escaped (.notText e) := by
        rw [(Playing.continues arrives).outcome, (Playing.Ends.notText read).report]
        rfl
      refine (outcome_of_file command isDepth comes found ?_).trans file
      rw [file]
      rfl

theorem settled_or_ends (sound : t.session.table.Sound) :
    t.report.Settled ∨ t.report.outcome.goesOn false = false ∧
      (t.Ends t.report.outcome ∨ ∃ u, t.Includes u ∧ u.report.outcome = t.report.outcome) := by
  cases command : commandOf? t.text with
  | none =>
      left
      rcases @line_of_none _ (player t.depth) t.session t.text command with quiet | ⟨message, refused⟩
      · rw [report, quiet]
        exact .done rfl
      · rw [report, refused]
        exact settled_complain message
  | some c =>
      by_cases sources : ∃ names, c = .source names
      · obtain ⟨names, rfl⟩ := sources
        obtain ⟨q, r, comes, ended⟩ := Sourcing.ends (player t.depth) ⟨t.session, names⟩
        obtain ⟨earlier, whole⟩ := Sourcing.continues comes
        rw [ended.report, ← report_of_source command] at whole
        have outcome : t.report.outcome = r.outcome := by
          rw [whole]
          rfl
        cases ended with
        | done => exact .inl (whole ▸ (Report.Settled.done rfl).after earlier)
        | nul nul =>
            right
            rw [outcome]
            exact ⟨rfl, .inl (.name command comes nul)⟩
        | refused noNul expanded refused => exact .inl (whole ▸ (settled_complain _).after earlier)
        | stops found stops =>
            right
            rename_i s name rest path
            rw [outcome]
            cases isDepth : t.depth with
            | zero => exact ⟨rfl, .inl (.deep command isDepth comes found)⟩
            | succ depth =>
                obtain ⟨q, r, arrives, ended⟩ :=
                  Playing.ends (Session.line (player depth)) (opened s path)
                have file : (player (depth + 1) path s).outcome = r.outcome := by
                  rw [player_succ rfl, (Playing.continues arrives).outcome, ended.report]
                rw [isDepth, file] at stops
                rw [file]
                refine ⟨stops, ?_⟩
                cases ended with
                | outOfTurns | endOfFile read => cases stops
                | notText read => exact .inl (.file command isDepth comes found arrives read)
                | stops read ends =>
                    rename_i reader s' text reader'
                    exact .inr ⟨⟨depth, s', text⟩, .line command isDepth comes found arrives read, rfl⟩
      · have noFiles : ∀ names, c ≠ .source names := fun names isSource => sources ⟨names, isSource⟩
        have performed : t.report = t.session.perform (player t.depth) c := line_of_command command
        rw [performed]
        rcases (perform_did sound noFiles).settled_or_ends with settled | ends
        · exact .inl settled
        · exact .inr ⟨ends.stops, .inl (.command command ends)⟩

theorem outcome_iff (sound : t.session.table.Sound) (stops : o.goesOn false = false) :
    t.report.outcome = o ↔ ∃ u, t.Plays u ∧ u.Ends o := by
  constructor
  · intro outcome
    induction depth : t.depth using Nat.strongRecOn generalizing t with
    | ind n ih =>
        rcases settled_or_ends sound with settled | ⟨-, ends | ⟨u, includes, same⟩⟩
        · have goesOn := settled.goesOn
          rw [outcome, stops] at goesOn
          cases goesOn
        · exact ⟨t, .refl, outcome ▸ ends⟩
        · obtain ⟨v, plays, ends⟩ := ih u.depth (depth ▸ includes.depth_lt)
            (includes.kept commands_sound sound) (same.trans outcome) rfl
          exact ⟨v, .head includes plays, ends⟩
  · rintro ⟨u, plays, ends⟩
    have ended : u.report.outcome = o := ends.outcome (plays.kept commands_sound sound)
    clear ends
    induction plays with
    | refl => exact ended
    | tail before includes ih =>
        exact ih ((includes.outcome (ended ▸ stops)).trans ended)

theorem reported_of_failed (sound : t.session.table.Sound) (plays : t.Plays u)
    (failed : u.report.outcome = .failed) : ∃ message, .err message ∈ t.report.events := by
  have told : ∃ message, .err message ∈ u.report.events := by
    rcases settled_or_ends (plays.kept commands_sound sound) with settled | ⟨stops, -⟩
    · cases settled with
      | done done =>
          rw [failed] at done
          cases done
      | told _ told => exact ⟨_, told⟩
    · rw [failed] at stops
      cases stops
  obtain ⟨message, told⟩ := told
  refine ⟨message, ?_⟩
  clear failed
  induction plays with
  | refl => exact told
  | tail before includes ih => exact ih (includes.events.subset told)

end Turn

/-! ## Lines -/

inductive Session.Enters (s : Session) (depth : Nat) (exitFirst : Bool) (lines : List String) :
    Turn → Prop
  | line {front rest : List String} {text : String} (isLine : lines = front ++ text :: rest)
      (done : (s.play depth exitFirst front).outcome = .done) :
      Enters s depth exitFirst lines ⟨depth, (s.play depth exitFirst front).session s, text⟩

/-- Playing lines leads to the last of them, to a failure if that is asked for, or to one of the ends
of `Turn.Ends`. Whatever fails before is reported. -/
theorem play_ends (a : Session) (reached : a.Reachable) (place : Place) (depth : Nat)
    (exitFirst : Bool) (lines : List String) :
    let s : Session := { a with place }
    let played := s.play depth exitFirst lines
    (∀ o, o.goesOn false = false →
      (played.outcome = o ↔ ∃ t u, s.Enters depth exitFirst lines t ∧ t.Plays u ∧ u.Ends o)) ∧
    (played.outcome = .done → played.reports.length = lines.length) ∧
    (played.outcome = .failed → exitFirst = true) ∧
    ∀ t u, s.Enters depth exitFirst lines t → t.Plays u → u.report.outcome = .failed →
      ∃ message, .err message ∈ t.report.events := by
  intro s played
  have sound : ∀ t, s.Enters depth exitFirst lines t → t.session.table.Sound := by
    intro t enters
    cases enters with
    | line isLine done => exact play_kept (s := s) commands_sound depth exitFirst _ reached.sound
  have iff : ∀ o, o.goesOn exitFirst = false → (played.outcome = o ↔ _) := fun o =>
    Transcript.outcome_eq_iff
  refine ⟨fun o stops => ?_, Transcript.length_reports_of_done, fun failed => ?_,
    fun t u enters plays failed => Turn.reported_of_failed (sound t enters) plays failed⟩
  · have ends : o.goesOn exitFirst = false := by
      cases exitFirst with
      | false => exact stops
      | true => exact Outcome.goesOn_true_of_false stops
    refine (iff o ends).trans ⟨?_, ?_⟩
    · rintro ⟨front, text, rest, isLine, done, last⟩
      have enters : s.Enters depth exitFirst lines _ := .line isLine done
      obtain ⟨u, plays, how⟩ := (Turn.outcome_iff (sound _ enters) stops).1 last
      exact ⟨_, u, enters, plays, how⟩
    · rintro ⟨t, u, enters, plays, how⟩
      have last := (Turn.outcome_iff (sound t enters) stops).2 ⟨u, plays, how⟩
      cases enters with
      | line isLine done => exact ⟨_, _, _, isLine, done, last⟩
  · have ended : played.outcome = .done ∨ played.outcome.goesOn exitFirst = false :=
      Transcript.done_or_stops lines
    rw [failed] at ended
    rcases ended with done | stops
    · cases done
    · cases exitFirst with
      | true => rfl
      | false => cases stops

end

theorem play_ends_by_nul :
    let _ : Host := .usual
    let s := start ⟨{}, []⟩
    let lines := ["cd '\x00'", "new"]
    s.Reachable ∧ (s.play 1 false lines).outcome = .escaped .nulInName ∧
      ∃ t u, s.Enters 1 false lines t ∧ t.Plays u ∧ u.Ends (.escaped .nulInName) := by
  intro host s lines
  have reached : s.Reachable := ⟨_, 1, false, [], rfl⟩
  have escaped : (s.play 1 false lines).outcome = .escaped .nulInName := by decide +kernel
  exact ⟨reached, escaped, ((play_ends s reached s.place 1 false lines).1 _ rfl).1 escaped⟩

theorem cd_escapes :
    let _ : Host := .usual
    let s := start ⟨{}, []⟩
    let played := s.play 1 false ["cd '\x00'", "new"]
    s.Reachable ∧ played.outcome = .escaped .nulInName ∧ played.reports.length = 1 ∧
      played.events = [] :=
  ⟨⟨_, 1, false, [], rfl⟩, by decide +kernel⟩

end Acceptor
