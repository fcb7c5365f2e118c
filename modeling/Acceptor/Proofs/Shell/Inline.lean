import Acceptor.Proofs.Shell.Turn
import Acceptor.Shell.Program

/-!
# Sourcing a file is playing its lines

A line that sources a file has the report of the file's lines, one level deeper, unless one of them
fails or writes the file (`line_eq_lines`). How deep files may source files makes no difference where
that is deep enough (`player_deepens`).
-/

namespace Acceptor

/-! ## One after the other -/

theorem Outcome.goesOn_of_not_failed {o : Outcome} (notFailed : o ≠ .failed) (exitFirst : Bool) :
    o.goesOn exitFirst = decide (o = .done) := by
  cases o with
  | failed => exact absurd rfl notFailed
  | done | quit | escaped f => rfl

def Report.andThen (r : Report) (next : Session → Report) : Report :=
  if r.outcome = .done then (next r.session).after r.events else r

theorem Report.andThen_of_done {r : Report} (done : r.outcome = .done) (next : Session → Report) :
    r.andThen next = (next r.session).after r.events := if_pos done

theorem Report.andThen_of_not_done {r : Report} (ends : r.outcome ≠ .done)
    (next : Session → Report) : r.andThen next = r := if_neg ends

theorem Report.andThen_after (r : Report) (next : Session → Report) (earlier : List Event) :
    (r.after earlier).andThen next = (r.andThen next).after earlier := by
  by_cases done : r.outcome = .done
  · rw [andThen_of_done done, Report.after_after]
    exact andThen_of_done (r := r.after earlier) done next
  · rw [andThen_of_not_done done]
    exact andThen_of_not_done (r := r.after earlier) done next

theorem Report.andThen_congr {r : Report} {next next' : Session → Report}
    (same : r.outcome = .done → next r.session = next' r.session) :
    r.andThen next = r.andThen next' := by
  by_cases done : r.outcome = .done
  · rw [andThen_of_done done, andThen_of_done done, same done]
  · rw [andThen_of_not_done done, andThen_of_not_done done]

namespace Transcript

variable {act : Session → String → Report} {exitFirst : Bool} {s : Session} {text : String}
  {lines : List String}

theorem report_play_append (front rest : List String) :
    (play act exitFirst s (front ++ rest)).report s =
      ((play act exitFirst s front).report s).andThen fun s' =>
        (play act exitFirst s' rest).report s' := by
  induction front generalizing s with
  | nil => rfl
  | cons text front ih =>
      rw [List.cons_append]
      cases goes : (act s text).outcome.goesOn exitFirst with
      | true =>
          rw [report_play_cons_of_goesOn goes, report_play_cons_of_goesOn goes, ih, Report.andThen_after]
      | false =>
          have ends : (act s text).outcome ≠ .done := by
            intro done
            rw [done] at goes
            cases goes
          rw [report_play_cons_of_stops goes, report_play_cons_of_stops goes,
            Report.andThen_of_not_done ends]

theorem report_play_cons (notFailed : (act s text).outcome ≠ .failed) (rest : List String) :
    (play act exitFirst s (text :: rest)).report s =
      (act s text).andThen fun s' => (play act exitFirst s' rest).report s' := by
  have goes := Outcome.goesOn_of_not_failed notFailed exitFirst
  by_cases done : (act s text).outcome = .done
  · rw [report_play_cons_of_goesOn (goes.trans (decide_eq_true done)), Report.andThen_of_done done]
  · rw [report_play_cons_of_stops (goes.trans (decide_eq_false done)),
      Report.andThen_of_not_done done]

theorem report_play_between (own : Session → Report) {xs : List String}
    (same : (play act exitFirst s xs).outcome = .done →
      let here := (play act exitFirst s xs).session s
      act here text = own here ∧ (own here).outcome ≠ .failed) (ys : List String) :
    (play act exitFirst s (xs ++ text :: ys)).report s =
      ((play act exitFirst s xs).report s).andThen fun s =>
        (own s).andThen fun s => (play act exitFirst s ys).report s := by
  rw [report_play_append]
  refine Report.andThen_congr fun done => ?_
  obtain ⟨isOwn, notFailed⟩ := same done
  rw [← isOwn] at notFailed
  exact (report_play_cons notFailed ys).trans (congrArg (Report.andThen · _) isOwn)

theorem play_of_not_failed (notFailed : (play act true s lines).outcome ≠ .failed) :
    play act exitFirst s lines = play act true s lines := by
  induction lines generalizing s with
  | nil => rfl
  | cons text rest ih =>
      by_cases done : (act s text).outcome = .done
      · have goes : ∀ exitFirst, (act s text).outcome.goesOn exitFirst = true := by
          intro exitFirst
          rw [done]
          rfl
        rw [play_cons_of_goesOn (goes _)] at notFailed
        rw [play_cons_of_goesOn (goes _), play_cons_of_goesOn (goes _), ih notFailed]
      · have here : (act s text).outcome ≠ .failed := by
          intro failed
          rw [play_cons_of_stops (by rw [failed]; rfl)] at notFailed
          exact notFailed failed
        have stops : ∀ exitFirst, (act s text).outcome.goesOn exitFirst = false := fun exitFirst =>
          (Outcome.goesOn_of_not_failed here exitFirst).trans (decide_eq_false done)
        rw [play_cons_of_stops (stops _), play_cons_of_stops (stops _)]

end Transcript

/-! ## Depth -/

def Report.InDepth (r : Report) : Prop := r.outcome ≠ .escaped .tooDeep

instance (r : Report) : Decidable r.InDepth :=
  inferInstanceAs (Decidable (r.outcome ≠ .escaped .tooDeep))

theorem Report.inDepth_of_goesOn {r : Report} {exitFirst : Bool}
    (goes : r.outcome.goesOn exitFirst = true) : r.InDepth := by
  intro deep
  rw [deep] at goes
  cases goes

theorem Report.inDepth_of_andThen {r : Report} {next : Session → Report}
    (inDepth : (r.andThen next).InDepth) :
    r.InDepth ∧ (r.outcome = .done → (next r.session).InDepth) := by
  by_cases done : r.outcome = .done
  · rw [andThen_of_done done] at inDepth
    refine ⟨?_, fun _ => inDepth⟩
    rw [InDepth, done]
    nofun
  · rw [andThen_of_not_done done] at inDepth
    exact ⟨inDepth, fun isDone => absurd isDone done⟩

theorem Report.andThen_deepens {r r' : Report} {next next' : Session → Report}
    (inDepth : (r.andThen next).InDepth) (first : r.InDepth → r' = r)
    (second : r.outcome = .done → (next r.session).InDepth → next' r.session = next r.session) :
    r'.andThen next' = r.andThen next := by
  obtain ⟨own, later⟩ := inDepth_of_andThen inDepth
  rw [first own]
  exact andThen_congr fun done => second done (later done)

/-- What a run comes to if the interpreter goes deep enough. -/
def Settles (run : Nat → Report) (r : Report) : Prop := (∃ depth, run depth = r) ∧ r.InDepth

def Deepens (run : Nat → Report) : Prop :=
  ∀ depth, (run depth).InDepth → run (depth + 1) = run depth

theorem Deepens.eq_of_le {run : Nat → Report} (deepens : Deepens run) {depth depth' : Nat}
    (le : depth ≤ depth') (inDepth : (run depth).InDepth) : run depth' = run depth := by
  induction le with
  | refl => rfl
  | step le ih => exact (deepens _ (ih ▸ inDepth)).trans ih

theorem Deepens.settles_unique {run : Nat → Report} {r r' : Report} (deepens : Deepens run)
    (settles : Settles run r) (settles' : Settles run r') : r = r' := by
  obtain ⟨⟨depth, rfl⟩, inDepth⟩ := settles
  obtain ⟨⟨depth', rfl⟩, inDepth'⟩ := settles'
  rcases Nat.le_total depth depth' with le | le
  · exact (deepens.eq_of_le le inDepth).symm
  · exact deepens.eq_of_le le inDepth'

theorem settles_iff {run run' : Nat → Report} (down : ∀ depth, (run depth).InDepth →
    ∃ depth', run' depth' = run depth) (up : ∀ depth, (run' depth).InDepth →
    ∃ depth', run depth' = run' depth) (r : Report) : Settles run r ↔ Settles run' r := by
  constructor
  · rintro ⟨⟨depth, rfl⟩, inDepth⟩
    exact ⟨down depth inDepth, inDepth⟩
  · rintro ⟨⟨depth, rfl⟩, inDepth⟩
    exact ⟨up depth inDepth, inDepth⟩

namespace Session

section Act

variable {act act' : Session → String → Report} {s : Session}

def Agrees (act act' : Session → String → Report) : Prop :=
  ∀ s text, (act s text).InDepth → act' s text = act s text

theorem play_agrees (agrees : Agrees act act') (exitFirst : Bool) (lines : List String)
    (inDepth : ((Transcript.play act exitFirst s lines).report s).InDepth) :
    Transcript.play act' exitFirst s lines = Transcript.play act exitFirst s lines := by
  induction lines generalizing s with
  | nil => rfl
  | cons text lines ih =>
      cases goes : (act s text).outcome.goesOn exitFirst with
      | true =>
          rw [Transcript.report_play_cons_of_goesOn goes] at inDepth
          have same := agrees s text (Report.inDepth_of_goesOn goes)
          rw [Transcript.play_cons_of_goesOn goes, Transcript.play_cons_of_goesOn (same ▸ goes), same,
            ih inDepth]
      | false =>
          rw [Transcript.report_play_cons_of_stops goes] at inDepth
          have same := agrees s text inDepth
          rw [Transcript.play_cons_of_stops goes, Transcript.play_cons_of_stops (same ▸ goes), same]

theorem playFile_agrees (agrees : Agrees act act') (turns : Nat) (reader : Reader)
    (inDepth : (playFile act turns reader s).InDepth) :
    playFile act' turns reader s = playFile act turns reader s := by
  induction turns generalizing reader s with
  | zero => rfl
  | succ turns ih =>
      rw [playFile] at inDepth ⊢
      rw [playFile]
      cases read : reader.line? s.place.disk with
      | error e => rfl
      | ok found =>
          cases found with
          | none => rfl
          | some found =>
              obtain ⟨text, reader'⟩ := found
              simp only [read] at inDepth ⊢
              cases goes : (act s text).outcome.goesOn true with
              | true =>
                  have here : (act s text).InDepth := Report.inDepth_of_goesOn goes
                  rw [goes, if_pos rfl] at inDepth
                  rw [agrees s text here, goes, if_pos rfl, if_pos rfl, ih reader' inDepth]
              | false =>
                  rw [goes] at inDepth
                  rw [agrees s text inDepth, goes]
                  rfl

end Act

variable [Host] {play play' : Player} {s : Session}

def PlayersAgree (play play' : Player) : Prop :=
  ∀ path s, (play path s).InDepth → play' path s = play path s

theorem source_agrees (agree : PlayersAgree play play') (names : List String)
    (inDepth : (s.source play names).InDepth) : s.source play' names = s.source play names := by
  induction names generalizing s with
  | nil => rfl
  | cons name names ih =>
      cases nul : Place.holdsNul name with
      | true => rw [Sourcing.source_of_nul nul, Sourcing.source_of_nul nul]
      | false =>
          obtain ⟨name', expanded, -⟩ | ⟨-, held⟩ := Place.expandHome_cases name
          · cases file : s.place.file name' with
            | error e =>
                rw [Sourcing.source_of_refused nul expanded file,
                  Sourcing.source_of_refused nul expanded file]
            | ok path =>
                have found : s.Finds name path := ⟨nul, name', expanded, file⟩
                rw [Sourcing.source_of_found found] at inDepth ⊢
                rw [Sourcing.source_of_found found]
                cases goesOn : (play path s).outcome.goesOn false with
                | true =>
                    have here : (play path s).InDepth := Report.inDepth_of_goesOn goesOn
                    rw [goesOn, if_pos rfl] at inDepth
                    rw [agree path s here, goesOn, if_pos rfl, if_pos rfl, ih inDepth]
                | false =>
                    rw [goesOn] at inDepth
                    rw [agree path s inDepth, goesOn]
                    rfl
          · rw [nul] at held
            cases held

theorem perform_agrees (agree : PlayersAgree play play') (c : Command)
    (inDepth : (s.perform play c).InDepth) : s.perform play' c = s.perform play c := by
  cases c with
  | source names => exact source_agrees agree names inDepth
  | _ => rfl

theorem line_agrees (agree : PlayersAgree play play') : Agrees (line play) (line play') := by
  intro s text inDepth
  rcases line_cases text with ⟨c, -, performs⟩ | ⟨-, quiet | ⟨message, refused⟩⟩
  · rw [performs] at inDepth ⊢
    rw [performs]
    exact perform_agrees agree c inDepth
  · rw [quiet, quiet]
  · rw [refused, refused]

theorem player_deepens (depth : Nat) : PlayersAgree (player depth) (player (depth + 1)) := by
  induction depth with
  | zero => exact fun path s inDepth => absurd rfl inDepth
  | succ depth ih => exact fun path s => playFile_agrees (line_agrees ih) _ _

theorem play_deepens {depth : Nat} {exitFirst : Bool} {lines : List String}
    (inDepth : ((s.play depth exitFirst lines).report s).InDepth) :
    s.play (depth + 1) exitFirst lines = s.play depth exitFirst lines :=
  play_agrees (line_agrees (player_deepens depth)) exitFirst lines inDepth

theorem report_play_deepens (exitFirst : Bool) (lines : List String) :
    Deepens fun depth => (s.play depth exitFirst lines).report s :=
  fun _ inDepth => congrArg (Transcript.report · s) (play_deepens inDepth)

theorem play_of_le {depth depth' : Nat} {exitFirst : Bool} {lines : List String}
    (le : depth ≤ depth') (inDepth : ((s.play depth exitFirst lines).report s).InDepth) :
    s.play depth' exitFirst lines = s.play depth exitFirst lines := by
  induction le with
  | refl => rfl
  | step le ih =>
      rw [← ih] at inDepth
      exact (play_deepens inDepth).trans ih

/-! ## Sourcing a file -/

/-- The name is that of a file with these lines. None of them fails, and none that is played to its end
writes the file. -/
structure Sourceable (s : Session) (name : String) (lines : List String) : Prop where
  file : ∃ path, s.Finds name path ∧ lines = Text.linesOf (s.place.disk.text path) ∧
    ∀ depth, ∀ r ∈ (s.play depth true lines).reports, r.outcome = .done →
      r.session.place.disk.text path = s.place.disk.text path
  notFailed : ∀ depth, (s.play depth true lines).outcome ≠ .failed

variable {depth : Nat} {name text : String} {lines : List String}

theorem sourceable_of_inDepth {path : Path} (found : s.Finds name path)
    (isText : lines = Text.linesOf (s.place.disk.text path))
    (inDepth : ((s.play depth true lines).report s).InDepth)
    (kept : ∀ n ≤ depth, ∀ r ∈ (s.play n true lines).reports, r.outcome = .done →
      r.session.place.disk.text path = s.place.disk.text path)
    (notFailed : ∀ n ≤ depth, (s.play n true lines).outcome ≠ .failed) :
    Sourceable s name lines := by
  have shallow : ∀ n, ∃ m ≤ depth, s.play n true lines = s.play m true lines := by
    intro n
    rcases Nat.le_total n depth with le | le
    · exact ⟨n, le, rfl⟩
    · exact ⟨depth, Nat.le_refl _, play_of_le le inDepth⟩
  refine ⟨⟨path, found, isText, fun n => ?_⟩, fun n => ?_⟩
  · obtain ⟨m, le, same⟩ := shallow n
    rw [same]
    exact kept m le
  · obtain ⟨m, le, same⟩ := shallow n
    rw [same]
    exact notFailed m le

theorem source_eq_lines (h : Sourceable s name lines) (depth : Nat) :
    s.source (player (depth + 1)) [name] = (s.play depth true lines).report s := by
  obtain ⟨⟨path, found, rfl, kept⟩, notFailed⟩ := h
  have kept := kept depth
  have notFailed := notFailed depth
  generalize own : s.play depth true (Text.linesOf (s.place.disk.text path)) = played at notFailed ⊢
  have file : player (depth + 1) path s = played.report s :=
    own ▸ (player_succ rfl path s).trans (playFile_eq_play kept)
  rw [Sourcing.source_of_found found, file]
  cases outcome : played.outcome with
  | done =>
      have ended : (played.report s).outcome = .done := outcome
      rw [ended]
      simp [Outcome.goesOn, source, Report.after, Transcript.report, outcome]
  | failed => exact absurd outcome notFailed
  | quit | escaped f =>
      have ended : (played.report s).outcome = _ := outcome
      rw [ended]
      rfl

theorem line_eq_lines (command : commandOf? text = some (.source [name]))
    (h : Sourceable s name lines) :
    s.enter (depth + 1) text = (s.play depth true lines).report s :=
  (line_of_command command).trans (source_eq_lines h depth)

theorem play_eq_lines (h : Sourceable s name lines) (depth : Nat) (exitFirst : Bool) :
    s.play depth exitFirst lines = s.play depth true lines :=
  Transcript.play_of_not_failed (h.notFailed depth)

theorem report_lines_append (h : Sourceable s name lines) (exitFirst : Bool) (ys : List String) :
    (s.play depth exitFirst (lines ++ ys)).report s =
      ((s.play depth true lines).report s).andThen fun s =>
        (s.play depth exitFirst ys).report s := by
  rw [← play_eq_lines h depth exitFirst]
  exact Transcript.report_play_append lines ys

section Point

variable {exitFirst : Bool} {xs ys : List String}

theorem report_sourced (command : commandOf? text = some (.source [name]))
    (sourceable : (s.play (depth + 1) exitFirst xs).outcome = .done →
      Sourceable ((s.play (depth + 1) exitFirst xs).session s) name lines) :
    (s.play (depth + 1) exitFirst (xs ++ text :: ys)).report s =
      ((s.play (depth + 1) exitFirst xs).report s).andThen fun s =>
        ((s.play depth true lines).report s).andThen fun s =>
          (s.play (depth + 1) exitFirst ys).report s :=
  Transcript.report_play_between (fun s => (s.play depth true lines).report s) (fun done =>
    ⟨line_eq_lines command (sourceable done), (sourceable done).notFailed depth⟩) ys

theorem report_inlined
    (sourceable : (s.play depth exitFirst xs).outcome = .done →
      Sourceable ((s.play depth exitFirst xs).session s) name lines) :
    (s.play depth exitFirst (xs ++ lines ++ ys)).report s =
      ((s.play depth exitFirst xs).report s).andThen fun s =>
        ((s.play depth true lines).report s).andThen fun s => (s.play depth exitFirst ys).report s := by
  rw [List.append_assoc]
  refine (Transcript.report_play_append xs (lines ++ ys)).trans (Report.andThen_congr fun done => ?_)
  exact report_lines_append (sourceable done) exitFirst ys

variable (sourceable : ∀ depth, (s.play depth exitFirst xs).outcome = .done →
  Sourceable ((s.play depth exitFirst xs).session s) name lines)

include sourceable

theorem inlined_of_sourced (command : commandOf? text = some (.source [name]))
    (inDepth : ((s.play (depth + 1) exitFirst (xs ++ text :: ys)).report s).InDepth) :
    (s.play (depth + 1) exitFirst (xs ++ lines ++ ys)).report s =
      (s.play (depth + 1) exitFirst (xs ++ text :: ys)).report s := by
  rw [report_sourced command (sourceable _)] at inDepth ⊢
  rw [report_inlined (sourceable _)]
  refine Report.andThen_deepens inDepth (fun _ => rfl) fun _ own => ?_
  exact Report.andThen_deepens own (report_play_deepens true lines depth) fun _ _ => rfl

theorem sourced_of_inlined (command : commandOf? text = some (.source [name]))
    (inDepth : ((s.play depth exitFirst (xs ++ lines ++ ys)).report s).InDepth) :
    (s.play (depth + 1) exitFirst (xs ++ text :: ys)).report s =
      (s.play depth exitFirst (xs ++ lines ++ ys)).report s := by
  rw [report_inlined (sourceable _)] at inDepth ⊢
  rw [report_sourced command (sourceable _)]
  refine Report.andThen_deepens inDepth (report_play_deepens exitFirst xs depth) fun _ own => ?_
  exact Report.andThen_deepens own (fun _ => rfl) fun _ => report_play_deepens exitFirst ys depth

end Point

end Session

theorem Place.isThere_of_file {p : Place} {name : String} {path : Path}
    (file : p.file name = .ok path) : p.isThere name = true := by
  unfold Place.file at file
  cases located : p.locate name with
  | error e =>
      rw [located] at file
      cases file
  | ok found => rw [isThere, located, Except.isOk, Except.toBool]

namespace Invocation

variable [Host] {s : Session} {lines : List String} {depth : Nat}

theorem startUp_deepens (s : Session) : Deepens (startUp s) := by
  intro depth inDepth
  cases there : s.place.isThere startupFile with
  | false => simp only [startUp, there, Bool.false_eq_true, if_false]
  | true =>
      cases file : s.place.file startupFile with
      | error e => simp only [startUp, there, if_true, file]
      | ok path =>
          simp only [startUp, there, if_true, file] at inDepth ⊢
          exact congrArg (Report.after · _) (Session.source_agrees (Session.player_deepens depth) _ inDepth)

theorem startUp_eq_lines (h : s.Sourceable startupFile lines) :
    startUp s (depth + 1) =
      ((s.play depth true lines).report s).after [.err "Loading .dfamatchrc\n"] := by
  obtain ⟨path, ⟨-, name', expanded, file⟩, -⟩ := h.file
  obtain rfl : startupFile = name' := Except.ok.inj expanded
  have sourced := Session.source_eq_lines h depth
  unfold startUp
  rw [if_pos (Place.isThere_of_file file), file, sourced]
  rfl

theorem run_eq_andThen (notFailed : (startUp s depth).outcome ≠ .failed) (input : String) :
    ({ input } : Invocation).run s depth =
      (startUp s depth).andThen fun s' =>
        (s'.play depth false (Text.linesOfInput input)).report s' := by
  unfold run
  rw [if_neg (by simp [asksHelp])]
  cases outcome : (startUp s depth).outcome with
  | done =>
      rw [Report.andThen_of_done outcome]
      simp only [outcome, Bool.false_eq_true, if_false]
  | failed => exact absurd outcome notFailed
  | quit | escaped f =>
      rw [Report.andThen_of_not_done (by simp [outcome])]
      simp only [outcome]

theorem startUp_not_failed (h : s.Sourceable startupFile lines) (depth : Nat) :
    (startUp s depth).outcome ≠ .failed := by
  intro failed
  have inDepth : (startUp s depth).InDepth := by
    rw [Report.InDepth, failed]
    nofun
  rw [← startUp_deepens s depth inDepth, startUp_eq_lines h] at failed
  exact h.notFailed depth failed

theorem run_deepens (h : s.Sourceable startupFile lines) (input : String) :
    Deepens (({ input } : Invocation).run s) := by
  intro depth inDepth
  rw [run_eq_andThen (startUp_not_failed h _)] at inDepth ⊢
  rw [run_eq_andThen (startUp_not_failed h _)]
  exact Report.andThen_deepens inDepth (startUp_deepens s depth) fun _ =>
    Session.report_play_deepens false _ depth

theorem run_succ (h : s.Sourceable startupFile lines) (input : String) :
    ({ input } : Invocation).run s (depth + 1) =
      (((s.play depth true lines).report s).andThen fun s =>
        (s.play (depth + 1) false (Text.linesOfInput input)).report s).after
          [.err "Loading .dfamatchrc\n"] := by
  rw [run_eq_andThen (startUp_not_failed h _), startUp_eq_lines h, Report.andThen_after]

end Invocation

open Session Invocation

/-- If the interpreter goes deep enough, a line that sources a file may as well be replaced by the lines
of the file, and the lines of the start-up file may as well be put before the input. -/
theorem sourcing_inlines [Host] (s : Session) (name : String) (lines : List String) :
    (∀ (text : String) (exitFirst : Bool) (xs ys : List String),
      commandOf? text = some (.source [name]) →
      (∀ depth, (s.play depth exitFirst xs).outcome = .done →
        Sourceable ((s.play depth exitFirst xs).session s) name lines) →
      ∀ r, Settles (fun depth => (s.play depth exitFirst (xs ++ text :: ys)).report s) r ↔
        Settles (fun depth => (s.play depth exitFirst (xs ++ lines ++ ys)).report s) r) ∧
    ∀ input : String, Sourceable s startupFile lines →
      ∀ r, Settles (({ input } : Invocation).run s) r ↔
        Settles (fun depth => ((s.play depth false (lines ++ Text.linesOfInput input)).report s).after
          [.err "Loading .dfamatchrc\n"]) r := by
  constructor
  · intro text exitFirst xs ys command sourceable
    refine settles_iff (fun depth inDepth => ⟨depth + 1, ?_⟩) fun depth inDepth => ⟨depth + 1, ?_⟩
    · have deeper := report_play_deepens exitFirst (xs ++ text :: ys) depth inDepth
      simp only at deeper inDepth ⊢
      rw [← deeper] at inDepth ⊢
      exact inlined_of_sourced sourceable command inDepth
    · exact sourced_of_inlined sourceable command inDepth
  · intro input sourceable
    refine settles_iff (fun depth inDepth => ⟨depth + 1, ?_⟩) fun depth inDepth => ⟨depth + 1, ?_⟩
    · have deeper := run_deepens sourceable input depth inDepth
      rw [← deeper] at inDepth ⊢
      rw [run_succ sourceable] at inDepth ⊢
      simp only [report_lines_append sourceable]
      exact congrArg (Report.after · _)
        (Report.andThen_deepens inDepth (report_play_deepens true lines depth) fun _ _ => rfl)
    · simp only [report_lines_append sourceable] at inDepth ⊢
      rw [run_succ sourceable]
      exact congrArg (Report.after · _)
        (Report.andThen_deepens inDepth (fun _ => rfl) fun _ => report_play_deepens false _ depth)

theorem sourcing_inlines_nested :
    let _ : Host := .usual
    let lines := ["state 2", "source d/g", "cd d", "match a c"]
    let s := start ⟨(({} : Disk).addFile [".dfamatchrc"] "state 2\nsource d/g\ncd d\nmatch a c").addFile
      ["d", "g"] "start 9\nnew", []⟩
    (commandOf? "source .dfamatchrc" = some (.source [startupFile]) ∧
        (∀ depth, (s.play depth true ["stack 1"]).outcome = .done →
          Sourceable ((s.play depth true ["stack 1"]).session s) startupFile lines) ∧
        Sourceable s startupFile lines) ∧
      Settles (fun depth => (s.play depth true ["stack 1", "source .dfamatchrc", "edge 4 0 x"]).report s)
        ((s.play 1 true (["stack 1"] ++ lines ++ ["edge 4 0 x"])).report s) ∧
      Settles (({ input := "edge 4 0 x\n" } : Invocation).run s)
        (((s.play 1 false (lines ++ ["edge 4 0 x"])).report s).after [.err "Loading .dfamatchrc\n"]) := by
  intro host lines s
  have command : commandOf? "source .dfamatchrc" = some (.source [startupFile]) := by decide +kernel
  have sourceable : ∀ p, p = (s.play 0 true ["stack 1"]).session s ∨ p = s →
      Sourceable p startupFile lines := by
    rintro p (rfl | rfl)
    all_goals
      refine @sourceable_of_inDepth _ _ 1 _ _ [startupFile] ⟨by decide, _, rfl, ?_⟩ ?_ ?_ ?_ ?_
      all_goals decide +kernel
  have pointed : ∀ depth, (s.play depth true ["stack 1"]).outcome = .done →
      Sourceable ((s.play depth true ["stack 1"]).session s) startupFile lines := by
    intro depth _
    rw [play_of_le (Nat.zero_le depth) (by decide +kernel)]
    exact sourceable _ (.inl rfl)
  have begun : Sourceable s startupFile lines := sourceable s (.inr rfl)
  obtain ⟨inlines, starts⟩ := sourcing_inlines s startupFile lines
  refine ⟨⟨command, pointed, begun⟩, ?_, ?_⟩
  · exact (inlines "source .dfamatchrc" true ["stack 1"] ["edge 4 0 x"] command pointed _).2
      ⟨⟨1, rfl⟩, by decide +kernel⟩
  · have input : Text.linesOfInput "edge 4 0 x\n" = ["edge 4 0 x"] := by decide
    have run := starts "edge 4 0 x\n" begun
    rw [input] at run
    exact (run _).2 ⟨⟨1, rfl⟩, by decide +kernel⟩

end Acceptor
