import Mathlib.Logic.Relation
import Acceptor.Proofs.Shell.Invariant

/-!
# The lines that a line plays

A line that sources files plays their lines, and those may source files in turn. Each of them is a
turn (`Turn`), and those that it plays in files of its own are included in it (`Turn.Includes`). What
the report of a line is, is decided by where its sourcing ends (`Sourcing.ends`), and the playing of a
file by its last line (`Playing.ends`).
-/

namespace Acceptor
open Relation

def commandOf? (text : String) : Option Command :=
  let text := Text.strip text
  if Session.isComment text then none
  else match Text.splitWords text with
    | .error _ | .ok [] => none
    | .ok words => (Command.ofWords words).toOption

namespace Session

variable [Host] {play : Player} {s : Session} {text name : String} {c : Command} {path : Path}

theorem line_cases (text : String) :
    (∃ c, commandOf? text = some c ∧
        ∀ (play : Player) (s : Session), s.line play text = s.perform play c) ∨
      commandOf? text = none ∧
        ((∀ (play : Player) (s : Session), s.line play text = ⟨s, [], .done⟩) ∨
          ∃ message, ∀ (play : Player) (s : Session), s.line play text = s.complain message) := by
  by_cases comment : isComment (Text.strip text)
  · refine .inr ⟨?_, .inl fun play s => ?_⟩
    · simp only [commandOf?, if_pos comment]
    · simp only [line, if_pos comment]
  · simp only [commandOf?, line, if_neg comment]
    cases words : Text.splitWords (Text.strip text) with
    | error e => exact .inr ⟨rfl, .inr ⟨_, fun _ _ => rfl⟩⟩
    | ok ws =>
        cases ws with
        | nil => exact .inr ⟨rfl, .inl fun _ _ => rfl⟩
        | cons w ws =>
            simp only
            cases read : Command.ofWords (w :: ws) with
            | error e => exact .inr ⟨rfl, .inr ⟨_, fun _ _ => rfl⟩⟩
            | ok c => exact .inl ⟨c, rfl, fun _ _ => rfl⟩

theorem line_of_command (h : commandOf? text = some c) : s.line play text = s.perform play c := by
  rcases line_cases text with ⟨c', isCommand, performs⟩ | ⟨none, -⟩
  · rw [h] at isCommand
    obtain rfl := Option.some.inj isCommand
    exact performs play s
  · rw [h] at none
    cases none

theorem line_of_none (h : commandOf? text = none) :
    s.line play text = ⟨s, [], .done⟩ ∨ ∃ message, s.line play text = s.complain message := by
  rcases line_cases text with ⟨c, isCommand, -⟩ | ⟨-, quiet | ⟨message, refused⟩⟩
  · rw [h] at isCommand
    cases isCommand
  · exact .inl (quiet play s)
  · exact .inr ⟨message, refused play s⟩

theorem session_of_none (h : commandOf? text = none) : (s.line play text).session = s := by
  rcases @line_of_none _ play s text h with quiet | ⟨message, refused⟩
  · rw [quiet]
  · rw [refused]
    rfl

structure Finds (s : Session) (name : String) (path : Path) : Prop where
  noNul : Place.holdsNul name = false
  file : ∃ name', Place.expandHome name = .ok name' ∧ s.place.file name' = .ok path

end Session

open Session

theorem Report.after_after (r : Report) (earlier later : List Event) :
    (r.after later).after earlier = r.after (earlier ++ later) := by
  simp [Report.after]

/-- `r` is what is left of the report when its first events are taken off. -/
def Report.Continues (r : Report) (whole : Report) : Prop := ∃ earlier, whole = r.after earlier

theorem Report.Continues.outcome {r whole : Report} (h : r.Continues whole) :
    whole.outcome = r.outcome := by
  obtain ⟨earlier, rfl⟩ := h
  rfl

theorem Report.Continues.events {r whole : Report} (h : r.Continues whole) :
    r.events <:+ whole.events := by
  obtain ⟨earlier, rfl⟩ := h
  exact List.suffix_append earlier r.events

theorem Outcome.goesOn_true_of_false {o : Outcome} (h : o.goesOn false = false) :
    o.goesOn true = false := by
  cases o with
  | done => cases h
  | failed | quit | escaped f => rfl

theorem continues_of_reach {α : Type} {next : α → α → Prop} {report : α → Report} {p q : α}
    (step : ∀ p q, next p q → (report q).Continues (report p)) (reach : ReflTransGen next p q) :
    (report q).Continues (report p) := by
  induction reach with
  | refl => exact ⟨[], rfl⟩
  | tail before next ih =>
      obtain ⟨earlier, whole⟩ := ih
      obtain ⟨later, rest⟩ := step _ _ next
      exact ⟨earlier ++ later, by rw [whole, rest, Report.after_after]⟩

/-! ## Playing a file -/

structure Playing where
  turns : Nat
  reader : Reader
  session : Session

namespace Playing

variable {act : Session → String → Report} {p q : Playing} {r : Report}

def report (act : Session → String → Report) (p : Playing) : Report :=
  playFile act p.turns p.reader p.session

inductive Next (act : Session → String → Report) : Playing → Playing → Prop
  | line {n reader s text reader'} (read : reader.line? s.place.disk = .ok (some (text, reader')))
      (goesOn : (act s text).outcome.goesOn true = true) :
      Next act ⟨n + 1, reader, s⟩ ⟨n, reader', (act s text).session⟩

inductive Ends (act : Session → String → Report) : Playing → Report → Prop
  | outOfTurns {reader s} : Ends act ⟨0, reader, s⟩ ⟨s, [], .done⟩
  | notText {n reader s e} (read : reader.line? s.place.disk = .error e) :
      Ends act ⟨n + 1, reader, s⟩ (s.escape (.notText e))
  | endOfFile {n reader s} (read : reader.line? s.place.disk = .ok none) :
      Ends act ⟨n + 1, reader, s⟩ ⟨s, [], .done⟩
  | stops {n reader s text reader'} (read : reader.line? s.place.disk = .ok (some (text, reader')))
      (stops : (act s text).outcome.goesOn true = false) :
      Ends act ⟨n + 1, reader, s⟩ (act s text)

theorem Next.report (h : Next act p q) : (q.report act).Continues (p.report act) := by
  cases h with
  | line read goesOn =>
      rename_i s text _
      refine ⟨(act s text).events, ?_⟩
      unfold Playing.report
      rw [playFile]
      simp only [read, goesOn, if_true]

theorem continues (reach : ReflTransGen (Next act) p q) :
    (q.report act).Continues (p.report act) :=
  continues_of_reach (fun p q (next : Next act p q) => next.report) reach

theorem Ends.report (h : p.Ends act r) : p.report act = r := by
  unfold Playing.report
  cases h with
  | outOfTurns => rfl
  | notText read =>
      rw [playFile]
      simp only [read]
  | endOfFile read =>
      rw [playFile]
      simp only [read]
  | stops read stops =>
      rw [playFile]
      simp only [read, stops]
      rfl

theorem ends (act : Session → String → Report) (p : Playing) :
    ∃ q r, ReflTransGen (Next act) p q ∧ q.Ends act r := by
  obtain ⟨turns, reader, s⟩ := p
  induction turns generalizing reader s with
  | zero => exact ⟨_, _, .refl, .outOfTurns⟩
  | succ n ih =>
      cases read : reader.line? s.place.disk with
      | error e => exact ⟨_, _, .refl, .notText read⟩
      | ok found =>
          cases found with
          | none => exact ⟨_, _, .refl, .endOfFile read⟩
          | some found =>
              obtain ⟨text, reader'⟩ := found
              cases goesOn : (act s text).outcome.goesOn true with
              | false => exact ⟨_, _, .refl, .stops read goesOn⟩
              | true =>
                  obtain ⟨q, r, further, ends⟩ := ih reader' (act s text).session
                  exact ⟨q, r, .head (.line read goesOn) further, ends⟩

theorem events_prefix {n : Nat} {reader reader' : Reader} {s : Session} {text : String}
    (read : reader.line? s.place.disk = .ok (some (text, reader'))) :
    (act s text).events <+: ((Playing.mk (n + 1) reader s).report act).events := by
  unfold Playing.report
  rw [playFile]
  simp only [read]
  split
  · exact List.prefix_append _ _
  · exact List.prefix_refl _

theorem kept {I : Session → Prop} (lines : ∀ s text, I s → I (act s text).session)
    (reach : ReflTransGen (Next act) p q) (h : I p.session) : I q.session := by
  induction reach with
  | refl => exact h
  | tail before next ih =>
      cases next with
      | line read goesOn => exact lines _ _ ih

theorem related {R : Session → Session → Prop} (refl : ∀ s, R s s)
    (trans : ∀ s s' s'', R s s' → R s' s'' → R s s'')
    (lines : ∀ n reader s text reader', ReflTransGen (Next act) p ⟨n + 1, reader, s⟩ →
      reader.line? s.place.disk = .ok (some (text, reader')) → R s (act s text).session) :
    R p.session (p.report act).session := by
  have reached : ∀ q, ReflTransGen (Next act) p q → R p.session q.session := by
    intro q reach
    induction reach with
    | refl => exact refl _
    | tail before next ih =>
        cases next with
        | line read goesOn => exact trans _ _ _ ih (lines _ _ _ _ _ before read)
  obtain ⟨q, r, reach, ended⟩ := ends act p
  obtain ⟨earlier, report⟩ := continues reach
  rw [report, ended.report]
  refine trans _ _ _ (reached q reach) ?_
  cases ended with
  | outOfTurns | notText _ | endOfFile _ => exact refl _
  | stops read stops => exact lines _ _ _ _ _ reach read

end Playing

/-! ## Sourcing files -/

variable [Host]

structure Sourcing where
  session : Session
  names : List String

/-- A file before its first line. A reader only goes forward, so there are no more lines than bytes. -/
def opened (s : Session) (path : Path) : Playing :=
  ⟨max maxFileSize (s.place.disk.text path).utf8ByteSize, { path }, s⟩

theorem player_succ {depth depth' : Nat} (isDepth : depth' = depth + 1) (path : Path) (s : Session) :
    player depth' path s = (opened s path).report (line (player depth)) := by
  subst isDepth
  rfl

namespace Sourcing

variable {play : Player} {p q : Sourcing} {r : Report}

def report (play : Player) (p : Sourcing) : Report := p.session.source play p.names

inductive Next (play : Player) : Sourcing → Sourcing → Prop
  | file {s name names path} (found : s.Finds name path)
      (goesOn : (play path s).outcome.goesOn false = true) :
      Next play ⟨s, name :: names⟩ ⟨(play path s).session, names⟩

inductive Ends (play : Player) : Sourcing → Report → Prop
  | done {s} : Ends play ⟨s, []⟩ ⟨s, [], .done⟩
  | nul {s name names} (nul : Place.holdsNul name = true) :
      Ends play ⟨s, name :: names⟩ (s.escape .nulInName)
  | refused {s name name' names e} (noNul : Place.holdsNul name = false)
      (expanded : Place.expandHome name = .ok name')
      (refused : s.place.file name' = .error e) :
      Ends play ⟨s, name :: names⟩ (s.complain (e.message name'))
  | stops {s name names path} (found : s.Finds name path)
      (stops : (play path s).outcome.goesOn false = false) :
      Ends play ⟨s, name :: names⟩ (play path s)

theorem source_of_nul {s : Session} {name : String} (nul : Place.holdsNul name = true)
    (names : List String) : s.source play (name :: names) = s.escape .nulInName := by
  rw [source]
  rcases Place.expandHome_cases name with ⟨name', expanded, same⟩ | ⟨expanded, -⟩
  · simp only [expanded, same, nul, if_true]
  · simp only [expanded]

theorem source_of_refused {s : Session} {name name' : String} {e : FileError}
    (noNul : Place.holdsNul name = false) (expanded : Place.expandHome name = .ok name')
    (refused : s.place.file name' = .error e) (names : List String) :
    s.source play (name :: names) = s.complain (e.message name') := by
  rw [source]
  simp only [expanded, (Place.holdsNul_expandHome expanded).trans noNul, Bool.false_eq_true, if_false,
    refused]

theorem source_of_found {s : Session} {name : String} {path : Path} (found : s.Finds name path)
    (names : List String) :
    s.source play (name :: names) =
      if (play path s).outcome.goesOn false then
        ((play path s).session.source play names).after (play path s).events
      else play path s := by
  obtain ⟨noNul, name', expanded, isFile⟩ := found
  rw [source]
  simp only [expanded, (Place.holdsNul_expandHome expanded).trans noNul, Bool.false_eq_true, if_false,
    isFile]
  cases outcome : (play path s).outcome with
  | done | failed | quit | escaped f => rfl

theorem Next.report (h : Next play p q) : (q.report play).Continues (p.report play) := by
  cases h with
  | file found goesOn =>
      rename_i s name names path
      refine ⟨(play path s).events, ?_⟩
      unfold Sourcing.report
      rw [source_of_found found, if_pos goesOn]

theorem continues (reach : ReflTransGen (Next play) p q) :
    (q.report play).Continues (p.report play) :=
  continues_of_reach (fun p q (next : Next play p q) => next.report) reach

theorem Ends.report (h : p.Ends play r) : p.report play = r := by
  unfold Sourcing.report
  cases h with
  | done => rfl
  | nul nul => exact source_of_nul nul _
  | refused noNul expanded refused => exact source_of_refused noNul expanded refused _
  | stops found stops =>
      rw [source_of_found found, stops]
      rfl

theorem events_prefix {s : Session} {name : String} {names : List String} {path : Path}
    (found : s.Finds name path) :
    (play path s).events <+: ((Sourcing.mk s (name :: names)).report play).events := by
  unfold Sourcing.report
  rw [source_of_found found]
  split
  · exact List.prefix_append _ _
  · exact List.prefix_refl _

theorem ends (play : Player) (p : Sourcing) :
    ∃ q r, ReflTransGen (Next play) p q ∧ q.Ends play r := by
  obtain ⟨s, names⟩ := p
  induction names generalizing s with
  | nil => exact ⟨_, _, .refl, .done⟩
  | cons name names ih =>
      rcases Place.expandHome_cases name with ⟨name', expanded, same⟩ | ⟨-, nul⟩
      · cases noNul : Place.holdsNul name with
        | true => exact ⟨_, _, .refl, .nul noNul⟩
        | false =>
            cases isFile : s.place.file name' with
            | error e => exact ⟨_, _, .refl, .refused noNul expanded isFile⟩
            | ok path =>
                have found : s.Finds name path := ⟨noNul, name', expanded, isFile⟩
                cases goesOn : (play path s).outcome.goesOn false with
                | false => exact ⟨_, _, .refl, .stops found goesOn⟩
                | true =>
                    obtain ⟨q, r, further, ends⟩ := ih (play path s).session
                    exact ⟨q, r, .head (.file found goesOn) further, ends⟩
      · exact ⟨_, _, .refl, .nul nul⟩

theorem kept {I : Session → Prop} (files : KeptByPlayer I play)
    (reach : ReflTransGen (Next play) p q) (h : I p.session) : I q.session := by
  induction reach with
  | refl => exact h
  | tail before next ih =>
      cases next with
      | file found goesOn => exact files _ _ ih

theorem related {R : Session → Session → Prop} (refl : ∀ s, R s s)
    (trans : ∀ s s' s'', R s s' → R s' s'' → R s s'')
    (files : ∀ s name names path, ReflTransGen (Next play) p ⟨s, name :: names⟩ →
      s.Finds name path → R s (play path s).session) :
    R p.session (p.report play).session := by
  have reached : ∀ q, ReflTransGen (Next play) p q → R p.session q.session := by
    intro q reach
    induction reach with
    | refl => exact refl _
    | tail before next ih =>
        cases next with
        | file found goesOn => exact trans _ _ _ ih (files _ _ _ _ before found)
  obtain ⟨q, r, reach, ended⟩ := ends play p
  obtain ⟨earlier, report⟩ := continues reach
  rw [report, ended.report]
  refine trans _ _ _ (reached q reach) ?_
  cases ended with
  | done | nul _ | refused _ _ _ => exact refl _
  | stops found stops => exact files _ _ _ _ reach found

end Sourcing

/-! ## Turns -/

structure Turn where
  depth : Nat
  session : Session
  text : String

namespace Turn

variable {t u : Turn}

def report (t : Turn) : Report := t.session.line (player t.depth) t.text

/-- One line of a file that the turn sources. -/
inductive Includes : Turn → Turn → Prop
  | line {depth names name rest path n reader reader' s s' text} {t : Turn}
      (command : commandOf? t.text = some (.source names)) (isDepth : t.depth = depth + 1)
      (comes : ReflTransGen (Sourcing.Next (player t.depth)) ⟨t.session, names⟩ ⟨s, name :: rest⟩)
      (found : s.Finds name path)
      (arrives : ReflTransGen (Playing.Next (Session.line (player depth))) (opened s path)
        ⟨n + 1, reader, s'⟩)
      (read : reader.line? s'.place.disk = .ok (some (text, reader'))) :
      Includes t ⟨depth, s', text⟩

/-- The lines that are played while the turn is, the turn itself among them. -/
abbrev Plays : Turn → Turn → Prop := ReflTransGen Includes

theorem report_of_source {names : List String} (command : commandOf? t.text = some (.source names)) :
    t.report = (Sourcing.mk t.session names).report (player t.depth) := line_of_command command

theorem Includes.depth_lt (h : t.Includes u) : u.depth < t.depth := by
  cases h with
  | line command isDepth comes found arrives read => exact isDepth ▸ Nat.lt_succ_self _

theorem Includes.events (h : t.Includes u) : u.report.events <:+: t.report.events := by
  cases h with
  | line command isDepth comes found arrives read =>
      rename_i depth names name rest path n reader reader' s s' text
      rw [report_of_source command]
      have line := @Playing.events_prefix (Session.line (player depth)) n _ _ _ _ read
      have file := (Playing.continues arrives).events
      have name := @Sourcing.events_prefix _ (player t.depth) _ _ rest _ found
      rw [player_succ isDepth] at name
      have names := (Sourcing.continues comes).events
      exact line.isInfix.trans (file.isInfix.trans (name.isInfix.trans names.isInfix))

theorem outcome_of_file {depth : Nat} {names rest : List String} {name : String} {path : Path}
    {s : Session} (command : commandOf? t.text = some (.source names)) (isDepth : t.depth = depth + 1)
    (comes : ReflTransGen (Sourcing.Next (player t.depth)) ⟨t.session, names⟩ ⟨s, name :: rest⟩)
    (found : s.Finds name path)
    (stops : ((opened s path).report (Session.line (player depth))).outcome.goesOn false = false) :
    t.report.outcome = ((opened s path).report (Session.line (player depth))).outcome := by
  rw [← player_succ isDepth] at stops ⊢
  rw [report_of_source command, (Sourcing.continues comes).outcome,
    (Sourcing.Ends.stops found stops).report]

theorem Includes.outcome (h : t.Includes u) (stops : u.report.outcome.goesOn false = false) :
    t.report.outcome = u.report.outcome := by
  cases h with
  | line command isDepth comes found arrives read =>
      rename_i depth names name rest path n reader reader' s s' text
      have stopsFile : (s'.line (player depth) text).outcome.goesOn true = false :=
        Outcome.goesOn_true_of_false stops
      have file : ((opened s path).report (Session.line (player depth))).outcome =
          (s'.line (player depth) text).outcome := by
        rw [(Playing.continues arrives).outcome, (Playing.Ends.stops read stopsFile).report]
      refine (outcome_of_file command isDepth comes found ?_).trans file
      rw [file]
      exact stops

theorem Includes.kept {I : Session → Prop} (commands : KeptByCommands I) (h : t.Includes u)
    (kept : I t.session) : I u.session := by
  cases h with
  | line command isDepth comes found arrives read =>
      rename_i depth names name rest path n reader reader' s s' text
      have sourced : I s := Sourcing.kept (player_kept commands t.depth) comes kept
      have lines : ∀ s text, I s → I (s.line (player depth) text).session := fun _ text =>
        line_kept commands (player_kept commands depth) text
      exact Playing.kept lines arrives sourced

theorem Plays.kept {I : Session → Prop} (commands : KeptByCommands I) (h : t.Plays u)
    (kept : I t.session) : I u.session := by
  induction h with
  | refl => exact kept
  | tail before includes ih => exact includes.kept commands ih

theorem Plays.report_kept {I : Session → Prop} (commands : KeptByCommands I) (h : t.Plays u)
    (kept : I t.session) : I u.report.session :=
  line_kept commands (player_kept commands _) _ (h.kept commands kept)

section Related

variable {R : Session → Session → Prop} (refl : ∀ s, R s s)
  (trans : ∀ s s' s'', R s s' → R s' s'' → R s s'')

include refl trans

theorem related_of_includes
    (own : (∀ names, commandOf? t.text ≠ some (.source names)) → R t.session t.report.session)
    (included : ∀ u, t.Includes u → R u.session u.report.session) :
    R t.session t.report.session := by
  by_cases sources : ∃ names, commandOf? t.text = some (.source names)
  · obtain ⟨names, command⟩ := sources
    rw [report_of_source command]
    refine Sourcing.related refl trans fun s name rest path comes found => ?_
    cases isDepth : t.depth with
    | zero => exact refl s
    | succ depth =>
        rw [player_succ rfl]
        refine Playing.related refl trans fun n reader s' text reader' arrives read => ?_
        exact included _ (.line command isDepth comes found arrives read)
  · exact own fun names command => sources ⟨names, command⟩

theorem related_of_plays
    (own : ∀ u, t.Plays u → (∀ names, commandOf? u.text ≠ some (.source names)) →
      R u.session u.report.session) : R t.session t.report.session := by
  induction depth : t.depth using Nat.strongRecOn generalizing t with
  | ind n ih =>
      refine related_of_includes refl trans (own t .refl) fun u includes => ?_
      exact ih u.depth (depth ▸ includes.depth_lt) (fun v plays => own v (.head includes plays)) rfl

end Related

end Turn

end Acceptor
