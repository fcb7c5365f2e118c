import Acceptor.Proofs.Shell.Match
import Acceptor.Proofs.Shell.Replay
import Acceptor.Proofs.Shell.Turn
import Acceptor.Proofs.Visit.Depth

namespace Acceptor.Session
open Text

variable {s : Session} {t : Table} {play : Player} {exitFirst : Bool} {text : String}
  {texts : List String}

def matchLine (texts : List String) : String := "match -- " ++ lineOf texts

theorem matchLine_eq (h : texts ≠ []) : matchLine texts = lineOf ("match" :: "--" :: texts) := by
  have name : (lineOf ["match", "--"]).toList = "match --".toList := by decide
  rw [← String.toList_inj, lineOf_cons _ (by simp), lineOf_cons _ h, matchLine, String.toList_append]
  rfl

theorem commandOf?_matchLine (h : texts ≠ []) :
    commandOf? (matchLine texts) = some (.run texts false) := by
  simp only [matchLine_eq h, commandOf?, strip_lineOf, isComment_lineOf, splitWords_lineOf,
    Command.ofWords_match h, Except.toOption, Bool.false_eq_true, if_false]

def verdictLine (t : Table) (text : String) : String :=
  let reached := (Visit.courseFrom t t.start (symbolsOf text)).state
  s!"{quoted text}: {verdict (t.isAccepting reached)}\n"

def overflowLine (t : Table) (text : String) : String :=
  let reason := s!"stack is full (capacity {t.capacity.toNat})"
  s!"{quoted text}: {reason}\n"

def told (t : Table) (text : String) : Event :=
  if t.overflows (symbolsOf text) then .err (overflowLine t text) else .out (verdictLine t text)

structure Runs [Memory] (t : Table) : Prop where
  sound : t.Sound
  nonempty : 0 < t.size
  fits : t.capacity ≤ Memory.maxCells

section

variable [Host]

theorem runText_of_runs (h : Runs t) (text : String) :
    ∃ log : List Log.Entry, runText t false text = (log.map .log ++ [told t text], none) := by
  have wf := h.sound.wellFormed
  obtain ⟨refused, ran⟩ :=
    run_specified wf h.nonempty h.sound.capacity_pos h.fits (symbolsOf text)
  refine ⟨(t.run (symbolsOf text)).log, ?_⟩
  unfold runText told
  cases full : t.overflows (symbolsOf text) with
  | true =>
      simp only [refused full]
      simp only [endsMatch, if_true]
      unfold overflowLine
      rfl
  | false =>
      obtain ⟨v, ran, reached⟩ := ran full
      have inside : v.state < t.size :=
        reached ▸ Visit.state_courseFrom_lt wf (wf.start_lt h.nonempty) _
      have success : v.success t = .ok (t.isAccepting v.state) := Table.isFinal_of_lt inside
      simp only [ran, success, reached, verdictLine, Bool.false_eq_true, if_false]

theorem runTexts_of_runs (h : Runs t) (texts : List String) :
    runTexts t false texts = (texts.flatMap fun text => (runText t false text).1, none) := by
  induction texts with
  | nil => rfl
  | cons text texts ih =>
      obtain ⟨log, ran⟩ := runText_of_runs h text
      simp only [runTexts, ran, ih, List.flatMap_cons]

theorem filterMap_runTexts (h : Runs t) {read : Event → Option String}
    (quiet : ∀ e, read (.log e) = none) (texts : List String) :
    (runTexts t false texts).1.filterMap read = texts.filterMap fun text => read (told t text) := by
  rw [runTexts_of_runs h]
  induction texts with
  | nil => rfl
  | cons text texts ih =>
      obtain ⟨log, ran⟩ := runText_of_runs h text
      have silent : (log.map Event.log).filterMap read = [] := by
        rw [List.filterMap_map, List.filterMap_eq_nil_iff]
        exact fun e _ => quiet e
      rw [List.flatMap_cons, List.filterMap_append, ih, ran, List.filterMap_append, silent]
      cases given : read (told t text) <;> simp [given]

theorem outText_runTexts (h : Runs t) (texts : List String) :
    Event.outText (runTexts t false texts).1 =
      String.join ((texts.filter fun text => !t.overflows (symbolsOf text)).map (verdictLine t)) := by
  unfold Event.outText
  rw [filterMap_runTexts h fun _ => rfl, ← List.filterMap_eq_map, List.filterMap_filter]
  congr
  funext text
  unfold told
  cases t.overflows (symbolsOf text) <;> rfl

theorem errText_runTexts (h : Runs t) (texts : List String) :
    Event.errText (runTexts t false texts).1 =
      String.join ((texts.filter fun text => t.overflows (symbolsOf text)).map (overflowLine t)) := by
  unfold Event.errText
  rw [filterMap_runTexts h fun _ => rfl, ← List.filterMap_eq_map, List.filterMap_filter]
  congr
  funext text
  unfold told
  cases t.overflows (symbolsOf text) <;> rfl

theorem line_matchLine (h : Runs s.table) (nonempty : texts ≠ []) :
    s.line play (matchLine texts) = ⟨s, (runTexts s.table false texts).1, .done⟩ := by
  rw [line_of_command (commandOf?_matchLine nonempty)]
  simp only [perform, run, runTexts_of_runs h]

theorem report_play_matchLines (depth : Nat) (h : Runs s.table) (texts : List String) :
    (s.play depth exitFirst (texts.map fun text => matchLine [text])).report s =
      ⟨s, (runTexts s.table false texts).1, .done⟩ := by
  rw [runTexts_of_runs h]
  induction texts with
  | nil => rfl
  | cons text texts ih =>
      have entered :
          s.enter depth (matchLine [text]) = ⟨s, (runText s.table false text).1, .done⟩ := by
        rw [enter, line_matchLine h (by simp), runTexts_of_runs h]
        simp
      have goes : (s.enter depth (matchLine [text])).outcome.goesOn exitFirst = true := by
        rw [entered]
        rfl
      -- the session stays the same, so the other lines are entered in it too
      unfold Session.play at ih ⊢
      rw [List.map_cons, Transcript.report_play_cons_of_goesOn goes, entered, ih]
      rfl

theorem runText_of_gt (large : Memory.maxCells < t.capacity) (trace : Bool) (text : String) :
    runText t trace text = ([], some (if isIndex t.capacity then .outOfMemory else .uncountable)) := by
  have ran : t.run (symbolsOf text) =
      ⟨.error (if isIndex t.capacity then .outOfMemory else .uncountable), []⟩ := by
    rw [Table.run, Visit.begin_of_gt large]
  simp only [runText, ran, endsMatch_noMemory, List.map_nil, Bool.false_eq_true, if_false]

theorem line_matchLine_of_gt (large : Memory.maxCells < s.table.capacity) (nonempty : texts ≠ []) :
    s.line play (matchLine texts) =
      s.escape (if isIndex s.table.capacity then .outOfMemory else .uncountable) := by
  rw [line_of_command (commandOf?_matchLine nonempty)]
  obtain ⟨text, texts, rfl⟩ := List.exists_cons_of_ne_nil nonempty
  simp only [perform, run, runTexts, runText_of_gt large, escape]

/-- The texts of a line are matched as they were before they were quoted. Each one gets its verdict, or
the report that the strict stack is full, as it would on a line of its own. If the stack does not fit in
memory, nothing is told, and the line ends everything. -/
theorem match_quoted (s : Session) (reached : s.Reachable) (nonempty : 0 < s.table.size)
    (texts : List String) (h : texts ≠ []) (depth : Nat) :
    let report := s.enter depth (matchLine texts)
    let overflows := fun text => s.table.overflows (symbolsOf text)
    commandOf? (matchLine texts) = some (.run texts false) ∧
      (s.table.capacity ≤ Memory.maxCells →
        report.session = s ∧ report.outcome = .done ∧
          Event.outText report.events =
            String.join ((texts.filter fun text => !overflows text).map (verdictLine s.table)) ∧
          Event.errText report.events =
            String.join ((texts.filter overflows).map (overflowLine s.table)) ∧
          ∀ exitFirst,
            (s.play depth exitFirst (texts.map fun text => matchLine [text])).report s = report) ∧
      (Memory.maxCells < s.table.capacity →
        report = s.escape (if isIndex s.table.capacity then .outOfMemory else .uncountable)) := by
  intro report overflows
  refine ⟨commandOf?_matchLine h, fun fits => ?_, fun large => line_matchLine_of_gt large h⟩
  have runs : Runs s.table := ⟨reached.sound, nonempty, fits⟩
  have told : report = ⟨s, (runTexts s.table false texts).1, .done⟩ := line_matchLine runs h
  rw [told]
  exact ⟨rfl, rfl, outText_runTexts runs texts, errText_runTexts runs texts,
    fun exitFirst => report_play_matchLines depth runs texts⟩

end

theorem match_quoted_dashes :
    let _ : Host := .usual
    let start := start ⟨{}, []⟩
    let s := (start.play 1 false ["stack 1 --strict"]).session start
    (s.Reachable ∧ 0 < s.table.size) ∧ matchLine ["--", "", "#'"] = "match -- -- '' '#'\"'\"''" ∧
      Event.outText (s.enter 1 (matchLine ["--", "", "#'"])).events = "'': no match\n" ∧
      Event.errText (s.enter 1 (matchLine ["--", "", "#'"])).events =
        "'--': stack is full (capacity 1)\n\"#'\": stack is full (capacity 1)\n" := by
  intro host start s
  have reached : s.Reachable := ⟨_, 1, false, _, rfl⟩
  have nonempty : 0 < s.table.size := by decide +kernel
  obtain ⟨-, told, -⟩ := match_quoted s reached nonempty ["--", "", "#'"] (by simp) 1
  obtain ⟨-, -, out, err, -⟩ := told (by decide +kernel)
  refine ⟨⟨reached, nonempty⟩, by decide +kernel, ?_, ?_⟩
  · rw [out]
    decide +kernel
  · rw [err]
    decide +kernel

theorem match_quoted_of_uncountable_stack :
    let _ : Host := .usual
    let start := start ⟨{}, []⟩
    let s := (start.play 1 false ["stack 9223372036854775808"]).session start
    (s.Reachable ∧ 0 < s.table.size) ∧ s.table.overflows (symbolsOf "a") = false ∧
      Event.outText (s.enter 1 (matchLine ["a"])).events ≠ verdictLine s.table "a" := by
  intro host start s
  refine ⟨⟨⟨_, 1, false, _, rfl⟩, by decide +kernel⟩, by decide +kernel, ?_⟩
  decide +kernel

end Acceptor.Session
