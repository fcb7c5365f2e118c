import Acceptor.Proofs.Files.Reader
import Acceptor.Shell.Transcript

namespace Acceptor

theorem Outcome.done_of_goesOn {o : Outcome} (goesOn : o.goesOn true = true) : o = .done := by
  cases o with
  | done => rfl
  | failed | quit | escaped f => cases goesOn

namespace Transcript

variable {act : Session → String → Report} {exitFirst : Bool} {s : Session} {text : String}
  {rest : List String}

theorem play_cons_of_goesOn (h : (act s text).outcome.goesOn exitFirst = true) :
    play act exitFirst s (text :: rest) =
      let more := play act exitFirst (act s text).session rest
      ⟨act s text :: more.reports, more.outcome⟩ := by
  simp [play, h]

theorem play_cons_of_stops (h : (act s text).outcome.goesOn exitFirst = false) :
    play act exitFirst s (text :: rest) = ⟨[act s text], (act s text).outcome⟩ := by
  simp [play, h]

theorem report_cons (r : Report) (t : Transcript) (s : Session) :
    (⟨r :: t.reports, t.outcome⟩ : Transcript).report s = (t.report r.session).after r.events := by
  simp only [report, Report.after, session, events, List.flatMap_cons, List.getLast?_cons]
  cases t.reports.getLast? <;> rfl

theorem session_cons (r : Report) (t : Transcript) (s : Session) :
    (⟨r :: t.reports, t.outcome⟩ : Transcript).session s = t.session r.session :=
  congrArg Report.session (report_cons r t s)

theorem play_append_of_done {front : List String}
    (done : (play act exitFirst s front).outcome = .done) :
    play act exitFirst s (front ++ rest) =
      let more := play act exitFirst ((play act exitFirst s front).session s) rest
      ⟨(play act exitFirst s front).reports ++ more.reports, more.outcome⟩ := by
  induction front generalizing s with
  | nil => rfl
  | cons text front ih =>
      cases goes : (act s text).outcome.goesOn exitFirst with
      | false =>
          rw [play_cons_of_stops goes] at done
          rw [show (act s text).outcome = .done from done] at goes
          cases goes
      | true =>
          rw [play_cons_of_goesOn goes] at done
          rw [List.cons_append, play_cons_of_goesOn goes, play_cons_of_goesOn goes, ih done]
          simp only [session_cons, List.cons_append]

theorem length_reports_of_done {lines : List String}
    (done : (play act exitFirst s lines).outcome = .done) :
    (play act exitFirst s lines).reports.length = lines.length := by
  induction lines generalizing s with
  | nil => rfl
  | cons text lines ih =>
      cases goes : (act s text).outcome.goesOn exitFirst with
      | false =>
          rw [play_cons_of_stops goes] at done
          rw [show (act s text).outcome = .done from done] at goes
          cases goes
      | true =>
          rw [play_cons_of_goesOn goes] at done ⊢
          rw [List.length_cons, List.length_cons, ih done]

theorem done_or_stops (lines : List String) :
    (play act exitFirst s lines).outcome = .done ∨
      (play act exitFirst s lines).outcome.goesOn exitFirst = false := by
  induction lines generalizing s with
  | nil => exact .inl rfl
  | cons text lines ih =>
      cases goes : (act s text).outcome.goesOn exitFirst with
      | false =>
          rw [play_cons_of_stops goes]
          exact .inr goes
      | true =>
          rw [play_cons_of_goesOn goes]
          exact ih

theorem outcome_eq_iff {lines : List String} {o : Outcome} (stops : o.goesOn exitFirst = false) :
    (play act exitFirst s lines).outcome = o ↔
      ∃ front text rest, lines = front ++ text :: rest ∧
        (play act exitFirst s front).outcome = .done ∧
        (act ((play act exitFirst s front).session s) text).outcome = o := by
  constructor
  · intro ended
    induction lines generalizing s with
    | nil =>
        rw [show o = .done from ended.symm] at stops
        cases stops
    | cons text lines ih =>
        cases goes : (act s text).outcome.goesOn exitFirst with
        | false =>
            rw [play_cons_of_stops goes] at ended
            exact ⟨[], text, lines, rfl, rfl, ended⟩
        | true =>
            rw [play_cons_of_goesOn goes] at ended
            obtain ⟨front, text', rest, rfl, done, last⟩ := ih ended
            refine ⟨text :: front, text', rest, rfl, ?_, ?_⟩
            · rw [play_cons_of_goesOn goes]
              exact done
            · rw [play_cons_of_goesOn goes, session_cons]
              exact last
  · rintro ⟨front, text, rest, rfl, done, rfl⟩
    rw [play_append_of_done done, play_cons_of_stops stops]

theorem report_play_cons_of_goesOn (h : (act s text).outcome.goesOn exitFirst = true) :
    (play act exitFirst s (text :: rest)).report s =
      ((play act exitFirst (act s text).session rest).report (act s text).session).after
        (act s text).events := by
  rw [play_cons_of_goesOn h, report_cons]

theorem report_play_cons_of_stops (h : (act s text).outcome.goesOn exitFirst = false) :
    (play act exitFirst s (text :: rest)).report s = act s text := by
  rw [play_cons_of_stops h]
  simp [report, session, events]

theorem forall_reports {I : Session → Prop} {lines : List String}
    (kept : ∀ s, I s → ∀ text ∈ lines, I (act s text).session) (start : I s) :
    ∀ r ∈ (play act exitFirst s lines).reports, I r.session := by
  induction lines generalizing s with
  | nil => simp [play]
  | cons text rest ih =>
      have here := kept s start text (by simp)
      have later := ih (fun s hs text ht => kept s hs text (List.mem_cons_of_mem _ ht)) here
      cases h : (act s text).outcome.goesOn exitFirst with
      | false => simpa [play_cons_of_stops h] using here
      | true => simpa [play_cons_of_goesOn h] using ⟨here, later⟩

theorem session_of_forall_reports {I : Session → Prop} {t : Transcript} (start : I s)
    (kept : ∀ r ∈ t.reports, I r.session) : I (t.session s) := by
  unfold session
  cases h : t.reports.getLast? with
  | none => exact start
  | some r => exact kept r (List.mem_of_getLast? h)

end Transcript

namespace Session
open Text Utf8

variable {act : Session → String → Report}

theorem playFile_eq_report {turns : Nat} {reader : Reader} {s : Session} {cs : List Char}
    (expects : reader.Expects (encode (s.place.disk.text reader.path).toList) cs)
    (noReturn : '\r' ∉ cs) (enough : (cutLines [] cs).length ≤ turns)
    (same : ∀ r ∈ (Transcript.play act true s (cutLines [] cs)).reports, r.outcome = .done →
      r.session.place.disk.text reader.path = s.place.disk.text reader.path) :
    playFile act turns reader s = (Transcript.play act true s (cutLines [] cs)).report s := by
  induction turns generalizing reader s cs with
  | zero =>
      rw [List.eq_nil_of_length_eq_zero (Nat.le_zero.1 enough)]
      rfl
  | succ turns ih =>
      have gives := expects.line?
      have lines := cutLines_firstLine noReturn
      unfold Reader.Gives at gives
      unfold playFile
      cases first : firstLine cs with
      | none =>
          simp only [first] at gives lines
          rw [lines, gives]
          rfl
      | some found =>
          obtain ⟨line, rest⟩ := found
          simp only [first] at gives lines
          obtain ⟨reader', answer, path, expects'⟩ := gives
          rw [lines] at enough same ⊢
          simp only [answer]
          cases goes : (act s (String.ofList line)).outcome.goesOn true with
          | false => simp [Transcript.report_play_cons_of_stops goes]
          | true =>
              rw [Transcript.play_cons_of_goesOn goes] at same
              simp only [List.forall_mem_cons] at same
              obtain ⟨here, later⟩ := same
              have here := here (Outcome.done_of_goesOn goes)
              rw [Transcript.report_play_cons_of_goesOn goes, if_pos rfl]
              refine congrArg (Report.after · _) (ih ?_ (fun h => noReturn (firstLine_subset first h))
                (Nat.le_of_succ_le_succ enough) ?_)
              -- the line left the file as it was, so the reader still expects the rest of it
              · rw [path, here]
                exact expects'
              · rw [path]
                exact fun r hr done => (later r hr done).trans here.symm

theorem playFile_eq_play {path : Path} {s : Session}
    (same : ∀ r ∈ (Transcript.play act true s (linesOf (s.place.disk.text path))).reports,
      r.outcome = .done → r.session.place.disk.text path = s.place.disk.text path) :
    playFile act (max maxFileSize (s.place.disk.text path).utf8ByteSize) { path } s =
      (Transcript.play act true s (linesOf (s.place.disk.text path))).report s := by
  have enough := length_linesOf_le (s.place.disk.text path)
  rw [linesOf_eq] at same enough ⊢
  exact playFile_eq_report (Reader.expects_start path _) (return_notMem_unified _ _)
    (Nat.le_trans enough (Nat.le_max_right _ _)) same

end Session

end Acceptor
