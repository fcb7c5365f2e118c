import Acceptor.Proofs.Bench
import Acceptor.Proofs.Rows.Table
import Acceptor.Rows.Bench

/-!
# Calls on what is stored

Whatever is called, a bench of stored rows answers as the bench of the table does, and is left with the
rows of what that is left with (`stored_perform`). So the rows that calls can make have one flag for every
state, and lead to states that exist (`coherent_after`).
-/

namespace Acceptor

def Logged.map {α β : Type} (f : α → β) (r : Logged α) : Logged β := ⟨f r.value, r.log⟩

def Logged.after {α : Type} (r : Logged α) (earlier : List Log.Entry) : Logged α :=
  { r with log := earlier ++ r.log }

namespace Visit

def stored (v : Visit) : Rows.Visit := ⟨v.stack, v.state, v.halted, v.consumed⟩

variable {t : Table} {v : Visit} {c : Symbol}

theorem stored_begin [Memory] : Rows.Visit.begin t.stored = (begin t).map stored := by
  unfold Rows.Visit.begin begin
  rw [Table.stored_initial]
  cases made : BoundedStack.ofCapacity t.capacity t.strict with
  | error f => simp [Table.stored, made, bind, Except.bind, Except.map]
  | ok stack =>
      cases pushed : (stack.push startMarker).value with
      | error f => simp [Table.stored, made, pushed, bind, Except.bind, Except.map]
      | ok stack =>
          cases initial : t.initial with
          | error f => simp [Table.stored, made, pushed, bind, Except.bind, Except.map]
          | ok start =>
              simp [Table.stored, made, pushed, bind, Except.bind, pure, Except.pure, Except.map, stored]

theorem stored_move {here : State} (isHere : t.stateAt v.state = .ok here) :
    v.stored.move t.stored c = (v.move here c).map fun r => (r.1.stored, .ok r.2) := by
  have next : t.stored.advance v.state c = .ok ((here.next? c).map Nat.cast) := by
    rw [Table.stored_advance, Table.advance, isHere]
    rfl
  have state : v.stored.state = v.state := rfl
  unfold Rows.Visit.move move
  rw [state, next]
  cases here.next? c <;> rfl

theorem stored_step :
    v.stored.step t.stored c = (v.step t c).map fun r => (r.1.stored, r.2) := by
  obtain ⟨stack, state, halted, consumed⟩ := v
  unfold Rows.Visit.step step
  cases halted with
  | true => rfl
  | false =>
      by_cases ends : c = endOfInput
      · simp only [stored, ends, if_true, Bool.false_eq_true, if_false]
        rfl
      · simp only [stored, ends, Bool.false_eq_true, if_false, Table.stored_isFinal, Table.isFinal]
        cases isHere : t.stateAt state with
        | error f => rfl
        | ok here =>
            have moved (stack : BoundedStack) := stored_move (c := c)
              (v := ⟨stack, state, false, consumed + 1⟩) isHere
            simp only [bind, Except.bind, pure, Except.pure]
            cases here.accepting with
            | false =>
                simp only [Bool.false_eq_true, if_false]
                rcases stack.push state with ⟨_ | stack, log⟩
                · rfl
                · exact congrArg (Logged.after · log) (moved stack)
            | true =>
                simp only [if_true]
                rcases stack.clear.push state with ⟨_ | stack, log⟩
                · rfl
                · exact congrArg (Logged.after · log) (moved stack)

theorem stored_feed (cs : List Symbol) :
    v.stored.feed t.stored cs = (v.feed t cs).map (Except.map stored) := by
  induction cs generalizing v with
  | nil => rfl
  | cons c cs ih =>
      rw [Rows.Visit.feed, feed, stored_step]
      rcases v.step t c with ⟨⟨v, _ | goesOn⟩, log⟩
      · rfl
      · cases goesOn with
        | false => rfl
        | true => exact congrArg (Logged.after · log) (ih (v := v))

theorem stored_success : v.stored.success t.stored = v.success t := Table.stored_isFinal

end Visit

namespace Table

variable [Memory] {t : Table}

theorem stored_run (cs : List Symbol) :
    t.stored.run cs = (t.run cs).map (Except.map Visit.stored) := by
  rw [Rows.run, run, Visit.stored_begin]
  cases Visit.begin t with
  | error f => rfl
  | ok v => exact Visit.stored_feed cs

theorem stored_accepts (cs : List Symbol) : t.stored.accepts cs = t.accepts cs := by
  rw [Rows.accepts, accepts, stored_run]
  rcases t.run cs with ⟨_ | v, log⟩
  · rfl
  · exact congrArg (Logged.mk · log) Visit.stored_success

end Table

def Rows.Bench.after [Memory] (b : Rows.Bench) (calls : List Bench.Call) : Rows.Bench :=
  calls.foldl (fun b call => (b.perform call).value.1) b

namespace Bench

def stored (b : Bench) : Rows.Bench := ⟨b.table.stored, b.visits.map Visit.stored⟩

namespace Answer

def stored : Answer Table Visit → Rows.Bench.Answer
  | .none => .none
  | .number n => .number n
  | .flag b => .flag b
  | .text s => .text s
  | .written w => .written w
  | .table t => .table t.stored
  | .visit v => .visit v.stored
  | .finished v success => .finished v.stored success

end Answer

variable {b b' : Bench}

theorem stored_visitAt (i : Int) :
    b.stored.visitAt i = (b.visitAt i).map fun found => (found.1, found.2.stored) := by
  simp only [Rows.Bench.visitAt, visitAt, stored, Table.itemAt_map, Array.size_map]
  cases itemAt b.visits i <;> rfl

theorem stored_change {edited : Except Fault Table} :
    b.stored.change (edited.map Table.stored) =
      (b.change edited).map fun r => (r.1.stored, r.2.map Answer.stored) := by
  cases edited <;> rfl

/-- One call, on the rows of a table and on the table. -/
theorem stored_perform [Memory] (call : Call) :
    b.stored.perform call =
      (b.perform call).map fun r => (r.1.stored, r.2.map Answer.stored) := by
  have rows : b.stored.rows = b.table.stored := rfl
  cases call with
  | addState =>
      simp only [Rows.Bench.perform, rows, Table.stored_addState, Table.stored_size]
      rfl
  | markFinal s final =>
      rw [Rows.Bench.perform, rows, Table.stored_markFinal]
      exact stored_change
  | setStart s =>
      rw [Rows.Bench.perform, rows, Table.stored_setStart]
      exact stored_change
  | addEdge source p dest =>
      rw [Rows.Bench.perform, rows, Table.stored_addEdge]
      exact stored_change
  | setCapacity | setStrict | dump => rfl
  | reset =>
      rw [Rows.Bench.perform, rows, Table.stored_reset]
      rfl
  | loadExample =>
      rw [Rows.Bench.perform, rows, Table.stored_loadExample]
      rfl
  | size =>
      rw [Rows.Bench.perform, rows, Table.stored_size]
      rfl
  | has s =>
      rw [Rows.Bench.perform, rows, Table.stored_has]
      rfl
  | initial =>
      rw [Rows.Bench.perform, rows, Table.stored_initial, perform]
      cases b.table.initial <;> rfl
  | advance s c =>
      rw [Rows.Bench.perform, rows, Table.stored_advance, perform]
      rcases b.table.advance s c with _ | _ | _ <;> rfl
  | isFinal s =>
      rw [Rows.Bench.perform, rows, Table.stored_isFinal, perform]
      cases b.table.isFinal s <;> rfl
  | accepts feed =>
      simp only [Rows.Bench.perform, rows, Table.stored_accepts, perform, Logged.map]
      cases (b.table.accepts feed).value <;> rfl
  | run feed =>
      simp only [Rows.Bench.perform, rows, Table.stored_run, perform, Logged.map]
      cases (b.table.run feed).value with
      | error f => rfl
      | ok v =>
          simp only [Except.map, bind, Except.bind, Visit.stored_success]
          cases v.success b.table <;> rfl
  | begin =>
      rw [Rows.Bench.perform, rows, Visit.stored_begin, perform]
      cases Visit.begin b.table with
      | error f => rfl
      | ok v => simp [Except.map, Rows.Bench.answer, answer, stored, Logged.map, Answer.stored]
  | step i c =>
      rw [Rows.Bench.perform, rows, stored_visitAt, perform]
      cases b.visitAt i with
      | error f => rfl
      | ok found =>
          have visits (v : Visit) : (b.visits.map Visit.stored).setIfInBounds found.1 v.stored =
              (b.visits.setIfInBounds found.1 v).map Visit.stored := by
            simp
          simp only [Except.map, Visit.stored_step, Logged.map, stored, visits]
          cases (found.2.step b.table c).value.2 <;> rfl
  | success i =>
      rw [Rows.Bench.perform, rows, stored_visitAt, perform]
      cases b.visitAt i with
      | error f => rfl
      | ok found =>
          simp only [Except.map, bind, Except.bind, Visit.stored_success]
          cases found.2.success b.table <;> rfl
  | inspect i =>
      rw [Rows.Bench.perform, stored_visitAt, perform]
      cases b.visitAt i <;> rfl
  | script =>
      rw [Rows.Bench.perform, rows, Table.stored_script]
      rfl
  | dot =>
      rw [Rows.Bench.perform, rows, Table.stored_dot]
      rfl

/-! ## Any calls -/

theorem stored_after [Memory] (calls : List Call) :
    b.stored.after calls = (b.after calls).stored := by
  induction calls generalizing b with
  | nil => rfl
  | cons call calls ih =>
      simp only [Rows.Bench.after, after, List.foldl_cons, stored_perform, Logged.map]
      exact ih

theorem Became.wellFormed [Memory] (became : b.Became b') (wf : b.table.WellFormed) :
    b'.table.WellFormed := by
  cases became with
  | same | begun | stepped => exact wf
  | table grows wellFormed => exact wellFormed wf

theorem wellFormed_after [Memory] (wf : b.table.WellFormed) (calls : List Call) :
    (b.after calls).table.WellFormed := by
  induction calls generalizing b with
  | nil => exact wf
  | cons call calls ih =>
      refine ih ?_
      cases keeps : call.keepsStates with
      | true => exact (became keeps).wellFormed wf
      | false =>
          cases call with
          | reset => exact Table.wellFormed_empty b.table.capacity b.table.strict
          | loadExample => exact Table.wellFormed_loadExample b.table
          | _ => cases keeps

end Bench

structure Rows.Coherent (r : Rows) : Prop where
  flags : r.accepting.size = r.transition.size
  dest : ∀ out ∈ r.transition, ∀ e ∈ out, r.has e.2 = true
  start : r.has r.start = true ∨ r.size = 0 ∧ r.start = 0

theorem Table.WellFormed.coherent_stored {t : Table} (wf : t.WellFormed) : t.stored.Coherent where
  flags := by simp [stored]
  dest := by
    intro out hout e he
    obtain ⟨st, hs, rfl⟩ := Array.mem_map.1 hout
    obtain ⟨edge, hedge, rfl⟩ := List.mem_map.1 he
    have inside := wf.dest_lt st hs edge hedge
    rw [stored_has, has_iff]
    omega
  start := by
    rw [stored_has, stored_size, has_iff]
    change (0 ≤ (t.start : Int) ∧ (t.start : Int) < t.size) ∨ t.size = 0 ∧ (t.start : Int) = 0
    have := wf.start_lt
    have := wf.start_eq
    omega

theorem Rows.Bench.coherent_after [Memory] (capacity : Int) (strict : Bool)
    (calls : List Acceptor.Bench.Call) :
    let b := ({ rows := { capacity, strict } } : Rows.Bench).after calls
    b.rows.Coherent ∧ (∀ v ∈ b.visits, 0 ≤ v.state) ∧
      ((∀ call ∈ calls, call.keepsStates = true) → ∀ v ∈ b.visits, b.rows.has v.state = true) := by
  intro b
  let new : Acceptor.Bench := { table := { capacity, strict } }
  have wf : new.table.WellFormed := Table.wellFormed_empty capacity strict
  have same : b = (new.after calls).stored := by
    rw [← Acceptor.Bench.stored_after]
    simp [b, new, Acceptor.Bench.stored, Table.stored]
  rw [same]
  have wf' := Acceptor.Bench.wellFormed_after wf calls
  refine ⟨wf'.coherent_stored, fun v hv => ?_, fun keeps v hv => ?_⟩
  · obtain ⟨w, -, rfl⟩ := Array.mem_map.1 hv
    exact Int.natCast_nonneg _
  · obtain ⟨w, hw, rfl⟩ := Array.mem_map.1 hv
    have live : new.Live := ⟨wf, by simp [new]⟩
    have inside := (live.after calls keeps).1.inside w hw
    refine Table.stored_has.trans (Table.has_iff.2 ⟨Int.natCast_nonneg _, ?_⟩)
    exact Int.ofNat_lt.2 inside

end Acceptor
