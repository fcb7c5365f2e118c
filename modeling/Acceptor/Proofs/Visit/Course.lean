import Acceptor.Proofs.BoundedStack
import Acceptor.Proofs.Table.WellFormed
import Acceptor.Visit

namespace Acceptor

namespace Visit

variable {t : Table} {v : Visit} {c : Symbol}

def recorder (t : Table) (v : Visit) : BoundedStack :=
  if t.isAccepting v.state then v.stack.clear else v.stack

def withMode (v : Visit) (strict : Bool) : Visit := { v with stack := v.stack.withMode strict }

theorem recorder_strict : (v.recorder t).strict = v.stack.strict := by
  unfold recorder
  split <;> rfl

theorem step_endOfInput (h : v.halted = false) :
    v.step t endOfInput = ⟨({ v with halted := true }, .ok false), []⟩ := by
  simp [step, h]

theorem step_of_running (running : v.halted = false) (symbol : c ≠ endOfInput)
    (inside : v.state < t.size) :
    v.step t c =
      match (v.recorder t).push v.state with
      | ⟨.error e, log⟩ =>
          ⟨({ v with consumed := v.consumed + 1, stack := v.recorder t }, .error e), log⟩
      | ⟨.ok stack, log⟩ =>
          let moved := { v with consumed := v.consumed + 1, stack }.move t.states[v.state] c
          ⟨(moved.value.1, .ok moved.value.2), log ++ moved.log⟩ := by
  have found : t.states[v.state]? = some t.states[v.state] :=
    Array.getElem?_eq_getElem inside
  unfold step recorder Table.isAccepting
  rw [if_neg (by simp [running]), if_neg symbol]
  simp only [Table.stateAt_of_lt inside, found, Option.any_some]
  cases t.states[v.state].accepting <;> rfl

theorem step_of_pushed (running : v.halted = false) (symbol : c ≠ endOfInput)
    (inside : v.state < t.size) {stack : BoundedStack}
    (pushed : ((v.recorder t).push v.state).value = .ok stack) :
    (v.step t c).value =
      match t.next? v.state c with
      | none => (⟨stack, v.state, true, v.consumed + 1⟩, .ok false)
      | some d => (⟨stack, d, false, v.consumed + 1⟩, .ok true) := by
  rw [step_of_running running symbol inside]
  cases record : (v.recorder t).push v.state with
  | mk value log =>
      rw [record] at pushed
      cases pushed
      simp only [move, Table.next?_of_lt]
      cases t.next? v.state c with
      | none => rfl
      | some d => simp only [running]

theorem step_of_refused (running : v.halted = false) (symbol : c ≠ endOfInput)
    (inside : v.state < t.size) {f : Fault}
    (refused : ((v.recorder t).push v.state).value = .error f) :
    (v.step t c).value = ({ v with consumed := v.consumed + 1, stack := v.recorder t }, .error f) := by
  rw [step_of_running running symbol inside]
  cases record : (v.recorder t).push v.state with
  | mk value log =>
      rw [record] at refused
      cases refused
      rfl

/-- A run without its stack: where it is, whether it has halted, and the symbols it has taken. -/
structure Course where
  state : Nat
  halted : Bool := false
  consumed : Nat := 0
  deriving DecidableEq, Repr

def course (v : Visit) : Course := ⟨v.state, v.halted, v.consumed⟩

def courseFrom (t : Table) : Nat → List Symbol → Course
  | s, [] => ⟨s, false, 0⟩
  | s, c :: w =>
      if c = endOfInput then ⟨s, true, 0⟩
      else match t.next? s c with
        | none => ⟨s, true, 1⟩
        | some d => { courseFrom t d w with consumed := (courseFrom t d w).consumed + 1 }

theorem step_course (running : v.halted = false) (symbol : c ≠ endOfInput)
    (inside : v.state < t.size) (lenient : v.stack.strict = false) :
    ∃ v' : Visit, v'.stack.strict = false ∧
      match t.next? v.state c with
      | none => (v.step t c).value = (v', .ok false) ∧ v'.course = ⟨v.state, true, v.consumed + 1⟩
      | some d => (v.step t c).value = (v', .ok true) ∧ v'.course = ⟨d, false, v.consumed + 1⟩ := by
  obtain ⟨stack, pushed, lenient'⟩ :=
    BoundedStack.push_of_lenient (s := v.recorder t) (by rw [recorder_strict, lenient]) v.state
  rw [step_of_pushed running symbol inside pushed]
  cases t.next? v.state c with
  | none => exact ⟨_, lenient', rfl, rfl⟩
  | some d => exact ⟨_, lenient', rfl, rfl⟩

theorem feed_cons_of_stops {v' : Visit} (h : (v.step t c).value = (v', .ok false))
    (w : List Symbol) : (v.feed t (c :: w)).value = .ok v' := by
  unfold feed
  cases taken : v.step t c with
  | mk r log =>
      rw [taken] at h
      cases h
      rfl

theorem feed_cons_of_goesOn {v' : Visit} (h : (v.step t c).value = (v', .ok true))
    (w : List Symbol) : (v.feed t (c :: w)).value = (v'.feed t w).value := by
  rw [feed]
  cases taken : v.step t c with
  | mk r log =>
      rw [taken] at h
      cases h
      rfl

theorem feed_course (wf : t.WellFormed) (w : List Symbol) (running : v.halted = false)
    (inside : v.state < t.size) (lenient : v.stack.strict = false) :
    ∃ v', (v.feed t w).value = .ok v' ∧ v'.course =
      { courseFrom t v.state w with consumed := v.consumed + (courseFrom t v.state w).consumed } := by
  induction w generalizing v with
  | nil => exact ⟨v, rfl, by simp [course, courseFrom, running]⟩
  | cons c w ih =>
      rw [courseFrom]
      by_cases symbol : c = endOfInput
      · subst symbol
        rw [if_pos rfl]
        exact ⟨_, feed_cons_of_stops (congrArg Logged.value (step_endOfInput running)) w, rfl⟩
      · rw [if_neg symbol]
        obtain ⟨v', lenient', stepped⟩ := step_course running symbol inside lenient
        cases next : t.next? v.state c with
        | none =>
            rw [next] at stepped
            obtain ⟨value, arrived⟩ := stepped
            exact ⟨v', feed_cons_of_stops value w, arrived⟩
        | some d =>
            rw [next] at stepped
            obtain ⟨value, arrived⟩ := stepped
            simp only [course, Course.mk.injEq] at arrived
            obtain ⟨state, running', consumed⟩ := arrived
            have inside' : v'.state < t.size := state ▸ wf.next?_lt next
            obtain ⟨v'', fed, followed⟩ := ih running' inside' lenient'
            refine ⟨v'', (feed_cons_of_goesOn value w).trans fed, ?_⟩
            -- the symbol that the step counted is the one that `courseFrom` adds at its head
            rw [followed, state, consumed]
            simp only [Course.mk.injEq, true_and]
            omega

theorem state_courseFrom_endOfInput (s : Nat) (u w : List Symbol) :
    (courseFrom t s (u ++ endOfInput :: w)).state = (courseFrom t s u).state := by
  induction u generalizing s with
  | nil => simp [courseFrom]
  | cons c u ih =>
      rw [List.cons_append, courseFrom, courseFrom]
      split
      · rfl
      · cases t.next? s c with
        | none => rfl
        | some d => exact ih d

theorem begin_of_made [Memory] {empty : BoundedStack} (nonempty : 0 < t.size)
    (made : BoundedStack.ofCapacity t.capacity t.strict = .ok empty)
    (room : empty.count < empty.capacity) :
    begin t = .ok ⟨empty.write startMarker room, t.start, false, 0⟩ := by
  unfold begin
  rw [made, Table.initial_of_pos nonempty]
  simp only [bind, Except.bind, BoundedStack.push_of_room room, pure, Except.pure]

theorem begin_withStack [Memory] {capacity : Int} (nonempty : 0 < t.size) (positive : 1 ≤ capacity)
    (fits : capacity ≤ Memory.maxCells) :
    ∃ v : Visit, v.course = ⟨t.start, false, 0⟩ ∧ v.stack.capacity = capacity.toNat ∧
      v.stack.dropped = 0 ∧ ∀ strict, begin (t.withStack capacity strict) = .ok (v.withMode strict) := by
  obtain ⟨empty, size, count, dropped, made⟩ := BoundedStack.ofCapacity_of_le positive fits
  have room : empty.count < empty.capacity := by omega
  obtain ⟨size', dropped'⟩ := BoundedStack.write_kept startMarker room
  refine ⟨{ stack := empty.write startMarker room, state := t.start }, rfl, size'.trans size,
    dropped'.trans dropped, fun strict => ?_⟩
  have begun := begin_of_made (t := t.withStack capacity strict) nonempty (made strict) room
  rw [BoundedStack.write_withMode] at begun
  exact begun

theorem begin_of_fits [Memory] (nonempty : 0 < t.size) (positive : 1 ≤ t.capacity)
    (fits : t.capacity ≤ Memory.maxCells) (lenient : t.strict = false) :
    ∃ v : Visit, begin t = .ok v ∧ v.course = ⟨t.start, false, 0⟩ ∧ v.stack.strict = false := by
  obtain ⟨v, atStart, -, -, begun⟩ := begin_withStack nonempty positive fits
  have same : t.withStack t.capacity false = t := by rw [← lenient]; rfl
  exact ⟨v.withMode false, same ▸ begun false, atStart, rfl⟩

theorem state_courseFrom_lt (wf : t.WellFormed) {s : Nat} (inside : s < t.size)
    (w : List Symbol) : (courseFrom t s w).state < t.size := by
  induction w generalizing s with
  | nil => exact inside
  | cons c w ih =>
      rw [courseFrom]
      split
      · exact inside
      · cases next : t.next? s c with
        | none => exact inside
        | some d => exact ih (wf.next?_lt next)

theorem courseFrom_withStack (capacity : Int) (strict : Bool) (s : Nat) (w : List Symbol) :
    courseFrom (t.withStack capacity strict) s w = courseFrom t s w := by
  induction w generalizing s with
  | nil => rfl
  | cons c w ih =>
      simp only [courseFrom, ih]
      rfl

theorem run_of_fits [Memory] (wf : t.WellFormed) (nonempty : 0 < t.size) (lenient : t.strict = false)
    (positive : 1 ≤ t.capacity) (fits : t.capacity ≤ Memory.maxCells) (w : List Symbol) :
    ∃ v, (t.run w).value = .ok v ∧ v.course = courseFrom t t.start w ∧
      (t.accepts w).value = .ok (t.isAccepting (courseFrom t t.start w).state) := by
  obtain ⟨v₀, begun, atStart, lenient₀⟩ := begin_of_fits nonempty positive fits lenient
  simp only [course, Course.mk.injEq] at atStart
  obtain ⟨state, running, consumed⟩ := atStart
  obtain ⟨v, fed, followed⟩ :=
    feed_course wf w running (state ▸ wf.start_lt nonempty) lenient₀
  rw [state, consumed, Nat.zero_add] at followed
  have ran : (t.run w).value = .ok v := by rw [Table.run, begun]; exact fed
  have final : v.state = (courseFrom t t.start w).state := congrArg Course.state followed
  refine ⟨v, ran, followed, ?_⟩
  unfold Table.accepts
  cases eq : t.run w with
  | mk value log =>
      rw [eq] at ran
      cases ran
      rw [← Table.isFinal_of_lt (state_courseFrom_lt wf (wf.start_lt nonempty) w), ← final]
      rfl

end Visit

open Visit

/-- A lenient run takes the course that the table specifies, whatever the capacity of its stack, as
long as that fits in memory; a larger stack cannot be made, and the run does not begin. -/
theorem run_course [Memory] (t : Table) (wf : t.WellFormed) (nonempty : 0 < t.size) :
    (∀ capacity : Int, 1 ≤ capacity → capacity ≤ Memory.maxCells →
      let lenient := t.withStack capacity false
      (∀ w, ∃ v, (lenient.run w).value = .ok v ∧ v.course = courseFrom t t.start w ∧
        (lenient.accepts w).value = .ok (t.isAccepting (courseFrom t t.start w).state)) ∧
      ∀ u w, (lenient.accepts (u ++ endOfInput :: w)).value = (lenient.accepts u).value) ∧
    ∀ capacity : Int, Memory.maxCells < capacity → ∀ w,
      ((t.withStack capacity false).run w).value =
        .error (if isIndex capacity then .outOfMemory else .uncountable) := by
  refine ⟨fun capacity positive fits => ?_, fun capacity large w => ?_⟩
  · have follows := run_of_fits (wf.withStack capacity false) nonempty rfl positive fits
    simp only [courseFrom_withStack] at follows
    refine ⟨follows, fun u w => ?_⟩
    obtain ⟨-, -, -, long⟩ := follows (u ++ endOfInput :: w)
    obtain ⟨-, -, -, short⟩ := follows u
    rw [long, short, state_courseFrom_endOfInput]
  · unfold Table.run begin
    rw [show (t.withStack capacity false).capacity = capacity from rfl,
      BoundedStack.ofCapacity_of_gt large]
    rfl

theorem run_course_example :
    let _ : Memory := Host.usual.toMemory
    let t := Table.loadExample {}
    t.WellFormed ∧ 0 < t.size ∧
      ∃ v, ((t.withStack 1 false).run ["a", "c", "x", "a"]).value = .ok v ∧
        v.course = ⟨0, true, 3⟩ := by
  intro memory t
  have wf : t.WellFormed := ⟨by decide, by decide, by decide⟩
  obtain ⟨v, ran, followed, -⟩ :=
    (((run_course t wf (by decide)).1 1 (by decide) (by decide)).1 ["a", "c", "x", "a"])
  exact ⟨wf, by decide, v, ran, followed⟩

theorem no_run_of_uncountable_capacity :
    let _ : Memory := Host.usual.toMemory
    let t := (Table.loadExample {}).withStack 0x8000000000000000 false
    t.WellFormed ∧ 0 < t.size ∧ 1 ≤ t.capacity ∧
      ¬ ∃ v, (t.run ["a"]).value = .ok v ∧ v.course = courseFrom t t.start ["a"] := by
  intro memory t
  refine ⟨⟨by decide, by decide, by decide⟩, by decide, by decide, ?_⟩
  rintro ⟨v, ran, -⟩
  have : (t.run ["a"]).value = .error .uncountable := rfl
  rw [this] at ran
  cases ran

end Acceptor
