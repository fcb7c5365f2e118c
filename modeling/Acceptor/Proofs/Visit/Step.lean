import Acceptor.Proofs.Visit.Overflow

namespace Acceptor

namespace BoundedStack

variable {s s' : BoundedStack} {x : Int}

structure Pushed (s s' : BoundedStack) : Prop where
  capacity : s'.capacity = s.capacity
  strict : s'.strict = s.strict
  room : s.strict = true → s.count < s.capacity ∧ s'.count = s.count + 1

theorem pushed_write (x : Int) (room : s.count < s.capacity) : s.Pushed (s.write x room) where
  capacity := (write_kept x room).1
  strict := by
    unfold write
    split <;> rfl
  room := fun _ => ⟨room, count_write x room⟩

theorem pushed_of_push (pushed : (s.push x).value = .ok s') : s.Pushed s' := by
  by_cases room : s.count < s.capacity
  · rw [push_of_room room] at pushed
    obtain rfl := Except.ok.inj pushed
    exact pushed_write x room
  · have full : s.count = s.capacity := Nat.le_antisymm s.count_le_capacity (Nat.not_lt.1 room)
    cases strict : s.strict with
    | true =>
        rw [push_of_full full strict] at pushed
        cases pushed
    | false =>
        rw [push_of_full_lenient full strict] at pushed
        obtain rfl := Except.ok.inj pushed
        refine ⟨rfl, rfl, fun isStrict => ?_⟩
        rw [strict] at isStrict
        cases isStrict

theorem push_eq_error {f : Fault} (refused : (s.push x).value = .error f) :
    s.strict = true ∧ s.count = s.capacity ∧ f = .stackFull s.capacity := by
  by_cases room : s.count < s.capacity
  · rw [push_of_room room] at refused
    cases refused
  · have full : s.count = s.capacity := Nat.le_antisymm s.count_le_capacity (Nat.not_lt.1 room)
    cases strict : s.strict with
    | true =>
        rw [push_of_full full strict] at refused
        exact ⟨rfl, full, (Except.error.inj refused).symm⟩
    | false =>
        rw [push_of_full_lenient full strict] at refused
        cases refused

end BoundedStack

namespace Visit

variable {t : Table} {v : Visit} {c : Symbol} {f : Fault}

inductive CannotBegin [Memory] (t : Table) : Fault → Prop
  | capacity (invalid : t.capacity ≤ 0) : CannotBegin t (.invalidCapacity t.capacity)
  | memory (large : Memory.maxCells < t.capacity) :
      CannotBegin t (if isIndex t.capacity then .outOfMemory else .uncountable)
  | states (positive : 1 ≤ t.capacity) (fits : t.capacity ≤ Memory.maxCells)
      (empty : t.size = 0) : CannotBegin t .noStates

theorem begin_of_invalid [Memory] (invalid : t.capacity ≤ 0) :
    begin t = .error (.invalidCapacity t.capacity) := by
  unfold begin BoundedStack.ofCapacity
  rw [if_pos invalid]
  rfl

structure Begun (t : Table) (v : Visit) : Prop where
  nonempty : 0 < t.size
  state : v.state = t.start
  running : v.halted = false
  capacity : v.stack.capacity = t.capacity
  strict : v.stack.strict = t.strict
  depth : v.stack.count = 1

theorem begin_of_nonempty [Memory] (positive : 1 ≤ t.capacity) (fits : t.capacity ≤ Memory.maxCells)
    (nonempty : 0 < t.size) : ∃ v, begin t = .ok v ∧ Begun t v := by
  obtain ⟨empty, size, count, -, made⟩ := BoundedStack.ofCapacity_of_le positive fits
  have room : (empty.withMode t.strict).count < (empty.withMode t.strict).capacity := by
    change empty.count < empty.capacity
    omega
  have begun := begin_of_made nonempty (made t.strict) room
  have kept := BoundedStack.pushed_write startMarker room
  refine ⟨_, begun, nonempty, rfl, rfl, ?_, kept.strict, ?_⟩
  · rw [kept.capacity]
    change (empty.capacity : Int) = t.capacity
    omega
  · rw [BoundedStack.count_write]
    exact congrArg (· + 1) count

theorem begin_cases [Memory] (t : Table) :
    (∃ f, begin t = .error f ∧ CannotBegin t f) ∨ ∃ v, begin t = .ok v ∧ Begun t v := by
  by_cases invalid : t.capacity ≤ 0
  · exact .inl ⟨_, begin_of_invalid invalid, .capacity invalid⟩
  · have positive : 1 ≤ t.capacity := by omega
    by_cases large : Memory.maxCells < t.capacity
    · exact .inl ⟨_, begin_of_gt large, .memory large⟩
    · have fits := Int.not_lt.1 large
      rcases Nat.eq_zero_or_pos t.size with empty | nonempty
      · exact .inl ⟨_, begin_of_empty positive fits empty, .states positive fits empty⟩
      · exact .inr (begin_of_nonempty positive fits nonempty)

theorem begin_eq_error_iff [Memory] : begin t = .error f ↔ CannotBegin t f := by
  constructor
  · intro failed
    rcases begin_cases t with ⟨f', failed', cannot⟩ | ⟨v, begun, -⟩
    · rw [failed] at failed'
      exact Except.error.inj failed' ▸ cannot
    · rw [failed] at begun
      cases begun
  · intro cannot
    cases cannot with
    | capacity invalid => exact begin_of_invalid invalid
    | memory large => exact begin_of_gt large
    | states positive fits empty => exact begin_of_empty positive fits empty

theorem begun_of_begin [Memory] (begun : begin t = .ok v) : Begun t v := by
  rcases begin_cases t with ⟨f, failed, -⟩ | ⟨v', begun', same⟩
  · rw [begun] at failed
    cases failed
  · rw [begun] at begun'
    exact Except.ok.inj begun' ▸ same

inductive Stepped (t : Table) (v : Visit) (c : Symbol) : Visit × Except Fault Bool → Prop
  | still (halted : v.halted = true) : Stepped t v c (v, .ok false)
  | ended (running : v.halted = false) (symbol : c = endOfInput) :
      Stepped t v c ({ v with halted := true }, .ok false)
  | refused (strict : v.stack.strict = true) (full : v.Overflows t c) :
      Stepped t v c ({ v with consumed := v.consumed + 1, stack := v.recorder t },
        .error (.stackFull v.stack.capacity))
  | halts {stack : BoundedStack} (running : v.halted = false) (symbol : c ≠ endOfInput)
      (pushed : (v.recorder t).Pushed stack) (next : t.next? v.state c = none) :
      Stepped t v c (⟨stack, v.state, true, v.consumed + 1⟩, .ok false)
  | moves {stack : BoundedStack} {d : Nat} (running : v.halted = false) (symbol : c ≠ endOfInput)
      (pushed : (v.recorder t).Pushed stack) (next : t.next? v.state c = some d) :
      Stepped t v c (⟨stack, d, false, v.consumed + 1⟩, .ok true)

theorem stepped (inside : v.state < t.size) (c : Symbol) : Stepped t v c (v.step t c).value := by
  by_cases halted : v.halted = true
  · rw [step_of_halted halted]
    exact .still halted
  · have running : v.halted = false := Bool.not_eq_true _ ▸ halted
    by_cases symbol : c = endOfInput
    · rw [symbol, step_endOfInput running]
      exact .ended running rfl
    · cases push : ((v.recorder t).push v.state).value with
      | error f =>
          obtain ⟨strict, full, rfl⟩ := BoundedStack.push_eq_error push
          rw [step_of_refused running symbol inside push, recorder_kept.1]
          exact .refused (recorder_strict.symm.trans strict) ⟨running, symbol, full⟩
      | ok stack =>
          have pushed := BoundedStack.pushed_of_push push
          rw [step_of_pushed running symbol inside push]
          cases next : t.next? v.state c with
          | none => exact .halts running symbol pushed next
          | some d => exact .moves running symbol pushed next

theorem step_inside (wf : t.WellFormed) (inside : v.state < t.size) (c : Symbol) :
    (v.step t c).value.1.state < t.size := by
  have taken := stepped inside c
  generalize (v.step t c).value = r at taken ⊢
  cases taken with
  | still | ended | refused | halts => exact inside
  | moves running symbol pushed next => exact wf.next?_lt next

theorem step_stack (inside : v.state < t.size) (c : Symbol) :
    (v.step t c).value.1.stack.capacity = v.stack.capacity ∧
      (v.step t c).value.1.stack.strict = v.stack.strict := by
  have recorded : (v.recorder t).capacity = v.stack.capacity ∧
      (v.recorder t).strict = v.stack.strict := ⟨recorder_kept.1, recorder_strict⟩
  have taken := stepped inside c
  generalize (v.step t c).value = r at taken ⊢
  cases taken with
  | still | ended => exact ⟨rfl, rfl⟩
  | refused => exact recorded
  | halts running symbol pushed | moves running symbol pushed =>
      exact ⟨pushed.capacity.trans recorded.1, pushed.strict.trans recorded.2⟩

theorem step_eq_error_iff (inside : v.state < t.size) :
    (v.step t c).value.2 = .error f ↔
      v.stack.strict = true ∧ v.Overflows t c ∧ f = .stackFull v.stack.capacity := by
  constructor
  · intro failed
    have taken := stepped inside c
    generalize (v.step t c).value = r at taken failed
    cases taken with
    | refused strict full => exact ⟨strict, full, (Except.error.inj failed).symm⟩
    | still | ended | halts | moves => cases failed
  · rintro ⟨strict, full, rfl⟩
    have refused : ((v.recorder t).push v.state).value = .error (.stackFull v.stack.capacity) := by
      rw [BoundedStack.push_of_full full.full (recorder_strict.trans strict), recorder_kept.1]
    rw [step_of_refused full.running full.symbol inside refused]

end Visit

end Acceptor
