import Acceptor.Proofs.Visit.Overflow
import Mathlib.Algebra.Ring.Nat
import Mathlib.Data.List.SplitBy

/-!
# The recorded path

The states that a visit reads its symbols in are cut before every accepting one (`segments`). The stack
keeps the oldest states of the last segment, and it has dropped what did not fit of any of them
(`run_path`).
-/

namespace Acceptor

namespace BoundedStack

variable {s : BoundedStack} {n lost : Nat} {segment : List Int}

def overflowEntry (x : Int) : Log.Entry := ⟨.stack, .warning, s!"stack is full, dropping {x}"⟩

/-- A lenient stack of `n` cells after the values of `segment` were pushed on it since it was cleared,
when it had dropped `lost` values. -/
structure Keeps (s : BoundedStack) (n lost : Nat) (segment : List Int) : Prop where
  lenient : s.strict = false
  capacity : s.capacity = n
  items : s.toList = segment.take n
  dropped : s.dropped = lost + (segment.length - n)

theorem Keeps.count (h : s.Keeps n lost segment) : s.count = min n segment.length := by
  rw [← length_toList, h.items, List.length_take]

theorem Keeps.clear (h : s.Keeps n lost segment) :
    s.clear.Keeps n (lost + (segment.length - n)) [] where
  lenient := h.lenient
  capacity := h.capacity
  items := by simp [toList, BoundedStack.clear]
  dropped := by simpa [BoundedStack.clear] using h.dropped

theorem Keeps.push (h : s.Keeps n lost segment) (x : Int) :
    ∃ s', s.push x = ⟨.ok s', ([x].drop (n - segment.length)).map overflowEntry⟩ ∧
      s'.Keeps n lost (segment ++ [x]) := by
  have count := h.count
  have capacity := h.capacity
  have dropped := h.dropped
  by_cases short : segment.length < n
  · have room : s.count < s.capacity := by omega
    have fits : ([x].take (n - segment.length)) = [x] := List.take_of_length_le (by simp; omega)
    have nothing : ([x].drop (n - segment.length)) = [] := List.drop_eq_nil_of_le (by simp; omega)
    obtain ⟨capacity', dropped'⟩ := write_kept x room
    refine ⟨s.write x room, ?_, ?_, capacity'.trans capacity, ?_, ?_⟩
    · rw [push_of_room room, nothing, List.map_nil]
    · unfold write
      split <;> exact h.lenient
    · rw [toList_write, h.items, List.take_append, fits]
    · rw [dropped', dropped, List.length_append, List.length_singleton]
      omega
  · have full : ¬ s.count < s.capacity := by omega
    have none : n - segment.length = 0 := by omega
    refine ⟨{ s with dropped := s.dropped + 1 }, ?_, h.lenient, capacity, ?_, ?_⟩
    · rw [BoundedStack.push, dif_neg full, if_neg (by simp [h.lenient]), none]
      rfl
    · rw [List.take_append, none, List.take_zero, List.append_nil]
      exact h.items
    · simp only [dropped, List.length_append, List.length_singleton]
      omega

end BoundedStack

namespace Visit

open BoundedStack (overflowEntry)

variable {t : Table} {v v' : Visit} {c : Symbol} {n lost s : Nat} {segment : List Int}
  {w : List Symbol} {parts : List (List Int)} {log log' : List Log.Entry}

def statesRead (t : Table) : Nat → List Symbol → List Nat
  | _, [] => []
  | s, c :: w =>
      if c = endOfInput then []
      else s :: match t.next? s c with
        | none => []
        | some d => statesRead t d w

theorem length_statesRead (t : Table) (s : Nat) (w : List Symbol) :
    (statesRead t s w).length = (courseFrom t s w).consumed := by
  induction w generalizing s with
  | nil => rfl
  | cons c w ih =>
      rw [statesRead, courseFrom]
      split
      · rfl
      · cases t.next? s c with
        | none => rfl
        | some d => rw [List.length_cons, ih]

theorem statesRead_eq_some {i r : Nat} (read : (statesRead t s w)[i]? = some r) :
    courseFrom t s (w.take i) = ⟨r, false, i⟩ := by
  induction w generalizing s i with
  | nil => cases read
  | cons c w ih =>
      rw [statesRead] at read
      split at read
      · cases read
      · rename_i symbol
        cases i with
        | zero =>
            obtain rfl := Option.some.inj read
            rfl
        | succ i =>
            rw [List.getElem?_cons_succ] at read
            rw [List.take_succ_cons, courseFrom, if_neg symbol]
            cases next : t.next? s c with
            | none =>
                rw [next] at read
                cases read
            | some d =>
                rw [next] at read
                simp only [ih read]

/-! ## Segments -/

def continues (t : Table) (_ x : Int) : Bool := !t.isAccepting x.toNat

def segmentsFrom (t : Table) (segment : List Int) (states : List Nat) : List (List Int) :=
  (segment ++ states.map Int.ofNat).splitBy (continues t)

def segments (t : Table) (states : List Nat) : List (List Int) := segmentsFrom t [startMarker] states

structure Uncut (t : Table) (segment : List Int) : Prop where
  nonempty : segment ≠ []
  chain : segment.IsChain fun x y => continues t x y

theorem uncut_singleton (t : Table) (x : Int) : Uncut t [x] := ⟨by simp, by simp⟩

theorem Uncut.append (uncut : Uncut t segment) (plain : t.isAccepting s = false) :
    Uncut t (segment ++ [(s : Int)]) where
  nonempty := by simp
  chain := by
    refine uncut.chain.append (by simp) fun x _ y last => ?_
    obtain rfl : (s : Int) = y := by simpa using last
    simp [continues, plain]

theorem segmentsFrom_nil (uncut : Uncut t segment) : segmentsFrom t segment [] = [segment] := by
  rw [segmentsFrom, List.map_nil, List.append_nil]
  exact List.splitBy_of_isChain uncut.nonempty uncut.chain

theorem segmentsFrom_plain (s : Nat) (states : List Nat) :
    segmentsFrom t segment (s :: states) = segmentsFrom t (segment ++ [(s : Int)]) states := by
  rw [segmentsFrom, segmentsFrom, List.map_cons, List.append_assoc]
  rfl

theorem segmentsFrom_accepting (uncut : Uncut t segment) (accepting : t.isAccepting s = true)
    (states : List Nat) :
    segmentsFrom t segment (s :: states) = segment :: segmentsFrom t [(s : Int)] states := by
  have cut : ∀ x ∈ segment.getLast?, continues t x (s : Int) = false := by simp [continues, accepting]
  have alone := List.splitBy_of_isChain uncut.nonempty uncut.chain
  rw [segmentsFrom, List.map_cons, Int.ofNat_eq_natCast, List.splitBy_append_cons _ cut, alone]
  rfl

theorem segmentsFrom_ne_nil (uncut : Uncut t segment) (states : List Nat) :
    segmentsFrom t segment states ≠ [] :=
  List.splitBy_ne_nil.2 (List.append_ne_nil_of_left_ne_nil uncut.nonempty _)

def warnings (log : List Log.Entry) : List Log.Entry := log.filter fun e => e.level == .warning

theorem warnings_append (log log' : List Log.Entry) :
    warnings (log ++ log') = warnings log ++ warnings log' := List.filter_append ..

theorem warnings_overflows (xs : List Int) :
    warnings (xs.map overflowEntry) = xs.map overflowEntry := by
  refine List.filter_eq_self.2 fun e member => ?_
  obtain ⟨x, -, rfl⟩ := List.mem_map.1 member
  rfl

/-- How a visit ends whose states are cut into `parts`. What it dropped of `before` was logged earlier. -/
structure Recorded (n lost : Nat) (before : List Int) (parts : List (List Int)) (v : Visit)
    (log : List Log.Entry) : Prop where
  path : parts.getLast?.map (·.take n) = some v.path
  dropped : v.stack.dropped = lost + (parts.map (·.length - n)).sum
  warnings : (before.drop n).map overflowEntry ++ warnings log =
    (parts.flatMap (·.drop n)).map overflowEntry

/-! ## The visit -/

theorem step_keeps (running : v.halted = false) (symbol : c ≠ endOfInput) (inside : v.state < t.size)
    (keeps : (v.recorder t).Keeps n lost segment) :
    ∃ stack : BoundedStack, stack.Keeps n lost (segment ++ [(v.state : Int)]) ∧
      warnings (v.step t c).log = ([(v.state : Int)].drop (n - segment.length)).map overflowEntry ∧
      (v.step t c).value =
        match t.next? v.state c with
        | none => (⟨stack, v.state, true, v.consumed + 1⟩, .ok false)
        | some d => (⟨stack, d, false, v.consumed + 1⟩, .ok true) := by
  obtain ⟨stack, pushed, keeps'⟩ := keeps.push v.state
  refine ⟨stack, keeps', ?_, step_of_pushed running symbol inside (congrArg Logged.value pushed)⟩
  rw [step_of_running running symbol inside, pushed]
  have quiet : warnings
      ({ v with consumed := v.consumed + 1, stack }.move t.states[v.state] c).log = [] := by
    unfold move
    split <;> rfl
  simp only [warnings_append, warnings_overflows, quiet, List.append_nil]

theorem feed_cons_log_of_goesOn (h : (v.step t c).value = (v', .ok true)) (w : List Symbol) :
    (v.feed t (c :: w)).log = (v.step t c).log ++ (v'.feed t w).log := by
  rw [feed]
  cases taken : v.step t c with
  | mk r log =>
      rw [taken] at h
      cases h
      rfl

theorem feed_cons_log_of_stops (h : (v.step t c).value = (v', .ok false)) (w : List Symbol) :
    (v.feed t (c :: w)).log = (v.step t c).log := by
  rw [feed]
  cases taken : v.step t c with
  | mk r log =>
      rw [taken] at h
      cases h
      rfl

theorem recorded_of_keeps (keeps : v.stack.Keeps n lost segment) :
    Recorded n lost segment [segment] v [] where
  path := congrArg some keeps.items.symm
  dropped := by simpa using keeps.dropped
  warnings := by simp [Visit.warnings]

theorem Recorded.push {x : Int} (h : Recorded n lost (segment ++ [x]) parts v log')
    (pushed : Visit.warnings log = ([x].drop (n - segment.length)).map overflowEntry) :
    Recorded n lost segment parts v (log ++ log') where
  path := h.path
  dropped := h.dropped
  warnings := by
    rw [← h.warnings, warnings_append, pushed, List.drop_append, List.map_append, List.append_assoc]

theorem Recorded.cut (h : Recorded n (lost + (segment.length - n)) [] parts v log)
    (later : parts ≠ []) : Recorded n lost segment (segment :: parts) v log where
  path := by rw [List.getLast?_cons_of_ne_nil later, h.path]
  dropped := by
    rw [h.dropped, List.map_cons, List.sum_cons]
    omega
  warnings := by
    have rest := h.warnings
    rw [List.drop_nil, List.map_nil, List.nil_append] at rest
    rw [rest, List.flatMap_cons, List.map_append]

theorem feed_cons_recorded (running : v.halted = false) (symbol : c ≠ endOfInput)
    (inside : v.state < t.size) (keeps : (v.recorder t).Keeps n lost segment)
    (uncut : Uncut t (segment ++ [(v.state : Int)]))
    (later : ∀ (d : Nat) (u : Visit), t.next? v.state c = some d →
      u.halted = false → u.state = d → u.stack.Keeps n lost (segment ++ [(v.state : Int)]) →
      ∃ v', (u.feed t w).value = .ok v' ∧
        Recorded n lost (segment ++ [(v.state : Int)])
          (segmentsFrom t (segment ++ [(v.state : Int)]) (statesRead t d w)) v' (u.feed t w).log) :
    ∃ v', (v.feed t (c :: w)).value = .ok v' ∧
      Recorded n lost segment
        (segmentsFrom t (segment ++ [(v.state : Int)]) (statesRead t v.state (c :: w)).tail) v'
        (v.feed t (c :: w)).log := by
  obtain ⟨stack, keeps', logged, taken⟩ := step_keeps running symbol inside keeps
  rw [statesRead, if_neg symbol, List.tail_cons]
  cases next : t.next? v.state c with
  | none =>
      rw [next] at taken
      rw [segmentsFrom_nil uncut, feed_cons_log_of_stops taken, ← List.append_nil (v.step t c).log]
      exact ⟨_, feed_cons_of_stops taken w,
        (recorded_of_keeps (v := ⟨stack, v.state, true, v.consumed + 1⟩) keeps').push logged⟩
  | some d =>
      rw [next] at taken
      obtain ⟨v', fed, recorded⟩ := later d ⟨stack, d, false, v.consumed + 1⟩ next rfl rfl keeps'
      rw [feed_cons_log_of_goesOn taken]
      exact ⟨v', (feed_cons_of_goesOn taken w).trans fed, recorded.push logged⟩

theorem feed_recorded (wf : t.WellFormed) (w : List Symbol) (running : v.halted = false)
    (inside : v.state < t.size) (uncut : Uncut t segment) (keeps : v.stack.Keeps n lost segment) :
    ∃ v', (v.feed t w).value = .ok v' ∧
      Recorded n lost segment (segmentsFrom t segment (statesRead t v.state w)) v' (v.feed t w).log := by
  induction w generalizing v segment lost with
  | nil =>
      rw [statesRead, segmentsFrom_nil uncut]
      exact ⟨v, rfl, recorded_of_keeps keeps⟩
  | cons c w ih =>
      by_cases symbol : c = endOfInput
      · subst symbol
        have ended := step_endOfInput (t := t) running
        have stops := congrArg Logged.value ended
        rw [statesRead, if_pos rfl, segmentsFrom_nil uncut, feed_cons_log_of_stops stops, ended]
        exact ⟨_, feed_cons_of_stops stops w, recorded_of_keeps keeps⟩
      · have head : statesRead t v.state (c :: w) = v.state :: (statesRead t v.state (c :: w)).tail := by
          rw [statesRead, if_neg symbol, List.tail_cons]
        -- the state goes on the current segment, or the stack is cleared and a new one begins with it
        cases accepting : t.isAccepting v.state with
        | false =>
            have recorder : v.recorder t = v.stack := by simp [recorder, accepting]
            have uncut' := uncut.append accepting
            rw [head, segmentsFrom_plain]
            refine feed_cons_recorded running symbol inside (recorder ▸ keeps) uncut' ?_
            rintro d u next running' rfl keeps'
            exact ih running' (wf.next?_lt next) uncut' keeps'
        | true =>
            have recorder : v.recorder t = v.stack.clear := by simp [recorder, accepting]
            have alone := uncut_singleton t v.state
            rw [head, segmentsFrom_accepting uncut accepting]
            obtain ⟨v', fed, recorded⟩ := feed_cons_recorded (w := w) running symbol inside
              (recorder ▸ keeps.clear) alone (by
                rintro d u next running' rfl keeps'
                exact ih running' (wf.next?_lt next) alone keeps')
            exact ⟨v', fed, recorded.cut (segmentsFrom_ne_nil alone _)⟩

theorem feed_withStack (capacity : Int) (strict : Bool) (w : List Symbol) :
    v.feed (t.withStack capacity strict) w = v.feed t w := by
  induction w generalizing v with
  | nil => rfl
  | cons c w ih =>
      rw [feed, feed, show v.step (t.withStack capacity strict) c = v.step t c from rfl]
      simp only [ih]

theorem run_recorded [Memory] (wf : t.WellFormed) (nonempty : 0 < t.size) {capacity : Int}
    (positive : 1 ≤ capacity) (fits : capacity ≤ Memory.maxCells) (w : List Symbol) :
    ∃ v, ((t.withStack capacity false).run w).value = .ok v ∧
      Recorded capacity.toNat 0 [startMarker] (segments t (statesRead t t.start w)) v
        ((t.withStack capacity false).run w).log := by
  obtain ⟨empty, size, count, dropped, made⟩ := BoundedStack.ofCapacity_of_le positive fits
  let stack := empty.withMode false
  have room : stack.count < stack.capacity := by
    change empty.count < empty.capacity
    omega
  have items : stack.toList = [] :=
    List.eq_nil_of_length_eq_zero ((BoundedStack.length_toList stack).trans count)
  have fresh : stack.Keeps capacity.toNat 0 [] := ⟨rfl, size, by rw [items, List.take_nil], by simpa⟩
  obtain ⟨stack', pushed, keeps⟩ := fresh.push startMarker
  rw [BoundedStack.push_of_room room] at pushed
  obtain rfl := Except.ok.inj (congrArg Logged.value pushed)
  have begun := begin_of_made (t := t.withStack capacity false) nonempty (made false) room
  obtain ⟨v, fed, recorded⟩ := feed_recorded wf w
    (v := ⟨stack.write startMarker room, t.start, false, 0⟩) rfl (wf.start_lt nonempty)
    (uncut_singleton t startMarker) keeps
  rw [Table.run, begun]
  simp only [feed_withStack]
  exact ⟨v, fed, recorded⟩

end Visit

open Visit

/-- The path of a lenient run is the beginning of the last segment of the states that its symbols are
read in. What does not fit of any segment is dropped and logged. A stack larger than the memory
cannot be made, and the run does not begin. -/
theorem run_path [Memory] (t : Table) (wf : t.WellFormed) (nonempty : 0 < t.size) :
    (∀ capacity : Int, 1 ≤ capacity → capacity ≤ Memory.maxCells → ∀ w,
      let lenient := t.withStack capacity false
      let n := capacity.toNat
      let states := statesRead t t.start w
      let parts := segments t states
      (∀ i s, states[i]? = some s →
        ∃ u, (lenient.run (w.take i)).value = .ok u ∧ u.course = ⟨s, false, i⟩) ∧
      ∃ v, (lenient.run w).value = .ok v ∧ v.consumed = states.length ∧
        parts.getLast?.map (·.take n) = some v.path ∧
        v.stack.dropped = (parts.map (·.length - n)).sum ∧
        warnings (lenient.run w).log = (parts.flatMap (·.drop n)).map BoundedStack.overflowEntry ∧
        (warnings (lenient.run w).log).length = v.stack.dropped) ∧
    ∀ capacity : Int, Memory.maxCells < capacity → ∀ w,
      ((t.withStack capacity false).run w).value =
        .error (if isIndex capacity then .outOfMemory else .uncountable) := by
  refine ⟨fun capacity positive fits w => ?_, (run_course t wf nonempty).2⟩
  intro lenient n states parts
  have courses := ((run_course t wf nonempty).1 capacity positive fits).1
  refine ⟨fun i s read => ?_, ?_⟩
  · obtain ⟨u, ran, course, -⟩ := courses (w.take i)
    exact ⟨u, ran, course.trans (statesRead_eq_some read)⟩
  · obtain ⟨v, ran, recorded⟩ := run_recorded wf nonempty positive fits w
    obtain ⟨v', ran', course, -⟩ := courses w
    obtain rfl := Except.ok.inj (ran.symm.trans ran')
    have consumed : v.consumed = states.length :=
      (congrArg Course.consumed course).trans (length_statesRead t t.start w).symm
    have dropped : v.stack.dropped = (parts.map (·.length - n)).sum := by
      rw [recorded.dropped, Nat.zero_add]
    have fitsOne : [startMarker].drop n = [] :=
      List.drop_eq_nil_of_le (by rw [List.length_singleton]; omega)
    have logged := recorded.warnings
    rw [fitsOne, List.map_nil, List.nil_append] at logged
    refine ⟨v, ran, consumed, recorded.path, dropped, logged, ?_⟩
    rw [logged, dropped, List.length_map, List.length_flatMap]
    simp only [List.length_drop]
    rfl

theorem run_path_example :
    let _ : Memory := Host.usual.toMemory
    let t := Table.loadExample {}
    (t.WellFormed ∧ 0 < t.size) ∧
      segments t (statesRead t t.start ["a", "c", "x", "a"]) = [[-1, 2], [1], [0]] ∧
      ∃ v, ((t.withStack 1 false).run ["a", "c", "x", "a"]).value = .ok v ∧
        v.path = [0] ∧ v.stack.dropped = 1 := by
  intro memory t
  have wf : t.WellFormed := ⟨by decide, by decide, by decide⟩
  have parts : segments t (statesRead t t.start ["a", "c", "x", "a"]) = [[-1, 2], [1], [0]] := by
    decide
  obtain ⟨-, v, ran, -, path, dropped, -⟩ :=
    (run_path t wf (by decide)).1 1 (by decide) (by decide) ["a", "c", "x", "a"]
  rw [parts] at path dropped
  exact ⟨⟨wf, by decide⟩, parts, v, ran, (Option.some.inj path).symm, dropped⟩

theorem no_path_of_uncountable_capacity :
    let _ : Memory := Host.usual.toMemory
    let t := (Table.loadExample {}).withStack 0x8000000000000000 false
    t.WellFormed ∧ 0 < t.size ∧ 1 ≤ t.capacity ∧
      ¬ ∃ v, (t.run ["a", "c"]).value = .ok v ∧
        (segments t (statesRead t t.start ["a", "c"])).getLast?.map (·.take t.capacity.toNat) =
          some v.path := by
  intro memory t
  refine ⟨⟨by decide, by decide, by decide⟩, by decide, by decide, ?_⟩
  rintro ⟨v, ran, -⟩
  have refused : (t.run ["a", "c"]).value = .error .uncountable := rfl
  rw [refused] at ran
  cases ran

end Acceptor
