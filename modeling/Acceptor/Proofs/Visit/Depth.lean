import Acceptor.Proofs.Visit.Step

namespace Acceptor

namespace Visit

variable {t : Table} {v : Visit} {c : Symbol} {n depth s : Nat} {w : List Symbol}

def kept (t : Table) (depth s : Nat) : Nat := if t.isAccepting s then 0 else depth

/-- A stack of `n` cells with `depth` states on it has no room for those that `w` is read in. -/
def overfills (t : Table) (n : Nat) : (depth s : Nat) → List Symbol → Bool
  | _, _, [] => false
  | depth, s, c :: w =>
      if c = endOfInput then false
      else if kept t depth s = n then true
      else match t.next? s c with
        | none => false
        | some d => overfills t n (kept t depth s + 1) d w

theorem overfills_endOfInput : overfills t n depth s (endOfInput :: w) = false := by
  rw [overfills, if_pos rfl]

theorem overfills_of_full (symbol : c ≠ endOfInput) (full : kept t depth s = n) :
    overfills t n depth s (c :: w) = true := by
  rw [overfills, if_neg symbol, if_pos full]

theorem overfills_of_none (symbol : c ≠ endOfInput) (room : kept t depth s < n)
    (next : t.next? s c = none) : overfills t n depth s (c :: w) = false := by
  rw [overfills, if_neg symbol, if_neg (Nat.ne_of_lt room), next]

theorem overfills_of_some {d : Nat} (symbol : c ≠ endOfInput) (room : kept t depth s < n)
    (next : t.next? s c = some d) :
    overfills t n depth s (c :: w) = overfills t n (kept t depth s + 1) d w := by
  rw [overfills, if_neg symbol, if_neg (Nat.ne_of_lt room), next]

theorem state_courseFrom_of_none (next : t.next? s c = none) :
    (courseFrom t s (c :: w)).state = s := by
  rw [courseFrom, next]
  split <;> rfl

theorem state_courseFrom_of_some {d : Nat} (symbol : c ≠ endOfInput) (next : t.next? s c = some d) :
    (courseFrom t s (c :: w)).state = (courseFrom t d w).state := by
  rw [courseFrom, if_neg symbol, next]

theorem count_recorder : (v.recorder t).count = kept t v.stack.count v.state := by
  unfold recorder kept
  split <;> rfl

theorem feed_strict (wf : t.WellFormed) (w : List Symbol) (running : v.halted = false)
    (inside : v.state < t.size) (strict : v.stack.strict = true) :
    (overfills t v.stack.capacity v.stack.count v.state w = true →
      (v.feed t w).value = .error (.stackFull v.stack.capacity)) ∧
    (overfills t v.stack.capacity v.stack.count v.state w = false →
      ∃ v', (v.feed t w).value = .ok v' ∧ v'.state = (courseFrom t v.state w).state) := by
  induction w generalizing v with
  | nil => exact ⟨(absurd · Bool.false_ne_true), fun _ => ⟨v, rfl, rfl⟩⟩
  | cons c w ih =>
      have recorded : (v.recorder t).strict = true := recorder_strict.trans strict
      have cells : (v.recorder t).capacity = v.stack.capacity := recorder_kept.1
      have taken := stepped inside c
      generalize step : (v.step t c).value = r at taken
      cases taken with
      | still halted =>
          rw [running] at halted
          cases halted
      | ended running symbol =>
          subst symbol
          rw [overfills_endOfInput]
          refine ⟨(absurd · Bool.false_ne_true), fun _ => ⟨_, feed_cons_of_stops step w, ?_⟩⟩
          rw [courseFrom, if_pos rfl]
      | refused strict full =>
          have noRoom : kept t v.stack.count v.state = v.stack.capacity := by
            rw [← count_recorder, full.full, cells]
          rw [overfills_of_full full.symbol noRoom]
          exact ⟨fun _ => feed_cons_of_fault step w, fun h => absurd h.symm Bool.false_ne_true⟩
      | halts running symbol pushed next =>
          have room : kept t v.stack.count v.state < v.stack.capacity := by
            rw [← count_recorder, ← cells]
            exact (pushed.room recorded).1
          rw [overfills_of_none symbol room next, state_courseFrom_of_none next]
          exact ⟨(absurd · Bool.false_ne_true), fun _ => ⟨_, feed_cons_of_stops step w, rfl⟩⟩
      | @moves stack d running symbol pushed next =>
          obtain ⟨room, depth⟩ := pushed.room recorded
          rw [count_recorder] at depth
          rw [count_recorder, cells] at room
          rw [overfills_of_some symbol room next, state_courseFrom_of_some symbol next,
            feed_cons_of_goesOn step w]
          -- one more is on the stack, and that is what is counted on from `d`
          have rest := ih (v := ⟨stack, d, false, v.consumed + 1⟩) rfl (wf.next?_lt next)
            (pushed.strict.trans recorded)
          simp only [depth, pushed.capacity, cells] at rest
          exact rest

end Visit

open Visit

def Table.overflows (t : Table) (w : List Symbol) : Bool :=
  t.strict && overfills t t.capacity.toNat 1 t.start w

theorem run_specified [Memory] {t : Table} (wf : t.WellFormed) (nonempty : 0 < t.size)
    (positive : 1 ≤ t.capacity) (fits : t.capacity ≤ Memory.maxCells) (w : List Symbol) :
    (t.overflows w = true → (t.run w).value = .error (.stackFull t.capacity.toNat)) ∧
      (t.overflows w = false →
        ∃ v, (t.run w).value = .ok v ∧ v.state = (courseFrom t t.start w).state) := by
  cases mode : t.strict with
  | false =>
      obtain ⟨v, ran, course, -⟩ := run_of_fits wf nonempty mode positive fits w
      have never : t.overflows w = false := by simp [Table.overflows, mode]
      rw [never]
      exact ⟨nofun, fun _ => ⟨v, ran, congrArg Course.state course⟩⟩
  | true =>
      obtain ⟨v, begun, same⟩ := begin_of_nonempty positive fits nonempty
      have cells : v.stack.capacity = t.capacity.toNat := by
        have := same.capacity
        omega
      have inside : v.state < t.size := same.state ▸ wf.start_lt nonempty
      have fed := feed_strict wf w same.running inside (same.strict.trans mode)
      rw [cells, same.depth, same.state] at fed
      have ran : (t.run w).value = (v.feed t w).value := by rw [Table.run, begun]
      rw [ran, Table.overflows, mode, Bool.true_and]
      exact fed

end Acceptor
