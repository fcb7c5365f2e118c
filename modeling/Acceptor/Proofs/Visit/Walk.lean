import Acceptor.Proofs.Visit.Course

namespace Acceptor.Visit

variable {t : Table} {v v' : Visit} {c : Symbol} {w : List Symbol} {f : Fault}

def walk (t : Table) (v : Visit) : List Symbol → Visit × Option Fault
  | [] => (v, none)
  | c :: w =>
      match (v.step t c).value with
      | (v, .ok _) => walk t v w
      | (v, .error f) => (v, some f)

/-- Takes the symbols whatever the answers are, which are given with the visit in the end. -/
def attempts (t : Table) (v : Visit) : List Symbol → List (Except Fault Bool) × Visit
  | [] => ([], v)
  | c :: w =>
      let r := (v.step t c).value
      let rest := attempts t r.1 w
      (r.2 :: rest.1, rest.2)

theorem walk_cons_of_ok {goesOn : Bool} (h : (v.step t c).value = (v', .ok goesOn)) :
    v.walk t (c :: w) = v'.walk t w := by
  rw [walk, h]

theorem walk_cons_of_error (h : (v.step t c).value = (v', .error f)) :
    v.walk t (c :: w) = (v', some f) := by
  rw [walk, h]

theorem attempts_cons {answer : Except Fault Bool} (h : (v.step t c).value = (v', answer)) :
    v.attempts t (c :: w) = (answer :: (v'.attempts t w).1, (v'.attempts t w).2) := by
  rw [attempts, h]

theorem walk_append (u : List Symbol) :
    v.walk t (u ++ w) =
      match v.walk t u with
      | (v', none) => v'.walk t w
      | stopped => stopped := by
  induction u generalizing v with
  | nil => rfl
  | cons c u ih =>
      rw [List.cons_append, walk, walk]
      cases (v.step t c).value with
      | mk v' answer =>
          cases answer with
          | ok goesOn => exact ih
          | error f => rfl

theorem attempts_append (u : List Symbol) :
    v.attempts t (u ++ w) =
      ((v.attempts t u).1 ++ ((v.attempts t u).2.attempts t w).1,
        ((v.attempts t u).2.attempts t w).2) := by
  induction u generalizing v with
  | nil => rfl
  | cons c u ih =>
      rw [List.cons_append, attempts, attempts]
      simp only [ih, List.cons_append]

theorem step_of_halted (halted : v.halted = true) (c : Symbol) :
    v.step t c = ⟨(v, .ok false), []⟩ := by
  simp [step, halted]

theorem walk_of_halted (halted : v.halted = true) (w : List Symbol) : v.walk t w = (v, none) := by
  induction w with
  | nil => rfl
  | cons c w ih =>
      rw [walk_cons_of_ok (congrArg Logged.value (step_of_halted halted c))]
      exact ih

theorem attempts_of_halted (halted : v.halted = true) (w : List Symbol) :
    v.attempts t w = (List.replicate w.length (.ok false), v) := by
  induction w with
  | nil => rfl
  | cons c w ih =>
      rw [attempts, step_of_halted halted]
      simp only [ih]
      rfl

theorem halted_of_stops (h : (v.step t c).value = (v', .ok false)) : v'.halted = true := by
  unfold step at h
  split at h
  · rename_i halted
    obtain ⟨rfl, -⟩ := Prod.mk.inj h
    exact halted
  · split at h
    · obtain ⟨rfl, -⟩ := Prod.mk.inj h
      rfl
    · simp only at h
      split at h
      · cases h
      · split at h
        · cases h
        · rename_i here _ _ _ _ _
          unfold move at h
          cases next : here.next? c with
          | none =>
              simp only [next] at h
              obtain ⟨rfl, -⟩ := Prod.mk.inj h
              rfl
          | some d =>
              simp only [next] at h
              cases h

theorem feed_cons_of_fault (h : (v.step t c).value = (v', .error f)) (w : List Symbol) :
    (v.feed t (c :: w)).value = .error f := by
  unfold feed
  cases taken : v.step t c with
  | mk r log =>
      rw [taken] at h
      cases h
      rfl

theorem feed_value (w : List Symbol) :
    (v.feed t w).value =
      match v.walk t w with
      | (v', none) => .ok v'
      | (_, some f) => .error f := by
  induction w generalizing v with
  | nil => rfl
  | cons c w ih =>
      cases taken : (v.step t c).value with
      | mk v' answer =>
          cases answer with
          | error f =>
              rw [walk_cons_of_error taken, feed_cons_of_fault taken]
          | ok goesOn =>
              rw [walk_cons_of_ok taken]
              cases goesOn with
              | false =>
                  rw [feed_cons_of_stops taken, walk_of_halted (halted_of_stops taken)]
              | true => rw [feed_cons_of_goesOn taken, ih]

end Acceptor.Visit
