import Acceptor.Proofs.Table.Sound
import Acceptor.Proofs.Visit.Overflow
import Acceptor.Shell.Session

namespace Acceptor.Session

variable {s : Session}

inductive Refuses (t : Table) : (reason : String) → Prop
  | noStates (empty : t.size = 0) : Refuses t "automaton has no states"
  | overflow (nonempty : 0 < t.size) (strict : t.strict = true) :
      Refuses t s!"stack is full (capacity {t.capacity.toNat})"

def Complains (t : Table) (text message : String) : Prop :=
  ∃ reason, Refuses t reason ∧ message = s!"{Text.quoted text}: {reason}\n"

def noStack [Memory] (t : Table) : Option Fault :=
  if Memory.maxCells < t.capacity then
    some (if isIndex t.capacity then .outOfMemory else .uncountable)
  else none

theorem noStack_of_gt [Memory] {t : Table} (large : Memory.maxCells < t.capacity) :
    noStack t = some (if isIndex t.capacity then .outOfMemory else .uncountable) := by
  rw [noStack, if_pos large]

theorem noStack_of_le [Memory] {t : Table} (fits : t.capacity ≤ Memory.maxCells) :
    noStack t = none := by
  rw [noStack, if_neg (Int.not_lt.2 fits)]

theorem err_not_logged {message : String} (log : List Log.Entry) :
    .err message ∉ log.map Event.log := by
  simp

theorem endsMatch_noMemory (t : Table) :
    endsMatch (if isIndex t.capacity then .outOfMemory else .uncountable) = false := by
  split <;> rfl

theorem runText_of_sound [Host] {t : Table} (sound : t.Sound) (trace : Bool) (text : String) :
    (runText t trace text).2 = noStack t ∧
      ∀ message, .err message ∈ (runText t trace text).1 → Complains t text message := by
  have ran := Visit.ran sound.wellFormed sound.capacity_pos (symbolsOf text)
  unfold runText
  simp only
  cases value : (t.run (symbolsOf text)).value with
  | error f =>
      rw [value] at ran
      cases ran with
      | noMemory large =>
          simp only [endsMatch_noMemory, Bool.false_eq_true, if_false, noStack_of_gt large, true_and]
          exact fun message mem => absurd mem (err_not_logged _)
      | noStates fits empty =>
          simp only [endsMatch, if_true, noStack_of_le fits, true_and]
          intro message mem
          simp only [List.mem_append, List.mem_singleton, Event.err.injEq, err_not_logged,
            false_or] at mem
          exact ⟨_, .noStates empty, mem⟩
      | overflow fits nonempty strict =>
          simp only [endsMatch, if_true, noStack_of_le fits, true_and]
          intro message mem
          simp only [List.mem_append, List.mem_singleton, Event.err.injEq, err_not_logged,
            false_or] at mem
          exact ⟨_, .overflow nonempty strict, mem⟩
  | ok v =>
      rw [value] at ran
      cases ran with
      | whole fits inside =>
          have success : v.success t = .ok (t.isAccepting v.state) := Table.isFinal_of_lt inside
          simp only [success, noStack_of_le fits, true_and]
          intro message mem
          simp only [List.mem_append, List.mem_cons, err_not_logged, reduceCtorEq, false_or] at mem
          split at mem
          · simp at mem
          · cases mem

theorem runTexts_of_sound [Host] {t : Table} (sound : t.Sound) (trace : Bool) (texts : List String) :
    (runTexts t trace texts).2 = (if texts = [] then none else noStack t) ∧
      ∀ message, .err message ∈ (runTexts t trace texts).1 →
        ∃ text ∈ texts, Complains t text message := by
  induction texts with
  | nil => exact ⟨rfl, nofun⟩
  | cons text texts ih =>
      obtain ⟨fault, complains⟩ := runText_of_sound sound trace text
      obtain ⟨faults, complaints⟩ := ih
      rw [if_neg (List.cons_ne_nil text texts)]
      unfold runTexts
      cases ran : runText t trace text with
      | mk events ended =>
          rw [ran] at fault complains
          cases ended with
          | some f =>
              exact ⟨fault, fun message mem => ⟨text, List.mem_cons_self, complains message mem⟩⟩
          | none =>
              refine ⟨?_, fun message mem => ?_⟩
              · simp only [faults, ← fault, ite_self]
              · rcases List.mem_append.1 mem with here | later
                · exact ⟨text, List.mem_cons_self, complains message here⟩
                · obtain ⟨other, among, complaint⟩ := complaints message later
                  exact ⟨other, List.mem_cons_of_mem _ among, complaint⟩

def outcomeOf : Option Fault → Outcome
  | none => .done
  | some f => .escaped f

theorem run_of_sound [Host] (sound : s.table.Sound) (texts : List String) (trace : Bool) :
    (∀ message, .err message ∈ (s.run texts trace).events →
        ∃ text ∈ texts, Complains s.table text message) ∧
      (s.run texts trace).outcome = outcomeOf (if texts = [] then none else noStack s.table) := by
  obtain ⟨fault, complaints⟩ := runTexts_of_sound sound trace texts
  rw [← fault]
  unfold run
  cases ran : runTexts s.table trace texts with
  | mk events ended =>
      rw [ran] at complaints
      cases ended with
      | none => exact ⟨complaints, rfl⟩
      | some f => exact ⟨complaints, rfl⟩

end Acceptor.Session
