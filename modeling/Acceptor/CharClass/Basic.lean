namespace Acceptor

/-- One input of an automaton: in a text, one character. -/
abbrev Symbol := String

inductive CharClass
  | literal (c : Symbol)
  | any
  | bracket (ranges : List (Symbol × Symbol)) (negated : Bool)
  | complement (c : CharClass)
  | union (cs : List CharClass)
  deriving Repr

namespace CharClass

mutual

def accepts : CharClass → Symbol → Bool
  | literal d, c => c == d
  | any, _ => true
  | bracket ranges negated, c => (ranges.any fun r => r.1 ≤ c && c ≤ r.2) != negated
  | complement k, c => !k.accepts c
  | union ks, c => anyAccepts ks c

def anyAccepts : List CharClass → Symbol → Bool
  | [], _ => false
  | k :: ks, c => k.accepts c || anyAccepts ks c

end

mutual

def firstReversed : CharClass → Option (Symbol × Symbol)
  | literal _ | any => none
  | bracket ranges _ => ranges.find? fun r => r.2 < r.1
  | complement k => k.firstReversed
  | union ks => firstReversedIn ks

def firstReversedIn : List CharClass → Option (Symbol × Symbol)
  | [] => none
  | k :: ks => k.firstReversed <|> firstReversedIn ks

end

mutual

private def decEq : (a b : CharClass) → Decidable (a = b)
  | literal c, literal d => decidable_of_iff (c = d) (by simp)
  | any, any => isTrue rfl
  | bracket rs n, bracket ss m => decidable_of_iff (rs = ss ∧ n = m) (by simp)
  | complement a, complement b =>
      match decEq a b with
      | isTrue h => isTrue (h ▸ rfl)
      | isFalse h => isFalse fun e => h (complement.inj e)
  | union as, union bs =>
      match decEqList as bs with
      | isTrue h => isTrue (h ▸ rfl)
      | isFalse h => isFalse fun e => h (union.inj e)
  | literal _, any | literal _, bracket .. | literal _, complement _ | literal _, union _
  | any, literal _ | any, bracket .. | any, complement _ | any, union _
  | bracket .., literal _ | bracket .., any | bracket .., complement _ | bracket .., union _
  | complement _, literal _ | complement _, any | complement _, bracket .. | complement _, union _
  | union _, literal _ | union _, any | union _, bracket .. | union _, complement _ =>
      isFalse nofun

private def decEqList : (as bs : List CharClass) → Decidable (as = bs)
  | [], [] => isTrue rfl
  | a :: as, b :: bs =>
      match decEq a b, decEqList as bs with
      | isTrue h, isTrue t => isTrue (h ▸ t ▸ rfl)
      | isFalse h, _ => isFalse fun e => h (List.cons.inj e).1
      | _, isFalse t => isFalse fun e => t (List.cons.inj e).2
  | [], _ :: _ | _ :: _, [] => isFalse nofun

end

instance : DecidableEq CharClass := decEq

end CharClass

end Acceptor
