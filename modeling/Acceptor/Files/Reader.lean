import Acceptor.Files.Disk
import Acceptor.Text.Lines
import Acceptor.Text.Utf8

namespace Acceptor

open Text

structure Reader where
  path : Path
  offset : Nat := 0
  begun : Option Utf8.Begun := none
  heldReturn : Bool := false
  /-- What was read and is not part of a line yet. -/
  ready : List Char := []

namespace Reader

def pieceSize : Nat := 8192

def cutPieces (piece : List Nat) : (room : Nat) → List Nat → List (List Nat)
  | _, [] => if piece.isEmpty then [] else [piece.reverse]
  | 0, b :: bs => piece.reverse :: cutPieces [b] (pieceSize - 1) bs
  | room + 1, b :: bs => cutPieces (b :: piece) room bs

def ahead (r : Reader) (d : Disk) : List (List Nat) :=
  cutPieces [] pieceSize ((Utf8.encode (d.text r.path).toList).drop r.offset)

def take (r : Reader) (piece : List Nat) : Except Utf8.Malformed Reader := do
  let (text, begun) ← Utf8.decode 0 r.begun piece
  let (text, heldReturn) := unifyLineEnds r.heldReturn text
  return { r with offset := r.offset + piece.length, begun, heldReturn, ready := r.ready ++ text }

def finish (r : Reader) : Except Utf8.Malformed Reader :=
  match r.begun with
  | some h => .error ⟨h.first, 0, h.count, .cutOff⟩
  | none =>
      .ok { r with heldReturn := false, ready := r.ready ++ if r.heldReturn then ['\n'] else [] }

def cut? (r : Reader) : Option (String × Reader) :=
  match r.ready.span (· ≠ '\n') with
  | (line, _ :: ready) => some (String.ofList line, { r with ready })
  | (_, []) => none

def last? (r : Reader) : Option (String × Reader) :=
  if r.ready.isEmpty then none else some (String.ofList r.ready, { r with ready := [] })

def lineFrom (r : Reader) : List (List Nat) → Except Utf8.Malformed (Option (String × Reader))
  | [] => do
      let r ← r.finish
      return r.cut? <|> r.last?
  | piece :: pieces => do
      let r ← r.take piece
      match r.cut? with
      | some found => return some found
      | none => r.lineFrom pieces

def line? (r : Reader) (d : Disk) : Except Utf8.Malformed (Option (String × Reader)) :=
  match r.cut? with
  | some found => .ok (some found)
  | none => r.lineFrom (r.ahead d)

end Reader

end Acceptor
