import Acceptor.Text.Quoted

namespace Acceptor.Text.Utf8

def encodeChar (c : Char) : List Nat :=
  let n := c.toNat
  let tail := fun unit => 0x80 + n / unit % 64
  if n < 0x80 then [n]
  else if n < 0x800 then [0xC0 + n / 64, tail 1]
  else if n < 0x10000 then [0xE0 + n / 4096, tail 64, tail 1]
  else [0xF0 + n / 262144, tail 4096, tail 64, tail 1]

def encode (cs : List Char) : List Nat := cs.flatMap encodeChar

structure Begun where
  first : Nat
  count : Nat
  missing : Nat
  value : Nat
  deriving DecidableEq, Repr

/-- What the next byte may be. After some first bytes the second is bounded, so that no character
has two forms, and there are none between U+D800 and U+DFFF or above U+10FFFF. -/
def Begun.admits (h : Begun) (b : Nat) : Bool :=
  let low := if h.count = 1 && h.first = 0xE0 then 0xA0
    else if h.count = 1 && h.first = 0xF0 then 0x90 else 0x80
  let high := if h.count = 1 && h.first = 0xED then 0x9F
    else if h.count = 1 && h.first = 0xF4 then 0x8F else 0xBF
  low ≤ b && b ≤ high

inductive Reason
  | badStart
  | badContinuation
  | cutOff
  deriving DecidableEq, Repr

def Reason.text : Reason → String
  | badStart => "invalid start byte"
  | badContinuation => "invalid continuation byte"
  | cutOff => "unexpected end of data"

/-- Some bytes are no character: the first of them, where it stands in the piece, and how many
they are. The bytes of a character that began before the piece count as its first. -/
structure Malformed where
  first : Nat
  position : Nat
  count : Nat
  reason : Reason
  deriving DecidableEq, Repr

def Malformed.message (m : Malformed) : String :=
  let bytes :=
    if m.count = 1 then
      s!"byte 0x{String.ofList (hexDigits 2 m.first)} in position {m.position}"
    else s!"bytes in position {m.position}-{m.position + m.count - 1}"
  s!"'utf-8' codec can't decode {bytes}: {m.reason.text}"

inductive Step
  | char (c : Char)
  | more (h : Begun)
  | refused (reason : Reason)

def start (b : Nat) : Step :=
  if b < 0x80 then .char (Char.ofNat b)
  else if b < 0xC2 then .refused .badStart
  else if b < 0xE0 then .more ⟨b, 1, 1, b - 0xC0⟩
  else if b < 0xF0 then .more ⟨b, 1, 2, b - 0xE0⟩
  else if b < 0xF5 then .more ⟨b, 1, 3, b - 0xF0⟩
  else .refused .badStart

def Begun.extend (h : Begun) (b : Nat) : Step :=
  if h.admits b then
    let value := 64 * h.value + (b - 0x80)
    if h.missing = 1 then .char (Char.ofNat value)
    else .more ⟨h.first, h.count + 1, h.missing - 1, value⟩
  else .refused .badContinuation

def advance : Option Begun → Nat → Step
  | none, b => start b
  | some h, b => h.extend b

def countOf : Option Begun → Nat
  | none => 0
  | some h => h.count

def malformed (position : Nat) (reason : Reason) : Option Begun → (b : Nat) → Malformed
  | none, b => ⟨b, position, 1, reason⟩
  | some h, _ => ⟨h.first, position, h.count, reason⟩

def decode (position : Nat) : Option Begun → List Nat → Except Malformed (List Char × Option Begun)
  | begun, [] => .ok ([], begun)
  | begun, b :: bs =>
      match advance begun b with
      | .char c => do
          let rest ← decode (position + countOf begun + 1) none bs
          return (c :: rest.1, rest.2)
      | .more h => decode position (some h) bs
      | .refused reason => .error (malformed position reason begun b)

end Acceptor.Text.Utf8
