import TemplateLint.Text.Digit

/-!
# Reading UTF-8

A text is read octet by octet. An octet that cannot start a character, or cannot go on
with the one begun, is a fault (`Utf8Fault`), and so is a text that ends inside a
character. The fault names the octets of the character begun so far.
-/

namespace TemplateLint.Text

inductive Utf8Problem where
  | invalidStart
  | invalidContinuation
  | unexpectedEnd
  deriving DecidableEq, Repr

namespace Utf8Problem

def text : Utf8Problem → String
  | .invalidStart => "invalid start byte"
  | .invalidContinuation => "invalid continuation byte"
  | .unexpectedEnd => "unexpected end of data"

end Utf8Problem

/-- Octets that are no text: where they start, how many they are, and the first of them. -/
structure Utf8Fault where
  problem : Utf8Problem
  start : Nat
  count : Nat
  first : UInt8
  deriving DecidableEq, Repr

namespace Utf8Fault

def message (fault : Utf8Fault) : String :=
  "'utf-8' codec can't decode "
    ++ (if fault.count = 1 then
        "byte 0x" ++ hexDigits 2 fault.first.toNat ++ " in position " ++ toString fault.start
      else
        "bytes in position " ++ toString fault.start ++ "-"
          ++ toString (fault.start + fault.count - 1))
    ++ ": " ++ fault.problem.text

end Utf8Fault

/-- A character that has been begun: where, with how many octets, the first of them, how
many more it needs, its value so far, and the bounds of the next octet. -/
structure Utf8Pending where
  start : Nat
  taken : Nat
  first : UInt8
  owed : Nat
  value : Nat
  low : Nat
  high : Nat
  deriving DecidableEq, Repr

namespace Utf8Pending

def fault (pending : Utf8Pending) (problem : Utf8Problem) : Utf8Fault :=
  ⟨problem, pending.start, pending.taken, pending.first⟩

end Utf8Pending

def utf8Lead? (start : Nat) (octet : UInt8) : Option Utf8Pending :=
  let n := octet.toNat
  if 0xc2 ≤ n && n < 0xe0 then some ⟨start, 1, octet, 1, n - 0xc0, 0x80, 0xbf⟩
  else if 0xe0 ≤ n && n < 0xf0 then
    some ⟨start, 1, octet, 2, n - 0xe0, if n = 0xe0 then 0xa0 else 0x80,
      if n = 0xed then 0x9f else 0xbf⟩
  else if 0xf0 ≤ n && n < 0xf5 then
    some ⟨start, 1, octet, 3, n - 0xf0, if n = 0xf0 then 0x90 else 0x80,
      if n = 0xf4 then 0x8f else 0xbf⟩
  else none

/-- The characters of the octets at a position, after those of a character begun before. -/
def decodeUtf8From (position : Nat) (pending? : Option Utf8Pending) :
    List UInt8 → Except Utf8Fault (List Char)
  | [] =>
    match pending? with
    | none => .ok []
    | some pending => .error (pending.fault .unexpectedEnd)
  | octet :: rest =>
    let n := octet.toNat
    match pending? with
    | none =>
      if n < 0x80 then (decodeUtf8From (position + 1) none rest).map (Char.ofNat n :: ·)
      else
        match utf8Lead? position octet with
        | none => .error ⟨.invalidStart, position, 1, octet⟩
        | some pending => decodeUtf8From (position + 1) (some pending) rest
    | some pending =>
      if n < pending.low || pending.high < n then .error (pending.fault .invalidContinuation)
      else
        let value := pending.value * 64 + (n - 0x80)
        if pending.owed = 1 then
          (decodeUtf8From (position + 1) none rest).map (Char.ofNat value :: ·)
        else
          decodeUtf8From (position + 1)
            (some { pending with
              taken := pending.taken + 1, owed := pending.owed - 1, value
              low := 0x80, high := 0xbf })
            rest

def decodeUtf8 (octets : List UInt8) : Except Utf8Fault (List Char) := decodeUtf8From 0 none octets

def unifyLineEnds : List Char → List Char
  | [] => []
  | '\r' :: '\n' :: rest => '\n' :: unifyLineEnds rest
  | '\r' :: rest => '\n' :: unifyLineEnds rest
  | c :: rest => c :: unifyLineEnds rest

end TemplateLint.Text
