import MailMarkup.Entity.Name
import MailMarkup.Fault
import MailMarkup.Text.Codepage
import MailMarkup.Text.Scan

namespace MailMarkup.Entity

open Text

inductive Reference where
  | decimal (digits : Text)
  | hex (digits : Text)
  | named (name : Text)
  deriving DecidableEq

def isHexDigit (c : Char) : Bool := c.isDigit || ('a' ≤ c.toLower && c.toLower ≤ 'f')

def isNameChar (c : Char) : Bool := !(['\t', '\n', '\x0C', ' ', '<', '&', '#', ';'].contains c)

def nameLimit : Nat := 32

def semicolon (t : Text) : Nat := if t.head? = some ';' then 1 else 0

def reference? : Recogniser Reference
  | '&' :: '#' :: r =>
    let ds := r.takeWhile Char.isDigit
    if !ds.isEmpty then some (.decimal ds, 1 + ds.length + semicolon (r.drop ds.length))
    else match r with
      | x :: h =>
        let hs := h.takeWhile isHexDigit
        if x.toLower = 'x' ∧ !hs.isEmpty then
          some (.hex hs, 2 + hs.length + semicolon (h.drop hs.length))
        else none
      | [] => none
  | '&' :: r =>
    let run := (r.takeWhile isNameChar).take nameLimit
    let n := run.length + semicolon (r.drop run.length)
    if run.isEmpty then none else some (.named (r.take n), n)
  | _ => none

def digitValue (c : Char) : Nat :=
  if c.isDigit then c.toNat - '0'.toNat else c.toLower.toNat - 'a'.toNat + 10

def numberOf (base : Nat) (ds : Text) : Nat := ds.foldl (fun n c => n * base + digitValue c) 0

def isSurrogate (n : Nat) : Bool := 0xD800 ≤ n && n ≤ 0xDFFF

def isForbidden (n : Nat) : Bool :=
  (1 ≤ n && n ≤ 8) || n == 0x0B || (0x0E ≤ n && n ≤ 0x1F) || n == 0x7F ||
    (0xFDD0 ≤ n && n ≤ 0xFDEF) || n % 0x10000 ≥ 0xFFFE

/-- Numbers from 80 to 9F mean the signs of code page 1252. -/
def textOfNumber (n : Nat) : Text :=
  if n = 0 then ['\uFFFD']
  else if 0x80 ≤ n ∧ n < 0xA0 then [(codepageChar? n).getD (.ofNat n)]
  else if isSurrogate n ∨ n > 0x10FFFF then ['\uFFFD']
  else if isForbidden n then []
  else [.ofNat n]

def valueOf? (name : Text) : Option Text := do
  let c ← name.head?
  let (_, v) ← (namesFrom c).find? (·.1.toList == name)
  return v.toList

def lookUp? (name : Text) : Option Text :=
  if name.getLast? = some ';' then valueOf? name.dropLast
  else if bareNames.any (·.toList == name) then valueOf? name
  else none

def longestKnown? (name : Text) : Nat → Option Text
  | n + 2 =>
    match lookUp? (name.take (n + 2)) with
    | some v => some (v ++ name.drop (n + 2))
    | none => longestKnown? name (n + 1)
  | _ => none

def decodeName (name : Text) : Text :=
  (lookUp? name <|> longestKnown? name (name.length - 1)).getD ('&' :: name)

def Reference.decode : Reference → Except Fault Text
  | .decimal ds =>
    if ds.length > digitLimit then .error (.longNumeral ds.length)
    else .ok (textOfNumber (numberOf 10 ds))
  | .hex ds => .ok (textOfNumber (numberOf 16 ds))
  | .named name => .ok (decodeName name)

def decodePiece : Piece Reference → Except Fault Text
  | .char c => .ok [c]
  | .hit r _ => r.decode

def decode (t : Text) : Except Fault Text := do
  return (← (scan reference? t).mapM decodePiece).flatten

end MailMarkup.Entity
