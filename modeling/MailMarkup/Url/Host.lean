import MailMarkup.Entity.Reference
import MailMarkup.Text.Quoted

namespace MailMarkup.Url

open Text

inductive Fault where
  | brackets
  | futureAddress
  | plainAddressInBrackets
  | noAddress (host : Text)
  | separator (netloc : Text)
  | portNotNumber (port : Text)
  | portOutOfRange
  | longNumeral (digits : Nat)
  deriving DecidableEq, Repr

def Fault.message : Fault → Text
  | .brackets => "Invalid IPv6 URL".toList
  | .futureAddress => "IPvFuture address is invalid".toList
  | .plainAddressInBrackets => "An IPv4 address cannot be in brackets".toList
  | .noAddress host => quoted host ++ " does not appear to be an IPv4 or IPv6 address".toList
  | .separator netloc =>
    "netloc '".toList ++ netloc ++ "' contains invalid characters under NFKC normalization".toList
  | .portNotNumber port =>
    "Port could not be cast to integer value as ".toList ++ quoted port
  | .portOutOfRange => "Port out of range 0-65535".toList
  | .longNumeral digits => (MailMarkup.Fault.longNumeral digits).message

def isOctet (t : Text) : Bool :=
  !t.isEmpty && t.all Char.isDigit && t.length ≤ 3 && (t == ['0'] || t.head? != some '0') &&
    Entity.numberOf 10 t ≤ 255

def isDottedAddress (t : Text) : Bool :=
  let parts := splitOn '.' t
  parts.length == 4 && parts.all isOctet

def isGroup (t : Text) : Bool := !t.isEmpty && t.all Entity.isHexDigit && t.length ≤ 4

def groups? (t : Text) : Option (List Text) :=
  let parts := splitOn ':' t
  let tail := parts.getLast?.getD []
  if parts.length < 3 then none
  else if tail.contains '.' then
    if isDottedAddress tail then some (parts.dropLast ++ [['0'], ['0']]) else none
  else some parts

def groupCount : Nat := 8

def isSide (outerFirst : Bool) (side : List Text) : Bool :=
  let outer := if outerFirst then side.head? else side.getLast?
  if outer == some [] then side.length == 1 else side.all isGroup

def sideCount (side : List Text) : Nat := (side.filter (!·.isEmpty)).length

def areGroups (parts : List Text) : Bool :=
  let inner := parts.tail.dropLast
  if parts.length > groupCount + 1 then false
  else match inner.findIdx? (·.isEmpty) with
    | none => parts.length == groupCount && parts.all isGroup
    | some i =>
      let high := parts.take (i + 1)
      let low := parts.drop (i + 2)
      inner.countP (·.isEmpty) == 1 && isSide true high && isSide false low &&
        sideCount high + sideCount low < groupCount

/-- A zone behind `%` is not empty and holds no further percent sign. -/
def isColonAddress (t : Text) : Bool :=
  let (address, zone) := breakAt '%' t
  zone.all (fun z => !z.isEmpty && !z.contains '%') && !t.contains '/' &&
    (groups? address).any areGroups

def isFutureAddress (t : Text) : Bool :=
  let digits := t.takeWhile Entity.isHexDigit
  match t.drop digits.length with
  | '.' :: r => !digits.isEmpty && !r.isEmpty && !r.contains '\n'
  | _ => false

def checkBracketed (host : Text) : Except Fault Unit :=
  match host with
  | 'v' :: r => if isFutureAddress r then .ok () else .error .futureAddress
  | _ =>
    if isDottedAddress host then .error .plainAddressInBrackets
    else if isColonAddress host then .ok ()
    else .error (.noAddress host)

def hostPart (netloc : Text) : Text := afterLast '@' netloc

def checkBrackets (netloc : Text) : Except Fault Unit :=
  match netloc.contains '[', netloc.contains ']' with
  | false, false => .ok ()
  | true, true =>
    match breakAt '[' (hostPart netloc) with
    | (before, some r) =>
      let (host, port) := breakAt ']' r
      if !before.isEmpty || port.any (fun p => !p.isEmpty && p.head? != some ':') then
        .error .brackets
      else checkBracketed host
    | (plain, none) => checkBracketed (breakAt ':' plain).1
  | _, _ => .error .brackets

/-- Characters whose compatibility form holds one of `/ ? # @ :`. -/
def separatorLookalikes : List Char := [
  '\u2047', '\u2048', '\u2049', '\u2100', '\u2101', '\u2105', '\u2106', '\u2A74', '\uFE13',
  '\uFE16', '\uFE55', '\uFE56', '\uFE5F', '\uFE6B', '\uFF03', '\uFF0F', '\uFF1A', '\uFF1F',
  '\uFF20']

def checkSeparators (netloc : Text) : Except Fault Unit :=
  if netloc.any separatorLookalikes.contains then .error (.separator netloc) else .ok ()

def port? (netloc : Text) : Option Text :=
  let host := hostPart netloc
  match breakAt '[' host with
  | (_, some r) => (breakAt ']' r).2.bind fun p => (breakAt ':' p).2
  | (_, none) => (breakAt ':' host).2

def checkPort (netloc : Text) : Except Fault Unit :=
  let port := (port? netloc).getD []
  if port.isEmpty then .ok ()
  else if !port.all Char.isDigit then .error (.portNotNumber port)
  else if port.length > digitLimit then .error (.longNumeral port.length)
  else if Entity.numberOf 10 port > 65535 then .error .portOutOfRange
  else .ok ()

end MailMarkup.Url
