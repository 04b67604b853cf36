import MailMarkup.Config
import MailMarkup.Text.Numeral
import MailMarkup.Text.Quoted

namespace MailMarkup

open Text

inductive Value where
  | null
  | bool (b : Bool)
  | int (n : Int)
  | decimal (mantissa : Int) (places : Nat)
  | text (t : Text)
  | list (vs : List Value)
  | object (fields : List (Text × Value))
  deriving Inhabited

namespace Value

def isTruthy : Value → Bool
  | null => false
  | bool b => b
  | int n => n != 0
  | decimal m _ => m != 0
  | text t => !t.isEmpty
  | list vs => !vs.isEmpty
  | object fs => !fs.isEmpty

def trimmedPlaces : Nat → Nat → Nat × Nat
  | m, 0 => (m, 0)
  | m, p + 1 => if m % 10 = 0 then trimmedPlaces (m / 10) p else (m, p + 1)

def pointed (m places : Nat) : Text :=
  let (m, places) := trimmedPlaces m places
  let ds := ofNat m
  let ds := List.replicate (places + 1 - ds.length) '0' ++ ds
  let split := ds.length - places
  ds.take split ++ '.' :: (if places = 0 then ['0'] else ds.drop split)

def scientific (m places : Nat) : Text :=
  let (m, places) := trimmedPlaces m places
  let ds := ofNat m
  let power := ofNat (places + 1 - ds.length)
  let point := if ds.length = 1 then [] else ['.']
  ds.take 1 ++ point ++ ds.drop 1 ++ "e-".toList ++
    List.replicate (2 - power.length) '0' ++ power

def decimalText (m : Int) (places : Nat) : Text :=
  let n := m.natAbs
  let text :=
    if n != 0 && n * 10000 < Nat.pow 10 places then scientific n places else pointed n places
  if m < 0 then '-' :: text else text

mutual

def shown : Value → Text
  | null => "None".toList
  | bool b => if b then "True".toList else "False".toList
  | int n => ofInt n
  | decimal m p => decimalText m p
  | text t => quoted t
  | list vs => '[' :: join ", ".toList (showAll vs) ++ [']']
  | object fs => '\x7b' :: join ", ".toList (showFields fs) ++ ['\x7d']

def showAll : List Value → List Text
  | [] => []
  | v :: vs => shown v :: showAll vs

def showFields : List (Text × Value) → List Text
  | [] => []
  | (k, v) :: fs => (quoted k ++ ": ".toList ++ shown v) :: showFields fs

end

def kind : Value → Text
  | null => "NoneType".toList
  | bool _ => "bool".toList
  | int _ => "int".toList
  | decimal .. => "float".toList
  | text _ => "str".toList
  | list _ => "list".toList
  | object _ => "dict".toList

def toInt? : Value → Option Int
  | bool b => some (if b then 1 else 0)
  | int n => some n
  | decimal m p => some (m.tdiv (Nat.pow 10 p))
  | text t => integer? t
  | _ => none

def isNumber (n : Nat) : Value → Bool
  | int m => m == n
  | decimal m p => m == n * Nat.pow 10 p
  | _ => false

def isPointed : Value → Bool
  | decimal .. => true
  | _ => false

def width? (v : Value) : Option Width :=
  if v.isNumber 600 then some ⟨.px600, v.isPointed⟩
  else if v.isNumber 650 then some ⟨.px650, v.isPointed⟩
  else none

end Value

structure Settings where
  imageBase : Value
  preheader : Value
  balance : Value
  medium : Value
  campaign : Value
  responsive : Value
  width : Value
  wrapColumns : Value

inductive SettingsError where
  | unsupportedWidth (v : Value)
  | widthNotNumber (v : Value)
  | notText

namespace SettingsError

def message : SettingsError → Text
  | unsupportedWidth v =>
    "Unsupported width ".toList ++ v.shown ++ "; expected one of (600, 650)".toList
  | widthNotNumber v => "Width must be a number, got ".toList ++ v.shown
  | notText => []

end SettingsError

namespace Settings

def ofFields (get? : Text → Option Value) : Settings :=
  let text (name : String) := (get? name.toList).getD (.text [])
  let flag (name : String) := (get? name.toList).getD (.bool false)
  { imageBase := text "image_base_url"
    preheader := text "preheader_text"
    balance := text "balance_text"
    medium := text "utm_medium"
    campaign := text "utm_campaign"
    responsive := flag "responsive"
    width := (get? "target_width".toList).getD (.int 650)
    wrapColumns := flag "wrap_columns" }

def textOf (v : Value) : Except SettingsError Text :=
  match v with
  | .text t => .ok (trim t)
  | v => if v.isTruthy then .error .notText else .ok []

def toConfig (s : Settings) : Except SettingsError Config := do
  match s.width.width? with
  | none => throw (.unsupportedWidth s.width)
  | some width => return {
      imageBase := ← textOf s.imageBase
      preheader := ← textOf s.preheader
      balance := ← textOf s.balance
      campaign := ⟨← textOf s.medium, ← textOf s.campaign⟩
      layout := ⟨s.responsive.isTruthy, width⟩
      wrapColumns := s.wrapColumns.isTruthy }

def withNumericWidth (s : Settings) : Except SettingsError Settings :=
  match s.width.toInt? with
  | some n => .ok { s with width := .int n }
  | none => .error (.widthNotNumber s.width)

end Settings

end MailMarkup
