import MailMarkup.Fault
import MailMarkup.Text.Blank
import MailMarkup.Text.Digit

namespace MailMarkup.Text

def isOuterBlank (c : Char) : Bool := isBlank c && !inRanges [(0x1C, 0x1F)] c

def natural? (t : Text) : Option Nat :=
  let groups := splitOn '_' t
  let ds := groups.flatten
  if groups.all (fun g => !g.isEmpty && g.all isDecimal) && ds.length ≤ digitLimit then
    some (ds.foldl (fun n c => n * 10 + (decimalValue? c).getD 0) 0)
  else none

def integer? (t : Text) : Option Int :=
  match dropEndWhile isOuterBlank (t.dropWhile isOuterBlank) with
  | '-' :: r => (natural? r).map fun n => -(n : Int)
  | '+' :: r => (natural? r).map Int.ofNat
  | u => (natural? u).map Int.ofNat

end MailMarkup.Text
