import MailMarkup.Text.Basic

namespace MailMarkup

inductive Fault where
  | longNumeral (digits : Nat)
  | lostRoot
  deriving DecidableEq, Repr

def digitLimit : Nat := 4300

def Fault.message : Fault → Text
  | .longNumeral digits =>
    "Exceeds the limit (".toList ++ Text.ofNat digitLimit ++
      " digits) for integer string conversion: value has ".toList ++ Text.ofNat digits ++
      " digits; use sys.set_int_max_str_digits() to increase the limit".toList
  | .lostRoot => "'NoneType' object has no attribute 'end'".toList

end MailMarkup
