import MailMarkup.Text.Basic

namespace MailMarkup

inductive Size where
  | px600
  | px650
  deriving DecidableEq, Repr

def Size.pixels : Size → Nat
  | px600 => 600
  | px650 => 650

structure Width where
  size : Size
  pointed : Bool
  deriving DecidableEq, Repr

def Width.text (w : Width) : Text :=
  Text.ofNat w.size.pixels ++ if w.pointed then ".0".toList else []

structure Layout where
  responsive : Bool
  width : Width
  deriving DecidableEq, Repr

end MailMarkup
