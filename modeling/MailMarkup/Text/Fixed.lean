import MailMarkup.Text.Basic

namespace MailMarkup.Text

def nearest (num den : Nat) : Nat :=
  let q := num / den
  let r := 2 * (num % den)
  if r < den ∨ (r = den ∧ q % 2 = 0) then q else q + 1

def fixed (places num den : Nat) : Text :=
  let unit := Nat.pow 10 places
  let n := nearest (num * unit) den
  let frac := ofNat (n % unit)
  ofNat (n / unit) ++ '.' :: (List.replicate (places - frac.length) '0' ++ frac)

end MailMarkup.Text
