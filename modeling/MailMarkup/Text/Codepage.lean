import MailMarkup.Text.Utf8

namespace MailMarkup.Text

def codepageSigns : List (Option Char) := [
  '€', none, '‚', 'ƒ', '„', '…', '†', '‡', 'ˆ', '‰', 'Š', '‹', 'Œ', none, 'Ž', none,
  none, '‘', '’', '“', '”', '•', '–', '—', '˜', '™', 'š', '›', 'œ', none, 'ž', 'Ÿ']

def codepageChar? (n : Nat) : Option Char :=
  if 0x80 ≤ n ∧ n < 0xA0 then (codepageSigns[n - 0x80]?).join
  else if n < 0x100 then some (.ofNat n)
  else none

def decodeCodepage? (bs : Bytes) : Option Text := bs.mapM fun b => codepageChar? b.toNat

end MailMarkup.Text
