import MailMarkup.Text.Blank
import MailMarkup.Text.Case

namespace MailMarkup.Image

open Text

def absoluteBeginnings : List Text :=
  ["http://".toList, "https://".toList, "data:".toList, "cid:".toList, "//".toList]

def isRelative (src : Text) : Bool :=
  let t := trim src
  !t.isEmpty && !absoluteBeginnings.any (startsFolded · t)

def isSlash (c : Char) : Bool := c == '/'

def withoutEndSlashes (t : Text) : Text :=
  if t.getLast? = some '\n' then dropEndWhile isSlash t.dropLast ++ ['\n']
  else dropEndWhile isSlash t

def joined (base path : Text) : Text := withoutEndSlashes base ++ '/' :: path.dropWhile isSlash

end MailMarkup.Image
