import MailMarkup.Spacing.Protected

namespace MailMarkup.Spacing

open Text

def isSpaceOrTab (c : Char) : Bool := c == ' ' || c == '\t'

def atLineBreak : Text → Bool
  | '\n' :: _ => true
  | '\r' :: '\n' :: _ => true
  | _ => false

def trimLines : Text → Text
  | [] => []
  | c :: r =>
    if isSpaceOrTab c && atLineBreak (r.dropWhile isSpaceOrTab) then trimLines r
    else c :: trimLines r

def narrowRuns : Text → Text
  | [] => []
  | c :: r => if c = ' ' ∧ r.head? = some ' ' then narrowRuns r else c :: narrowRuns r

def tidyPlain (t : Text) : Text := narrowRuns (trimLines t)

def blocks : List (Piece α) → Text × List (Text × Text)
  | [] => ([], [])
  | .char c :: ps => let (t, bs) := blocks ps; (c :: t, bs)
  | .hit _ s :: ps => let (t, bs) := blocks ps; ([], (s, t) :: bs)

def tidy (html : Text) : Text :=
  let (first, rest) := blocks (scan region? html)
  tidyPlain first ++ rest.flatMap fun (region, t) => region ++ tidyPlain t

end MailMarkup.Spacing
