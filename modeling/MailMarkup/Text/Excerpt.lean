import MailMarkup.Text.Blank
import MailMarkup.Text.Splice

namespace MailMarkup.Text

def gather (limit : Int) (sofar : Text) : List Text → Text
  | [] => sofar
  | w :: ws =>
    let next := if sofar.isEmpty then w else sofar ++ ' ' :: w
    if next.length > limit then sofar else gather limit next ws

def excerpt (t : Text) (maxWords maxChars : Int) : Text :=
  let ws := words t
  match gather maxChars [] (upTo ws maxWords), ws with
  | [], w :: _ => upTo w maxChars
  | e, _ => e

end MailMarkup.Text
