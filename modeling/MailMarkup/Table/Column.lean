import MailMarkup.Table.Opening
import MailMarkup.Table.Row
import MailMarkup.Text.Splice

namespace MailMarkup.Table

open Text

def isMultiColumn (rs : List Row) (r : Row) : Bool :=
  r.stop.isSome && r.cells ≥ 2 && rowCount rs r.table ≥ 2

def isWrapped (rs : List Row) (r : Row) : Bool := isMultiColumn rs r && !r.spans

def wrapperOpening (l : Layout) : Text :=
  "<tr><td style=\"padding:0;\">".toList ++ newTag l

def wrapperClosing : Text := "</table></td></tr>".toList

/-- Where one row ends and the next begins, the end is written first. -/
def wrapper (l : Layout) (r : Row) : List Insertion :=
  [⟨r.start, 1, wrapperOpening l⟩, ⟨r.stop.getD r.start, 0, wrapperClosing⟩]

def wrappedRows (html : Text) : List Row := (rows html).filter (isWrapped (rows html))

def spanningRows (html : Text) : List Row :=
  (rows html).filter fun r => isMultiColumn (rows html) r && r.spans

def wrapColumns (l : Layout) (html : Text) : Text :=
  splice html ((wrappedRows html).flatMap (wrapper l))

end MailMarkup.Table
