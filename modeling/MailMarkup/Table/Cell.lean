import MailMarkup.Markup.Style

namespace MailMarkup.Table

open Text Markup

def cellName : Text := "td".toList

def headerCellName : Text := "th".toList

def nextTag? : Lexemes → Option (Tag × Lexemes)
  | .char c :: ps => if isBlank c then nextTag? ps else none
  | .hit (.tag t) _ :: ps => some (t, ps)
  | _ => none

def opens (name : Text) (t : Tag) : Bool := t.name == name && !t.closing

def closes (name : Text) (t : Tag) : Bool := t.name == name && t.closing

def holdsImage (ps : Lexemes) : Bool :=
  (nextTag? ps).any fun (image, ps) => opens "img".toList image &&
    (nextTag? ps).any fun (close, _) => closes cellName close

def markedCellsFrom (start : Nat) : Lexemes → List (Token × Bool)
  | [] => []
  | .hit (.tag t) s :: ps =>
    let rest := markedCellsFrom (start + s.length) ps
    if t.name = cellName then
      ({ t with start, stop := start + s.length }, !t.closing && holdsImage ps) :: rest
    else rest
  | p :: ps => markedCellsFrom (start + p.source.length) ps

def markedCells (html : Text) : List (Token × Bool) := markedCellsFrom 0 (lexemes html)

def imageCells (html : Text) : List Nat :=
  ((markedCells html).filter (·.2)).map (·.1.start)

def imageCellStyle : Style := [
  ⟨"padding".toList, "0".toList⟩,
  ⟨"font-size".toList, "0".toList⟩,
  ⟨"line-height".toList, "0".toList⟩]

def collapsedTag (cell : Token × Bool) : Except Fault (Option Text) := do
  if !cell.2 then return none
  let as ← (Attributes.parse cell.1.attrs).revise [] (some (.style imageCellStyle)) []
  return some (openTag cellName as)

def collapseImageCells (html : Text) : Except Fault Text := do
  return editTags [cellName] html (← (markedCells html).mapM collapsedTag)

def colspan : Text := "colspan".toList

def isIdleSpan (value : Text) : Bool := trim value == [] || trim value == ['1']

def unspannedTag (t : Tag) : Option Text :=
  let as := Attributes.parse t.attrs
  if !t.closing && (as.get? colspan).any isIdleSpan then
    let as := as.remove colspan
    some (if t.selfClosing then closedTag t.name as else openTag t.name as)
  else none

def spanEdits (html : Text) : List (Option Text) :=
  (tokens [cellName, headerCellName] html).map (unspannedTag ·.toTag)

def removeIdleSpans (html : Text) : Text :=
  editTags [cellName, headerCellName] html (spanEdits html)

end MailMarkup.Table
