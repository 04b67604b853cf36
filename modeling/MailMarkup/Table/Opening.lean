import MailMarkup.Layout
import MailMarkup.Markup.Style
import MailMarkup.Text.WordChar

namespace MailMarkup.Table

open Text Markup

def name : Text := "table".toList

def strippedTag (t : Tag) : Except Fault (Option Text) := do
  let as := Attributes.parse t.attrs
  if t.closing || !as.has "height".toList then return none
  return some (openTag name (← as.revise [] none ["height".toList]))

def heightEdits (html : Text) : Except Fault (List (Option Text)) :=
  (tokens [name] html).mapM (strippedTag ·.toTag)

def stripHeights (html : Text) : Except Fault Text := do
  return editTags [name] html (← heightEdits html)

def baseStyle : Style := [
  ⟨"mso-table-lspace".toList, "0pt".toList⟩,
  ⟨"mso-table-rspace".toList, "0pt".toList⟩,
  ⟨"border-collapse".toList, "collapse".toList⟩]

def containerStyle (l : Layout) : Style :=
  if l.responsive then
    baseStyle.set "max-width".toList (l.width.text ++ "px".toList)
  else baseStyle

def widthProperties : List Text := ["width".toList, "max-width".toList]

def normalStyle (l : Layout) (existing : Text) : Except Fault Style := do
  return (widthProperties.foldl Style.remove (← Style.parse existing)).mergedAhead
    (containerStyle l)

def keptNames : List Text :=
  ["id".toList, "class".toList, "lang".toList, "dir".toList, "bgcolor".toList]

def keptBeginnings : List Text := ["data-".toList, "aria-".toList]

def keeps (key : Text) : Bool :=
  keptNames.contains key ||
    keptBeginnings.any fun w =>
      (dropFolded? w key).any fun r => !r.isEmpty && r.all fun c => isWordChar c || c == '-'

def widthText (l : Layout) : Text := if l.responsive then "100%".toList else l.width.text

def forcedAttributes (l : Layout) : Attributes := [
  ⟨"role".toList, some "presentation".toList⟩,
  ⟨"align".toList, some "center".toList⟩,
  ⟨"width".toList, some (widthText l)⟩,
  ⟨"border".toList, some "0".toList⟩,
  ⟨"cellpadding".toList, some "0".toList⟩,
  ⟨"cellspacing".toList, some "0".toList⟩]

def normalAttributes (l : Layout) (as : Attributes) : Except Fault Attributes := do
  let kept : Attributes := as.filter (keeps ·.key)
  return (kept.setAll (forcedAttributes l)).set "style".toList
    (some (← normalStyle l as.styleText).render)

def normalTag (l : Layout) (attrs : Text) : Except Fault Text := do
  return openTag name (← normalAttributes l (Attributes.parse attrs))

def newTag (l : Layout) : Text :=
  openTag name ((forcedAttributes l) ++ [⟨"style".toList, some (containerStyle l).render⟩])

def normalizedTag (l : Layout) (t : Tag) : Except Fault (Option Text) := do
  if t.closing then return none else return some (← normalTag l t.attrs)

def normalEdits (l : Layout) (html : Text) : Except Fault (List (Option Text)) :=
  (tokens [name] html).mapM (normalizedTag l ·.toTag)

def normalize (l : Layout) (html : Text) : Except Fault Text := do
  return editTags [name] html (← normalEdits l html)

end MailMarkup.Table
