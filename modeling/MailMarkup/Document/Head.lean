import MailMarkup.Markup.Attribute
import MailMarkup.Text.WordChar

namespace MailMarkup.Document

open Text Markup

def doctype? : Recogniser Unit := fun t => do
  let r ← dropFolded? "<!doctype".toList t
  let inner := r.takeWhile (· != '>')
  if inner.length < r.length then return ((), t.length - r.length + inner.length) else none

def xmlDeclaration? : Recogniser Unit := fun t => do
  let r ← dropFolded? "<?xml".toList t
  let inner := r.takeWhile (· != '>')
  if inner.length < r.length && inner.getLast? == some '?' then
    return ((), t.length - r.length + inner.length)
  else none

def untilTitleEnd? : Text → Option (Text × Text)
  | [] => none
  | c :: r =>
    match closing? (c :: r) with
    | some rest => some ([], rest)
    | none => (untilTitleEnd? r).map fun (t, rest) => (c :: t, rest)
where
  closing? (t : Text) : Option Text := do
    match (← dropFolded? "</title".toList t).dropWhile isBlank with
    | '>' :: rest => return rest
    | _ => none

def title? : Recogniser Text := fun t => do
  let r ← dropFolded? "<title".toList t
  if r.head?.any isWordChar then none
  match r.dropWhile (· != '>') with
  | [] => none
  | _ :: r => do
    let (title, rest) ← untilTitleEnd? r
    return (title, t.length - rest.length - 1)

def shellNames : List Text := ["viewport".toList, "x-apple-disable-message-reformatting".toList]

def shellHeaders : List Text := ["content-type".toList, "x-ua-compatible".toList]

def loweredValue (as : Attributes) (name : Text) : Text := lower (trim ((as.get? name).getD []))

def isShellMeta (t : Tag) : Bool :=
  let as := Attributes.parse t.attrs
  as.has "charset".toList || shellNames.contains (loweredValue as "name".toList) ||
    shellHeaders.contains (loweredValue as "http-equiv".toList)

def dropShellMeta (html : Text) : Text :=
  editTags ["meta".toList] html
    ((tokens ["meta".toList] html).map fun k => if isShellMeta k.toTag then some [] else none)

def officeSettings : Text := "OfficeDocumentSettings".toList

def dropOfficeSettings (html : Text) : Text :=
  (scan comment? html).flatMap fun
    | .hit _ s => if occursIn officeSettings s then [] else s
    | p => p.source

structure Head where
  title : Text
  extra : Text
  deriving DecidableEq, Repr

def Head.parse (inner : Text) : Head :=
  let (title, rest) := match findHit title? inner with
    | some (before, title, behind) => (trim title, before ++ behind)
    | none => ([], inner)
  ⟨title, join ['\n'] (filledLines (dropOfficeSettings (dropShellMeta rest)))⟩

end MailMarkup.Document
