import MailMarkup.Background.Color
import MailMarkup.Document.Head

namespace MailMarkup.Document

open Text Markup

def bodyStyle : Style := [
  ⟨"margin".toList, "0".toList⟩,
  ⟨"padding".toList, "0".toList⟩,
  ⟨"width".toList, "100% !important".toList⟩,
  ⟨"-webkit-text-size-adjust".toList, "100%".toList⟩,
  ⟨"-ms-text-size-adjust".toList, "100%".toList⟩]

def doctype : Text :=
  ("<!DOCTYPE html PUBLIC \"-//W3C//DTD XHTML 1.0 Transitional//EN\" " ++
    "\"http://www.w3.org/TR/xhtml1/DTD/xhtml1-transitional.dtd\">").toList

def htmlOpening : Text :=
  ("<html xmlns=\"http://www.w3.org/1999/xhtml\" xmlns:v=\"urn:schemas-microsoft-com:vml\" " ++
    "xmlns:o=\"urn:schemas-microsoft-com:office:office\">").toList

def headMeta : Text :=
  ("<meta http-equiv=\"Content-Type\" content=\"text/html; charset=UTF-8\">\n" ++
    "<meta name=\"viewport\" content=\"width=device-width, initial-scale=1.0\">\n" ++
    "<meta http-equiv=\"X-UA-Compatible\" content=\"IE=edge\">\n" ++
    "<meta name=\"x-apple-disable-message-reformatting\">").toList

def settingsBlock : Text :=
  ("<!--[if mso]>\n<noscript><xml>\n<o:OfficeDocumentSettings>\n<o:AllowPNG/>\n" ++
    "<o:PixelsPerInch>96</o:PixelsPerInch>\n</o:OfficeDocumentSettings>\n" ++
    "</xml></noscript>\n<![endif]-->").toList

def stylesheet : Text :=
  ("<style type=\"text/css\">\nbody\x7bmargin:0;padding:0;\x7d\n" ++
    "table,td\x7bborder-collapse:collapse;mso-table-lspace:0pt;mso-table-rspace:0pt;\x7d\n" ++
    "img\x7bborder:0;height:auto;line-height:100%;outline:none;text-decoration:none;" ++
    "-ms-interpolation-mode:bicubic;\x7d\n" ++
    "a[x-apple-data-detectors]\x7bcolor:inherit !important;" ++
    "text-decoration:none !important;\x7d\n</style>").toList

def bodyAttributes (attrs : Text) : Except Fault Attributes := do
  let as ← (Attributes.parse attrs).applyStyle (.style bodyStyle) []
  if as.has Background.bgcolor then return as
  match ← Background.resolve? as.styleText with
  | none => return as
  | some color => return as.set Background.bgcolor (some color)

def bodyTag (attrs : Text) : Except Fault Text := do
  return openTag "body".toList (← bodyAttributes attrs)

def isFull (html : Text) : Bool :=
  (findHit doctype? html).isSome && (findOpening? html "html".toList).isSome &&
    (findOpening? html "body".toList).isSome

def withBodyTag (html : Text) : Except Fault Text :=
  match findOpening? html "body".toList with
  | none => .ok html
  | some b => do return html.take b.start ++ (← bodyTag b.attrs) ++ html.drop b.stop

def titleTag (title : Text) : Text := "<title>".toList ++ title ++ "</title>".toList

def newHead (title : Text) : Text :=
  "\n<head>\n".toList ++ headMeta ++ '\n' :: titleTag title ++ "\n</head>".toList

def lacksHead (html : Text) : Bool := (findOpening? html "head".toList).isNone

def completed (html title : Text) : Except Fault Text := do
  let html ← withBodyTag html
  if !lacksHead html then return html
  match findOpening? html "html".toList with
  | none => .error .lostRoot
  | some root => return html.take root.stop ++ newHead title ++ html.drop root.stop

def documentNames : List Text := ["html".toList, "head".toList, "body".toList]

def withoutShell (content : Text) : Text :=
  let content := eraseHits xmlDeclaration? (eraseHits doctype? content)
  editTags documentNames content ((tokens documentNames content).map fun _ => some [])

def cutHead (html : Text) : Option Head × Text :=
  match findOpening? html "head".toList with
  | none => (none, html)
  | some o =>
    match findTag? html "head".toList true o.stop with
    | none => (none, html)
    | some c =>
      (some (.parse ((html.take c.start).drop o.stop)), html.take o.start ++ html.drop c.stop)

structure Body where
  attrs : Text
  content : Text

def cutBody (html : Text) : Body :=
  match findOpening? html "body".toList with
  | none => ⟨[], html⟩
  | some o =>
    let stop := match findLastTag? html "body".toList true with
      | some c => if c.start ≥ o.stop then c.start else html.length
      | none => html.length
    ⟨o.attrs, (html.take stop).drop o.stop⟩

def shell (title extra bodyTag content : Text) : Text :=
  join ['\n'] ([doctype, htmlOpening, "<head>".toList, headMeta, titleTag title, settingsBlock,
    stylesheet] ++ (if extra.isEmpty then [] else [extra]) ++
    ["</head>".toList, bodyTag, content, "</body>".toList, "</html>".toList]) ++ ['\n']

def wrapped (html title : Text) : Except Fault Text := do
  let (head, html) := cutHead html
  let body := cutBody html
  let ownTitle := (head.map (·.title)).getD []
  return shell (if ownTitle.isEmpty then title else ownTitle) ((head.map (·.extra)).getD [])
    (← bodyTag body.attrs) (trim (withoutShell body.content))

def complete (html title : Text) : Except Fault Text :=
  let title := escapeHtml (trim title)
  if isFull html then completed html title else wrapped html title

end MailMarkup.Document
