import MailMarkup.Report.Tree
import MailMarkup.Url.Parts
import MailMarkup.Url.Query

namespace MailMarkup.Report

open Text

def invisibleNames : List Text :=
  ["head".toList, "title".toList, "style".toList, "script".toList, "noscript".toList]

def isHiding (style : Text) : Bool :=
  let t := lower (style.filter (· != ' '))
  occursIn "mso-hide:all".toList t || occursIn "display:none".toList t

def isInvisible (e : Element) : Bool :=
  invisibleNames.contains e.name || isHiding (e.attribute "style".toList)

def visibleText (ns : List Node) : Text :=
  join [' '] ((Node.stringsOutsideOf isInvisible ns).flatMap words)

def isTagged (href : Text) : Bool :=
  match Url.parse href with
  | .ok u => (Url.Query.parse u.query).any fun p => "utm_".toList.isPrefixOf (lower p.1)
  | .error _ => false

def notAfter (a b : Text) : Bool := !decide (b < a)

def duplicates (ts : List Text) : List Text :=
  (ts.eraseDups.filter fun t => ts.count t > 1).mergeSort notAfter

def Content.ofNodes (ns : List Node) : Content :=
  let es := Node.elementsOf ns
  let images := es.filter (·.name == "img".toList)
  let alts := images.map fun e => lower (trim (e.attribute "alt".toList))
  let hrefs := ((es.filter (·.name == "a".toList)).map (·.attribute "href".toList)).filter
    (!·.isEmpty)
  { images := alts.length
    missingAlts := alts.countP (·.isEmpty)
    duplicateAlts := duplicates (alts.filter (!·.isEmpty))
    links := hrefs.length
    taggedLinks := hrefs.countP isTagged
    textLength := (visibleText ns).length
    tables := es.countP (·.name == "table".toList) }

def analyze (html : Text) : Except Rejection Content := do
  return .ofNodes (tree (← events html))

end MailMarkup.Report
