import MailMarkup.Markup.Style
import MailMarkup.Url.Parts
import MailMarkup.Url.Query

namespace MailMarkup.Link

open Text Markup

structure Campaign where
  medium : Text
  campaign : Text
  deriving DecidableEq, Repr

namespace Campaign

def trimmed (c : Campaign) : Campaign := ⟨trim c.medium, trim c.campaign⟩

def isEmpty (c : Campaign) : Bool := c.medium.isEmpty && c.campaign.isEmpty

def setUnlessEmpty (q : Url.Query) (name value : Text) : Url.Query :=
  if value.isEmpty then q else q.set name value

def mark (c : Campaign) (q : Url.Query) : Url.Query :=
  setUnlessEmpty (setUnlessEmpty q "utm_medium".toList c.medium) "utm_campaign".toList c.campaign

end Campaign

def addParameters (c : Campaign) (href : Text) : Except Url.Fault Text := do
  let u ← Url.parse href
  Url.checkPort u.netloc
  let path := if !u.netloc.isEmpty && u.path.isEmpty then ['/'] else u.path
  return { u with path, query := (c.mark (.parse u.query)).render : Url }.render

def skippedBeginnings : List Text :=
  ["mailto:".toList, "tel:".toList, "#".toList, "javascript:".toList]

def followsOnLine (w : Text) : Text → Bool
  | [] => false
  | c :: r => w.isPrefixOf (c :: r) || (c != '\n' && followsOnLine w r)

def hasMergeTag : Text → Bool
  | [] => false
  | c :: r =>
    (match c, r with
      | '*', '|' :: s => followsOnLine "|*".toList s
      | '\x7b', '\x7b' :: s => followsOnLine "\x7d\x7d".toList s
      | _, _ => false) || hasMergeTag r

def isTaggable (href : Text) : Bool :=
  let t := trim href
  !t.isEmpty && !skippedBeginnings.any (startsFolded · t) && !hasMergeTag t

inductive Problem where
  | reference (f : MailMarkup.Fault)
  | address (f : Url.Fault)
  deriving DecidableEq, Repr

def Problem.message : Problem → Text
  | reference f => f.message
  | address f => f.message

def newAddress (c : Campaign) (href : Text) : Except Problem Text := do
  let decoded ← (Entity.decode (trim href)).mapError .reference
  (addParameters c decoded).mapError .address

def taggableHref? (t : Tag) : Option Text :=
  if t.closing then none
  else ((Attributes.parse t.attrs).get? "href".toList).filter isTaggable

/-- An address that cannot be read leaves its tag as it was. -/
def taggedTag (c : Campaign) (t : Tag) : Option Text := do
  let href ← taggableHref? t
  match newAddress c href with
  | .ok new =>
    return openTag "a".toList ((Attributes.parse t.attrs).set "href".toList (some new))
  | .error _ => none

def edits (c : Campaign) (html : Text) : List (Option Text) :=
  (tokens ["a".toList] html).map (taggedTag c ·.toTag)

def tagAll (c : Campaign) (html : Text) : Text :=
  if c.trimmed.isEmpty then html else editTags ["a".toList] html (edits c.trimmed html)

def failures (c : Campaign) (html : Text) : List (Text × Problem) :=
  (tokens ["a".toList] html).filterMap fun k => do
    let href ← taggableHref? k.toTag
    match newAddress c href with
    | .ok _ => none
    | .error p => return (href, p)

end MailMarkup.Link
