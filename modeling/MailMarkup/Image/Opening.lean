import MailMarkup.Config
import MailMarkup.Image.AltText
import MailMarkup.Text.Excerpt

namespace MailMarkup.Image

open Text Markup

def name : Text := "img".toList

def baseStyle : Style := [
  ⟨"display".toList, "block".toList⟩,
  ⟨"line-height".toList, "0".toList⟩,
  ⟨"font-size".toList, "0".toList⟩,
  ⟨"height".toList, "auto".toList⟩,
  ⟨"max-width".toList, "100%".toList⟩,
  ⟨"border".toList, "0".toList⟩,
  ⟨"outline".toList, "none".toList⟩,
  ⟨"text-decoration".toList, "none".toList⟩,
  ⟨"-ms-interpolation-mode".toList, "bicubic".toList⟩]

structure Proposal where
  alt : Text
  written : Bool

def madeUp (c : Config) (src : Text) (index : Nat) : Text :=
  let fromName := altFromFileName src
  let words := excerpt (if c.balance.isEmpty then c.preheader else c.balance) 6 40
  if !fromName.isEmpty then fromName
  else if !words.isEmpty then words ++ ' ' :: ofNat (index + 1)
  else "Email content image ".toList ++ ofNat (index + 1)

def propose (c : Config) (existing : Option Text) (src : Text) (index : Nat) :
    Except Fault Proposal := do
  let written := trim (← Entity.decode (existing.getD []))
  return if written.isEmpty then ⟨madeUp c src index, false⟩ else ⟨written, true⟩

def source (as : Attributes) : Text := trim ((as.get? "src".toList).getD [])

def isRebased (c : Config) (src : Text) : Bool := !c.imageBase.isEmpty && isRelative src

def newSource (c : Config) (src : Text) : Text :=
  if isRebased c src then joined c.imageBase src else src

def rebuiltKeys : List Text := ["src".toList, "alt".toList, "style".toList]

def rebuilt (c : Config) (as : Attributes) (alt : Text) : Except Fault Attributes := do
  let style ← mergeStyle as.styleText (.style baseStyle)
  let src : Attributes :=
    if as.has "src".toList then [⟨"src".toList, some (newSource c (source as))⟩] else []
  return src ++ [⟨"alt".toList, some (escapeHtml alt)⟩, ⟨"style".toList, some style⟩] ++
    as.filter (!rebuiltKeys.contains ·.key)

def writtenTag (t : Tag) (as : Attributes) : Text :=
  if t.selfClosing then closedTag name as else openTag name as

def editsFrom (c : Config) (index : Nat) (used : Registry) :
    List Tag → Except Fault (List (Option Text))
  | [] => .ok []
  | t :: ts => do
    if t.closing then return none :: (← editsFrom c index used ts)
    let as := Attributes.parse t.attrs
    let p ← propose c (as.get? "alt".toList) (source as) index
    let (alt, used) := used.claim p.alt p.written index
    let new ← rebuilt c as alt
    return some (writtenTag t new) :: (← editsFrom c (index + 1) used ts)

def edits (c : Config) (html : Text) : Except Fault (List (Option Text)) :=
  editsFrom c 0 .empty ((tokens [name] html).map (·.toTag))

def enhance (c : Config) (html : Text) : Except Fault Text := do
  return editTags [name] html (← edits c html)

def openings (html : Text) : List Tag := ((tokens [name] html).map (·.toTag)).filter (!·.closing)

def rebasedCount (c : Config) (html : Text) : Nat :=
  (openings html).countP fun t => isRebased c (source (.parse t.attrs))

def relativeCount (html : Text) : Nat :=
  (openings html).countP fun t =>
    isRelative (((Attributes.parse t.attrs).get? "src".toList).getD [])

end MailMarkup.Image
