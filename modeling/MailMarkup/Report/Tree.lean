import MailMarkup.Report.Event

namespace MailMarkup.Report

open Text

inductive Node where
  | element (name : Text) (attrs : List (Text × Text)) (children : List Node)
  | string (t : Text)

def voidNames : List Text := [
  "area".toList, "base".toList, "br".toList, "col".toList, "embed".toList, "hr".toList,
  "img".toList, "input".toList, "keygen".toList, "link".toList, "menuitem".toList,
  "meta".toList, "param".toList, "source".toList, "track".toList, "wbr".toList,
  "basefont".toList, "bgsound".toList, "command".toList, "frame".toList, "image".toList,
  "isindex".toList, "nextid".toList, "spacer".toList]

def asideNames : List Text :=
  ["rt".toList, "rp".toList, "style".toList, "script".toList, "template".toList]

structure Open where
  name : Text
  attrs : List (Text × Text)
  inside : List Node

structure Builder where
  stack : List Open
  outside : List Node
  pending : Text
  voids : List Text

namespace Builder

def empty : Builder := ⟨[], [], [], []⟩

def add (b : Builder) (n : Node) : Builder :=
  match b.stack with
  | [] => { b with outside := n :: b.outside }
  | o :: os => { b with stack := { o with inside := n :: o.inside } :: os }

def flush (b : Builder) : Builder :=
  let dropped := b.pending.isEmpty || b.stack.any (asideNames.contains ·.name)
  let b' := { b with pending := [] }
  if dropped then b' else b'.add (.string b.pending)

def push (b : Builder) (name : Text) (attrs : List (Text × Text)) : Builder :=
  { b with stack := ⟨name, attrs, []⟩ :: b.stack }

def pop (b : Builder) : Builder :=
  match b.stack with
  | [] => b
  | o :: os => { b with stack := os }.add (.element o.name o.attrs o.inside.reverse)

def popTimes : Nat → Builder → Builder
  | 0, b => b
  | n + 1, b => popTimes n b.pop

def close (b : Builder) (name : Text) : Builder :=
  match b.stack.findIdx? (·.name == name) with
  | none => b
  | some i => popTimes (i + 1) b

/-- The end tag of a void element that was written without a slash is passed over once. -/
def closeTag (b : Builder) (name : Text) : Builder :=
  if b.voids.contains name then { b with voids := b.voids.erase name } else b.close name

def step (b : Builder) : Event → Builder
  | .data t => { b with pending := b.pending ++ t }
  | .cdata t => b.flush.add (.string t)
  | .aside => b.flush
  | .closing name =>
    let b := if b.voids.contains name then b else b.flush
    b.closeTag name
  | .opening name attrs closed =>
    let b := b.flush.push name attrs
    if closed then b.close name
    else if voidNames.contains name then { b.close name with voids := name :: b.voids }
    else b

end Builder

def tree (events : List Event) : List Node :=
  let b := (events.foldl Builder.step .empty).flush
  (Builder.popTimes b.stack.length b).outside.reverse

structure Element where
  name : Text
  attrs : List (Text × Text)

def Element.attribute (e : Element) (name : Text) : Text :=
  ((e.attrs.findRev? (·.1 == name)).map (·.2)).getD []

namespace Node

mutual

def elements : Node → List Element
  | element name attrs children => ⟨name, attrs⟩ :: elementsOf children
  | string _ => []

def elementsOf : List Node → List Element
  | [] => []
  | n :: ns => elements n ++ elementsOf ns

end

mutual

def stringsOutside (skipped : Element → Bool) : Node → List Text
  | element name attrs children =>
    if skipped ⟨name, attrs⟩ then [] else stringsOutsideOf skipped children
  | string t => [t]

def stringsOutsideOf (skipped : Element → Bool) : List Node → List Text
  | [] => []
  | n :: ns => stringsOutside skipped n ++ stringsOutsideOf skipped ns

end

end Node

end MailMarkup.Report
