import MailMarkup.Entity.Reference
import MailMarkup.Markup.Attribute

namespace MailMarkup.Markup

open Text

structure Nesting where
  quote : Option Char
  depth : Nat
  deriving DecidableEq

def Nesting.next (s : Nesting) (c : Char) : Nesting :=
  match s.quote with
  | some q => if c = q then { s with quote := none } else s
  | none =>
    if isQuote c then { s with quote := some c }
    else if c = '(' then { s with depth := s.depth + 1 }
    else if c = ')' then { s with depth := s.depth - 1 }
    else s

def Nesting.top : Nesting := ⟨none, 0⟩

def chunksFrom (s : Nesting) : Text → List Text
  | [] => [[]]
  | c :: r =>
    if c = ';' ∧ s = .top then [] :: chunksFrom s r
    else match chunksFrom (s.next c) r with
      | [] => [[c]]
      | w :: ws => (c :: w) :: ws

def declarationChunks (t : Text) : List Text := chunksFrom .top t

structure Declaration where
  property : Text
  value : Text
  deriving DecidableEq

def Declaration.key (d : Declaration) : Text := lower d.property

def Declaration.ofTexts (property value : Text) : Declaration := ⟨trim property, trim value⟩

def Declaration.ofChunk? (t : Text) : Option Declaration :=
  match breakAt ':' t with
  | (p, some v) =>
    let d := Declaration.ofTexts p v
    if d.property.isEmpty || d.value.isEmpty then none else some d
  | (_, none) => none

abbrev Style := List Declaration

namespace Style

/-- References are decoded before the text is divided. -/
def parse (t : Text) : Except Fault Style :=
  if allBlank t then .ok []
  else do return (declarationChunks (← Entity.decode t)).filterMap Declaration.ofChunk?

def declares (s : Style) (property : Text) : Bool := s.any (·.key == lower (trim property))

def get? (s : Style) (property : Text) : Option Text :=
  (s.findRev? (·.key == lower (trim property))).map (·.value)

def remove (s : Style) (property : Text) : Style := s.filter (·.key != lower (trim property))

def replace (property value : Text) : Style → Style
  | [] => []
  | d :: s =>
    if d.key = lower (trim property) then { d with value := trim value } :: remove s property
    else d :: replace property value s

/-- Declares a property once, in the place of its first declaration. -/
def set (s : Style) (property value : Text) : Style :=
  if s.declares property then replace property value s else s ++ [.ofTexts property value]

def mergedAhead (s block : Style) : Style := block ++ s.filter (!block.declares ·.property)

def renderOne (d : Declaration) : Text := d.property ++ ':' :: d.value ++ [';']

def render (s : Style) : Text := s.flatMap renderOne

end Style

inductive StyleBlock where
  | text (t : Text)
  | style (s : Style)

def StyleBlock.toStyle : StyleBlock → Except Fault Style
  | text t => Style.parse t
  | style s => .ok s

def mergeStyle (existing : Text) (block : StyleBlock) : Except Fault Text := do
  let s ← Style.parse existing
  return (s.mergedAhead (← block.toStyle)).render

namespace Attributes

def styleText (as : Attributes) : Text := (as.get? "style".toList).getD []

def applyStyle (as : Attributes) (block : StyleBlock) (dropped : List Text) :
    Except Fault Attributes := do
  let s ← Style.parse as.styleText
  let merged := (dropped.foldl Style.remove s).mergedAhead (← block.toStyle)
  return if merged.isEmpty then as.remove "style".toList
    else as.set "style".toList (some merged.render)

def dropEmptyStyle (as : Attributes) : Except Fault Attributes := do
  return if (← Style.parse as.styleText).isEmpty then as.remove "style".toList else as

def revise (as : Attributes) (forced : Attributes) (block : Option StyleBlock)
    (dropped : List Text) : Except Fault Attributes :=
  let as := (dropped.foldl remove as).setAll forced
  match block with
  | some b => as.applyStyle b []
  | none => as.dropEmptyStyle

end Attributes

end MailMarkup.Markup
