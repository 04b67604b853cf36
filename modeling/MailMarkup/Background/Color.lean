import MailMarkup.Markup.Style
import MailMarkup.Text.Digit
import MailMarkup.Text.WordChar

namespace MailMarkup.Background

open Text Markup

def imageFunctions : List Text := [
  "url(".toList, "linear-gradient(".toList, "radial-gradient(".toList,
  "conic-gradient(".toList, "repeating-linear-gradient(".toList,
  "repeating-radial-gradient(".toList, "repeating-conic-gradient(".toList]

def behindImageFunction? (t : Text) : Option Text :=
  imageFunctions.findSome? (dropFolded? · t)

def argumentLength (depth : Nat) : Text → Nat
  | [] => 0
  | c :: r =>
    if c = '(' then argumentLength (depth + 1) r + 1
    else if c = ')' then
      match depth with
      | d + 2 => argumentLength (d + 1) r + 1
      | _ => 1
    else argumentLength depth r + 1

def imageCall? (afterWord : Bool) (t : Text) : Option Nat :=
  if afterWord then none
  else (behindImageFunction? t).map fun r => t.length - r.length + argumentLength 1 r

def stripFrom (afterWord : Bool) : Nat → Text → Text
  | _, [] => []
  | n + 1, _ :: r => stripFrom false n r
  | 0, c :: r =>
    match imageCall? afterWord (c :: r) with
    | some n => ' ' :: stripFrom false (n - 1) r
    | none => c :: stripFrom (isWordChar c) 0 r

def stripImageCalls (t : Text) : Text := stripFrom false 0 t

def channel? (t : Text) : Option (Nat × Text) :=
  match t.takeWhile isDecimal with
  | [] => none
  | ds => if ds.length > 3 then none
    else some (ds.foldl (fun n c => n * 10 + (decimalValue? c).getD 0) 0, t.drop ds.length)

def dropBlanks (t : Text) : Text := t.dropWhile isBlank

def dropMark? (mark : Char) : Text → Option Text
  | c :: r => if c = mark then some r else none
  | [] => none

def spacedChannel? (t : Text) : Option (Nat × Text) := do
  let (n, r) ← channel? (dropBlanks t)
  return (n, dropBlanks r)

def isAlphaChar (c : Char) : Bool := isDecimal c || c == '.'

def dropOpacity? (t : Text) : Option Text := do
  let r := dropBlanks (← dropMark? ',' t)
  let rest := r.dropWhile isAlphaChar
  if r.head?.any isAlphaChar then return dropBlanks ((dropMark? '%' rest).getD rest) else none

structure Rgb where
  red : Nat
  green : Nat
  blue : Nat
  deriving DecidableEq, Repr

def rgb? (t : Text) : Option Rgb := do
  let r ← dropFolded? "rgb".toList t
  let r ← dropMark? '(' ((dropFolded? ['a'] r).getD r)
  let (red, r) ← spacedChannel? r
  let (green, r) ← spacedChannel? (← dropMark? ',' r)
  let (blue, r) ← spacedChannel? (← dropMark? ',' r)
  let _ ← dropMark? ')' ((dropOpacity? r).getD r)
  return ⟨red, green, blue⟩

def twoHexDigits (n : Nat) : Text :=
  let ds := Nat.toDigits 16 n
  if ds.length < 2 then '0' :: ds else ds

def Rgb.text (c : Rgb) : Text :=
  '#' :: [c.red, c.green, c.blue].flatMap fun n => twoHexDigits (min 255 n)

def hex? : Text → Option Text
  | '#' :: r =>
    let ds := (r.takeWhile Entity.isHexDigit).map Char.toLower
    if (r.drop ds.length).head?.any isWordChar then none
    else if ds.length = 3 then some ('#' :: ds.flatMap fun d => [d, d])
    else if ds.length = 6 ∨ ds.length = 8 then some ('#' :: ds.take 6)
    else none
  | _ => none

def first? (f : Text → Option α) : Text → Option α
  | [] => none
  | c :: r => (f (c :: r)).or (first? f r)

def noColors : List Text :=
  ["transparent".toList, "none".toList, "inherit".toList, "initial".toList, "unset".toList,
    "revert".toList, "currentcolor".toList]

def named? (t : Text) : Option Text :=
  if t.all isFoldedLetter && !t.isEmpty && !noColors.contains (lower t) then some (lower t)
  else none

def colorOf? (value : Text) (names : Bool) : Option Text :=
  let t := trim (stripImageCalls (eraseAll "!important".toList value))
  ((first? rgb? t).map Rgb.text).or ((first? hex? t).or (if names then named? t else none))

def declaredColor? (d : Declaration) : Option Text :=
  if d.key = "background-color".toList then colorOf? d.value true
  else if d.key = "background".toList then colorOf? d.value false
  else none

def lastColor? (s : Style) : Option Text := (s.filterMap declaredColor?).getLast?

def resolve? (style : Text) : Except Fault (Option Text) := do
  return lastColor? (← Style.parse style)

def bgcolor : Text := "bgcolor".toList

def coloredTag (t : Tag) : Except Fault (Option Text) := do
  let as := Attributes.parse t.attrs
  if t.closing || as.has bgcolor then return none
  match ← resolve? as.styleText with
  | none => return none
  | some color => return some (openTag "td".toList (← as.revise [⟨bgcolor, some color⟩] none []))

def edits (html : Text) : Except Fault (List (Option Text)) :=
  (tokens ["td".toList] html).mapM (coloredTag ·.toTag)

def propagate (html : Text) : Except Fault Text := do
  return editTags ["td".toList] html (← edits html)

end MailMarkup.Background
