import MailMarkup.Entity.Reference
import MailMarkup.Report.Content
import MailMarkup.Text.Blank
import MailMarkup.Text.Case

namespace MailMarkup.Report

open Text

inductive Event where
  | opening (name : Text) (attrs : List (Text × Text)) (closed : Bool)
  | closing (name : Text)
  | data (t : Text)
  | cdata (t : Text)
  | aside
  deriving DecidableEq

inductive Mode where
  | markup
  | raw (name : Text)

inductive Reading where
  | found (events : List Event) (mode : Mode) (rest : Text)
  | incomplete
  | stopped (events : List Event) (rest : Text)

def behind (mark : Char) (t : Text) : Option Text := (breakAt mark t).2

namespace StartTag

def isNameChar (c : Char) : Bool :=
  !(['\t', '\n', '\r', '\x0C', ' ', '/', '>', '\x00'].contains c)

def startsAttribute (c : Char) : Bool := !(isBlank c || c == '/' || c == '>')

def isAttributeChar (c : Char) : Bool := startsAttribute c && c != '='

def isValueChar (c : Char) : Bool := !(isBlank c || c == '>')

def atGap : Text → Bool
  | '/' :: '>' :: _ => false
  | c :: _ => isBlank c || c == '/'
  | [] => false

def skipGap : Text → Text
  | [] => []
  | c :: r => if atGap (c :: r) then skipGap r else c :: r

def isQuote (c : Char) : Bool := c == '"' || c == '\''

structure Value where
  text : Text
  quoted : Bool
  rest : Text

def bareValue (t : Text) : Value :=
  ⟨t.takeWhile isValueChar, false, t.dropWhile isValueChar⟩

/-- The value behind some equals signs. A quote that is not closed opens no value: then the value
is empty if blanks are in front of the quote, and else starts with the last of several signs. -/
def assigned? (signs : Nat) (t : Text) : Option Value :=
  match t.dropWhile isBlank with
  | c :: r =>
    if !isQuote c then some (bareValue (c :: r))
    else match breakAt c r with
      | (v, some rest) => some ⟨v, true, rest⟩
      | (_, none) =>
        if t.head?.any isBlank then some ⟨[], false, ' ' :: c :: r⟩
        else if signs ≥ 2 then some (bareValue ('=' :: c :: r))
        else none
  | [] => some ⟨[], false, []⟩

def value? (t : Text) : Option Value :=
  let u := t.dropWhile isBlank
  let signs := u.takeWhile (· == '=')
  if signs.isEmpty then none else assigned? signs.length (u.drop signs.length)

def attributes : Text → Bool → Text → List (Text × Text) × Text
  | _ :: bound, true, c :: r =>
    if startsAttribute c then
      let name := c :: r.takeWhile isAttributeChar
      let rest := r.dropWhile isAttributeChar
      let v := (value? rest).getD ⟨[], name.getLast?.any isQuote, rest⟩
      let (as, t) := attributes bound (atGap v.rest || v.quoted) (skipGap v.rest)
      ((lower name, v.text) :: as, t)
    else ([], c :: r)
  | _, _, t => ([], t)

inductive Ending where
  | closes (empty : Bool) (rest : Text)
  | missing
  | broken (rest : Text)

def ending : Text → Ending
  | '>' :: r => .closes false r
  | '/' :: '>' :: r => .closes true r
  | [] => .missing
  | c :: r => if c.isAlpha || c == '=' then .missing else .broken (c :: r)

def decodedAttributes (as : List (Text × Text)) : Except Rejection (List (Text × Text)) :=
  as.mapM fun (n, v) => do return (n, ← (Entity.decode v).mapError .fault)

def rawNames : List Text := ["script".toList, "style".toList]

def read (t : Text) : Except Rejection Reading := do
  let name := t.takeWhile isNameChar
  let rest := t.dropWhile isNameChar
  let (as, rest) := attributes rest (atGap rest || name.getLast?.any isQuote) (skipGap rest)
  let name := lower name
  match ending rest with
  | .missing => return .incomplete
  | .broken rest => return .found [.data ('<' :: t.take (t.length - rest.length))] .markup rest
  | .closes empty rest =>
    let mode := if !empty && rawNames.contains name then Mode.raw name else .markup
    return .found [.opening name (← decodedAttributes as) empty] mode rest

end StartTag

namespace EndTag

def isNameChar (c : Char) : Bool := c.isAlphanum || ['-', '.', ':', '_'].contains c

def plainName? (t : Text) : Option Text :=
  let u := t.dropWhile isBlank
  let name := u.takeWhile isNameChar
  match (u.drop name.length).dropWhile isBlank with
  | '>' :: _ => if name.head?.any Char.isAlpha then some name else none
  | _ => none

def read (t : Text) : Reading :=
  match behind '>' t with
  | none => .incomplete
  | some rest =>
    match plainName? t with
    | some name => .found [.closing (lower name)] .markup rest
    | none =>
      if t.head?.any Char.isAlpha then
        .found [.closing (lower (t.takeWhile StartTag.isNameChar))] .markup rest
      else if t.head? = some '>' then .found [] .markup rest
      else .found [.aside] .markup rest

def rawEnd? (name : Text) : Text → Option Text
  | '<' :: '/' :: t => dropFolded? name (t.dropWhile isBlank)
  | _ => none

def endsRaw (name t : Text) : Bool :=
  (rawEnd? name t).any fun r => (r.dropWhile isBlank).head? == some '>'

def untilRawEnd? (name : Text) : Text → Option (Text × Text)
  | [] => none
  | c :: r =>
    if endsRaw name (c :: r) then some ([], c :: r)
    else (untilRawEnd? name r).map fun (t, rest) => (c :: t, rest)

def dataEvents (t : Text) : List Event := if t.isEmpty then [] else [.data t]

def readRaw (name t : Text) : Reading :=
  match untilRawEnd? name t with
  | none => .stopped [] t
  | some (before, tag) =>
    let rest := (behind '>' tag).getD []
    if plainName? (tag.drop 2) |>.any (lower · == name) then
      .found (dataEvents before ++ [.closing name]) .markup rest
    else
      .found (dataEvents before ++ [.data (tag.take (tag.length - rest.length))]) (.raw name) rest

end EndTag

namespace Declaration

def dropMarks? : List Char → Text → Option Text
  | [], t => some t
  | m :: ms, t =>
    match t.dropWhile isBlank with
    | c :: r => if c = m then dropMarks? ms r else none
    | [] => none

def untilMarks? (first : Char) (marks : List Char) : Text → Option (Text × Text)
  | [] => none
  | c :: r =>
    match if c = first then dropMarks? marks r else none with
    | some rest => some ([], rest)
    | none => (untilMarks? first marks r).map fun (t, rest) => (c :: t, rest)

def behindComment? : Text → Option Text
  | [] => none
  | c :: r =>
    match c, r with
    | '-', '-' :: s => (dropMarks? ['>'] s).or (behindComment? r)
    | _, _ => behindComment? r

def isKeywordChar (c : Char) : Bool := c.isAlphanum || ['-', '_', '.'].contains c

def longSections : List Text :=
  ["temp".toList, "cdata".toList, "ignore".toList, "include".toList, "rcdata".toList]

def shortSections : List Text := ["if".toList, "else".toList, "endif".toList]

def sectionEvent (t : Text) : Event :=
  if (t.take 6).map Char.toUpper = "CDATA[".toList then .cdata (t.drop 6) else .aside

def sectionReading : Option (Text × Text) → Reading
  | some (content, rest) => .found [sectionEvent content] .markup rest
  | none => .incomplete

def readSection (t : Text) : Except Rejection Reading :=
  let word := t.takeWhile isKeywordChar
  let keyword := word ++ (t.drop word.length).takeWhile isBlank
  if t.isEmpty then .ok .incomplete
  else if !t.head?.any Char.isAlpha then
    .error (.unnamedSection (("<![".toList ++ t).take 20))
  else if (t.drop keyword.length).isEmpty then .ok .incomplete
  else if longSections.contains (lower word) then
    .ok (sectionReading (untilMarks? ']' [']', '>'] t))
  else if shortSections.contains (lower word) then .ok (sectionReading (untilMarks? ']' ['>'] t))
  else .error (.unknownSection keyword)

def asideUntil (rest : Option Text) : Reading :=
  match rest with
  | some r => .found [.aside] .markup r
  | none => .incomplete

def read (t : Text) : Except Rejection Reading :=
  match t with
  | '-' :: '-' :: r => .ok (asideUntil (behindComment? r))
  | '[' :: r => readSection r
  | _ => .ok (asideUntil (behind '>' t))

end Declaration

namespace Ref

def charOf (n : Nat) : Char :=
  if n < 256 then (codepageChar? n).getD (.ofNat n)
  else if Entity.isSurrogate n ∨ n > 0x10FFFF then '\uFFFD'
  else .ofNat n

def decimalText (ds : Text) : Except Rejection Text :=
  if ds.length > digitLimit then .error (.fault (.longNumeral ds.length))
  else .ok [charOf (Entity.numberOf 10 ds)]

def dropSemicolon : Text → Text
  | ';' :: r => r
  | t => t

def endsNumber (t : Text) : Bool := t.head?.any (!Entity.isHexDigit ·)

/-- Reads a number behind its `&#`. One that cannot be read stops the pass, and its beginning is
data if a semicolon follows anywhere. -/
def readNumber (t : Text) : Except Rejection Reading := do
  let ds := t.takeWhile Char.isDigit
  let rest := t.drop ds.length
  if !ds.isEmpty && endsNumber rest then
    return .found [.data (← decimalText ds)] .markup (dropSemicolon rest)
  let hs := (t.drop 1).takeWhile Entity.isHexDigit
  let rest := (t.drop 1).drop hs.length
  if t.head?.any (·.toLower == 'x') && !hs.isEmpty && endsNumber rest then
    return .found [.data [charOf (Entity.numberOf 16 hs)]] .markup (dropSemicolon rest)
  return if t.contains ';' then .stopped [.data "&#".toList] t
    else .stopped [] ("&#".toList ++ t)

def isNameChar (c : Char) : Bool := c.isAlphanum || c == '-' || c == '.'

def nameOf (t : Text) : Text :=
  let run := t.takeWhile isNameChar
  if !(t.drop run.length).isEmpty then run
  else (dropEndWhile Char.isAlphanum run).dropLast

def namedText (name : Text) : Text := (Entity.valueOf? name).getD ('&' :: name)

/-- Reads a name behind its `&`. At the very end of a text one letter is kept and the sign is
lost. -/
def readName (final : Bool) (t : Text) : Reading :=
  match t with
  | [] => .stopped [] ['&']
  | c :: r =>
    if !c.isAlpha then .found [.data ['&']] .markup t
    else
      let name := nameOf t
      if !name.isEmpty then
        .found [.data (namedText name)] .markup (dropSemicolon (t.drop name.length))
      else if final && r.isEmpty then .stopped [] t
      else .stopped [] ('&' :: t)

end Ref

def readAngle (t : Text) : Except Rejection Reading :=
  match t with
  | [] => .ok (.stopped [] ['<'])
  | '/' :: r => .ok (EndTag.read r)
  | '!' :: r => Declaration.read r
  | '?' :: r => .ok (Declaration.asideUntil (behind '>' r))
  | c :: _ => if c.isAlpha then StartTag.read t else .ok (.found [.data ['<']] .markup t)

def isPlain (c : Char) : Bool := c != '<' && c != '&'

def readAt (final : Bool) (mode : Mode) (c : Char) (r : Text) : Except Rejection Reading :=
  match mode with
  | .raw name => .ok (EndTag.readRaw name (c :: r))
  | .markup =>
    if c = '<' then readAngle r
    else if c = '&' then
      match r with
      | '#' :: s => Ref.readNumber s
      | _ => .ok (Ref.readName final r)
    else .ok (.found [.data (c :: r.takeWhile isPlain)] .markup (r.dropWhile isPlain))

def giveUp (t : Text) : Text × Text :=
  match behind '>' t with
  | some rest => ('<' :: t.take (t.length - rest.length), rest)
  | none =>
    if t.contains '<' then ('<' :: t.takeWhile (· != '<'), t.dropWhile (· != '<'))
    else (['<'], t)

def pass (final : Bool) : Nat → Mode → Text → Except Rejection (List Event × Mode × Text)
  | n + 1, mode, c :: r => do
    match ← readAt final mode c r with
    | .found events mode rest =>
      let (more, s) ← pass final n mode rest
      return (events ++ more, s)
    | .stopped events rest => return (events, mode, rest)
    | .incomplete =>
      if !final then return ([], mode, c :: r)
      let (t, rest) := giveUp r
      let (more, s) ← pass final n mode rest
      return (.data t :: more, s)
  | _, mode, t => .ok ([], mode, t)

def leftOver : Mode → Text → List Event
  | .raw _, _ => []
  | .markup, t => EndTag.dataEvents t

def events (html : Text) : Except Rejection (List Event) := do
  let (first, mode, rest) ← pass false html.length .markup html
  let (second, mode, rest) ← pass true rest.length mode rest
  return first ++ second ++ leftOver mode rest

end MailMarkup.Report
