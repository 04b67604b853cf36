import MailMarkup.Text.Blank
import MailMarkup.Text.Case
import MailMarkup.Text.Scan

namespace MailMarkup.Markup

open Text

structure Tag where
  name : Text
  attrs : Text
  closing : Bool
  selfClosing : Bool
  deriving DecidableEq

inductive Lexeme where
  | comment
  | tag (t : Tag)
  deriving DecidableEq

def commentLength : Text → Nat
  | [] => 0
  | c :: r => if "-->".toList.isPrefixOf (c :: r) then 3 else commentLength r + 1

def comment? : Recogniser Unit
  | '<' :: '!' :: '-' :: '-' :: r => some ((), 3 + commentLength r)
  | _ => none

def commentSpans (html : Text) : List (Nat × Nat) := hitSpans comment? html

inductive Quoting where
  | outside (afterEquals : Bool)
  | inside (quote : Char)

def isQuote (c : Char) : Bool := c == '"' || c == '\''

/-- A quote opens a value only right behind `=`, and only if it is closed somewhere. -/
def Quoting.next (q : Quoting) (c : Char) (r : Text) : Quoting :=
  match q with
  | inside d => if c = d then outside false else inside d
  | outside e =>
    if e && isQuote c && r.contains c then inside c
    else outside (c == '=' || (e && isBlank c))

def Quoting.endsTag : Quoting → Char → Bool
  | outside _, c => c == '>'
  | inside _, _ => false

def body? (q : Quoting) : Text → Option Text
  | [] => none
  | c :: r => if q.endsTag c then some [] else (body? (q.next c r) r).map (c :: ·)

def isNameStart (c : Char) : Bool := c.isAlpha

def isNameChar (c : Char) : Bool := c.isAlphanum || c == ':' || c == '_' || c == '-'

def endsName (t : Text) : Bool := t.head?.any fun c => isBlank c || c == '/' || c == '>'

def Tag.ofBody (closing : Bool) (name body : Text) : Tag :=
  let trimmed := trimEnd body
  let selfClosing := trimmed.getLast? == some '/'
  { name := name.map Char.toLower
    attrs := if selfClosing then trimmed.dropLast else body
    closing
    selfClosing }

def tagBehind? (closing : Bool) (t : Text) : Option (Tag × Nat) :=
  let name := t.takeWhile isNameChar
  let rest := t.dropWhile isNameChar
  if name.head?.any isNameStart && endsName rest then
    (body? (.outside false) rest).map fun body =>
      (.ofBody closing name body, name.length + body.length + 1)
  else none

def tag? : Recogniser Tag
  | '<' :: '/' :: r => (tagBehind? true r).map fun (t, n) => (t, n + 1)
  | '<' :: r => tagBehind? false r
  | _ => none

def lexeme? : Recogniser Lexeme := fun t =>
  match comment? t with
  | some (_, n) => some (.comment, n)
  | none => (tag? t).map fun (a, n) => (.tag a, n)

abbrev Lexemes := List (Piece Lexeme)

@[elab_as_elim]
theorem Lexemes.induction {motive : Lexemes → Prop} (nil : motive [])
    (char : ∀ c ps, motive ps → motive (.char c :: ps))
    (comment : ∀ s ps, motive ps → motive (.hit .comment s :: ps))
    (tag : ∀ k s ps, motive ps → motive (.hit (.tag k) s :: ps)) (ps : Lexemes) : motive ps := by
  induction ps with
  | nil => exact nil
  | cons p ps ih =>
    match p with
    | .char c => exact char c ps ih
    | .hit .comment s => exact comment s ps ih
    | .hit (.tag k) s => exact tag k s ps ih

def lexemes (html : Text) : Lexemes := scan lexeme? html

theorem source_lexemes (html : Text) : (lexemes html).flatMap Piece.source = html :=
  flatMap_source_scan lexeme? html

structure Token extends Tag where
  start : Nat
  stop : Nat
  deriving DecidableEq

/-- No names select every tag. -/
def Tag.isAmong (t : Tag) (names : List Text) : Bool :=
  names.isEmpty || names.any fun n => lower n == t.name

def tokensFrom (names : List Text) (start : Nat) : Lexemes → List Token
  | [] => []
  | .hit (.tag t) s :: ps =>
    let rest := tokensFrom names (start + s.length) ps
    if t.isAmong names then { t with start, stop := start + s.length } :: rest else rest
  | p :: ps => tokensFrom names (start + p.source.length) ps

theorem tokensFrom_among {names : List Text} {k : Tag} (hk : k.isAmong names = true) (start : Nat)
    (s : Text) (ps : Lexemes) :
    tokensFrom names start (.hit (.tag k) s :: ps) =
      { k with start, stop := start + s.length } :: tokensFrom names (start + s.length) ps :=
  if_pos hk

theorem tokensFrom_not_among {names : List Text} {k : Tag} (hk : k.isAmong names ≠ true)
    (start : Nat) (s : Text) (ps : Lexemes) :
    tokensFrom names start (.hit (.tag k) s :: ps) = tokensFrom names (start + s.length) ps :=
  if_neg hk

theorem tokensFrom_eq_filter (names : List Text) (start : Nat) (ps : Lexemes) :
    tokensFrom names start ps = (tokensFrom [] start ps).filter (·.toTag.isAmong names) := by
  induction ps using Lexemes.induction generalizing start with
  | nil => rfl
  | char c ps ih => exact ih _
  | comment s ps ih => exact ih _
  | tag k s ps ih =>
    rw [tokensFrom_among (show k.isAmong [] = true from rfl), List.filter_cons,
      ← ih (start + s.length)]
    by_cases hk : k.isAmong names = true
    · rw [tokensFrom_among hk, if_pos hk]
    · rw [tokensFrom_not_among hk, if_neg hk]

def tokens (names : List Text) (html : Text) : List Token := tokensFrom names 0 (lexemes html)

theorem tokens_eq_filter (names : List Text) (html : Text) :
    tokens names html = (tokens [] html).filter (·.toTag.isAmong names) :=
  tokensFrom_eq_filter names 0 (lexemes html)

theorem tokens_sublist (names : List Text) (html : Text) :
    (tokens names html).Sublist (tokens [] html) :=
  tokens_eq_filter names html ▸ List.filter_sublist

def findTag? (html name : Text) (closing : Bool) (start : Nat) : Option Token :=
  (tokens [name] html).find? fun t => start ≤ t.start && t.closing == closing

def findOpening? (html name : Text) : Option Token := findTag? html name false 0

def findLastTag? (html name : Text) (closing : Bool) : Option Token :=
  (tokens [name] html).findRev? (·.closing == closing)

/-- Writes the tags of the given names anew, one edit for each in order; `none`, or no edit left,
keeps a tag as it was. -/
def Lexemes.edited (names : List Text) : Lexemes → List (Option Text) → Text
  | [], _ => []
  | .hit (.tag t) s :: ps, es =>
    if t.isAmong names then es.head?.join.getD s ++ edited names ps es.tail
    else s ++ edited names ps es
  | p :: ps, es => p.source ++ edited names ps es

def editTags (names : List Text) (html : Text) (es : List (Option Text)) : Text :=
  (lexemes html).edited names es

end MailMarkup.Markup
