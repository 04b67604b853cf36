import MailMarkup.Markup.Tag
import MailMarkup.Text.WordChar

namespace MailMarkup.Spacing

open Text Markup

def atWordEnd (t : Text) : Bool := !t.head?.any isWordChar

def plainLower (c : Char) : Char :=
  if c = '\u212A' then 'k' else if c = 'İ' then 'i' else c.toLower

def dropName? : Text → Text → Option Text
  | [], t => some t
  | _ :: _, [] => none
  | p :: w, c :: r => if plainLower c = plainLower p then dropName? w r else none

def dropClosing? (dropped : Text → Option Text) : Text → Option Text
  | '<' :: '/' :: t =>
    (dropped t).bind fun r =>
      match r.dropWhile isBlank with
      | '>' :: s => some s
      | _ => none
  | _ => none

def behindClosing? (dropped : Text → Option Text) : Text → Option Text
  | [] => none
  | c :: r => (dropClosing? dropped (c :: r)).or (behindClosing? dropped r)

def officeName? : Text → Option Text
  | l :: ':' :: r =>
    let letters := r.takeWhile isFoldedLetter
    if ['v', 'o', 'w'].contains l.toLower && !letters.isEmpty && atWordEnd (r.drop letters.length)
    then some (l :: ':' :: letters) else none
  | _ => none

def behindEmptyTag? (t : Text) : Option Text :=
  let inner := t.takeWhile (· != '>')
  match t.drop inner.length with
  | '>' :: r => if inner.getLast? = some '/' then some r else none
  | _ => none

def behindOffice? (t : Text) : Option Text := do
  let name ← officeName? t
  let rest := t.drop name.length
  behindEmptyTag? rest <|> behindClosing? (dropName? name) rest

def behindElement? (name t : Text) : Option Text := do
  let rest ← (dropFolded? name t).filter atWordEnd
  behindClosing? (dropFolded? name) rest

def behindProtected? (t : Text) : Option Text :=
  behindOffice? t <|> behindElement? "xml".toList t <|> behindElement? "pre".toList t

def region? : Recogniser Unit := fun t =>
  match comment? t, t with
  | some x, _ => some x
  | none, '<' :: r => (behindProtected? r).map fun rest => ((), r.length - rest.length)
  | none, _ => none

def protectedSpans (html : Text) : List (Nat × Nat) := hitSpans region? html

end MailMarkup.Spacing
