import MailMarkup.Markup.Tag
import MailMarkup.Text.Escape

namespace MailMarkup.Markup

open Text

structure Attribute where
  name : Text
  value : Option Text
  deriving DecidableEq

def Attribute.key (a : Attribute) : Text := lower a.name

abbrev Attributes := List Attribute

namespace Attributes

def isNameChar (c : Char) : Bool := !(isBlank c || ['"', '\'', '>', '/', '='].contains c)

def isBareChar (c : Char) : Bool :=
  !(isBlank c || ['"', '\'', '=', '<', '>', '\x60'].contains c)

def quotedValue? (quote : Char) (t : Text) : Option (Text × Nat) :=
  let v := t.takeWhile (· != quote)
  if v.length < t.length then some (v, v.length + 2) else none

def value? : Text → Option (Text × Nat)
  | [] => none
  | c :: r =>
    if isQuote c then quotedValue? c r
    else
      let v := (c :: r).takeWhile isBareChar
      if v.isEmpty then none else some (v, v.length)

def assigned? (t : Text) : Option (Text × Nat) :=
  let before := t.takeWhile isBlank
  match t.drop before.length with
  | '=' :: r =>
    let after := r.takeWhile isBlank
    (value? (r.drop after.length)).map fun (v, n) => (v, before.length + 1 + after.length + n)
  | _ => none

def attribute? : Recogniser Attribute := fun t =>
  let name := t.takeWhile isNameChar
  if name.isEmpty then none
  else match assigned? (t.drop name.length) with
    | some (v, n) => some (⟨name, some v⟩, name.length + n - 1)
    | none => some (⟨name, none⟩, name.length - 1)

def parse (t : Text) : Attributes := hits attribute? t

def has (as : Attributes) (name : Text) : Bool := as.any (·.key == lower name)

def get? (as : Attributes) (name : Text) : Option Text :=
  (as.find? (·.key == lower name)).map (·.value.getD [])

def remove (as : Attributes) (name : Text) : Attributes := as.filter (·.key != lower name)

def replace (name : Text) (value : Option Text) : Attributes → Attributes
  | [] => []
  | a :: as =>
    if a.key = lower name then ⟨name, value⟩ :: remove as name else a :: replace name value as

def set (as : Attributes) (name : Text) (value : Option Text) : Attributes :=
  if as.has name then replace name value as else as ++ [⟨name, value⟩]

def setAll (as : Attributes) (forced : Attributes) : Attributes :=
  forced.foldl (fun (as : Attributes) a => as.set a.name a.value) as

theorem has_remove (as : Attributes) (name : Text) : (as.remove name).has name = false := by
  simp [remove, has]

theorem remove_eq_self {as : Attributes} {name : Text} (h : as.has name = false) :
    as.remove name = as := by
  simp_all [remove, has]

def renderOne (a : Attribute) : Text :=
  match a.value with
  | none => a.name
  | some v => a.name ++ "=\"".toList ++ escapeQuotes v ++ "\"".toList

def render (as : Attributes) : Text := as.flatMap fun a => ' ' :: renderOne a

end Attributes

def openTag (name : Text) (as : Attributes) : Text := '<' :: name ++ as.render ++ ['>']

def closedTag (name : Text) (as : Attributes) : Text := '<' :: name ++ as.render ++ " />".toList

end MailMarkup.Markup
