import MailMarkup.Text.Digit

namespace MailMarkup.CommandLine

open Text

inductive Switch where
  | help
  | output
  | imageBase
  | preheader
  | balance
  | medium
  | campaign
  | responsive
  | width
  | wrapColumns
  | verbose
  deriving DecidableEq, Repr

namespace Switch

def all : List Switch :=
  [help, output, imageBase, preheader, balance, medium, campaign, responsive, width, wrapColumns,
    verbose]

def names : Switch → List Text
  | help => ["-h".toList, "--help".toList]
  | output => ["-o".toList, "--output".toList]
  | imageBase => ["--image-base-url".toList]
  | preheader => ["--preheader".toList]
  | balance => ["--balance-text".toList]
  | medium => ["--utm-medium".toList]
  | campaign => ["--utm-campaign".toList]
  | responsive => ["--responsive".toList]
  | width => ["--width".toList]
  | wrapColumns => ["--wrap-columns".toList]
  | verbose => ["--verbose".toList]

def takesValue : Switch → Bool
  | help | responsive | wrapColumns | verbose => false
  | _ => true

def named : List (Text × Switch) := all.flatMap fun s => s.names.map fun name => (name, s)

def ofName? (name : Text) : Option Switch := named.lookup name

def label (s : Switch) : Text := join ['/'] s.names

end Switch

inductive Attached where
  | nothing
  | assigned (value : Text)
  | joined (value : Text)
  deriving DecidableEq, Repr

inductive Word where
  | plain (t : Text)
  | separator
  | switch (s : Switch) (attached : Attached)
  | unknown (t : Text)
  deriving DecidableEq, Repr

namespace Word

def isPlain : Word → Bool
  | plain _ => true
  | _ => false

def isNegativeNumber : Text → Bool
  | '-' :: r =>
    match breakAt '.' (if r.getLast? = some '\n' then r.dropLast else r) with
    | (ds, none) => !ds.isEmpty && ds.all isDecimal
    | (ds, some fs) => ds.all isDecimal && !fs.isEmpty && fs.all isDecimal
  | _ => false

def attachedOf : Option Text → Attached
  | none => .nothing
  | some v => .assigned v

def whole? (t : Text) : Option Word :=
  match Switch.ofName? t with
  | some s => some (switch s .nothing)
  | none =>
    match breakAt '=' t with
    | (name, some v) =>
      (Switch.ofName? name).map fun s =>
        switch s (if name.length = 2 then .joined v else .assigned v)
    | _ => none

def candidates (t : Text) : List (Text × Word) :=
  if "--".toList.isPrefixOf t then
    let (start, v) := breakAt '=' t
    (Switch.named.filter fun (name, _) => start.isPrefixOf name).map fun (name, s) =>
      (name, switch s (attachedOf v))
  else
    (Switch.named.filter fun (name, _) => name == t.take 2).map fun (name, s) =>
      (name, switch s (.joined (t.drop 2)))

/-- The names are those that a word stands for if they are more than one. -/
def ofText (t : Text) : Except (List Text) Word :=
  if t.length < 2 || t.head? != some '-' then .ok (plain t)
  else match whole? t with
    | some w => .ok w
    | none =>
      match candidates t with
      | [] => .ok (if isNegativeNumber t || t.contains ' ' then plain t else unknown t)
      | [(_, w)] => .ok w
      | ws => .error (ws.map (·.1))

end Word

end MailMarkup.CommandLine
