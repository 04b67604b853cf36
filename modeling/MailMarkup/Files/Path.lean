import MailMarkup.Text.Basic

namespace MailMarkup.Files

open Text

structure Path where
  root : Text
  parts : List Text
  deriving DecidableEq, Repr

namespace Path

/-- Two slashes in front are a root of their own, any other number of them is the same as one. -/
def rootOf (t : Text) : Text :=
  match (t.takeWhile (· == '/')).length with
  | 0 => []
  | 2 => ['/', '/']
  | _ => ['/']

def parse (t : Text) : Path :=
  ⟨rootOf t, (fields (· == '/') t).filter (· != ['.'])⟩

def text (p : Path) : Text :=
  if p.root.isEmpty && p.parts.isEmpty then ['.'] else p.root ++ join ['/'] p.parts

def parent (p : Path) : Path := { p with parts := p.parts.dropLast }

def child (p : Path) (name : Text) : Path := { p with parts := p.parts ++ [name] }

def name (p : Path) : Text := p.parts.getLast?.getD []

def splitSuffix (name : Text) : Text × Text :=
  let tail := (name.reverse.takeWhile (· != '.')).reverse
  let stem := name.take (name.length - tail.length - 1)
  if !stem.isEmpty && !tail.isEmpty then (stem, '.' :: tail) else (name, [])

def numbered (p : Path) (n : Nat) : Path :=
  let (stem, suffix) := splitSuffix p.name
  p.parent.child (stem ++ '_' :: ofNat n ++ suffix)

end Path

end MailMarkup.Files
