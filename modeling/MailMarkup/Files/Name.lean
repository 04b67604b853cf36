import MailMarkup.Text.Blank
import MailMarkup.Text.Scan
import MailMarkup.Text.Splice

namespace MailMarkup.Files

open Text

def forbiddenSigns : List Char := ['<', '>', ':', '"', '/', '\\', '|', '?', '*']

def isForbidden (c : Char) : Bool := forbiddenSigns.contains c || c.toNat < 0x20

def substituted (replacement t : Text) : Text :=
  t.flatMap fun c => if isForbidden c then replacement else [c]

def run? (replacement : Text) : Recogniser Unit := fun t =>
  if !replacement.isEmpty && replacement.isPrefixOf t then
    let again := (t.drop replacement.length).takeWhile (some · == replacement.getLast?)
    some ((), replacement.length - 1 + again.length)
  else none

def collapsed (replacement t : Text) : Text :=
  (scan (run? replacement) t).flatMap fun
    | .char c => [c]
    | .hit .. => replacement

def isEdge (replacement : Text) (c : Char) : Bool := ['.', ' '].contains c || replacement.contains c

def withoutEdges (replacement t : Text) : Text :=
  dropEndWhile (isEdge replacement) (t.dropWhile (isEdge replacement))

/-- The name and its extension from the last point on; points in front of everything else start no
extension. -/
def splitExtension (t : Text) : Text × Text :=
  let ext := (t.reverse.takeWhile (· != '.')).reverse
  let stem := t.take (t.length - ext.length - 1)
  if ext.length < t.length && !ext.contains '/' && (afterLast '/' stem).any (· != '.') then
    (stem, '.' :: ext)
  else (t, [])

def shortened (limit : Int) (t : Text) : Text :=
  if t.length > limit then
    let (stem, ext) := splitExtension t
    upTo stem (limit - ext.length) ++ ext
  else t

def deviceNames : List Text :=
  ["CON".toList, "PRN".toList, "AUX".toList, "NUL".toList] ++
    ["COM".toList, "LPT".toList].flatMap fun w => (List.range 9).map fun n => w ++ ofNat (n + 1)

def isDeviceName (t : Text) : Bool :=
  deviceNames.contains ((splitExtension t).1.map Char.toUpper)

def unnamed : Text := "unnamed".toList

def sanitized (limit : Int) (replacement t : Text) : Text :=
  let t' := shortened limit
    (withoutEdges replacement (collapsed replacement (substituted replacement t)))
  if t.isEmpty || t'.isEmpty then unnamed
  else if isDeviceName t' then '_' :: t'
  else t'

def lengthLimit : Int := 200

def safeName (t : Text) : Text := sanitized lengthLimit ['_'] t

def campaignName (campaign : Text) : Text :=
  let t := trim campaign
  if t.isEmpty then "email_formatted.html".toList
  else safeName (t.map fun c => if c = ' ' then '_' else c) ++ ".html".toList

end MailMarkup.Files
