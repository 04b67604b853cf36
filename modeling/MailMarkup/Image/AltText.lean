import MailMarkup.Image.Source
import MailMarkup.Text.Digit
import MailMarkup.Url.Percent

namespace MailMarkup.Image

open Text

structure Registry where
  used : List Text

namespace Registry

def empty : Registry := ⟨[]⟩

def has (r : Registry) (alt : Text) : Bool := r.used.contains (lower alt)

def numbered (alt joint : Text) (n : Int) : Text := alt ++ joint ++ ofInt n

def firstFree (r : Registry) (alt joint : Text) (start : Int) : Text :=
  let form (k : Nat) := numbered alt joint (start + k)
  (((List.range (r.used.length + 1)).find? fun k => !r.has (form k)).map form).getD alt

/-- The text itself if it is free, else one with a number. A written text counts on from the place
of its image, a made-up one from 2. -/
def choose (r : Registry) (alt : Text) (written : Bool) (index : Int) : Text :=
  if !r.has alt then alt
  else if written then r.firstFree alt [' '] (index + 1)
  else r.firstFree alt " variant ".toList 2

def claim (r : Registry) (alt : Text) (written : Bool) (index : Int) : Text × Registry :=
  let chosen := r.choose alt written index
  (chosen, ⟨lower chosen :: r.used⟩)

end Registry

def withoutTail (tail? : Text → Option Text) (t : Text) : Text :=
  if t.getLast? = some '\n' then ((tail? t.dropLast).getD t.dropLast) ++ ['\n']
  else (tail? t).getD t

def isExtensionChar (c : Char) : Bool := isFoldedLetter c || c.isDigit

def beforeExtension? (t : Text) : Option Text :=
  let ext := t.reverse.takeWhile isExtensionChar
  match t.reverse.drop ext.length with
  | '.' :: r => if ext.isEmpty then none else some r.reverse
  | _ => none

def beforeScale? (t : Text) : Option Text :=
  match t.reverse with
  | x :: r =>
    let ds := r.takeWhile isDecimal
    match r.drop ds.length with
    | '@' :: s => if x.toLower = 'x' ∧ !ds.isEmpty then some s.reverse else none
    | _ => none
  | [] => none

def isSeparator (c : Char) : Bool := isBlank c || ['.', '_', '-'].contains c

def exportWords : List Text :=
  ["slices".toList, "slice".toList, "index".toList, "images".toList, "image".toList,
    "img".toList, "untitled".toList, "layer".toList, "artboard".toList, "group".toList]

def endsWord (t : Text) : Bool := t.head?.all fun c => isSeparator c || isDecimal c

def behindExportWord? (t : Text) : Option Text :=
  exportWords.findSome? fun w => (dropFolded? w t).filter endsWord

def isFiller (c : Char) : Bool := [' ', '.', '_', '-'].contains c

def stripOnce (t : Text) : Text := ((behindExportWord? t).getD t).dropWhile isFiller

theorem length_stripOnce_le (t : Text) : (stripOnce t).length ≤ t.length := by
  have hd (s : Text) : (s.dropWhile isFiller).length ≤ s.length :=
    (List.dropWhile_sublist isFiller).length_le
  unfold stripOnce
  refine Nat.le_trans (hd _) ?_
  cases h : behindExportWord? t with
  | none => simp
  | some r =>
    obtain ⟨w, _, hw⟩ := List.exists_of_findSome?_eq_some h
    obtain ⟨p, _, rfl⟩ := exists_append_of_dropFolded? (Option.eq_some_of_filter_eq_some hw)
    simp

def stripExportWords (t : Text) : Text :=
  if (stripOnce t).length < t.length then stripExportWords (stripOnce t) else t
termination_by t.length

def isQueryMark (c : Char) : Bool := c == '?' || c == '#'

def fileName (src : Text) : Text :=
  afterLast '/' (dropEndWhile isSlash (src.takeWhile (!isQueryMark ·)))

def plainName (src : Text) : Text :=
  stripExportWords
    (withoutTail beforeScale? (withoutTail beforeExtension? (Url.unescape (fileName src))))

def shownWord (w : Text) : Text := if w.length > 2 then capitalize w else w

def label (words : List Text) : Text :=
  if words.isEmpty then "Email".toList else join [' '] (words.map shownWord)

def describe (tokens : List Text) : Text :=
  let words := tokens.filter (!isNumeral ·)
  match (tokens.filter isNumeral).getLast? with
  | some n => label words ++ " section ".toList ++ n
  | none => if words.isEmpty then [] else label words

def altFromFileName (src : Text) : Text :=
  let t := lower src
  if "data:".toList.isPrefixOf t || "cid:".toList.isPrefixOf t then []
  else describe (fields isSeparator (plainName src))

end MailMarkup.Image
