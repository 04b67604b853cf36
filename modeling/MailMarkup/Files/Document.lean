import MailMarkup.Files.Name
import MailMarkup.Files.Tree
import MailMarkup.Text.Codepage

namespace MailMarkup.Files

open Text

inductive Encoding where
  | utf8
  | markedUtf8
  | codepage
  | brokenUtf8
  deriving DecidableEq, Repr

def Encoding.name : Encoding → Text
  | utf8 | brokenUtf8 => "utf-8".toList
  | markedUtf8 => "utf-8-sig".toList
  | codepage => "cp1252".toList

def byteOrderMark : Char := '\uFEFF'

def decoded (bs : Bytes) : Text × Encoding :=
  match decodeUtf8? bs, decodeCodepage? bs with
  | some [], _ => ([], .utf8)
  | some (c :: t), _ => if c = byteOrderMark then (t, .markedUtf8) else (c :: t, .utf8)
  | none, some t => (t, .codepage)
  | none, none => (decodeUtf8Lossy bs, .brokenUtf8)

inductive WriteError where
  | file (e : FileError)
  | half
  deriving DecidableEq

namespace Tree

def readDocument (t : Tree) (p : Path) : Except FileError (Text × Encoding) :=
  (t.read p).map decoded

def writeDocument (t : Tree) (p : Path) (html : Text) : Attempt :=
  t.write p (encodeUtf8 html)

/-- A string is encoded when its file is open already, and so empty. -/
def writeString (t : Tree) (p : Path) (s : List CodePoint) : Tree × Option WriteError :=
  match t.ensureFolder p.parent with
  | (t, some e) => (t, some (.file e))
  | (t, none) =>
    match t.openFile p with
    | .error e => (t, some (.file e))
    | .ok (place, t) =>
      match scalars? s with
      | some html => (t.put place (.file (encodeUtf8 html)), none)
      | none => (t, some .half)

theorem writeString_map (t : Tree) (p : Path) (html : Text) :
    t.writeString p (html.map .scalar) =
      ((t.writeDocument p html).1, (t.writeDocument p html).2.map .file) := by
  rw [writeString, writeDocument, write]
  rcases t.ensureFolder p.parent with ⟨u, _ | e⟩
  · simp only [save, scalars?_map]
    cases u.openFile p <;> rfl
  · rfl

def suggest (t : Tree) (folder : Path) (campaign : Text) : Except FileError Path :=
  t.unique (folder.child (campaignName campaign))

end Tree

end MailMarkup.Files
