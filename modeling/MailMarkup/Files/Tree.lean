import MailMarkup.Files.Path
import MailMarkup.Text.Quoted
import MailMarkup.Text.Utf8

namespace MailMarkup.Files

open Text

abbrev Place := List Text

inductive Node where
  | folder
  | file (content : Bytes)
  deriving DecidableEq

inductive Cause where
  | missing
  | notFolder
  | isFolder
  | alreadyThere
  | longName
  | nullCharacter
  deriving DecidableEq, Repr

structure FileError where
  cause : Cause
  path : Text
  deriving DecidableEq, Repr

namespace FileError

def explained (number : Nat) (reason : String) (path : Text) : Text :=
  "[Errno ".toList ++ ofNat number ++ "] ".toList ++ reason.toList ++ ": ".toList ++ quoted path

def message (e : FileError) : Text :=
  match e.cause with
  | .missing => explained 2 "No such file or directory" e.path
  | .notFolder => explained 20 "Not a directory" e.path
  | .isFolder => explained 21 "Is a directory" e.path
  | .alreadyThere => explained 17 "File exists" e.path
  | .longName => explained 36 "File name too long" e.path
  | .nullCharacter => "embedded null byte".toList

end FileError

/-- The root is a folder; every other folder and file has an entry. -/
structure Tree where
  entries : List (Place × Node)

/-- A tree, and what stopped the work on it before its end. What was made by then stays. -/
abbrev Attempt := Tree × Option FileError

def workplace : Place := ["work".toList]

namespace Tree

def empty : Tree := ⟨[(workplace, .folder)]⟩

def find? (t : Tree) (p : Place) : Option Node :=
  if p.isEmpty then some .folder else t.entries.lookup p

def put (t : Tree) (p : Place) (n : Node) : Tree :=
  ⟨t.entries.filter (·.1 != p) ++ [(p, n)]⟩

theorem find?_put_self (t : Tree) {p : Place} (h : p ≠ []) (n : Node) :
    (t.put p n).find? p = some n := by
  have hno : (t.entries.filter (·.1 != p)).lookup p = none := by
    refine List.lookup_eq_none_iff.2 fun e he => ?_
    have hne := (List.mem_filter.1 he).2
    rw [bne_iff_ne] at hne
    exact bne_iff_ne.2 hne.symm
  rw [find?, if_neg (by simpa using h), put, List.lookup_append, hno, List.lookup_cons_self]
  rfl

theorem find?_put_of_ne (t : Tree) {p q : Place} (h : q ≠ p) (n : Node) :
    (t.put p n).find? q = t.find? q := by
  have hfilter : (t.entries.filter (·.1 != p)).lookup q = t.entries.lookup q := by
    induction t.entries with
    | nil => rfl
    | cons e es ih =>
      rw [List.filter_cons]
      split
      · rw [List.lookup_cons, List.lookup_cons, ih]
      · rename_i he
        have he : e.1 = p := by simpa using he
        rw [ih, List.lookup_cons, he, beq_false_of_ne h]
  rw [find?, find?, put, List.lookup_append, hfilter, List.lookup_cons, beq_false_of_ne h]
  simp

theorem put_put (t : Tree) (p : Place) (m n : Node) : (t.put p m).put p n = t.put p n := by
  simp [put]

def nameLimit : Nat := 255

def pathLimit : Nat := 4096

def isLong (name : Text) : Bool := (encodeUtf8 name).length > nameLimit

/-- One step from a folder; to go up from the root is to stay there. -/
def enter (t : Tree) (here : Place) (part : Text) : Except Cause Place :=
  match t.find? here with
  | none => .error .missing
  | some (.file _) => .error .notFolder
  | some .folder =>
    if isLong part then .error .longName
    else .ok (if part = "..".toList then here.dropLast else here ++ [part])

def startOf (p : Path) : Place := if p.root.isEmpty then workplace else []

def checkText (p : Path) : Except Cause Unit :=
  if p.text.contains '\x00' then .error .nullCharacter
  else if (encodeUtf8 p.text).length ≥ pathLimit then .error .longName
  else .ok ()

def locate (t : Tree) (p : Path) : Except Cause Place := do
  checkText p
  p.parts.foldlM t.enter (startOf p)

def look (t : Tree) (p : Path) : Except Cause (Place × Option Node) := do
  let place ← t.locate p
  return (place, t.find? place)

def isFolder (t : Tree) (p : Path) : Bool :=
  match t.look p with
  | .ok (_, some .folder) => true
  | _ => false

def isTaken (t : Tree) (p : Path) : Except FileError Bool :=
  match t.look p with
  | .ok (_, n) => .ok n.isSome
  | .error .longName => .error ⟨.longName, p.text⟩
  | .error _ => .ok false

def read (t : Tree) (p : Path) : Except FileError Bytes :=
  match t.look p with
  | .ok (_, some (.file content)) => .ok content
  | .ok (_, some .folder) => .error ⟨.isFolder, p.text⟩
  | .ok (_, none) => .error ⟨.missing, p.text⟩
  | .error c => .error ⟨c, p.text⟩

def makeFolder (t : Tree) (p : Path) : Except FileError Tree :=
  match t.look p with
  | .ok (place, none) => .ok (t.put place .folder)
  | .ok (_, some _) => .error ⟨.alreadyThere, p.text⟩
  | .error c => .error ⟨c, p.text⟩

def requireFolder (t : Tree) (p : Path) : Except FileError Tree :=
  match t.makeFolder p with
  | .ok t => .ok t
  | .error e => if e.cause != .missing && t.isFolder p then .ok t else .error e

def attempted (t : Tree) : Except FileError Tree → Attempt
  | .ok t => (t, none)
  | .error e => (t, some e)

def ensureFolder (t : Tree) (p : Path) : Attempt :=
  match t.makeFolder p with
  | .ok t => (t, none)
  | .error e =>
    if e.cause = .missing then
      if p.parts.isEmpty then (t, some e)
      else match t.ensureFolder p.parent with
        | (t, none) => t.attempted (t.requireFolder p)
        | stopped => stopped
    else (t, if t.isFolder p then none else some e)
termination_by p.parts.length
decreasing_by
  rename_i h
  simp only [Path.parent, List.length_dropLast]
  have : p.parts.length ≠ 0 := by simpa using h
  omega

def openFile (t : Tree) (p : Path) : Except FileError (Place × Tree) :=
  match t.look p with
  | .ok (_, some .folder) => .error ⟨.isFolder, p.text⟩
  | .ok (place, _) => .ok (place, t.put place (.file []))
  | .error c => .error ⟨c, p.text⟩

def save (t : Tree) (p : Path) (content : Bytes) : Except FileError Tree := do
  let (place, t) ← t.openFile p
  return t.put place (.file content)

theorem save_eq (t : Tree) (p : Path) (content : Bytes) :
    t.save p content = match t.look p with
      | .ok (_, some .folder) => .error ⟨.isFolder, p.text⟩
      | .ok (place, _) => .ok (t.put place (.file content))
      | .error c => .error ⟨c, p.text⟩ := by
  rw [save, openFile]
  rcases t.look p with c | ⟨place, _ | _ | old⟩
  · rfl
  · exact congrArg Except.ok (t.put_put place _ _)
  · rfl
  · exact congrArg Except.ok (t.put_put place _ _)

def write (t : Tree) (p : Path) (content : Bytes) : Attempt :=
  match t.ensureFolder p.parent with
  | (t, none) => t.attempted (t.save p content)
  | stopped => stopped

def firstFree (t : Tree) (p : Path) : Nat → Nat → Except FileError Path
  | 0, n => .ok (p.numbered n)
  | k + 1, n => do
    if ← t.isTaken (p.numbered n) then t.firstFree p k (n + 1) else return p.numbered n

def unique (t : Tree) (p : Path) : Except FileError Path := do
  if ← t.isTaken p then t.firstFree p t.entries.length 1 else return p

def listing (t : Tree) : List Text :=
  let shown := t.entries.filterMap fun (place, n) =>
    (workplace.isPrefixOf? place).bind fun rest =>
      if rest.isEmpty then none
      else some (join ['/'] rest ++ match n with | .folder => ['/'] | .file _ => [])
  shown.mergeSort fun a b => !decide (b < a)

end Tree

end MailMarkup.Files
