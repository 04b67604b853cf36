import MailMarkup.Text.Case
import MailMarkup.Url.Host

namespace MailMarkup

open Text

structure Url where
  scheme : Text
  netloc : Text
  path : Text
  query : Text
  fragment : Text
  deriving DecidableEq, Repr

namespace Url

def isSchemeChar (c : Char) : Bool := c.isAlphanum || ['+', '-', '.'].contains c

def splitScheme (t : Text) : Text × Text :=
  match breakAt ':' t with
  | (s, some r) =>
    if s.head?.any Char.isAlpha && s.all isSchemeChar then (s.map Char.toLower, r) else ([], t)
  | _ => ([], t)

def isNetlocEnd (c : Char) : Bool := ['/', '?', '#'].contains c

def splitNetloc : Text → Text × Text
  | '/' :: '/' :: r => (r.takeWhile (!isNetlocEnd ·), r.dropWhile (!isNetlocEnd ·))
  | t => ([], t)

/-- Leading controls and blanks are dropped, and tabs and line breaks wherever they stand. -/
def cleaned (t : Text) : Text :=
  (t.dropWhile (·.toNat ≤ 0x20)).filter fun c => !(['\t', '\r', '\n'].contains c)

def parse (t : Text) : Except Fault Url := do
  let (scheme, rest) := splitScheme (cleaned t)
  let (netloc, rest) := splitNetloc rest
  checkBrackets netloc
  let (rest, fragment) := breakAt '#' rest
  let (path, query) := breakAt '?' rest
  checkSeparators netloc
  return { scheme, netloc, path, query := query.getD [], fragment := fragment.getD [] }

def netlocSchemes : List Text :=
  ["ftp".toList, "http".toList, "gopher".toList, "nntp".toList, "telnet".toList, "imap".toList,
    "wais".toList, "file".toList, "mms".toList, "https".toList, "shttp".toList, "snews".toList,
    "prospero".toList, "rtsp".toList, "rtspu".toList, "rsync".toList, "svn".toList,
    "svn+ssh".toList, "sftp".toList, "nfs".toList, "git".toList, "git+ssh".toList, "ws".toList,
    "wss".toList]

def rooted (path : Text) : Text :=
  if path.isEmpty || path.head? == some '/' then path else '/' :: path

def located (u : Url) : Text :=
  if !u.netloc.isEmpty || netlocSchemes.contains u.scheme && !"//".toList.isPrefixOf u.path then
    "//".toList ++ u.netloc ++ rooted u.path
  else u.path

def withMark (mark : Char) (t : Text) : Text := if t.isEmpty then [] else mark :: t

def render (u : Url) : Text :=
  (if u.scheme.isEmpty then [] else u.scheme ++ [':']) ++ u.located ++ withMark '?' u.query ++
    withMark '#' u.fragment

variable {u : Url}

theorem mem_rooted {c : Char} {path : Text} (h : c ∈ rooted path) : c = '/' ∨ c ∈ path := by
  rw [rooted] at h
  split at h
  · exact .inr h
  · exact List.mem_cons.1 h

theorem mem_withMark {m c : Char} {t : Text} (h : c ∈ withMark m t) : c = m ∨ c ∈ t := by
  rw [withMark] at h
  split at h
  · cases h
  · exact List.mem_cons.1 h

theorem mem_located {c : Char} (h : c ∈ u.located) : c = '/' ∨ c ∈ u.netloc ∨ c ∈ u.path := by
  rw [located] at h
  split at h
  · rcases List.mem_append.1 h with h | h
    · rcases List.mem_append.1 h with h | h
      · exact .inl (by simpa using h)
      · exact .inr (.inl h)
    · exact (mem_rooted h).imp_right .inr
  · exact .inr (.inr h)

theorem mem_render {c : Char} (h : c ∈ u.render) : c ∈ [':', '/', '?', '#'] ∨
    c ∈ u.scheme ∨ c ∈ u.netloc ∨ c ∈ u.path ∨ c ∈ u.query ∨ c ∈ u.fragment := by
  have hs : c ∈ (if u.scheme.isEmpty then [] else u.scheme ++ [':']) → c = ':' ∨ c ∈ u.scheme := by
    split
    · simp
    · simp [or_comm]
  simp only [render, List.mem_append] at h
  rcases h with ((h | h) | h) | h
  · rcases hs h with rfl | h
    · exact .inl (by decide)
    · exact .inr (.inl h)
  · rcases mem_located h with rfl | h | h
    · exact .inl (by decide)
    · exact .inr (.inr (.inl h))
    · exact .inr (.inr (.inr (.inl h)))
  · rcases mem_withMark h with rfl | h
    · exact .inl (by decide)
    · exact .inr (.inr (.inr (.inr (.inl h))))
  · rcases mem_withMark h with rfl | h
    · exact .inl (by decide)
    · exact .inr (.inr (.inr (.inr (.inr h))))

end Url

end MailMarkup
