import MailMarkup.Files.Tree

namespace MailMarkup.CommandLine

open Text Files

inductive Platform where
  | windows
  | mac
  | other
  deriving DecidableEq, Repr

def Platform.ofName (t : Text) : Platform :=
  if t = "win32".toList then windows
  else if t = "darwin".toList then mac
  else other

structure Surroundings where
  platform : Platform
  isInstalled : Bool
  project : Path
  home : Path
  profile : Path
  temporary : Path

namespace Surroundings

def appName : Text := "EmailTemplateFormatter".toList

def logsName : Text := "logs".toList

def below (p : Path) (names : List Text) : Path := names.foldl Path.child p

def preferredLogFolder (s : Surroundings) : Path :=
  if s.isInstalled then
    match s.platform with
    | .windows => below s.profile ["Documents".toList, appName, logsName]
    | .mac => below s.home ["Library".toList, "Logs".toList, appName]
    | .other => below s.home [".local".toList, "share".toList, appName, logsName]
  else s.project.child logsName

def temporaryLogFolder (s : Surroundings) : Path := below s.temporary [appName, logsName]

def logFolder (s : Surroundings) (t : Tree) : Except FileError (Path × Tree) :=
  match t.ensureFolder s.preferredLogFolder with
  | (t, none) => .ok (s.preferredLogFolder, t)
  | (t, some _) =>
    match t.ensureFolder s.temporaryLogFolder with
    | (t, none) => .ok (s.temporaryLogFolder, t)
    | (_, some e) => .error e

end Surroundings

end MailMarkup.CommandLine
