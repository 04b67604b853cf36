import MailMarkup.CommandLine.LogFolder
import MailMarkup.CommandLine.Session
import MailMarkup.Run.Duration
import Std.Time.Zoned

namespace MailMarkup.Main

open Text Files Run CommandLine

def plainNumber (code : UInt32) : UInt32 := if code < 0x80000000 then code else 0 - code

def causeOf (e : IO.Error) : IO Cause :=
  match e with
  | .noFileOrDirectory .. => return .missing
  | .alreadyExists .. => return .alreadyThere
  | .inappropriateType _ code _ => return if plainNumber code = 21 then .isFolder else .notFolder
  | .invalidArgument _ code _ | .otherError code _ =>
    if plainNumber code = 36 then return .longName else throw e
  | e => throw e

def onPath {α : Type} (p : Path) (act : String → IO α) : IO (Except FileError α) := do
  if p.text.contains '\x00' then return .error ⟨.nullCharacter, p.text⟩
  try return .ok (← act (String.ofList p.text))
  catch e => return .error ⟨← causeOf e, p.text⟩

def readPath (p : Path) : IO (Except FileError Bytes) :=
  onPath p fun name => return (← IO.FS.readBinFile name).toList

def makeFolder (p : Path) : IO (Except FileError Unit) := onPath p fun name => IO.FS.createDir name

def orFolder (p : Path) (e : FileError) : IO (Except FileError Unit) := do
  let isFolder ← ((← IO.currentDir) / String.ofList p.text).isDir
  return if isFolder then .ok () else .error e

partial def makeFolders (p : Path) : IO (Except FileError Unit) := do
  match ← makeFolder p with
  | .ok () => return .ok ()
  | .error e =>
    if e.cause = .missing then
      if p.parts.isEmpty then return .error e
      match ← makeFolders p.parent with
      | .ok () =>
        match ← makeFolder p with
        | .ok () => return .ok ()
        | .error e => orFolder p e
      | stopped => return stopped
    else orFolder p e

def writePath (p : Path) (content : Bytes) : IO (Except FileError Unit) := do
  match ← makeFolders p.parent with
  | .error e => return .error e
  | .ok () => onPath p fun name => IO.FS.writeBinFile name ⟨content.toArray⟩

def number (width n : Nat) : Text :=
  let ds := ofNat n
  List.replicate (width - ds.length) '0' ++ ds

def stampOf (t : Std.Time.PlainDateTime) : Text :=
  number 4 t.date.year.toInt.toNat ++ '-' :: number 2 t.date.month.toNat ++
    '-' :: number 2 t.date.day.toNat ++ ' ' :: number 2 t.time.hour.toNat ++
    ':' :: number 2 t.time.minute.toNat ++ ':' :: number 2 t.time.second.toNat ++
    ',' :: number 3 (t.time.nanosecond.toNat / 1000000)

def clockSince (start : Nat) : IO Run.Clock := do
  let elapsed : Duration := ⟨((← IO.monoNanosNow) - start) / 1000⟩
  return { stamp := stampOf (← Std.Time.PlainDateTime.now), elapsed := elapsed.text 3 }

def logFile : IO Text := do
  let surroundings : Surroundings :=
    { platform := .other
      isInstalled := false
      project := (Path.parse (toString (← IO.appPath)).toList).parent
      home := .parse ((← IO.getEnv "HOME").getD "").toList
      profile := .parse ((← IO.getEnv "USERPROFILE").getD "").toList
      temporary := .parse "/tmp".toList }
  let folder ← match ← makeFolders surroundings.preferredLogFolder with
    | .ok () => pure surroundings.preferredLogFolder
    | .error _ => do
      discard (makeFolders surroundings.temporaryLogFolder)
      pure surroundings.temporaryLogFolder
  return (folder.child "email_formatter.log".toList).text

def breakOff {α : Type} (e : FileError) : IO α := throw (.userError (String.ofList e.message))

def draftWith (c : Config) (a : Arguments) : IO Draft := do
  if a.readsStandardInput then
    let source := decodeUtf8Lossy (← (← IO.getStdin).readBinToEnd).toList
    return .ofText Report.analyze c (unifiedBreaks source)
  match ← readPath (.parse a.input) with
  | .ok bytes => return .ofDocument Report.analyze c a.input (decoded bytes).1 (decoded bytes).2
  | .error e => if e.cause = .nullCharacter then breakOff e else return .unreadable a.input e

def draftOf (a : Arguments) : IO Draft :=
  match a.options.config with
  | .error e => return .unsettled e
  | .ok c => draftWith c a

def outcomeOf (logFile : Text) (a : Arguments) : IO Outcome := do
  let d ← draftOf a
  let notes := .logFile logFile :: d.notes
  match d.result, a.options.output with
  | .error code, _ => return a.outcome code notes []
  | .ok html, none => return a.outcome successCode notes html
  | .ok html, some path =>
    let p := Path.parse path
    match ← writePath p (encodeUtf8 html) with
    | .ok () => return a.savedOutcome notes p html.length none
    | .error e => if e.cause = .nullCharacter then breakOff e else
      return a.savedOutcome notes p html.length (some e)

def conclude (logFile : Text) (start : Nat) (o : Outcome) : IO UInt32 := do
  let clock ← clockSince start
  unless o.notes.isEmpty do
    let log ← IO.FS.Handle.mk (String.ofList logFile) .append
    log.putStr (String.ofList (o.notes.flatMap fun n => n.line clock ++ ['\n']))
  IO.eprint (String.ofList (o.standardErrors clock))
  IO.print (String.ofList (o.standardOutput clock))
  (← IO.getStdout).flush
  return .ofNat o.code

end MailMarkup.Main

open MailMarkup MailMarkup.CommandLine MailMarkup.Main in
def main (words : List String) : IO UInt32 := do
  let start ← IO.monoNanosNow
  match Request.parse (words.map String.toList) with
  | .error e => conclude [] start (usageOutcome e)
  | .ok .help => conclude [] start helpOutcome
  | .ok .window => do
    let path ← logFile
    conclude path start (windowOutcome path)
  | .ok (.format a) => do
    let path ← logFile
    conclude path start (← outcomeOf path a)
