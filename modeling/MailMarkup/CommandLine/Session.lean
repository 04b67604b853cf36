import MailMarkup.CommandLine.Help
import MailMarkup.Files.Document
import MailMarkup.Run.Examination

namespace MailMarkup.CommandLine

open Text Files Run

inductive Channel where
  | output
  | errors
  deriving DecidableEq, Repr

structure Outcome where
  code : Nat
  notes : List Note := []
  channel : Channel := .errors
  threshold : Level := .info
  output : Text := []
  errors : Text := []

namespace Outcome

def shown (clock : Clock) (o : Outcome) : Text :=
  (o.notes.filter (Note.reaches o.threshold)).flatMap fun n => n.line clock ++ ['\n']

def standardOutput (clock : Clock) (o : Outcome) : Text :=
  (if o.channel = .output then o.shown clock else []) ++ o.output

def standardErrors (clock : Clock) (o : Outcome) : Text :=
  (if o.channel = .errors then o.shown clock else []) ++ o.errors

def commandNotes (o : Outcome) : List Note :=
  o.notes.filter fun n => n.source = commandSource && n.reaches .info

end Outcome

def successCode : Nat := 0

def fileErrorCode : Nat := 1

def inputErrorCode : Nat := 2

def windowOutcome (logFile : Text) : Outcome where
  code := fileErrorCode
  notes := [.logFile logFile, .windowStarting, .windowMissing]
  channel := .output
  output := "\nError: Missing required module: ".toList ++ Note.windowProblem ++
    "\nPlease install dependencies with: pip install -e .\n".toList

def helpOutcome : Outcome where
  code := successCode
  output := help

def usageOutcome (e : UsageError) : Outcome where
  code := inputErrorCode
  errors := e.report

structure Draft where
  notes : List Note
  result : Except Nat Text

namespace Draft

variable (analyze : Report.Analysis)

def ofText (c : Config) (source : Text) : Draft :=
  match formatBy analyze c source with
  | .error e => ⟨[.invalidInput e.message], .error inputErrorCode⟩
  | .ok r =>
    ⟨r.notes c source ++ r.warnings.map .warned ++
      (r.report.toOption.map .summarized).toList, .ok r.html⟩

def encodingNotes (path : Text) : Encoding → List Note
  | .utf8 => []
  | .brokenUtf8 => [.undecodable path]
  | e => [.decodedAs path e.name]

def ofDocument (c : Config) (path source : Text) (e : Encoding) : Draft :=
  let d := ofText analyze c source
  { d with notes := encodingNotes path e ++ d.notes }

def unreadable (path : Text) (e : FileError) : Draft :=
  ⟨[.unreadable path e.message], .error fileErrorCode⟩

def unsettled (e : SettingsError) : Draft :=
  ⟨[.invalidSettings e.message], .error inputErrorCode⟩

end Draft

namespace Arguments

def readsStandardInput (a : Arguments) : Bool := a.input = ['-']

def threshold (a : Arguments) : Level := if a.options.verbose then .debug else .info

def outcome (a : Arguments) (code : Nat) (notes : List Note) (output : Text) : Outcome :=
  { code, notes, output, threshold := a.threshold }

def savedOutcome (a : Arguments) (notes : List Note) (p : Path) (length : Nat) :
    Option FileError → Outcome
  | none => a.outcome successCode (notes ++ [.saved length p.text]) []
  | some e => a.outcome fileErrorCode (notes ++ [.unwritable p.text e.message]) []

def brokenOutcome (a : Arguments) (notes : List Note) : Outcome :=
  { a.outcome fileErrorCode notes [] with
    errors := "UnicodeEncodeError: surrogates not allowed\n".toList }

end Arguments

def unifiedBreaks : Text → Text
  | '\r' :: '\n' :: r => '\n' :: unifiedBreaks r
  | c :: r => (if c = '\r' then '\n' else c) :: unifiedBreaks r
  | [] => []

structure Session where
  logFile : Text
  standardInput : Text

namespace Session

variable (analyze : Report.Analysis)

def draft (s : Session) (t : Tree) (a : Arguments) : Except FileError Draft :=
  match a.options.config with
  | .error e => .ok (.unsettled e)
  | .ok c =>
    if a.readsStandardInput then .ok (.ofText analyze c (unifiedBreaks s.standardInput))
    else match t.readDocument (.parse a.input) with
      | .ok (source, e) => .ok (.ofDocument analyze c a.input source e)
      | .error e => if e.cause = .nullCharacter then .error e else .ok (.unreadable a.input e)

def write (t : Tree) (a : Arguments) (notes : List Note) (html : List CodePoint) (path : Text) :
    Except FileError (Outcome × Tree) :=
  let p := Path.parse path
  match t.writeString p html with
  | (_, some (.file ⟨.nullCharacter, path⟩)) => .error ⟨.nullCharacter, path⟩
  | (t, some (.file e)) => .ok (a.savedOutcome notes p html.length (some e), t)
  | (t, some .half) => .ok (a.brokenOutcome notes, t)
  | (t, none) => .ok (a.savedOutcome notes p html.length none, t)

def deliver (t : Tree) (a : Arguments) (notes : List Note) (html : List CodePoint) :
    Except FileError (Outcome × Tree) :=
  match a.options.output, scalars? html with
  | some path, _ => write t a notes html path
  | none, some html => .ok (a.outcome successCode notes html, t)
  | none, none => .ok (a.brokenOutcome notes, t)

def format (s : Session) (t : Tree) (a : Arguments) : Except FileError (Outcome × Tree) := do
  let d ← s.draft analyze t a
  let notes := .logFile s.logFile :: d.notes
  match d.result with
  | .error code => return (a.outcome code notes [], t)
  | .ok html => deliver t a notes (html.map .scalar)

def runBy (s : Session) (t : Tree) (words : List Text) : Except FileError (Outcome × Tree) :=
  match Request.parse words with
  | .error e => .ok (usageOutcome e, t)
  | .ok .window => .ok (windowOutcome s.logFile, t)
  | .ok .help => .ok (helpOutcome, t)
  | .ok (.format a) => s.format analyze t a

def run (s : Session) (t : Tree) (words : List Text) : Except FileError (Outcome × Tree) :=
  s.runBy Report.analyze t words

end Session

end MailMarkup.CommandLine
