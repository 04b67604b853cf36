import MailMarkup.Report.Content
import MailMarkup.Run.Stage

namespace MailMarkup.Run

open Text Markup

inductive Level where
  | debug
  | info
  | warning
  | error
  deriving DecidableEq, Repr

namespace Level

def name : Level → Text
  | debug => "DEBUG".toList
  | info => "INFO".toList
  | warning => "WARNING".toList
  | error => "ERROR".toList

def rank : Level → Nat
  | debug => 0
  | info => 1
  | warning => 2
  | error => 3

end Level

structure Clock where
  stamp : Text
  elapsed : Text

inductive Note where
  | heightsStripped (count : Nat)
  | tablesNormalized (count : Nat)
  | preheaderWithoutTable
  | balanceWithoutTable
  | imagesEnhanced (count rebased : Nat)
  | cellsCollapsed (count : Nat)
  | spanningRowsSkipped (count : Nat)
  | rowsWrapped (count : Nat)
  | spansRemoved (count : Nat)
  | linkKept (href : Text) (problem : Link.Problem)
  | linksTagged (count failed : Nat)
  | spacesTidied (before behind : Nat)
  | backgroundsAdded (count : Nat)
  | documentKept
  | headInserted
  | documentWrapped
  | stageFailed (stage : Stage) (fault : Fault)
  | contentReported (content : Report.Content)
  | reportFailed (rejection : Report.Rejection)
  | formatted (before behind completed stages warnings : Nat)
  | warned (message : Text)
  | summarized (content : Report.Content)
  | invalidSettings (message : Text)
  | invalidInput (message : Text)
  | unreadable (path message : Text)
  | unwritable (path message : Text)
  | decodedAs (path encoding : Text)
  | undecodable (path : Text)
  | saved (length : Nat) (path : Text)
  | logFile (path : Text)
  | windowStarting
  | windowMissing

def commandSource : Text := "main".toList

namespace Note

def level : Note → Level
  | preheaderWithoutTable | balanceWithoutTable | linkKept .. | stageFailed .. | reportFailed _
  | warned _ | undecodable _ => .warning
  | formatted .. | summarized _ | saved .. | windowStarting => .info
  | invalidSettings _ | invalidInput _ | unreadable .. | unwritable .. | windowMissing => .error
  | _ => .debug

def source : Note → Text
  | heightsStripped _ | tablesNormalized _ => "core.table_normalizer".toList
  | preheaderWithoutTable | balanceWithoutTable => "core.hidden_text".toList
  | imagesEnhanced .. => "core.image_enhancer".toList
  | cellsCollapsed _ | spansRemoved _ => "core.cell_cleanup".toList
  | spanningRowsSkipped _ | rowsWrapped _ => "core.column_wrapper".toList
  | linkKept .. | linksTagged .. => "core.link_tagger".toList
  | spacesTidied .. => "core.whitespace".toList
  | backgroundsAdded _ => "core.outlook_background".toList
  | documentKept | headInserted | documentWrapped => "core.document_wrapper".toList
  | contentReported _ => "core.content_report".toList
  | stageFailed .. | reportFailed _ | formatted .. => "core.formatter_pipeline".toList
  | decodedAs .. | undecodable _ | saved .. => "utils.file_utils".toList
  | warned _ | summarized _ | invalidSettings _ | invalidInput _ | unreadable .. | unwritable ..
  | logFile _ | windowStarting | windowMissing => commandSource

def stageFailedOpening (s : Stage) : Text := "Stage ".toList ++ s.name ++ " failed".toList

def stageFailedText (s : Stage) (problem : Text) : Text :=
  stageFailedOpening s ++ " and was skipped: ".toList ++ problem

def windowProblem : Text := "No module named 'tkinter'".toList

def message (clock : Clock) : Note → Text
  | heightsStripped n => "Stripped height from ".toList ++ ofNat n ++ " table(s)".toList
  | tablesNormalized n => "Normalized ".toList ++ ofNat n ++ " table(s)".toList
  | preheaderWithoutTable => "No <table> found - preheader not injected".toList
  | balanceWithoutTable => "No <table> found - balance text not injected".toList
  | imagesEnhanced n r =>
    "Enhanced ".toList ++ ofNat n ++ " image(s), rebased ".toList ++ ofNat r ++
      " source(s)".toList
  | cellsCollapsed n => "Collapsed ".toList ++ ofNat n ++ " image-only cell(s)".toList
  | spanningRowsSkipped n =>
    "Skipped ".toList ++ ofNat n ++ " multi-column row(s) declaring colspan".toList
  | rowsWrapped n => "Wrapped ".toList ++ ofNat n ++ " multi-column row(s)".toList
  | spansRemoved n => "Removed ".toList ++ ofNat n ++ " no-op colspan(s)".toList
  | linkKept href p =>
    "Could not parse link, left unchanged: ".toList ++ href.take 100 ++ " (".toList ++ p.message ++
      [')']
  | linksTagged n k =>
    "Tagged ".toList ++ ofNat n ++ " link(s), ".toList ++ ofNat k ++ " left unchanged".toList
  | spacesTidied a b =>
    "Whitespace tidy: ".toList ++ ofNat a ++ " -> ".toList ++ ofNat b ++ " chars".toList
  | backgroundsAdded n => "Added bgcolor to ".toList ++ ofNat n ++ " cell(s)".toList
  | documentKept => "Input is a full document - only updating <body>".toList
  | headInserted => "Inserted missing <head> into existing document".toList
  | documentWrapped => "Wrapped fragment in a new document shell".toList
  | stageFailed s f => stageFailedText s f.message
  | contentReported c => "Content report: ".toList ++ c.summary
  | reportFailed r => "Content report failed: ".toList ++ r.message
  | formatted a b done stages warnings =>
    "Formatted ".toList ++ ofNat a ++ " -> ".toList ++ ofNat b ++ " chars in ".toList ++
      clock.elapsed ++ "s (".toList ++ ofNat done ++ ['/'] ++ ofNat stages ++ " stages, ".toList ++
      ofNat warnings ++ " warning(s))".toList
  | warned m => m
  | summarized c => c.summary
  | invalidSettings m => "Invalid settings: ".toList ++ m
  | invalidInput m => "Invalid input: ".toList ++ m
  | unreadable path m => "Could not read ".toList ++ path ++ ": ".toList ++ m
  | unwritable path m => "Could not write ".toList ++ path ++ ": ".toList ++ m
  | decodedAs path encoding => "Read ".toList ++ path ++ " as ".toList ++ encoding
  | undecodable path =>
    "Could not decode ".toList ++ path ++ " cleanly, replacing invalid bytes".toList
  | saved n path => "Saved ".toList ++ ofNat n ++ " chars to ".toList ++ path
  | logFile path => "Log file location: ".toList ++ path
  | windowStarting => "Starting Email Template Formatter".toList
  | windowMissing => "Import error: ".toList ++ windowProblem

def reaches (threshold : Level) (n : Note) : Bool := threshold.rank ≤ n.level.rank

def line (clock : Clock) (n : Note) : Text :=
  join " - ".toList [clock.stamp, n.source, n.level.name, n.message clock]

end Note

def changes (es : Except Fault (List (Option Text))) : Option Nat :=
  es.toOption.map fun es => es.countP (·.isSome)

def countNote (note : Nat → Note) (n : Option Nat) : List Note := (n.map note).toList

def unlessZero (note : Nat → Note) (n : Nat) : List Note := if n = 0 then [] else [note n]

def missingTable (note : Note) (place : Option Token) (t : Text) : List Note :=
  if allBlank t || place.isSome then [] else [note]

def columnNotes (html : Text) : List Note :=
  unlessZero .spanningRowsSkipped (Table.spanningRows html).length ++
    unlessZero .rowsWrapped (Table.wrappedRows html).length

def linkNotes (c : Link.Campaign) (html : Text) : List Note :=
  if c.isEmpty then []
  else
    let failed := Link.failures c html
    failed.map (fun (href, p) => .linkKept href p) ++
      [.linksTagged ((Link.edits c html).countP (·.isSome)) failed.length]

def tidyNotes (html : Text) : List Note :=
  if html.isEmpty then [] else [.spacesTidied html.length (Spacing.tidy html).length]

def documentNotes (html : Text) : List Note :=
  if Document.isFull html then
    .documentKept ::
      match Document.withBodyTag html, Document.complete html [] with
      | .ok html, .ok _ => if Document.lacksHead html then [.headInserted] else []
      | _, _ => []
  else match Document.complete html [] with
    | .ok _ => [.documentWrapped]
    | .error _ => []

def Stage.notes (c : Config) (s : Stage) (html : Text) : List Note :=
  match s with
  | .stripHeights => countNote .heightsStripped (changes (Table.heightEdits html))
  | .normalizeTables => countNote .tablesNormalized (changes (Table.normalEdits c.layout html))
  | .injectPreheader =>
    missingTable .preheaderWithoutTable (findOpening? html Table.name) c.preheader
  | .injectBalanceText =>
    missingTable .balanceWithoutTable (HiddenText.balancePlace? html) c.balance
  | .enhanceImages =>
    countNote (.imagesEnhanced · (Image.rebasedCount c html)) (changes (Image.edits c html))
  | .collapseImageCells =>
    match Table.collapseImageCells html with
    | .ok _ => unlessZero .cellsCollapsed (Table.imageCells html).length
    | .error _ => []
  | .wrapColumns => columnNotes html
  | .cleanColspans => [.spansRemoved ((Table.spanEdits html).countP (·.isSome))]
  | .tagLinks => linkNotes c.campaign html
  | .tidyWhitespace => tidyNotes html
  | .propagateBackgrounds => countNote .backgroundsAdded (changes (Background.edits html))
  | .wrapDocument => documentNotes html

end MailMarkup.Run
