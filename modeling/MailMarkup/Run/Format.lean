import MailMarkup.Run.Note
import MailMarkup.Run.Pipeline
import MailMarkup.Text.Fixed

namespace MailMarkup.Run

open Text Markup

inductive Source where
  | text (t : Text)
  | other (kind : Text)
  deriving DecidableEq, Repr

inductive SourceError where
  | notText (kind : Text)
  | blank
  deriving DecidableEq, Repr

def SourceError.message : SourceError → Text
  | notText kind => "Source HTML must be a string, got ".toList ++ kind
  | blank => "Source HTML is empty".toList

def validate : Source → Except SourceError Text
  | .text t => if allBlank t then .error .blank else .ok t
  | .other kind => .error (.notText kind)

def sourceWarnings (c : Config) (html : Text) : List Text :=
  let hidden := !c.preheader.isEmpty || !c.balance.isEmpty
  let relative := Image.relativeCount html
  (if hidden && (findOpening? html Table.name).isNone then
    ["No <table> found - preheader and balance text were not injected".toList] else []) ++
  (if !c.preheader.isEmpty && HiddenText.isPresent html then
    ["Source already contains a hidden preview block - the preheader was added anyway".toList]
    else []) ++
  (if relative != 0 && c.imageBase.isEmpty then
    ["No image base URL set - ".toList ++ ofNat relative ++
      " relative image path(s) left as they are".toList] else [])

structure Progress where
  stage : Option Stage
  current : Nat
  total : Nat
  deriving DecidableEq, Repr

namespace Progress

def stageName (p : Progress) : Text := (p.stage.map (·.name)).getD "complete".toList

def message (p : Progress) : Text :=
  match p.stage with
  | some s => "Running ".toList ++ (s.name.map fun c => if c = '_' then ' ' else c) ++ "...".toList
  | none => "Formatting complete".toList

def percentage (p : Progress) : Text := fixed 6 (p.current * 100) p.total

end Progress

def progressOf (ss : List Stage) : List Progress :=
  (ss.zipIdx.map fun x => ⟨some x.1, x.2, ss.length⟩) ++ [⟨none, ss.length, ss.length⟩]

structure Result (ε : Type := Fault) where
  success : Bool
  html : Text
  outcomes : List (Outcome Stage ε)
  report : Except Report.Rejection Report.Content
  warnings : List Text

def findingsOf : Except Report.Rejection Report.Content → List Text
  | .ok c => c.findings
  | .error _ => []

section

variable (analyze : Report.Analysis) {ε : Type}

def Result.completed (r : Result ε) : List Stage := Run.completed r.outcomes

def resultOf (message : ε → Text) (c : Config) (source html : Text)
    (outcomes : List (Outcome Stage ε)) : Result ε :=
  let report := analyze html
  { success := true, html, outcomes, report
    warnings := sourceWarnings c source ++
      (failures outcomes).map (fun (s, e) => Note.stageFailedText s (message e)) ++
      findingsOf report }

variable {m : Type → Type} [Monad m]

/-- A run over the stages of a configuration, whatever each of them does, with its progress
reported. A source that is blank or no text is refused before anything else is done. -/
def formatWith (report : Progress → m Unit) (apply : Stage → Text → m (Except ε Text))
    (message : ε → Text) (c : Config) (source : Source) : m (Except SourceError (Result ε)) :=
  match validate source with
  | .error e => return .error e
  | .ok source => do
    let ss := Stage.stagesOf c
    let announce (i : Nat) (s : Stage) := report ⟨some s, i, ss.length⟩
    let (html, outcomes) ← runStepsM announce apply 0 ss source
    let r := resultOf analyze message c source html outcomes
    report ⟨none, ss.length, ss.length⟩
    return .ok r

theorem formatWith_refused {source : Source} {e : SourceError} (h : validate source = .error e)
    (report : Progress → m Unit) (apply : Stage → Text → m (Except ε Text)) (message : ε → Text)
    (c : Config) : formatWith analyze report apply message c source = pure (.error e) := by
  rw [formatWith, h]

theorem formatWith_pure [LawfulMonad m] {source : Text} (h : allBlank source = false)
    (report : Progress → m Unit) (apply : Stage → Text → Except ε Text) (message : ε → Text)
    (c : Config) :
    formatWith analyze report (fun s t => pure (apply s t)) message c (.text source) = do
      forM (progressOf (Stage.stagesOf c)) report
      let (html, outcomes) := runSteps apply (Stage.stagesOf c) source
      return .ok (resultOf analyze message c source html outcomes) := by
  have hv : validate (.text source) = .ok source := if_neg (by rw [h]; decide)
  rw [formatWith, hv]
  simp only [runStepsM_pure, progressOf, List.forM_append, List.forM_map, List.forM_cons,
    List.forM_nil, bind_assoc, pure_bind]

end

def formatBy (analyze : Report.Analysis) (c : Config) (source : Text) : Except SourceError Result :=
  Id.run (formatWith analyze (fun _ => pure ()) (fun s t => pure (s.apply c t)) Fault.message c
    (.text source))

def stageNotes (c : Config) (o : Outcome Stage Fault) : List Note :=
  o.step.notes c o.given ++ (o.failure.map (.stageFailed o.step)).toList

def reportNotes : Except Report.Rejection Report.Content → List Note
  | .ok c => [.contentReported c]
  | .error r => [.reportFailed r]

def Result.notes (r : Result) (c : Config) (source : Text) : List Note :=
  r.outcomes.flatMap (stageNotes c) ++ reportNotes r.report ++
    [.formatted source.length r.html.length r.completed.length r.outcomes.length
      r.warnings.length]

end MailMarkup.Run
