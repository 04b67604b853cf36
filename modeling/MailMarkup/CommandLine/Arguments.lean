import MailMarkup.CommandLine.Switch
import MailMarkup.Settings

namespace MailMarkup.CommandLine

open Text

inductive UsageError where
  | ambiguous (word : Text) (names : List Text)
  | valueMissing (s : Switch)
  | valueUnasked (s : Switch) (value : Text)
  | notNumber (s : Switch) (value : Text)
  | notOffered (s : Switch) (n : Int)
  | inputMissing
  | unrecognized (words : List Text)
  deriving DecidableEq, Repr

namespace UsageError

def about (s : Switch) (problem : Text) : Text :=
  "argument ".toList ++ s.label ++ ": ".toList ++ problem

def message : UsageError → Text
  | ambiguous word names =>
    "ambiguous option: ".toList ++ word ++ " could match ".toList ++ join ", ".toList names
  | valueMissing s => about s "expected one argument".toList
  | valueUnasked s v => about s ("ignored explicit argument ".toList ++ quoted v)
  | notNumber s v => about s ("invalid int value: ".toList ++ quoted v)
  | notOffered s n =>
    about s ("invalid choice: ".toList ++ ofInt n ++ " (choose from 600, 650)".toList)
  | inputMissing => "the following arguments are required: input".toList
  | unrecognized ws => "unrecognized arguments: ".toList ++ join [' '] ws

end UsageError

structure Options where
  output : Option Text := none
  imageBase : Text := []
  preheader : Text := []
  balance : Text := []
  medium : Text := []
  campaign : Text := []
  responsive : Bool := false
  size : Option Size := some .px650
  wrapColumns : Bool := false
  verbose : Bool := false
  deriving DecidableEq, Repr

namespace Options

def settings (o : Options) : Settings where
  imageBase := .text o.imageBase
  preheader := .text o.preheader
  balance := .text o.balance
  medium := .text o.medium
  campaign := .text o.campaign
  responsive := .bool o.responsive
  width := match o.size with
    | some size => .int size.pixels
    | none => .list []
  wrapColumns := .bool o.wrapColumns

def config (o : Options) : Except SettingsError Config := o.settings.toConfig

def sizeOf (v : Text) : Except UsageError Size :=
  match integer? v with
  | none => .error (.notNumber .width v)
  | some 600 => .ok .px600
  | some 650 => .ok .px650
  | some n => .error (.notOffered .width n)

def set (o : Options) (s : Switch) (v : Text) : Except UsageError Options :=
  match s with
  | .output => .ok { o with output := some v }
  | .imageBase => .ok { o with imageBase := v }
  | .preheader => .ok { o with preheader := v }
  | .balance => .ok { o with balance := v }
  | .medium => .ok { o with medium := v }
  | .campaign => .ok { o with campaign := v }
  | .width => (sizeOf v).map fun size => { o with size := some size }
  | .help | .responsive | .wrapColumns | .verbose => .error (.valueUnasked s v)

def clear (o : Options) : Switch → Options
  | .output => { o with output := none }
  | .imageBase => { o with imageBase := [] }
  | .preheader => { o with preheader := [] }
  | .balance => { o with balance := [] }
  | .medium => { o with medium := [] }
  | .campaign => { o with campaign := [] }
  | .width => { o with size := none }
  | .help | .responsive | .wrapColumns | .verbose => o

def assign (o : Options) (s : Switch) (v : Text) : Except UsageError Options :=
  if v = "--".toList then .ok (o.clear s) else o.set s v

def turnOn (o : Options) : Switch → Options
  | .responsive => { o with responsive := true }
  | .wrapColumns => { o with wrapColumns := true }
  | .verbose => { o with verbose := true }
  | _ => o

end Options

structure Arguments where
  input : Text
  options : Options
  deriving DecidableEq, Repr

inductive Request where
  | window
  | help
  | format (a : Arguments)
  deriving DecidableEq, Repr

structure Reading where
  options : Options := {}
  input : Option Text := none
  isFresh : Bool := false
  strays : List Text := []

namespace Reading

def stray (r : Reading) (t : Text) : Reading :=
  { r with strays := r.strays ++ [t], isFresh := false }

def plain (r : Reading) (t : Text) : Reading :=
  if r.input.isNone then { r with input := some t, isFresh := true } else r.stray t

def separator (r : Reading) (next : Option Word) : Reading :=
  if r.isFresh || (r.input.isNone && next.any Word.isPlain) then { r with isFresh := false }
  else r.stray "--".toList

def withOptions (r : Reading) (options : Options) : Reading :=
  { r with options, isFresh := false }

def finish (r : Reading) : Except UsageError Arguments :=
  match r.input with
  | none => .error .inputMissing
  | some input =>
    if r.strays.isEmpty then .ok ⟨input, r.options⟩ else .error (.unrecognized r.strays)

end Reading

def checkBundle (s : Switch) (next : Option Word) : Text → Except UsageError Unit
  | [] => .error (.valueUnasked s [])
  | c :: r =>
    match Switch.ofName? ['-', c] with
    | none => .error (.valueUnasked s (c :: r))
    | some s =>
      if s.takesValue then
        if r.isEmpty && !next.any Word.isPlain then .error (.valueMissing s) else .ok ()
      else if r.isEmpty then .ok ()
      else checkBundle s next r

def readWords (st : Reading) : List Word → Except UsageError (Option Reading)
  | [] => .ok (some st)
  | .plain t :: ws => readWords (st.plain t) ws
  | .separator :: ws => readWords (st.separator ws.head?) ws
  | .unknown t :: ws => readWords (st.stray t) ws
  | .switch s a :: ws =>
    if s.takesValue then
      match a, ws with
      | .nothing, .plain v :: ws => do readWords (st.withOptions (← st.options.set s v)) ws
      | .nothing, _ => .error (.valueMissing s)
      | .assigned v, ws => do readWords (st.withOptions (← st.options.assign s v)) ws
      | .joined v, ws => do readWords (st.withOptions (← st.options.assign s v)) ws
    else match a with
      | .nothing =>
        if s = .help then .ok none else readWords (st.withOptions (st.options.turnOn s)) ws
      | .assigned v => .error (.valueUnasked s v)
      | .joined v => (checkBundle s ws.head? v).map fun _ => none

def words : List Text → Except UsageError (List Word)
  | [] => .ok []
  | t :: ts =>
    if t = "--".toList then .ok (.separator :: ts.map .plain)
    else match Word.ofText t with
      | .error names => .error (.ambiguous t names)
      | .ok w => (words ts).map (w :: ·)

/-- An ambiguous word comes before all other errors, which come from left to right. -/
def Request.parse (ts : List Text) : Except UsageError Request := do
  if ts.isEmpty then return .window
  match ← readWords {} (← words ts) with
  | none => return .help
  | some r => return .format (← r.finish)

end MailMarkup.CommandLine
