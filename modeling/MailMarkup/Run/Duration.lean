import MailMarkup.Text.Fixed

namespace MailMarkup.Run

open Text

structure Moment where
  micros : Nat
  deriving DecidableEq, Repr

namespace Moment

def isLeapYear (y : Nat) : Bool := y % 4 == 0 && (y % 100 != 0 || y % 400 == 0)

def monthLengths (y : Nat) : List Nat :=
  [31, if isLeapYear y then 29 else 28, 31, 30, 31, 30, 31, 31, 30, 31, 30, 31]

def daysBefore (y : Nat) : Nat := (y - 1) * 365 + (y - 1) / 4 - (y - 1) / 100 + (y - 1) / 400

def dayNumber? (y m d : Nat) : Option Nat := do
  guard (1 ≤ y ∧ 1 ≤ m ∧ 1 ≤ d)
  guard (d ≤ (monthLengths y).getD (m - 1) 0)
  return daysBefore y + ((monthLengths y).take (m - 1)).foldl (· + ·) 0 + (d - 1)

def number? (width : Nat) (t : Text) : Option Nat := do
  guard (t.length = width ∧ t.all Char.isDigit)
  return t.foldl (fun n c => n * 10 + (c.toNat - '0'.toNat)) 0

def date? (t : Text) : Option Nat := do
  match splitOn '-' t with
  | [y, m, d] => dayNumber? (← number? 4 y) (← number? 2 m) (← number? 2 d)
  | _ => none

def fraction? (t : Text) : Option Nat := do
  guard (!t.isEmpty && t.all Char.isDigit)
  number? 6 ((t ++ "00000".toList).take 6)

def clock? (hour minute second micro : Nat) : Option Nat := do
  guard (hour < 24 ∧ minute < 60 ∧ second < 60)
  return ((hour * 60 + minute) * 60 + second) * 1000000 + micro

def timeOfDay? (t : Text) : Option Nat := do
  let (whole, fraction) := breakAt '.' t
  match ← (splitOn ':' whole).mapM (number? 2), fraction with
  | [h], none => clock? h 0 0 0
  | [h, m], none => clock? h m 0 0
  | [h, m, s], none => clock? h m s 0
  | [h, m, s], some f => clock? h m s (← fraction? f)
  | _, _ => none

def microsPerDay : Nat := 24 * 60 * 60 * 1000000

def parse? (t : Text) : Option Moment := do
  let day ← date? (t.take 10)
  let time ← match t.drop 10 with
    | [] => some 0
    | _ :: r => timeOfDay? r
  return ⟨day * microsPerDay + time⟩

end Moment

structure Duration where
  micros : Int
  deriving DecidableEq, Repr

namespace Duration

def between (start stop : Moment) : Duration := ⟨stop.micros - start.micros⟩

def ofMoments : Option Moment → Option Moment → Duration
  | some start, some stop => between start stop
  | _, _ => ⟨0⟩

def precision : Nat := 53

def scaledSeconds (micros : Nat) : Nat × Nat :=
  let doublings := precision - 1 - (micros / 1000000).log2
  (nearest (micros * Nat.pow 2 doublings) 1000000, doublings)

def text (places : Nat) (d : Duration) : Text :=
  let (n, doublings) := scaledSeconds d.micros.natAbs
  let digits := fixed places n (Nat.pow 2 doublings)
  if d.micros < 0 then '-' :: digits else digits

end Duration

end MailMarkup.Run
