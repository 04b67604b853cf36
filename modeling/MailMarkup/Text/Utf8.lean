import MailMarkup.Text.Basic

namespace MailMarkup.Text

abbrev Bytes := List UInt8

def utf8Char (c : Char) : Bytes :=
  let n := c.toNat
  let tail (n : Nat) : UInt8 := .ofNat (0x80 + n % 0x40)
  if n < 0x80 then [.ofNat n]
  else if n < 0x800 then [.ofNat (0xC0 + n / 0x40), tail n]
  else if n < 0x10000 then [.ofNat (0xE0 + n / 0x1000), tail (n / 0x40), tail n]
  else [.ofNat (0xF0 + n / 0x40000), tail (n / 0x1000), tail (n / 0x40), tail n]

def encodeUtf8 (t : Text) : Bytes := t.flatMap utf8Char

/-- What a string is given with: characters, and halves of pairs, which are what a byte that is no
UTF-8 is given as. No UTF-8 stands for a half. -/
inductive CodePoint where
  | scalar (c : Char)
  | half (n : Fin 2048)
  deriving DecidableEq

def scalars? : List CodePoint → Option Text
  | [] => some []
  | .scalar c :: s => (scalars? s).map (c :: ·)
  | .half _ :: _ => none

@[simp] theorem scalars?_map (t : Text) : scalars? (t.map .scalar) = some t := by
  induction t with
  | nil => rfl
  | cons c t ih => rw [List.map_cons, scalars?, ih, Option.map_some]

theorem scalars?_eq_none {s : List CodePoint} {n : Fin 2048} (h : .half n ∈ s) :
    scalars? s = none := by
  induction s with
  | nil => cases h
  | cons d s ih =>
    cases d with
    | half => rfl
    | scalar c => rw [scalars?, ih ((List.mem_cons.1 h).resolve_left nofun), Option.map_none]

namespace Utf8

inductive State where
  | ground
  | inside (bits more low high : Nat)

abbrev Output := List (Option Char)

def start (b : Nat) : Output × State :=
  if b < 0x80 then ([some (.ofNat b)], .ground)
  else if b < 0xC2 then ([none], .ground)
  else if b < 0xE0 then ([], .inside (b - 0xC0) 0 0x80 0xBF)
  else if b < 0xF0 then
    ([], .inside (b - 0xE0) 1 (if b = 0xE0 then 0xA0 else 0x80) (if b = 0xED then 0x9F else 0xBF))
  else if b < 0xF5 then
    ([], .inside (b - 0xF0) 2 (if b = 0xF0 then 0x90 else 0x80) (if b = 0xF4 then 0x8F else 0xBF))
  else ([none], .ground)

def step : State → Nat → Output × State
  | .ground, b => start b
  | .inside bits more low high, b =>
    if low ≤ b ∧ b ≤ high then
      let bits := bits * 64 + b % 64
      match more with
      | 0 => ([some (.ofNat bits)], .ground)
      | k + 1 => ([], .inside bits k 0x80 0xBF)
    else
      let (out, s) := start b
      (none :: out, s)

def run : State → Bytes → Output
  | .ground, [] => []
  | .inside .., [] => [none]
  | s, b :: bs => (step s b.toNat).1 ++ run (step s b.toNat).2 bs

end Utf8

def decodeUtf8? (bs : Bytes) : Option Text := (Utf8.run .ground bs).mapM id

def decodeUtf8Lossy (bs : Bytes) : Text := (Utf8.run .ground bs).map (·.getD '\uFFFD')

end MailMarkup.Text
