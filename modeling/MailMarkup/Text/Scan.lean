import MailMarkup.Text.Basic

namespace MailMarkup.Text

inductive Piece (α : Type) where
  | char (c : Char)
  | hit (value : α) (source : Text)

namespace Piece

def source : Piece α → Text
  | char c => [c]
  | hit _ s => s

def value? : Piece α → Option α
  | char _ => none
  | hit a _ => some a

end Piece

abbrev Recogniser (α : Type) := Text → Option (α × Nat)

def scanFrom (f : Recogniser α) : Nat → Text → List (Piece α)
  | _, [] => []
  | n + 1, _ :: r => scanFrom f n r
  | 0, c :: r =>
    match f (c :: r) with
    | none => .char c :: scanFrom f 0 r
    | some (a, n) => .hit a (c :: r.take n) :: scanFrom f n r

def scan (f : Recogniser α) (t : Text) : List (Piece α) := scanFrom f 0 t

theorem scanFrom_eq_scan_drop (f : Recogniser α) (n : Nat) (t : Text) :
    scanFrom f n t = scan f (t.drop n) := by
  induction t generalizing n with
  | nil => cases n <;> rfl
  | cons c r ih => cases n with
    | zero => rfl
    | succ n => exact ih n

theorem scan_cons_none {f : Recogniser α} {c : Char} {r : Text} (h : f (c :: r) = none) :
    scan f (c :: r) = .char c :: scan f r := by
  simp [scan, scanFrom, h]

theorem scan_cons_some {f : Recogniser α} {c : Char} {r : Text} {a : α} {n : Nat}
    (h : f (c :: r) = some (a, n)) :
    scan f (c :: r) = .hit a (c :: r.take n) :: scan f (r.drop n) := by
  rw [scan, scanFrom, h]
  exact congrArg _ (scanFrom_eq_scan_drop f n r)

theorem flatMap_source_scan (f : Recogniser α) (t : Text) :
    (scan f t).flatMap Piece.source = t := by
  match t with
  | [] => rfl
  | c :: r =>
    match h : f (c :: r) with
    | none =>
      rw [scan_cons_none h, List.flatMap_cons, flatMap_source_scan f r]
      rfl
    | some (a, n) =>
      rw [scan_cons_some h, List.flatMap_cons, flatMap_source_scan f (r.drop n)]
      simp [Piece.source]
termination_by t.length

def hits (f : Recogniser α) (t : Text) : List α := (scan f t).filterMap Piece.value?

def eraseHits (f : Recogniser α) (t : Text) : Text :=
  (scan f t).flatMap fun
    | .char c => [c]
    | .hit .. => []

def spansFrom (start : Nat) : List (Piece α) → List (Nat × Nat)
  | [] => []
  | .char _ :: ps => spansFrom (start + 1) ps
  | .hit _ s :: ps => (start, start + s.length) :: spansFrom (start + s.length) ps

def hitSpans (f : Recogniser α) (t : Text) : List (Nat × Nat) := spansFrom 0 (scan f t)

def findHit (f : Recogniser α) : Text → Option (Text × α × Text)
  | [] => none
  | c :: r =>
    match f (c :: r) with
    | some (a, n) => some ([], a, r.drop n)
    | none => (findHit f r).map fun (before, x) => (c :: before, x)

end MailMarkup.Text
