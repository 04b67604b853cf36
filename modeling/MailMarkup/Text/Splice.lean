import MailMarkup.Text.Basic

namespace MailMarkup.Text

def clampIndex (size : Nat) (i : Int) : Nat :=
  if i < 0 then (size + i).toNat else min i.toNat size

theorem clampIndex_natCast {size n : Nat} (h : n ≤ size) : clampIndex size n = n := by
  unfold clampIndex
  split <;> omega

def upTo (xs : List α) (i : Int) : List α := xs.take (clampIndex xs.length i)

def fromIndex (xs : List α) (i : Int) : List α := xs.drop (clampIndex xs.length i)

def between (xs : List α) (i j : Int) : List α :=
  (xs.take (clampIndex xs.length j)).drop (clampIndex xs.length i)

theorem upTo_natCast (xs : List α) (n : Nat) : upTo xs n = xs.take n := by
  rw [upTo, clampIndex, if_neg (by omega), Int.toNat_natCast, ← List.take_eq_take_min]

def insertAt (t : Text) (i : Int) (addition : Text) : Text :=
  upTo t i ++ addition ++ fromIndex t i

structure Insertion where
  position : Int
  priority : Int
  addition : Text

def Insertion.before (a b : Insertion) : Bool :=
  a.position < b.position || (a.position == b.position && a.priority ≤ b.priority)

def weave (t : Text) (last : Int) : List Insertion → Text
  | [] => fromIndex t last
  | i :: is => between t last i.position ++ i.addition ++ weave t i.position is

/-- Inserts everything at once: all positions are those of the text as given. -/
def splice (t : Text) (is : List Insertion) : Text :=
  match is.mergeSort Insertion.before with
  | [] => t
  | ordered => weave t 0 ordered

end MailMarkup.Text
