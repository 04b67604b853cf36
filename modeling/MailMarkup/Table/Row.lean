import MailMarkup.Table.Cell

namespace MailMarkup.Table

open Text Markup

/-- A row of a table; tables are numbered in the order in which they open. A row that is never
closed has no end. -/
structure Row where
  table : Nat
  start : Nat
  stop : Option Nat
  cells : Nat
  spans : Bool
  deriving DecidableEq, Repr

structure Frame where
  table : Nat
  row : Option Nat
  deriving DecidableEq, Repr

structure Walk where
  rows : List Row
  frames : List Frame
  tables : Nat
  deriving DecidableEq, Repr

namespace Walk

def start : Walk := ⟨[], [], 0⟩

def openTable (w : Walk) : Walk :=
  { w with frames := ⟨w.tables, none⟩ :: w.frames, tables := w.tables + 1 }

def closeTable (w : Walk) : Walk := { w with frames := w.frames.tail }

def openRow (w : Walk) (place : Nat) : Walk :=
  match w.frames with
  | [] => w
  | f :: fs =>
    { w with
      rows := w.rows ++ [⟨f.table, place, none, 0, false⟩]
      frames := { f with row := some w.rows.length } :: fs }

def closeRow (w : Walk) (place : Nat) : Walk :=
  match w.frames with
  | { row := some i, table } :: fs =>
    { w with
      rows := w.rows.modify i fun r => { r with stop := some place }
      frames := ⟨table, none⟩ :: fs }
  | _ => w

def openCell (w : Walk) (spans : Bool) : Walk :=
  match w.frames with
  | { row := some i, .. } :: _ =>
    { w with
      rows := w.rows.modify i fun r => { r with cells := r.cells + 1, spans := r.spans || spans } }
  | _ => w

def step (w : Walk) (t : Token) : Walk :=
  if t.name = "table".toList then
    if t.closing then w.closeTable else w.openTable
  else if t.name = "tr".toList then
    if t.closing then w.closeRow t.stop else w.openRow t.start
  else if t.closing then w
  else w.openCell ((Attributes.parse t.attrs).has colspan)

end Walk

def structureNames : List Text := ["table".toList, "tr".toList, cellName, headerCellName]

def rows (html : Text) : List Row :=
  ((tokens structureNames html).foldl Walk.step .start).rows

def rowCount (rs : List Row) (table : Nat) : Nat := rs.countP (·.table == table)

theorem rowCount_append (rs ss : List Row) (table : Nat) :
    rowCount (rs ++ ss) table = rowCount rs table + rowCount ss table := List.countP_append

theorem rowCount_cons (r : Row) (rs : List Row) (table : Nat) :
    rowCount (r :: rs) table = rowCount rs table + if r.table = table then 1 else 0 := by
  simp [rowCount, List.countP_cons]

def tablesOf (rs : List Row) : List Nat := (rs.map (·.table)).eraseDups

end MailMarkup.Table
