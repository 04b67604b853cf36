import MailMarkup.Proofs.Markup.AttributeReading
import MailMarkup.Proofs.Markup.NodePositions
import MailMarkup.Table.Opening
import MailMarkup.Table.Row

namespace MailMarkup.Table

open Text Markup

abbrev PlainText := { t : Text // '<' ∉ t }

abbrev LegalAttributes := { as : Attributes // as.IsLegal }

mutual

inductive Content where
  | nil
  | text (t : PlainText) (rest : Content)
  | table (as : LegalAttributes) (rows : Grid) (rest : Content)

inductive Grid where
  | nil
  | row (as : LegalAttributes) (cells : Cells) (closed : Bool) (rest : Grid)

inductive Cells where
  | nil
  | cell (header : Bool) (as : LegalAttributes) (content : Content) (closed : Bool) (rest : Cells)

end

def rowName : Text := "tr".toList

def cellTagName (header : Bool) : Text := if header then headerCellName else cellName

def opening (name : Text) (as : LegalAttributes) : Node := .tag false name as.1.render

def ending (name : Text) (closed : Bool) : List Node := if closed then [.tag true name []] else []

mutual

def Content.nodes : Content → List Node
  | .nil => []
  | .text t rest => t.1.map .char ++ rest.nodes
  | .table as rows rest =>
    opening name as :: (rows.nodes ++ (ending name true ++ rest.nodes))

def Grid.nodes : Grid → List Node
  | .nil => []
  | .row as cells closed rest =>
    opening rowName as :: (cells.nodes ++ (ending rowName closed ++ rest.nodes))

def Cells.nodes : Cells → List Node
  | .nil => []
  | .cell header as content closed rest =>
    opening (cellTagName header) as ::
      (content.nodes ++ (ending (cellTagName header) closed ++ rest.nodes))

end

def Content.html (c : Content) : Text := sources c.nodes

def Grid.count : Grid → Nat
  | .nil => 0
  | .row _ _ _ rest => rest.count + 1

def Cells.count : Cells → Nat
  | .nil => 0
  | .cell _ _ _ _ rest => rest.count + 1

def Cells.spans : Cells → Bool
  | .nil => false
  | .cell _ as _ _ rest => as.1.has colspan || rest.spans

mutual

def Content.sizes : Content → List Nat
  | .nil => []
  | .text _ rest => rest.sizes
  | .table _ rows rest => rows.count :: (rows.sizes ++ rest.sizes)

def Grid.sizes : Grid → List Nat
  | .nil => []
  | .row _ cells _ rest => cells.sizes ++ rest.sizes

def Cells.sizes : Cells → List Nat
  | .nil => []
  | .cell _ _ content _ rest => content.sizes ++ rest.sizes

end

def extent (ns : List Node) : Nat := (sources ns).length

mutual

def Content.rowsAt (place next : Nat) : Content → List Row
  | .nil => []
  | .text t rest => rest.rowsAt (place + t.1.length) next
  | .table as rows rest =>
    let first := place + extent [opening name as]
    rows.rowsAt next first (next + 1) ++
      rest.rowsAt (first + extent (rows.nodes ++ ending name true)) (next + 1 + rows.sizes.length)

def Grid.rowsAt (table place next : Nat) : Grid → List Row
  | .nil => []
  | .row as cells closed rest =>
    let first := place + extent [opening rowName as]
    let stop := first + extent (cells.nodes ++ ending rowName closed)
    ⟨table, place, if closed then some stop else none, cells.count, cells.spans⟩ ::
      (cells.rowsAt first next ++ rest.rowsAt table stop (next + cells.sizes.length))

def Cells.rowsAt (place next : Nat) : Cells → List Row
  | .nil => []
  | .cell header as content closed rest =>
    let first := place + extent [opening (cellTagName header) as]
    content.rowsAt first next ++
      rest.rowsAt (first + extent (content.nodes ++ ending (cellTagName header) closed))
        (next + content.sizes.length)

end

def Walk.along (w : Walk) (place : Nat) (ns : List Node) : Walk :=
  (tokensOf place ns).foldl Walk.step w

theorem Walk.along_append (w : Walk) (place : Nat) (ns ms : List Node) :
    w.along place (ns ++ ms) = (w.along place ns).along (place + extent ns) ms := by
  rw [along, tokensOf_append, List.foldl_append]
  rfl

theorem Walk.along_cons (w : Walk) (place : Nat) (n : Node) (ns : List Node) :
    w.along place (n :: ns) = (w.along place [n]).along (place + extent [n]) ns :=
  w.along_append place [n] ns

theorem extent_append (ns ms : List Node) : extent (ns ++ ms) = extent ns + extent ms := by
  rw [extent, sources_append, List.length_append]
  rfl

theorem Walk.along_text (w : Walk) (place : Nat) (t : Text) : w.along place (t.map .char) = w := by
  induction t generalizing place with
  | nil => rfl
  | cons c t ih => exact ih _

theorem Walk.along_opening (w : Walk) (place : Nat) (name : Text) (as : LegalAttributes) :
    w.along place [opening name as] = w.step
      ⟨⟨name.map Char.toLower, as.1.render, false, false⟩, place,
        place + extent [opening name as]⟩ := by
  rw [← ofBody_render as.2]
  simp [along, tokensOf, Node.tokens, Node.tag?, opening, extent, sources]

theorem Walk.along_ending (w : Walk) (place : Nat) (name : Text) :
    w.along place (ending name true) = w.step
      ⟨⟨name.map Char.toLower, [], true, false⟩, place, place + extent (ending name true)⟩ := by
  simp [along, tokensOf, Node.tokens, Node.tag?, ending, extent, sources, Tag.ofBody, trimEnd,
    dropEndWhile]

theorem Walk.along_ending_of_not (w : Walk) (place : Nat) (name : Text) :
    w.along place (ending name false) = w := rfl

theorem cellTagName_map_toLower (header : Bool) :
    (cellTagName header).map Char.toLower = cellTagName header := by
  cases header <;> rfl

theorem step_openTable (w : Walk) (t : Token) (hn : t.name = name) (hc : t.closing = false) :
    w.step t = w.openTable := by
  rw [Walk.step, if_pos (show t.name = "table".toList from hn), hc]
  rfl

theorem step_closeTable (w : Walk) (t : Token) (hn : t.name = name) (hc : t.closing = true) :
    w.step t = w.closeTable := by
  rw [Walk.step, if_pos (show t.name = "table".toList from hn), hc]
  rfl

theorem step_openRow (w : Walk) (t : Token) (hn : t.name = rowName) (hc : t.closing = false) :
    w.step t = w.openRow t.start := by
  rw [Walk.step, if_neg (hn ▸ by decide), if_pos (show t.name = "tr".toList from hn), hc]
  rfl

theorem step_closeRow (w : Walk) (t : Token) (hn : t.name = rowName) (hc : t.closing = true) :
    w.step t = w.closeRow t.stop := by
  rw [Walk.step, if_neg (hn ▸ by decide), if_pos (show t.name = "tr".toList from hn), hc]
  rfl

theorem step_cell (w : Walk) (t : Token) (header : Bool) (hn : t.name = cellTagName header) :
    w.step t = if t.closing then w else w.openCell ((Attributes.parse t.attrs).has colspan) := by
  rw [Walk.step, if_neg (hn ▸ by cases header <;> decide),
    if_neg (hn ▸ by cases header <;> decide)]

theorem has_map_written (as : Attributes) (name : Text) :
    Attributes.has (as.map Attributes.written) name = as.has name := by
  simp [Attributes.has, Function.comp_def, Attributes.key_written]

theorem along_openCell (w : Walk) (place : Nat) (header : Bool) (as : LegalAttributes) :
    w.along place [opening (cellTagName header) as] = w.openCell (as.1.has colspan) := by
  rw [Walk.along_opening, step_cell _ _ header (cellTagName_map_toLower header)]
  simp [Attributes.parse_render as.2, has_map_written]

theorem along_closeCell (w : Walk) (place : Nat) (header closed : Bool) :
    w.along place (ending (cellTagName header) closed) = w := by
  cases closed with
  | false => rfl
  | true =>
    rw [Walk.along_ending, step_cell _ _ header (cellTagName_map_toLower header)]
    rfl

def Row.widen (cells : Nat) (spans : Bool) (r : Row) : Row :=
  { r with cells := r.cells + cells, spans := r.spans || spans }

theorem Row.widen_zero (r : Row) : r.widen 0 false = r := by simp [Row.widen]

theorem Row.widen_widen (m n : Nat) (s t : Bool) (r : Row) :
    (r.widen m s).widen n t = r.widen (m + n) (s || t) := by
  simp [Row.widen, Nat.add_assoc, Bool.or_assoc]

section

variable (rs xs ys : List Row) (r : Row) (fs : List Frame) (place n table : Nat)

theorem openRow_eq (row : Option Nat) :
    Walk.openRow ⟨rs, ⟨table, row⟩ :: fs, n⟩ place =
      ⟨rs ++ [⟨table, place, none, 0, false⟩], ⟨table, some rs.length⟩ :: fs, n⟩ := rfl

theorem openCell_eq (spans : Bool) :
    Walk.openCell ⟨xs ++ r :: ys, ⟨table, some xs.length⟩ :: fs, n⟩ spans =
      ⟨xs ++ r.widen 1 spans :: ys, ⟨table, some xs.length⟩ :: fs, n⟩ := by
  simp only [Walk.openCell, modify_append_cons]
  rfl

theorem closeRow_eq :
    Walk.closeRow ⟨xs ++ r :: ys, ⟨table, some xs.length⟩ :: fs, n⟩ place =
      ⟨xs ++ { r with stop := some place } :: ys, ⟨table, none⟩ :: fs, n⟩ := by
  simp only [Walk.closeRow, modify_append_cons]

end

mutual

theorem Content.along_nodes (c : Content) (rs : List Row) (fs : List Frame) (place n : Nat) :
    Walk.along ⟨rs, fs, n⟩ place c.nodes = ⟨rs ++ c.rowsAt place n, fs, n + c.sizes.length⟩ := by
  match c with
  | .nil => simp [Content.nodes, Walk.along, tokensOf, Content.rowsAt, Content.sizes]
  | .text t rest =>
    rw [Content.nodes, Walk.along_append, Walk.along_text, rest.along_nodes, Content.rowsAt,
      Content.sizes, extent, sources_map_char]
  | .table as rows rest =>
    obtain ⟨row, hrows⟩ := rows.along_nodes rs fs (place + extent [opening name as]) (n + 1) n none
    rw [Content.nodes, Walk.along_cons, Walk.along_opening, step_openTable _ _ rfl rfl,
      Walk.along_append, Walk.openTable, hrows, Walk.along_append, Walk.along_ending,
      step_closeTable _ _ rfl rfl, Walk.closeTable, List.tail_cons, rest.along_nodes]
    simp [Content.rowsAt, Content.sizes, extent_append, Nat.add_assoc, Nat.add_comm 1]

theorem Grid.along_nodes (g : Grid) (rs : List Row) (fs : List Frame) (place n table : Nat)
    (row : Option Nat) :
    ∃ row', Walk.along ⟨rs, ⟨table, row⟩ :: fs, n⟩ place g.nodes =
      ⟨rs ++ g.rowsAt table place n, ⟨table, row'⟩ :: fs, n + g.sizes.length⟩ := by
  match g with
  | .nil => exact ⟨row, by simp [Grid.nodes, Walk.along, tokensOf, Grid.rowsAt, Grid.sizes]⟩
  | .row as cells closed rest =>
    have hcells := cells.along_nodes rs [] ⟨table, place, none, 0, false⟩ fs
      (place + extent [opening rowName as]) n table
    rw [Grid.nodes, Walk.along_cons, Walk.along_opening, step_openRow _ _ rfl rfl, openRow_eq,
      Walk.along_append, hcells, Walk.along_append]
    cases closed with
    | false =>
      obtain ⟨row', hrest⟩ := rest.along_nodes (rs ++ _) fs _ (n + cells.sizes.length) table
        (some rs.length)
      refine ⟨row', ?_⟩
      rw [Walk.along_ending_of_not, hrest]
      simp [Grid.rowsAt, Grid.sizes, extent_append, Row.widen, Nat.add_assoc]
    | true =>
      obtain ⟨row', hrest⟩ := rest.along_nodes (rs ++ _) fs _ (n + cells.sizes.length) table none
      refine ⟨row', ?_⟩
      rw [Walk.along_ending, step_closeRow _ _ rfl rfl, closeRow_eq, hrest]
      simp [Grid.rowsAt, Grid.sizes, extent_append, Row.widen, Nat.add_assoc]

theorem Cells.along_nodes (cs : Cells) (xs ys : List Row) (r : Row) (fs : List Frame)
    (place n table : Nat) :
    Walk.along ⟨xs ++ r :: ys, ⟨table, some xs.length⟩ :: fs, n⟩ place cs.nodes =
      ⟨xs ++ r.widen cs.count cs.spans :: (ys ++ cs.rowsAt place n),
        ⟨table, some xs.length⟩ :: fs, n + cs.sizes.length⟩ := by
  match cs with
  | .nil =>
    simp [Cells.nodes, Walk.along, tokensOf, Cells.rowsAt, Cells.sizes, Cells.count, Cells.spans,
      Row.widen_zero]
  | .cell header as content closed rest =>
    rw [Cells.nodes, Walk.along_cons, along_openCell, openCell_eq, Walk.along_append,
      content.along_nodes, Walk.along_append, along_closeCell, List.append_assoc, List.cons_append,
      rest.along_nodes]
    simp [Cells.rowsAt, Cells.sizes, Cells.count, Cells.spans, Row.widen_widen, extent_append,
      Nat.add_assoc, Nat.add_comm 1]

end

def AreTabular (ns : List Node) : Prop :=
  ∀ n ∈ ns, n.isRead = true ∧ ∀ t, n.tag? = some t → t.isAmong structureNames = true

theorem AreTabular.append {ns ms : List Node} (h : AreTabular ns) (h' : AreTabular ms) :
    AreTabular (ns ++ ms) := by
  intro n hn
  rcases List.mem_append.1 hn with hn | hn
  · exact h n hn
  · exact h' n hn

theorem AreTabular.nil : AreTabular [] := by simp [AreTabular]

theorem AreTabular.cons {n : Node} {ns : List Node} (h : AreTabular [n]) (h' : AreTabular ns) :
    AreTabular (n :: ns) := h.append h'

theorem areTabular_text (t : PlainText) : AreTabular (t.1.map .char) := by
  intro n hn
  obtain ⟨c, hc, rfl⟩ := List.mem_map.1 hn
  refine ⟨?_, by simp [Node.tag?]⟩
  simp only [Node.isRead, Node.isValid, bne_iff_ne, ne_eq]
  rintro rfl
  exact t.2 hc

theorem areTabular_tag {closing : Bool} {name : Text} (hn : isName name = true)
    (hs : structureNames.any (lower · == name.map Char.toLower) = true) {as : Attributes}
    (ha : as.IsLegal) :
    AreTabular [.tag closing name as.render] := by
  intro n hm
  obtain rfl := List.mem_singleton.1 hm
  refine ⟨Node.isTag_iff.2 (isTag_render hn ha), ?_⟩
  rintro t ht
  obtain rfl := Option.some.inj ht
  exact hs

theorem areTabular_ending {name : Text} (hn : isName name = true)
    (hs : structureNames.any (lower · == name.map Char.toLower) = true) (closed : Bool) :
    AreTabular (ending name closed) := by
  cases closed with
  | false => exact .nil
  | true => exact @areTabular_tag true name hn hs [] .nil

mutual

theorem Content.areTabular_nodes (c : Content) : AreTabular c.nodes := by
  match c with
  | .nil => exact .nil
  | .text t rest => exact (areTabular_text t).append rest.areTabular_nodes
  | .table as rows rest =>
    exact (areTabular_tag rfl (by decide) as.2).cons (rows.areTabular_nodes.append
      ((areTabular_ending rfl (by decide) _).append rest.areTabular_nodes))

theorem Grid.areTabular_nodes (g : Grid) : AreTabular g.nodes := by
  match g with
  | .nil => exact .nil
  | .row as cells closed rest =>
    exact (areTabular_tag rfl (by decide) as.2).cons (cells.areTabular_nodes.append
      ((areTabular_ending rfl (by decide) _).append rest.areTabular_nodes))

theorem Cells.areTabular_nodes (cs : Cells) : AreTabular cs.nodes := by
  match cs with
  | .nil => exact .nil
  | .cell header as content closed rest =>
    have hn : isName (cellTagName header) = true := by cases header <;> rfl
    have hs : structureNames.any (lower · == (cellTagName header).map Char.toLower) = true := by
      cases header <;> decide
    exact (areTabular_tag hn hs as.2).cons (content.areTabular_nodes.append
      ((areTabular_ending hn hs _).append rest.areTabular_nodes))

end

theorem rows_sources {ns : List Node} (h : AreTabular ns) :
    rows (sources ns) = (Walk.start.along 0 ns).rows := by
  have hf : (tokensOf 0 ns).filter (·.toTag.isAmong structureNames) = tokensOf 0 ns := by
    refine List.filter_eq_self.2 fun k hk => ?_
    obtain ⟨l, n, r, rfl, ht, -⟩ := exists_of_mem_tokensOf hk
    exact (h n (by simp)).2 _ ht
  rw [rows, tokens_of_isRead fun n hn => (h n hn).1, hf]
  rfl

def sizeOf (first : Nat) (sizes : List Nat) (table : Nat) : Nat :=
  if table < first then 0 else sizes.getD (table - first) 0

theorem sizeOf_cons (first size : Nat) (sizes : List Nat) (table : Nat) :
    sizeOf first (size :: sizes) table =
      (if table = first then size else 0) + sizeOf (first + 1) sizes table := by
  rcases Nat.lt_trichotomy table first with h | rfl | h
  · simp [sizeOf, h, Nat.ne_of_lt h, Nat.lt_succ_of_lt h]
  · simp [sizeOf]
  · obtain ⟨k, rfl⟩ := Nat.exists_eq_add_of_lt h
    have hk : first + k + 1 - first = k + 1 := by omega
    have hk' : first + k + 1 - (first + 1) = k := by omega
    have hn : ¬ first + k + 1 < first + 1 := by omega
    simp [sizeOf, hk, hk', hn, Nat.not_lt_of_lt h, Nat.ne_of_gt h]

theorem sizeOf_append (first : Nat) (xs ys : List Nat) (table : Nat) :
    sizeOf first (xs ++ ys) table =
      sizeOf first xs table + sizeOf (first + xs.length) ys table := by
  induction xs generalizing first with
  | nil => simp [sizeOf]
  | cons x xs ih =>
    have hn : first + 1 + xs.length = first + (x :: xs).length := by
      rw [List.length_cons, Nat.add_assoc, Nat.add_comm 1]
    rw [List.cons_append, sizeOf_cons, sizeOf_cons, ih, hn, Nat.add_assoc]

mutual

theorem Content.rowCount_rowsAt (c : Content) (place next table : Nat) :
    rowCount (c.rowsAt place next) table = sizeOf next c.sizes table := by
  match c with
  | .nil => simp [Content.rowsAt, Content.sizes, rowCount, sizeOf]
  | .text t rest => exact rest.rowCount_rowsAt _ _ _
  | .table as rows rest =>
    rw [Content.rowsAt, Content.sizes, rowCount_append, rows.rowCount_rowsAt, rest.rowCount_rowsAt,
      sizeOf_cons, sizeOf_append, Nat.add_assoc]

theorem Grid.rowCount_rowsAt (g : Grid) (own place next table : Nat) :
    rowCount (g.rowsAt own place next) table =
      (if table = own then g.count else 0) + sizeOf next g.sizes table := by
  match g with
  | .nil => simp [Grid.rowsAt, Grid.sizes, Grid.count, rowCount, sizeOf]
  | .row as cells closed rest =>
    rw [Grid.rowsAt, Grid.sizes, rowCount_cons, rowCount_append, cells.rowCount_rowsAt,
      rest.rowCount_rowsAt, sizeOf_append, Grid.count]
    by_cases h : table = own
    · simp [h]
      omega
    · simp [h, Ne.symm h]

theorem Cells.rowCount_rowsAt (cs : Cells) (place next table : Nat) :
    rowCount (cs.rowsAt place next) table = sizeOf next cs.sizes table := by
  match cs with
  | .nil => simp [Cells.rowsAt, Cells.sizes, rowCount, sizeOf]
  | .cell header as content closed rest =>
    rw [Cells.rowsAt, Cells.sizes, rowCount_append, content.rowCount_rowsAt, rest.rowCount_rowsAt,
      sizeOf_append]

end

/-- The rows of a tree are found as they were written, each with the number of its table, and a
table has as many of them as it was given. -/
theorem rows_html (c : Content) :
    rows c.html = c.rowsAt 0 0 ∧ ∀ table, rowCount (rows c.html) table = c.sizes.getD table 0 := by
  have hr : rows c.html = c.rowsAt 0 0 := by
    rw [Content.html, rows_sources c.areTabular_nodes, Walk.start, c.along_nodes]
    rfl
  refine ⟨hr, fun table => ?_⟩
  rw [hr, c.rowCount_rowsAt]
  rfl

end MailMarkup.Table
