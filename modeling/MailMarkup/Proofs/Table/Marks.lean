import MailMarkup.Proofs.Text.Scanning
import MailMarkup.Table.Column

namespace MailMarkup.Table

open Text Markup

inductive Mark where
  | openTable
  | closeTable
  | openRow
  | closeRow
  | openCell (spans : Bool)
  | closeCell
  deriving DecidableEq

def Mark.of (t : Tag) : Mark :=
  if t.name = "table".toList then
    if t.closing then .closeTable else .openTable
  else if t.name = "tr".toList then
    if t.closing then .closeRow else .openRow
  else if t.closing then .closeCell
  else .openCell ((Attributes.parse t.attrs).has colspan)

def Row.erase (r : Row) : Row := { r with start := 0, stop := r.stop.map fun _ => 0 }

namespace Walk

def take (w : Walk) : Mark → Walk
  | .openTable => w.openTable
  | .closeTable => w.closeTable
  | .openRow => w.openRow 0
  | .closeRow => w.closeRow 0
  | .openCell spans => w.openCell spans
  | .closeCell => w

def takeAll (w : Walk) (ms : List Mark) : Walk := ms.foldl take w

def erase (w : Walk) : Walk := { w with rows := w.rows.map Row.erase }

theorem takeAll_cons (w : Walk) (m : Mark) (ms : List Mark) :
    w.takeAll (m :: ms) = (w.take m).takeAll ms := rfl

theorem takeAll_append (w : Walk) (ms ns : List Mark) :
    w.takeAll (ms ++ ns) = (w.takeAll ms).takeAll ns := List.foldl_append

def innerRow (w : Walk) : Option Nat := w.frames.head?.bind Frame.row

theorem map_modify {α β : Type} {f : α → α} {g : β → β} {h : α → β} (hc : ∀ a, h (f a) = g (h a))
    (as : List α) (i : Nat) : (as.modify i f).map h = (as.map h).modify i g := by
  refine List.ext_getElem? fun j => ?_
  simp only [List.getElem?_map, List.getElem?_modify]
  cases as[j]? with
  | none => rfl
  | some a => by_cases hj : i = j <;> simp [hj, hc]

theorem erase_openRow (w : Walk) (place : Nat) : (w.openRow place).erase = w.erase.openRow 0 := by
  obtain ⟨rs, fs, n⟩ := w
  cases fs with
  | nil => rfl
  | cons f fs => simp [openRow, erase, Row.erase]

theorem erase_closeRow (w : Walk) (place : Nat) :
    (w.closeRow place).erase = w.erase.closeRow 0 := by
  obtain ⟨rs, _ | ⟨⟨t, _ | i⟩, fs⟩, n⟩ := w
  · rfl
  · rfl
  · simp only [closeRow, erase, Walk.mk.injEq, and_true]
    exact map_modify (by intro r; rfl) rs i

theorem erase_openCell (w : Walk) (spans : Bool) :
    (w.openCell spans).erase = w.erase.openCell spans := by
  obtain ⟨rs, _ | ⟨⟨t, _ | i⟩, fs⟩, n⟩ := w
  · rfl
  · rfl
  · simp only [openCell, erase, Walk.mk.injEq, and_true]
    exact map_modify (by intro r; rfl) rs i

theorem erase_step (w : Walk) (t : Token) : (w.step t).erase = w.erase.take (.of t.toTag) := by
  unfold step Mark.of
  split
  · split <;> rfl
  · split
    · split
      · exact erase_closeRow w _
      · exact erase_openRow w _
    · split
      · rfl
      · exact erase_openCell w _

theorem erase_foldl_step (w : Walk) (ts : List Token) :
    (ts.foldl step w).erase = w.erase.takeAll (ts.map fun t => .of t.toTag) := by
  induction ts generalizing w with
  | nil => rfl
  | cons t ts ih => rw [List.foldl_cons, ih, erase_step, List.map_cons, takeAll_cons]

def openRows (w : Walk) : List Nat := w.frames.filterMap Frame.row

theorem filterMap_row_some (t i : Nat) (fs : List Frame) :
    (⟨t, some i⟩ :: fs : List Frame).filterMap Frame.row = i :: fs.filterMap Frame.row := rfl

structure IsSound (w : Walk) : Prop where
  distinct : w.openRows.Nodup
  unclosed : ∀ i ∈ w.openRows, ∃ r, w.rows[i]? = some r ∧ r.stop = none
  rows_table : ∀ r ∈ w.rows, r.table < w.tables
  frames_table : ∀ f ∈ w.frames, f.table < w.tables

theorem isSound_start : start.IsSound := by
  constructor <;> simp [start, openRows]

theorem IsSound.lt (h : IsSound w) {i : Nat} (hi : i ∈ w.openRows) : i < w.rows.length := by
  obtain ⟨r, hr, -⟩ := h.unclosed i hi
  exact (List.getElem?_eq_some_iff.1 hr).1

theorem mem_modify {rs : List Row} {i : Nat} {f : Row → Row} {r : Row} (h : r ∈ rs.modify i f) :
    ∃ r' ∈ rs, r = r' ∨ r = f r' := by
  obtain ⟨j, hj⟩ := List.mem_iff_getElem?.1 h
  rw [List.getElem?_modify] at hj
  obtain ⟨r', hr', rfl⟩ := Option.map_eq_some_iff.1 hj
  refine ⟨r', List.mem_of_getElem? hr', ?_⟩
  by_cases hij : i = j
  · exact .inr (by simp [hij])
  · exact .inl (by simp [hij])

theorem IsSound.openTable (h : IsSound w) : w.openTable.IsSound where
  distinct := by simpa [openRows, Walk.openTable] using h.distinct
  unclosed := by simpa [openRows, Walk.openTable] using h.unclosed
  rows_table r hr := Nat.lt_succ_of_lt (h.rows_table r hr)
  frames_table f hf := by
    rcases List.mem_cons.1 hf with rfl | hf
    · exact Nat.lt_succ_self _
    · exact Nat.lt_succ_of_lt (h.frames_table f hf)

theorem openRows_closeTable (w : Walk) : w.closeTable.openRows.Sublist w.openRows :=
  (List.tail_sublist _).filterMap _

theorem IsSound.closeTable (h : IsSound w) : w.closeTable.IsSound where
  distinct := h.distinct.sublist w.openRows_closeTable
  unclosed i hi := h.unclosed i (w.openRows_closeTable.subset hi)
  rows_table := h.rows_table
  frames_table f hf := h.frames_table f (List.mem_of_mem_tail hf)

theorem IsSound.openRow (h : IsSound w) (place : Nat) : (w.openRow place).IsSound := by
  obtain ⟨rs, _ | ⟨⟨t, row⟩, fs⟩, n⟩ := w
  · exact h
  have hsub : List.Sublist (fs.filterMap Frame.row) ((⟨t, row⟩ :: fs).filterMap Frame.row) :=
    (List.sublist_cons_self _ _).filterMap _
  have hlt : ∀ i ∈ fs.filterMap Frame.row, i < rs.length := fun i hi => h.lt (hsub.subset hi)
  constructor
  · simp only [Walk.openRow, openRows, filterMap_row_some, List.nodup_cons]
    exact ⟨fun hm => Nat.lt_irrefl _ (hlt _ hm), h.distinct.sublist hsub⟩
  · simp only [Walk.openRow, openRows, filterMap_row_some, List.mem_cons, forall_eq_or_imp]
    refine ⟨⟨⟨t, place, none, 0, false⟩, by simp, rfl⟩, fun i hi => ?_⟩
    obtain ⟨r, hr, hs⟩ := h.unclosed i (hsub.subset hi)
    exact ⟨r, by rw [List.getElem?_append_left (hlt i hi)]; exact hr, hs⟩
  · simp only [Walk.openRow, List.mem_append, List.mem_singleton]
    rintro r (hr | rfl)
    · exact h.rows_table r hr
    · exact h.frames_table ⟨t, row⟩ List.mem_cons_self
  · simp only [Walk.openRow, List.mem_cons]
    rintro f (rfl | hf)
    · exact h.frames_table ⟨t, row⟩ List.mem_cons_self
    · exact h.frames_table f (List.mem_cons_of_mem _ hf)

theorem IsSound.closeRow (h : IsSound w) (place : Nat) : (w.closeRow place).IsSound := by
  obtain ⟨rs, _ | ⟨⟨t, _ | i⟩, fs⟩, n⟩ := w
  · exact h
  · exact h
  have hd : i ∉ fs.filterMap Frame.row ∧ (fs.filterMap Frame.row).Nodup := by
    simpa [openRows] using h.distinct
  constructor
  · simpa [Walk.closeRow, openRows] using hd.2
  · simp only [Walk.closeRow, openRows, List.filterMap_cons_none]
    intro j hj
    obtain ⟨r, hr, hs⟩ := h.unclosed j (by simp [openRows, hj])
    have hij : i ≠ j := by
      rintro rfl
      exact hd.1 hj
    exact ⟨r, by simpa [List.getElem?_modify, hij] using hr, hs⟩
  · intro r hr
    obtain ⟨r', hr', rfl | rfl⟩ := mem_modify hr
    · exact h.rows_table _ hr'
    · exact h.rows_table r' hr'
  · simp only [Walk.closeRow, List.mem_cons]
    rintro f (rfl | hf)
    · exact h.frames_table ⟨t, some i⟩ List.mem_cons_self
    · exact h.frames_table f (List.mem_cons_of_mem _ hf)

theorem IsSound.openCell (h : IsSound w) (spans : Bool) : (w.openCell spans).IsSound := by
  obtain ⟨rs, _ | ⟨⟨t, _ | i⟩, fs⟩, n⟩ := w
  · exact h
  · exact h
  constructor
  · exact h.distinct
  · intro j hj
    obtain ⟨r, hr, hs⟩ := h.unclosed j hj
    simp only [Walk.openCell, List.getElem?_modify]
    simp only at hr
    by_cases hij : i = j
    · exact ⟨_, by rw [hr]; rfl, by simp [hij, hs]⟩
    · exact ⟨r, by rw [hr]; simp [hij], hs⟩
  · intro r hr
    obtain ⟨r', hr', rfl | rfl⟩ := mem_modify hr
    · exact h.rows_table _ hr'
    · exact h.rows_table r' hr'
  · exact h.frames_table

theorem IsSound.step (h : IsSound w) (t : Token) : (w.step t).IsSound := by
  unfold Walk.step
  split
  · split
    · exact h.closeTable
    · exact h.openTable
  · split
    · split
      · exact h.closeRow _
      · exact h.openRow _
    · split
      · exact h
      · exact h.openCell _

theorem IsSound.take (h : IsSound w) (m : Mark) : (w.take m).IsSound := by
  cases m with
  | openTable => exact h.openTable
  | closeTable => exact h.closeTable
  | openRow => exact h.openRow 0
  | closeRow => exact h.closeRow 0
  | openCell spans => exact h.openCell spans
  | closeCell => exact h

theorem take_of_not_mem_openRows {w : Walk} {i : Nat} (hi : i < w.rows.length)
    (hn : i ∉ w.openRows) (m : Mark) :
    (w.take m).rows[i]? = w.rows[i]? ∧ i ∉ (w.take m).openRows := by
  have hne : i ≠ w.rows.length := Nat.ne_of_lt hi
  obtain ⟨rs, fs, n⟩ := w
  cases m with
  | openTable => exact ⟨rfl, by simpa [openRows, take, openTable] using hn⟩
  | closeTable => exact ⟨rfl, fun hm => hn ((openRows_closeTable _).subset hm)⟩
  | openRow =>
    rcases fs with _ | ⟨⟨t, row⟩, fs⟩
    · exact ⟨rfl, hn⟩
    · refine ⟨List.getElem?_append_left hi, ?_⟩
      simp only [take, openRow, openRows, filterMap_row_some, List.mem_cons, not_or]
      exact ⟨hne, fun hm => hn (((List.sublist_cons_self _ _).filterMap _).subset hm)⟩
  | closeRow =>
    rcases fs with _ | ⟨⟨t, _ | j⟩, fs⟩
    · exact ⟨rfl, hn⟩
    · exact ⟨rfl, hn⟩
    · have hn' : i ≠ j ∧ i ∉ fs.filterMap Frame.row := by simpa [openRows] using hn
      exact ⟨by simp [take, closeRow, Ne.symm hn'.1],
        by simpa [take, closeRow, openRows] using hn'.2⟩
  | openCell spans =>
    rcases fs with _ | ⟨⟨t, _ | j⟩, fs⟩
    · exact ⟨rfl, hn⟩
    · exact ⟨rfl, hn⟩
    · have hn' : i ≠ j ∧ i ∉ fs.filterMap Frame.row := by simpa [openRows] using hn
      exact ⟨by simp [take, openCell, Ne.symm hn'.1], hn⟩
  | closeCell => exact ⟨rfl, hn⟩

theorem length_le_take (w : Walk) (m : Mark) : w.rows.length ≤ (w.take m).rows.length := by
  obtain ⟨rs, _ | ⟨⟨t, _ | i⟩, fs⟩, n⟩ := w <;> cases m <;>
    simp [take, openTable, closeTable, openRow, closeRow, openCell]

theorem takeAll_of_not_mem_openRows {w : Walk} {i : Nat} (hi : i < w.rows.length)
    (hn : i ∉ w.openRows) (ms : List Mark) : (w.takeAll ms).rows[i]? = w.rows[i]? := by
  induction ms generalizing w with
  | nil => rfl
  | cons m ms ih =>
    obtain ⟨he, hm⟩ := take_of_not_mem_openRows hi hn m
    rw [takeAll_cons, ih (Nat.lt_of_lt_of_le hi (length_le_take w m)) hm, he]

theorem IsSound.unclosed_takeAll (h : IsSound w) {i : Nat} (hi : w.innerRow = some i) {m : Mark}
    (hm : m = .openRow ∨ m = .closeTable) (ms : List Mark) :
    ∃ r, (w.takeAll (m :: ms)).rows[i]? = some r ∧ r.stop = none := by
  obtain ⟨rs, _ | ⟨⟨t, row⟩, fs⟩, n⟩ := w
  · cases hi
  obtain rfl : row = some i := hi
  obtain ⟨r, hr, hs⟩ := h.unclosed i (by simp [openRows])
  have hlt : i < rs.length := h.lt (by simp [openRows])
  have hd : i ∉ fs.filterMap Frame.row := by
    have := h.distinct
    simp only [openRows, filterMap_row_some, List.nodup_cons] at this
    exact this.1
  refine ⟨r, ?_, hs⟩
  rw [takeAll_cons, takeAll_of_not_mem_openRows]
  · rcases hm with rfl | rfl
    · exact (List.getElem?_append_left hlt).trans hr
    · exact hr
  · exact Nat.lt_of_lt_of_le hlt (length_le_take ⟨rs, ⟨t, some i⟩ :: fs, n⟩ m)
  · rcases hm with rfl | rfl
    · change i ∉ rs.length :: fs.filterMap Frame.row
      rw [List.mem_cons, not_or]
      exact ⟨Nat.ne_of_lt hlt, hd⟩
    · exact hd

end Walk

end MailMarkup.Table
