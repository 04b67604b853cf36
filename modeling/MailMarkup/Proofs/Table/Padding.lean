import Mathlib.Data.List.Forall2
import Mathlib.Data.List.Nodup
import MailMarkup.Proofs.Table.Marks

namespace MailMarkup.Table

open Text

namespace Walk

def opensChosen (b : Nat → Bool) (w : Walk) : Mark → Bool
  | .openRow => !w.frames.isEmpty && b w.rows.length
  | _ => false

def closesChosen (b : Nat → Bool) (w : Walk) : Mark → Bool
  | .closeRow => w.innerRow.any b
  | _ => false

def wrapperMarks : List Mark := [.openRow, .openCell false, .openTable]

def wrapperEndMarks : List Mark := [.closeTable, .closeCell, .closeRow]

def padOne (b : Nat → Bool) (w : Walk) (m : Mark) : List Mark :=
  (if w.opensChosen b m then wrapperMarks else []) ++
    m :: (if w.closesChosen b m then wrapperEndMarks else [])

def pad (b : Nat → Bool) (w : Walk) : List Mark → List Mark
  | [] => []
  | m :: ms => w.padOne b m ++ pad b (w.take m) ms

end Walk

inductive Owner where
  | old (table : Nat)
  | new (row : Nat)

inductive Part where
  | kept (row : Nat)
  | moved (row : Nat)
  | wrapper (row : Nat)

def Part.row : Part → Nat
  | kept i => i
  | moved i => i
  | wrapper i => i

def Row.inTable (r : Row) (table : Nat) : Row := { r with table }

def Part.Agrees (b : Nat → Bool) (owners : List Owner) (rs : List Row) : Part → Row → Prop
  | kept i, v => b i = false ∧ ∃ r, rs[i]? = some r ∧ v = r.inTable v.table ∧
      owners[v.table]? = some (.old r.table)
  | moved i, v => owners[v.table]? = some (.new i)
  | wrapper _, v => v.cells = 1 ∧ ∃ t, owners[v.table]? = some (.old t)

theorem Part.Agrees.exists_owner {b : Nat → Bool} {owners : List Owner} {rs : List Row} {p : Part}
    {v : Row} (h : p.Agrees b owners rs v) : ∃ o, owners[v.table]? = some o := by
  cases p with
  | kept i =>
    obtain ⟨-, r, -, -, ho⟩ := h
    exact ⟨_, ho⟩
  | moved i => exact ⟨_, h⟩
  | wrapper i =>
    obtain ⟨-, t, ho⟩ := h
    exact ⟨_, ho⟩

theorem getElem?_append_some {α : Type} {xs : List α} {i : Nat} {x : α} (h : xs[i]? = some x)
    (ys : List α) : (xs ++ ys)[i]? = some x :=
  (List.getElem?_append_left (List.getElem?_eq_some_iff.1 h).1).trans h

theorem getElem?_concat_some {α : Type} {xs : List α} {i : Nat} {x y : α}
    (h : (xs ++ [y])[i]? = some x) : xs[i]? = some x ∨ i = xs.length ∧ x = y := by
  have hi := (List.getElem?_eq_some_iff.1 h).1
  rw [List.length_append, List.length_singleton] at hi
  rcases Nat.lt_or_eq_of_le (Nat.le_of_lt_succ hi) with hlt | rfl
  · exact .inl ((List.getElem?_append_left hlt).symm.trans h)
  · rw [List.getElem?_concat_length, Option.some.injEq] at h
    exact .inr ⟨rfl, h.symm⟩

theorem exists_of_forall₂ {α β : Type} {R : α → β → Prop} {as : List α} {bs : List β}
    (h : List.Forall₂ R as bs) {y : β} (hy : y ∈ bs) : ∃ x ∈ as, R x y := by
  induction h with
  | nil => cases hy
  | @cons a b as bs hab _ ih =>
    rcases List.mem_cons.1 hy with rfl | hy
    · exact ⟨a, List.mem_cons_self, hab⟩
    · obtain ⟨x, hx, hr⟩ := ih hy
      exact ⟨x, List.mem_cons_of_mem _ hx, hr⟩

theorem exists_right_of_forall₂ {α β : Type} {R : α → β → Prop} {as : List α} {bs : List β}
    (h : List.Forall₂ R as bs) {x : α} (hx : x ∈ as) : ∃ y ∈ bs, R x y :=
  exists_of_forall₂ h.flip hx

theorem forall₂_modify {α β : Type} {R S : α → β → Prop} {as : List α} {bs : List β}
    (h : List.Forall₂ R as bs) (j : Nat) (f : β → β)
    (hj : ∀ x y, as[j]? = some x → R x y → S x (f y))
    (ho : ∀ i x y, i ≠ j → as[i]? = some x → R x y → S x y) :
    List.Forall₂ S as (bs.modify j f) := by
  induction h generalizing j with
  | nil => simp
  | @cons a b as bs hab hrest ih =>
    cases j with
    | zero =>
      rw [List.modify_zero_cons]
      refine .cons (hj a b rfl hab) ?_
      have := ih as.length (fun x y hx => by simp at hx) fun i x y _ hx =>
        ho (i + 1) x y (Nat.succ_ne_zero i) hx
      rwa [List.modify_eq_self (Nat.le_of_eq hrest.length_eq.symm)] at this
    | succ j =>
      rw [List.modify_succ_cons]
      exact .cons (ho 0 a b (Nat.succ_ne_zero j).symm rfl hab) (ih j hj fun i x y hi =>
        ho (i + 1) x y (fun he => hi (Nat.succ.inj he)))

theorem Part.Agrees.append {b : Nat → Bool} {owners : List Owner} {rs : List Row} {p : Part}
    {v : Row} (h : p.Agrees b owners rs v) (os : List Owner) (qs : List Row) :
    p.Agrees b (owners ++ os) (rs ++ qs) v := by
  cases p with
  | kept i =>
    obtain ⟨hb, r, hr, hv, ho⟩ := h
    exact ⟨hb, r, getElem?_append_some hr qs, hv, getElem?_append_some ho os⟩
  | moved i => exact getElem?_append_some h os
  | wrapper i =>
    obtain ⟨hc, t, ho⟩ := h
    exact ⟨hc, t, getElem?_append_some ho os⟩

structure Padded (b : Nat → Bool) (n : Nat) (owners : List Owner) (parts : List Part)
    (rs vs : List Row) : Prop where
  owners_nodup : owners.Nodup
  parts_nodup : parts.Nodup
  old_lt : ∀ t, .old t ∈ owners → t < n
  new_lt : ∀ i, .new i ∈ owners → i < rs.length
  part_lt : ∀ p ∈ parts, p.row < rs.length
  agrees : List.Forall₂ (Part.Agrees b owners rs) parts vs
  count_old : ∀ t u, owners[u]? = some (.old t) → rowCount vs u = rowCount rs t
  count_new : ∀ i u, owners[u]? = some (.new i) → rowCount vs u = 1

theorem rowCount_nil (t : Nat) : rowCount [] t = 0 := rfl

theorem rowCount_eq_zero {rs : List Row} {n : Nat} (h : ∀ r ∈ rs, r.table < n) :
    rowCount rs n = 0 := by
  refine List.countP_eq_zero.2 fun r hr => ?_
  simpa using Nat.ne_of_lt (h r hr)

theorem rowCount_modify {f : Row → Row} (hf : ∀ r, (f r).table = r.table) (rs : List Row)
    (i t : Nat) : rowCount (rs.modify i f) t = rowCount rs t := by
  induction rs generalizing i with
  | nil => simp
  | cons r rs ih =>
    cases i with
    | zero => rw [List.modify_zero_cons, rowCount_cons, rowCount_cons, hf]
    | succ i => rw [List.modify_succ_cons, rowCount_cons, rowCount_cons, ih]

namespace Padded

variable {b : Nat → Bool} {n : Nat} {owners : List Owner} {parts : List Part} {rs vs : List Row}

theorem table_lt (h : Padded b n owners parts rs vs) : ∀ v ∈ vs, v.table < owners.length := by
  intro v hv
  obtain ⟨p, -, hp⟩ := exists_of_forall₂ h.agrees hv
  obtain ⟨o, ho⟩ := hp.exists_owner
  exact (List.getElem?_eq_some_iff.1 ho).1

theorem eq_of_owner (h : Padded b n owners parts rs vs) {u u' : Nat} {o : Owner}
    (hu : owners[u]? = some o) (hu' : owners[u']? = some o) : u = u' :=
  (List.getElem?_inj (List.getElem?_eq_some_iff.1 hu).1 h.owners_nodup).1 (hu.trans hu'.symm)

theorem eq_of_part (h : Padded b n owners parts rs vs) {j j' : Nat} {p : Part}
    (hj : parts[j]? = some p) (hj' : parts[j']? = some p) : j = j' :=
  (List.getElem?_inj (List.getElem?_eq_some_iff.1 hj).1 h.parts_nodup).1 (hj.trans hj'.symm)

theorem nodup_concat {α : Type} {xs : List α} {x : α} (h : xs.Nodup) (hx : x ∉ xs) :
    (xs ++ [x]).Nodup := by
  refine List.nodup_append.2 ⟨h, List.nodup_singleton x, ?_⟩
  rintro y hy _ hz rfl
  exact hx (List.mem_singleton.1 hz ▸ hy)

theorem openTable (h : Padded b n owners parts rs vs) (hr : ∀ r ∈ rs, r.table < n) :
    Padded b (n + 1) (owners ++ [.old n]) parts rs vs where
  owners_nodup := nodup_concat h.owners_nodup fun hn => Nat.lt_irrefl n (h.old_lt n hn)
  parts_nodup := h.parts_nodup
  old_lt t ht := by
    rcases List.mem_append.1 ht with ht | ht
    · exact Nat.lt_succ_of_lt (h.old_lt t ht)
    · cases List.mem_singleton.1 ht
      exact Nat.lt_succ_self n
  new_lt i hi := by
    rcases List.mem_append.1 hi with hi | hi
    · exact h.new_lt i hi
    · cases List.mem_singleton.1 hi
  part_lt := h.part_lt
  agrees := h.agrees.imp fun p v hp => by simpa using hp.append [.old n] []
  count_old t u hu := by
    rcases getElem?_concat_some hu with hu | ⟨rfl, ht⟩
    · exact h.count_old t u hu
    · cases ht
      rw [rowCount_eq_zero h.table_lt, rowCount_eq_zero hr]
  count_new i u hu := by
    rcases getElem?_concat_some hu with hu | ⟨-, ht⟩
    · exact h.count_new i u hu
    · cases ht

theorem openKept (h : Padded b n owners parts rs vs) {t u : Nat}
    (hu : owners[u]? = some (.old t)) (hb : b rs.length = false) (place : Nat) :
    Padded b n owners (parts ++ [.kept rs.length]) (rs ++ [⟨t, place, none, 0, false⟩])
      (vs ++ [⟨u, place, none, 0, false⟩]) where
  owners_nodup := h.owners_nodup
  parts_nodup := nodup_concat h.parts_nodup fun hp => Nat.lt_irrefl _ (h.part_lt _ hp)
  old_lt := h.old_lt
  new_lt i hi := by
    rw [List.length_append]
    exact Nat.lt_add_right _ (h.new_lt i hi)
  part_lt p hp := by
    rw [List.length_append]
    rcases List.mem_append.1 hp with hp | hp
    · exact Nat.lt_add_right _ (h.part_lt p hp)
    · cases List.mem_singleton.1 hp
      exact Nat.lt_succ_self _
  agrees := by
    refine List.rel_append (h.agrees.imp fun p v hp => ?_) (.cons ?_ .nil)
    · simpa using hp.append [] [⟨t, place, none, 0, false⟩]
    · exact ⟨hb, _, List.getElem?_concat_length, rfl, hu⟩
  count_old t' u' hu' := by
    have : u = u' ↔ t = t' := by
      constructor
      · rintro rfl
        simpa using hu.symm.trans hu'
      · rintro rfl
        exact h.eq_of_owner hu hu'
    simp only [rowCount_append, rowCount_cons, rowCount_nil, h.count_old t' u' hu', this]
  count_new i u' hu' := by
    have : u ≠ u' := by
      rintro rfl
      simpa using hu.symm.trans hu'
    simp only [rowCount_append, rowCount_cons, rowCount_nil, h.count_new i u' hu', this, if_false]

theorem openMoved (h : Padded b n owners parts rs vs) {t u : Nat}
    (hu : owners[u]? = some (.old t)) (place x : Nat) :
    Padded b n (owners ++ [.new rs.length]) (parts ++ [.wrapper rs.length, .moved rs.length])
      (rs ++ [⟨t, place, none, 0, false⟩])
      (vs ++ [⟨u, x, none, 1, false⟩, ⟨owners.length, x, none, 0, false⟩]) where
  owners_nodup := nodup_concat h.owners_nodup fun hn => Nat.lt_irrefl _ (h.new_lt _ hn)
  parts_nodup := by
    have hw : Part.wrapper rs.length ∉ parts := fun hp => Nat.lt_irrefl _ (h.part_lt _ hp)
    have hm : Part.moved rs.length ∉ parts := fun hp => Nat.lt_irrefl _ (h.part_lt _ hp)
    have := nodup_concat (nodup_concat h.parts_nodup hw) (x := .moved rs.length) (by simp [hm])
    rwa [List.append_assoc] at this
  old_lt t' ht := by
    rcases List.mem_append.1 ht with ht | ht
    · exact h.old_lt t' ht
    · cases List.mem_singleton.1 ht
  new_lt i hi := by
    rw [List.length_append]
    rcases List.mem_append.1 hi with hi | hi
    · exact Nat.lt_add_right _ (h.new_lt i hi)
    · cases List.mem_singleton.1 hi
      exact Nat.lt_succ_self _
  part_lt p hp := by
    rw [List.length_append]
    rcases List.mem_append.1 hp with hp | hp
    · exact Nat.lt_add_right _ (h.part_lt p hp)
    · rcases List.mem_pair.1 hp with rfl | rfl <;> exact Nat.lt_succ_self _
  agrees := by
    refine List.rel_append (h.agrees.imp fun p v hp => hp.append _ _) (.cons ?_ (.cons ?_ .nil))
    · exact ⟨rfl, t, getElem?_append_some hu _⟩
    · exact List.getElem?_concat_length
  count_old t' u' hu' := by
    rcases getElem?_concat_some hu' with hu' | ⟨-, ht⟩
    · have hlt := (List.getElem?_eq_some_iff.1 hu').1
      have : u = u' ↔ t = t' := by
        constructor
        · rintro rfl
          simpa using hu.symm.trans hu'
        · rintro rfl
          exact h.eq_of_owner hu hu'
      simp only [rowCount_append, rowCount_cons, rowCount_nil, h.count_old t' u' hu', this,
        (Nat.ne_of_lt hlt).symm, if_false, Nat.zero_add]
    · cases ht
  count_new i u' hu' := by
    have hlt := (List.getElem?_eq_some_iff.1 hu).1
    rcases getElem?_concat_some hu' with hu' | ⟨rfl, -⟩
    · have hne : u ≠ u' := by
        rintro rfl
        simpa using hu.symm.trans hu'
      have hlt' := (List.getElem?_eq_some_iff.1 hu').1
      simp only [rowCount_append, rowCount_cons, rowCount_nil, h.count_new i u' hu', hne,
        (Nat.ne_of_lt hlt').symm, if_false]
    · simp only [rowCount_append, rowCount_cons, rowCount_nil, rowCount_eq_zero h.table_lt,
        Nat.ne_of_lt hlt, if_false, if_true]

theorem not_chosen (h : Padded b n owners parts rs vs) {i j : Nat}
    (hj : parts[j]? = some (.kept i)) : b i = false := by
  obtain ⟨v, -, hv⟩ := exists_right_of_forall₂ h.agrees (List.mem_of_getElem? hj)
  exact hv.1

theorem withRows (h : Padded b n owners parts rs vs) {rs' vs' : List Row}
    (hl : rs'.length = rs.length) (hr : ∀ t, rowCount rs' t = rowCount rs t)
    (hv : ∀ u, rowCount vs' u = rowCount vs u)
    (ha : List.Forall₂ (Part.Agrees b owners rs') parts vs') :
    Padded b n owners parts rs' vs' where
  owners_nodup := h.owners_nodup
  parts_nodup := h.parts_nodup
  old_lt := h.old_lt
  new_lt i hi := hl ▸ h.new_lt i hi
  part_lt p hp := hl ▸ h.part_lt p hp
  agrees := ha
  count_old t u hu := by rw [hr, hv, h.count_old t u hu]
  count_new i u hu := by rw [hv, h.count_new i u hu]

theorem modifyKept (h : Padded b n owners parts rs vs) {i j : Nat}
    (hj : parts[j]? = some (.kept i)) {f : Row → Row}
    (hf : ∀ r t, f (r.inTable t) = (f r).inTable t) :
    Padded b n owners parts (rs.modify i f) (vs.modify j f) := by
  have htable (r : Row) : (f r).table = r.table := by
    have := congrArg Row.table (hf r r.table)
    exact this
  refine h.withRows (List.length_modify ..) (rowCount_modify htable rs i)
    (rowCount_modify htable vs j) (forall₂_modify h.agrees j f ?_ ?_)
  · intro p v hp hv
    obtain rfl := Option.some.inj (hj.symm.trans hp)
    obtain ⟨hb, r, hr, he, ho⟩ := hv
    refine ⟨hb, f r, by simp [hr], ?_, ?_⟩
    · rw [htable, ← hf, ← he]
    · rw [htable, htable]
      exact ho
  · intro k p v hk hp hv
    cases p with
    | kept i' =>
      obtain ⟨hb, r, hr, he, ho⟩ := hv
      have hi : i ≠ i' := by
        rintro rfl
        exact hk (h.eq_of_part hp hj)
      exact ⟨hb, r, by simp [hi, hr], he, ho⟩
    | moved i' => exact hv
    | wrapper i' => exact hv

theorem modifyChosen (h : Padded b n owners parts rs vs) {i : Nat} (hb : b i = true)
    {f : Row → Row} (hf : ∀ r, (f r).table = r.table) :
    Padded b n owners parts (rs.modify i f) vs := by
  refine h.withRows (List.length_modify ..) (rowCount_modify hf rs i) (fun _ => rfl)
    (h.agrees.imp fun p v hv => ?_)
  cases p with
  | kept i' =>
    obtain ⟨hb', r, hr, he, ho⟩ := hv
    have hi : i ≠ i' := by
      rintro rfl
      rw [hb] at hb'
      cases hb'
    exact ⟨hb', r, by simp [hi, hr], he, ho⟩
  | moved i' => exact hv
  | wrapper i' => exact hv

theorem modifyMoved (h : Padded b n owners parts rs vs) {i k : Nat}
    (hk : parts[k]? = some (.moved i)) {f : Row → Row} (hf : ∀ r, (f r).table = r.table) :
    Padded b n owners parts rs (vs.modify k f) := by
  refine h.withRows rfl (fun _ => rfl) (rowCount_modify hf vs k)
    (forall₂_modify h.agrees k f ?_ fun _ _ _ _ _ hv => hv)
  intro p v hp hv
  obtain rfl := Option.some.inj (hk.symm.trans hp)
  change owners[(f v).table]? = some (.new i)
  rw [hf]
  exact hv

theorem modifyWrapper (h : Padded b n owners parts rs vs) {i j : Nat}
    (hj : parts[j]? = some (.wrapper i)) {f : Row → Row} (hf : ∀ r, (f r).table = r.table)
    (hc : ∀ r, (f r).cells = r.cells) :
    Padded b n owners parts rs (vs.modify j f) := by
  refine h.withRows rfl (fun _ => rfl) (rowCount_modify hf vs j)
    (forall₂_modify h.agrees j f ?_ fun _ _ _ _ _ hv => hv)
  intro p v hp hv
  obtain rfl := Option.some.inj (hj.symm.trans hp)
  obtain ⟨hv, t, ht⟩ := hv
  exact ⟨(hc v).trans hv, t, by rw [hf, ht]⟩

theorem isWrapped_eq_false (h : Padded b n owners parts rs vs)
    (hb : ∀ i r, rs[i]? = some r → b i = isWrapped rs r) {v : Row} (hv : v ∈ vs) :
    isWrapped vs v = false := by
  obtain ⟨p, -, hp⟩ := exists_of_forall₂ h.agrees hv
  cases p with
  | kept i =>
    obtain ⟨hbi, r, hr, he, ho⟩ := hp
    rw [hb i r hr] at hbi
    rw [he]
    simpa [isWrapped, isMultiColumn, Row.inTable, h.count_old _ _ ho] using hbi
  | moved i =>
    have hc : rowCount vs v.table = 1 := h.count_new i _ hp
    simp [isWrapped, isMultiColumn, hc]
  | wrapper i => simp [isWrapped, isMultiColumn, hp.1]

end Padded

inductive PaddedFrames (b : Nat → Bool) (owners : List Owner) (parts : List Part) :
    List Frame → List Frame → Prop
  | nil : PaddedFrames b owners parts [] []
  | kept {t u : Nat} {row row' : Option Nat} {fs gs : List Frame}
      (table : owners[u]? = some (.old t))
      (rows : Option.Rel (fun i j => parts[j]? = some (.kept i)) row row')
      (rest : PaddedFrames b owners parts fs gs) :
      PaddedFrames b owners parts (⟨t, row⟩ :: fs) (⟨u, row'⟩ :: gs)
  | moved {t u x i j k : Nat} {fs gs : List Frame} (chosen : b i = true)
      (table : owners[u]? = some (.old t)) (wrapper : parts[j]? = some (.wrapper i))
      (moved : parts[k]? = some (.moved i)) (rest : PaddedFrames b owners parts fs gs) :
      PaddedFrames b owners parts (⟨t, some i⟩ :: fs) (⟨x, some k⟩ :: ⟨u, some j⟩ :: gs)

theorem PaddedFrames.append {b : Nat → Bool} {owners : List Owner} {parts : List Part}
    {fs gs : List Frame} (h : PaddedFrames b owners parts fs gs) (os : List Owner)
    (ps : List Part) : PaddedFrames b (owners ++ os) (parts ++ ps) fs gs := by
  induction h with
  | nil => exact .nil
  | kept hu hr _ ih =>
    refine .kept (getElem?_append_some hu os) ?_ ih
    cases hr with
    | some hr => exact .some (getElem?_append_some hr ps)
    | none => exact .none
  | moved hb hu hj hk _ ih =>
    exact .moved hb (getElem?_append_some hu os) (getElem?_append_some hj ps)
      (getElem?_append_some hk ps) ih

def Follows (b : Nat → Bool) (w v : Walk) : Prop :=
  ∃ owners parts, owners.length = v.tables ∧ Padded b w.tables owners parts w.rows v.rows ∧
    PaddedFrames b owners parts w.frames v.frames

theorem follows_start (b : Nat → Bool) : Follows b .start .start := by
  refine ⟨[], [], rfl, ?_, .nil⟩
  constructor <;> simp [Walk.start]

namespace Follows

open Walk

variable {b : Nat → Bool} {w v : Walk}

theorem openTable (h : Follows b w v) (hw : w.IsSound) :
    Follows b w.openTable v.openTable := by
  obtain ⟨owners, parts, hn, hp, hf⟩ := h
  refine ⟨owners ++ [Owner.old w.tables], parts, ?_, hp.openTable hw.rows_table, ?_⟩
  · rw [List.length_append, hn]
    rfl
  · have := hf.append [.old w.tables] []
    rw [List.append_nil] at this
    refine .kept ?_ .none this
    rw [← hn]
    exact List.getElem?_concat_length

theorem closeTable (h : Follows b w v) (hc : ∀ i, w.innerRow = some i → b i = false) :
    Follows b w.closeTable v.closeTable := by
  obtain ⟨owners, parts, hn, hp, hf⟩ := h
  refine ⟨owners, parts, hn, hp, ?_⟩
  obtain ⟨rs, fs, n⟩ := w
  obtain ⟨vs, gs, m⟩ := v
  cases hf with
  | nil => exact .nil
  | kept _ _ hf => exact hf
  | moved hb =>
    rw [hc _ rfl] at hb
    cases hb

theorem takeAll_wrapperMarks (vs : List Row) (u : Nat) (row : Option Nat) (gs : List Frame)
    (m : Nat) :
    (⟨vs, ⟨u, row⟩ :: gs, m⟩ : Walk).takeAll (wrapperMarks ++ [.openRow]) =
      ⟨vs ++ [⟨u, 0, none, 1, false⟩, ⟨m, 0, none, 0, false⟩],
        ⟨m, some (vs.length + 1)⟩ :: ⟨u, some vs.length⟩ :: gs, m + 1⟩ := by
  simp [wrapperMarks, takeAll, take, Walk.openRow, Walk.openCell, Walk.openTable,
    modify_append_cons]

theorem openRow (h : Follows b w v) (hc : ∀ i, w.innerRow = some i → b i = false) :
    Follows b (w.openRow 0) (v.takeAll (w.padOne b .openRow)) := by
  obtain ⟨owners, parts, hn, hp, hf⟩ := h
  obtain ⟨rs, fs, n⟩ := w
  obtain ⟨vs, gs, m⟩ := v
  cases hf with
  | nil => exact ⟨owners, parts, hn, hp, .nil⟩
  | moved hb =>
    rw [hc _ rfl] at hb
    cases hb
  | @kept t u row row' fs gs hu hr hf =>
    obtain rfl : owners.length = m := hn
    have hl : parts.length = vs.length := hp.agrees.length_eq
    cases hb : b rs.length with
    | false =>
      have hone : (⟨rs, ⟨t, row⟩ :: fs, n⟩ : Walk).padOne b .openRow = [.openRow] := by
        simp [padOne, opensChosen, closesChosen, hb]
      rw [hone]
      have hframes := hf.append [] [.kept rs.length]
      rw [List.append_nil] at hframes
      refine ⟨owners, parts ++ [Part.kept rs.length], rfl, hp.openKept hu hb 0,
        .kept hu (.some ?_) hframes⟩
      rw [← hl]
      exact List.getElem?_concat_length
    | true =>
      have hone : (⟨rs, ⟨t, row⟩ :: fs, n⟩ : Walk).padOne b .openRow =
          wrapperMarks ++ [.openRow] := by
        simp [padOne, opensChosen, closesChosen, hb]
      rw [hone, takeAll_wrapperMarks]
      refine ⟨owners ++ [Owner.new rs.length],
        parts ++ [Part.wrapper rs.length, Part.moved rs.length], ?_,
        hp.openMoved hu 0 0, .moved hb (getElem?_append_some hu _) ?_ ?_ (hf.append _ _)⟩
      · simp
      · simp [← hl]
      · simp [← hl]

theorem closeRow (h : Follows b w v) :
    Follows b (w.closeRow 0) (v.takeAll (w.padOne b .closeRow)) := by
  obtain ⟨owners, parts, hn, hp, hf⟩ := h
  obtain ⟨rs, fs, n⟩ := w
  obtain ⟨vs, gs, m⟩ := v
  cases hf with
  | nil => exact ⟨owners, parts, hn, hp, .nil⟩
  | @kept t u row row' fs gs hu hr hf =>
    cases hr with
    | none => exact ⟨owners, parts, hn, hp, .kept hu .none hf⟩
    | @some i j hj =>
      have hb : b i = false := hp.not_chosen hj
      have hone : (⟨rs, ⟨t, some i⟩ :: fs, n⟩ : Walk).padOne b .closeRow = [.closeRow] := by
        simp [padOne, opensChosen, closesChosen, innerRow, hb]
      rw [hone]
      exact ⟨owners, parts, hn, hp.modifyKept hj fun _ _ => rfl, .kept hu .none hf⟩
  | @moved t u x i j k fs gs hb hu hj hk hf =>
    have hone : (⟨rs, ⟨t, some i⟩ :: fs, n⟩ : Walk).padOne b .closeRow =
        .closeRow :: wrapperEndMarks := by
      simp [padOne, opensChosen, closesChosen, innerRow, hb]
    rw [hone]
    have hp' := hp.modifyChosen hb (f := fun r => { r with stop := some 0 }) fun _ => rfl
    have hm := hp'.modifyMoved hk (f := fun r => { r with stop := some 0 }) fun _ => rfl
    have hw := hm.modifyWrapper hj (f := fun r => { r with stop := some 0 }) (fun _ => rfl)
      fun _ => rfl
    exact ⟨owners, parts, hn, hw, .kept hu .none hf⟩

theorem openCell (h : Follows b w v) (spans : Bool) :
    Follows b (w.openCell spans) (v.openCell spans) := by
  obtain ⟨owners, parts, hn, hp, hf⟩ := h
  obtain ⟨rs, fs, n⟩ := w
  obtain ⟨vs, gs, m⟩ := v
  cases hf with
  | nil => exact ⟨owners, parts, hn, hp, .nil⟩
  | @kept t u row row' fs gs hu hr hf =>
    cases hr with
    | none => exact ⟨owners, parts, hn, hp, .kept hu .none hf⟩
    | @some i j hj =>
      exact ⟨owners, parts, hn, hp.modifyKept hj fun _ _ => rfl, .kept hu (.some hj) hf⟩
  | @moved t u x i j k fs gs hb hu hj hk hf =>
    have hp' := hp.modifyChosen hb
      (f := fun r => { r with cells := r.cells + 1, spans := r.spans || spans }) fun _ => rfl
    have hm := hp'.modifyMoved hk
      (f := fun r => { r with cells := r.cells + 1, spans := r.spans || spans }) fun _ => rfl
    exact ⟨owners, parts, hn, hm, .moved hb hu hj hk hf⟩

theorem take (h : Follows b w v) (hw : w.IsSound) {m : Mark}
    (hc : m = .openRow ∨ m = .closeTable → ∀ i, w.innerRow = some i → b i = false) :
    Follows b (w.take m) (v.takeAll (w.padOne b m)) := by
  cases m with
  | openTable => exact h.openTable hw
  | closeTable => exact h.closeTable (hc (.inr rfl))
  | openRow => exact h.openRow (hc (.inl rfl))
  | closeRow => exact h.closeRow
  | openCell spans => exact h.openCell spans
  | closeCell => exact h

theorem takeAll (h : Follows b w v) (hw : w.IsSound) (ms : List Mark)
    (hb : ∀ i r, (w.takeAll ms).rows[i]? = some r → b i = true → r.stop.isSome = true) :
    Follows b (w.takeAll ms) (v.takeAll (w.pad b ms)) := by
  induction ms generalizing w v with
  | nil => exact h
  | cons m ms ih =>
    rw [pad, takeAll_append]
    refine ih (h.take hw fun hm i hi => ?_) (hw.take m) hb
    obtain ⟨r, hr, hs⟩ := hw.unclosed_takeAll hi hm ms
    by_contra hbi
    have := hb i r hr (by simpa using hbi)
    rw [hs] at this
    cases this

end Follows

end MailMarkup.Table
