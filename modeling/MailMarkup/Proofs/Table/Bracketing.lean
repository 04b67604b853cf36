import MailMarkup.Proofs.Markup.TokenPositions
import MailMarkup.Proofs.Table.Columns

namespace MailMarkup.Table

open Text Markup

def Row.bounds (r : Row) : Nat × Option Nat := (r.start, r.stop)

namespace Walk

def bounds (w : Walk) : List (Nat × Option Nat) := w.rows.map Row.bounds

def opened? (w : Walk) (t : Tag) : Option Nat :=
  if Mark.of t = .openRow ∧ w.frames ≠ [] then some w.rows.length else none

def closed? (w : Walk) (t : Tag) : Option Nat := if Mark.of t = .closeRow then w.innerRow else none

inductive Moves (w : Walk) (t : Token) : Prop
  | stays (opens : w.opened? t.toTag = none) (closes : w.closed? t.toTag = none)
      (bounds : (w.step t).bounds = w.bounds) (stack : (w.step t).openRows.Sublist w.openRows)
  | opens {is : List Nat} (opens : w.opened? t.toTag = some w.rows.length)
      (closes : w.closed? t.toTag = none)
      (bounds : (w.step t).bounds = w.bounds ++ [(t.start, none)])
      (stack : (w.step t).openRows = w.rows.length :: is) (sub : is.Sublist w.openRows)
  | closes {i : Nat} (opens : w.opened? t.toTag = none) (closes : w.closed? t.toTag = some i)
      (bounds : (w.step t).bounds = w.bounds.modify i fun e => (e.1, some t.stop))
      (stack : w.openRows = i :: (w.step t).openRows)

theorem step_eq (w : Walk) (t : Token) :
    w.step t =
      match Mark.of t.toTag with
      | .openTable => w.openTable
      | .closeTable => w.closeTable
      | .openRow => w.openRow t.start
      | .closeRow => w.closeRow t.stop
      | .openCell spans => w.openCell spans
      | .closeCell => w := by
  unfold step Mark.of
  split
  · split <;> rfl
  · split
    · split <;> rfl
    · split <;> rfl

theorem bounds_openCell (w : Walk) (spans : Bool) : (w.openCell spans).bounds = w.bounds := by
  obtain ⟨rs, _ | ⟨⟨n, _ | i⟩, fs⟩, m⟩ := w
  · rfl
  · rfl
  · refine (map_modify (g := id) (by intro r; rfl) rs i).trans ?_
    rw [List.modify_id]
    rfl

theorem moves (w : Walk) (t : Token) : w.Moves t := by
  have hstep := step_eq w t
  cases hm : Mark.of t.toTag with
  | openTable =>
    rw [hm] at hstep
    exact .stays (by simp [opened?, hm]) (by simp [closed?, hm]) (by rw [hstep]; rfl)
      (by rw [hstep]; exact List.Sublist.refl _)
  | closeTable =>
    rw [hm] at hstep
    exact .stays (by simp [opened?, hm]) (by simp [closed?, hm]) (by rw [hstep]; rfl)
      (by rw [hstep]; exact w.openRows_closeTable)
  | openCell spans =>
    rw [hm] at hstep
    refine .stays (by simp [opened?, hm]) (by simp [closed?, hm]) ?_ ?_
    · rw [hstep]
      exact bounds_openCell w spans
    · rw [hstep]
      obtain ⟨rs, _ | ⟨⟨n, _ | i⟩, fs⟩, m⟩ := w <;> exact List.Sublist.refl _
  | closeCell =>
    rw [hm] at hstep
    exact .stays (by simp [opened?, hm]) (by simp [closed?, hm]) (by rw [hstep])
      (by rw [hstep])
  | openRow =>
    rw [hm] at hstep
    obtain ⟨rs, _ | ⟨⟨n, row⟩, fs⟩, m⟩ := w
    · exact .stays (by simp [opened?]) (by simp [closed?, hm]) (by rw [hstep]; rfl)
        (by rw [hstep]; exact List.Sublist.refl _)
    · refine .opens (by simp [opened?, hm]) (by simp [closed?, hm]) ?_ (by rw [hstep]; rfl)
        ((List.sublist_cons_self _ _).filterMap _)
      rw [hstep]
      exact List.map_append
  | closeRow =>
    rw [hm] at hstep
    obtain ⟨rs, _ | ⟨⟨n, _ | i⟩, fs⟩, m⟩ := w
    · exact .stays (by simp [opened?]) (by simp [closed?, hm, innerRow]) (by rw [hstep]; rfl)
        (by rw [hstep]; exact List.Sublist.refl _)
    · exact .stays (by simp [opened?, hm]) (by simp [closed?, hm, innerRow]) (by rw [hstep]; rfl)
        (by rw [hstep]; exact List.Sublist.refl _)
    · refine .closes (by simp [opened?, hm]) (by simp [closed?, hm, innerRow]; rfl) ?_
        (by rw [hstep]; rfl)
      rw [hstep]
      exact map_modify (by intro r; rfl) rs i

theorem length_bounds (w : Walk) : w.bounds.length = w.rows.length := List.length_map ..

theorem getElem?_modify_some {α : Type} {f : α → α} {as : List α} {i j : Nat} {a : α}
    (h : (as.modify j f)[i]? = some a) :
    i ≠ j ∧ as[i]? = some a ∨ i = j ∧ ∃ b, as[j]? = some b ∧ a = f b := by
  rw [List.getElem?_modify] at h
  obtain ⟨b, hb, rfl⟩ := Option.map_eq_some_iff.1 h
  by_cases hj : j = i
  · subst hj
    exact .inr ⟨rfl, b, hb, by simp⟩
  · exact .inl ⟨Ne.symm hj, by simpa [hj] using hb⟩

theorem moves_off_stack {w : Walk} {i : Nat} (hi : i < w.rows.length) (hn : i ∉ w.openRows)
    (t : Token) :
    i < (w.step t).rows.length ∧ i ∉ (w.step t).openRows ∧
      (w.step t).bounds[i]? = w.bounds[i]? := by
  rw [← length_bounds] at hi ⊢
  cases w.moves t with
  | stays _ _ bounds stack => exact ⟨bounds ▸ hi, fun h => hn (stack.subset h), by rw [bounds]⟩
  | opens _ _ bounds stack sub =>
    refine ⟨?_, ?_, ?_⟩
    · rw [bounds, List.length_append]
      exact Nat.lt_add_right _ hi
    · rw [stack, List.mem_cons, not_or, ← length_bounds]
      exact ⟨Nat.ne_of_lt hi, fun h => hn (sub.subset h)⟩
    · rw [bounds, List.getElem?_append_left hi]
  | @closes j _ _ bounds stack =>
    rw [stack, List.mem_cons, not_or] at hn
    refine ⟨?_, hn.2, ?_⟩
    · rwa [bounds, List.length_modify]
    · rw [bounds, List.getElem?_modify]
      simp [Ne.symm hn.1]

theorem bounds_foldl_off_stack {w : Walk} {i : Nat} (hi : i < w.rows.length) (hn : i ∉ w.openRows)
    (ts : List Token) : (ts.foldl step w).bounds[i]? = w.bounds[i]? := by
  induction ts generalizing w with
  | nil => rfl
  | cons t ts ih =>
    obtain ⟨hi', hn', hb⟩ := moves_off_stack hi hn t
    rw [List.foldl_cons, ih hi' hn', hb]

theorem start_step {w : Walk} {i s : Nat} {d : Option Nat} (h : w.bounds[i]? = some (s, d))
    (t : Token) : ∃ d, (w.step t).bounds[i]? = some (s, d) := by
  cases w.moves t with
  | stays _ _ bounds _ => exact ⟨d, by rw [bounds, h]⟩
  | opens _ _ bounds _ _ => exact ⟨d, by rw [bounds, getElem?_append_some h]⟩
  | @closes j _ _ bounds _ =>
    rw [bounds, List.getElem?_modify, h]
    by_cases hj : j = i
    · exact ⟨some t.stop, by simp [hj]⟩
    · exact ⟨d, by simp [hj]⟩

theorem start_foldl {w : Walk} {i s : Nat} {d : Option Nat} (h : w.bounds[i]? = some (s, d))
    (ts : List Token) : ∃ d, (ts.foldl step w).bounds[i]? = some (s, d) := by
  induction ts generalizing w d with
  | nil => exact ⟨d, h⟩
  | cons t ts ih =>
    obtain ⟨d', hd⟩ := start_step h t
    exact ih hd

structure IsLaid (now : Nat) (w : Walk) : Prop where
  start_lt : ∀ (i s : Nat) d, w.bounds[i]? = some (s, d) → s < now
  stop : ∀ (i s d : Nat), w.bounds[i]? = some (s, some d) → s < d ∧ d ≤ now
  starts : ∀ (i j s u : Nat) d e, i < j → w.bounds[i]? = some (s, d) → w.bounds[j]? = some (u, e) →
    s < u
  nested : ∀ (i j s d u e : Nat), i < j → w.bounds[i]? = some (s, some d) →
    w.bounds[j]? = some (u, some e) → d ≤ u ∨ e < d
  stack : w.openRows.Pairwise (· > ·)
  open_behind : ∀ (i j s d u : Nat) e, i < j → j ∈ w.openRows → w.bounds[i]? = some (s, some d) →
    w.bounds[j]? = some (u, e) → d ≤ u

theorem isLaid_start (now : Nat) : start.IsLaid now := by
  constructor <;> simp [bounds, start, openRows]

namespace IsLaid

variable {now : Nat} {w : Walk}

theorem mono (h : w.IsLaid now) {later : Nat} (hn : now ≤ later) : w.IsLaid later where
  start_lt i s d he := Nat.lt_of_lt_of_le (h.start_lt i s d he) hn
  stop i s d he := ⟨(h.stop i s d he).1, Nat.le_trans (h.stop i s d he).2 hn⟩
  starts := h.starts
  nested := h.nested
  stack := h.stack
  open_behind := h.open_behind

theorem of_stays (h : w.IsLaid now) {v : Walk} (hb : v.bounds = w.bounds)
    (hs : v.openRows.Sublist w.openRows) : v.IsLaid now where
  start_lt := hb ▸ h.start_lt
  stop := hb ▸ h.stop
  starts := hb ▸ h.starts
  nested := hb ▸ h.nested
  stack := h.stack.sublist hs
  open_behind i j s d u e hij hj := by
    rw [hb]
    exact h.open_behind i j s d u e hij (hs.subset hj)

theorem of_opens (h : w.IsLaid now) (hw : w.IsSound) {v : Walk} {place : Nat} {is : List Nat}
    (hp : now ≤ place) (hb : v.bounds = w.bounds ++ [(place, none)])
    (hv : v.openRows = w.rows.length :: is) (hs : is.Sublist w.openRows) :
    v.IsLaid (place + 1) := by
  rw [← length_bounds] at hv
  have hlt {i : Nat} {e : Nat × Option Nat} (he : w.bounds[i]? = some e) : i < w.bounds.length :=
    (List.getElem?_eq_some_iff.1 he).1
  have hcases {i s : Nat} {d : Option Nat} (he : v.bounds[i]? = some (s, d)) :
      w.bounds[i]? = some (s, d) ∨ i = w.bounds.length ∧ s = place ∧ d = none := by
    rw [hb] at he
    exact (getElem?_concat_some he).imp_right fun ⟨hi, hd⟩ => ⟨hi, Prod.mk.inj hd⟩
  constructor
  · intro i s d he
    rcases hcases he with he | ⟨-, rfl, -⟩
    · have := h.start_lt i s d he
      omega
    · exact Nat.lt_succ_self _
  · intro i s d he
    rcases hcases he with he | ⟨-, -, hn⟩
    · have := h.stop i s d he
      omega
    · cases hn
  · intro i j s u d e hij hi hj
    rcases hcases hi with hi | ⟨rfl, -, -⟩ <;> rcases hcases hj with hj | ⟨rfl, rfl, -⟩
    · exact h.starts i j s u d e hij hi hj
    · exact Nat.lt_of_lt_of_le (h.start_lt i s d hi) hp
    · exact absurd (hlt hj) (Nat.not_lt.2 (Nat.le_of_lt hij))
    · exact absurd hij (Nat.lt_irrefl _)
  · intro i j s d u e hij hi hj
    rcases hcases hi with hi | ⟨-, -, hn⟩
    · rcases hcases hj with hj | ⟨-, -, hn⟩
      · exact h.nested i j s d u e hij hi hj
      · cases hn
    · cases hn
  · rw [hv]
    refine .cons (fun i hi => ?_) (h.stack.sublist hs)
    rw [length_bounds]
    exact hw.lt (hs.subset hi)
  · intro i j s d u e hij hj hi hu
    rcases hcases hi with hi | ⟨-, -, hn⟩
    · rcases hcases hu with hu | ⟨-, rfl, -⟩
      · rw [hv, List.mem_cons] at hj
        rcases hj with rfl | hj
        · exact absurd (hlt hu) (Nat.lt_irrefl _)
        · exact h.open_behind i j s d u e hij (hs.subset hj) hi hu
      · exact Nat.le_trans (h.stop i s d hi).2 hp
    · cases hn

theorem of_closes (h : w.IsLaid now) {v : Walk} {place j : Nat} (hp : now < place)
    (hb : v.bounds = w.bounds.modify j fun e => (e.1, some place))
    (hs : w.openRows = j :: v.openRows) : v.IsLaid place := by
  have hcases {i s : Nat} {d : Option Nat} (he : v.bounds[i]? = some (s, d)) :
      i ≠ j ∧ w.bounds[i]? = some (s, d) ∨
        i = j ∧ d = some place ∧ ∃ d', w.bounds[i]? = some (s, d') := by
    rw [hb] at he
    refine (getElem?_modify_some he).imp_right ?_
    rintro ⟨rfl, ⟨s', d'⟩, hd, he⟩
    obtain ⟨rfl, rfl⟩ := Prod.mk.inj he
    exact ⟨rfl, rfl, d', hd⟩
  have hold {i s : Nat} {d : Option Nat} (he : v.bounds[i]? = some (s, d)) :
      ∃ d', w.bounds[i]? = some (s, d') := by
    rcases hcases he with ⟨-, he⟩ | ⟨-, -, he⟩
    · exact ⟨d, he⟩
    · exact he
  have hj : j ∈ w.openRows := hs ▸ List.mem_cons_self
  have hstack := h.stack
  rw [hs, List.pairwise_cons] at hstack
  constructor
  · intro i s d he
    obtain ⟨d', hd⟩ := hold he
    exact Nat.lt_trans (h.start_lt i s d' hd) hp
  · intro i s d he
    rcases hcases he with ⟨-, he⟩ | ⟨-, hd, d', hd'⟩
    · have := h.stop i s d he
      omega
    · have := h.start_lt i s d' hd'
      cases hd
      omega
  · intro i k s u d e hik hi hk
    obtain ⟨d', hd⟩ := hold hi
    obtain ⟨e', he⟩ := hold hk
    exact h.starts i k s u d' e' hik hd he
  · intro i k s d u e hik hi hk
    rcases hcases hi with ⟨hij, hi⟩ | ⟨rfl, hd, -⟩ <;>
      rcases hcases hk with ⟨hkj, hk⟩ | ⟨rfl, he, e', hk⟩
    · exact h.nested i k s d u e hik hi hk
    · exact .inl (h.open_behind i k s d u e' hik hj hi hk)
    · have := (h.stop k u e hk).2
      cases hd
      exact .inr (Nat.lt_of_le_of_lt this hp)
    · exact absurd hik (Nat.lt_irrefl _)
  · exact hstack.2
  · intro i k s d u e hik hk hi hu
    have hkj := hstack.1 k hk
    rcases hcases hi with ⟨-, hi⟩ | ⟨rfl, -, -⟩
    · rcases hcases hu with ⟨-, hu⟩ | ⟨rfl, -, -⟩
      · exact h.open_behind i k s d u e hik (hs ▸ List.mem_cons_of_mem _ hk) hi hu
      · exact absurd hkj (Nat.lt_irrefl _)
    · exact absurd (Nat.lt_trans hik hkj) (Nat.lt_irrefl _)

theorem step (h : w.IsLaid now) (hw : w.IsSound) {t : Token} (hs : now ≤ t.start)
    (ht : t.start < t.stop) : (w.step t).IsLaid t.stop := by
  cases w.moves t with
  | stays _ _ bounds stack =>
    exact (h.of_stays bounds stack).mono (Nat.le_of_lt (Nat.lt_of_le_of_lt hs ht))
  | opens _ _ bounds stack sub => exact (h.of_opens hw hs bounds stack sub).mono ht
  | closes _ _ bounds stack => exact h.of_closes (Nat.lt_of_le_of_lt hs ht) bounds stack

theorem foldl (h : w.IsLaid now) (hw : w.IsSound) {ts : List Token} {n : Nat} (hn : now ≤ n)
    (ht : ∀ t ∈ ts, now ≤ t.start ∧ t.start < t.stop ∧ t.stop ≤ n)
    (ho : ts.Pairwise fun t u => t.stop ≤ u.start) : (ts.foldl Walk.step w).IsLaid n := by
  induction ts generalizing now w with
  | nil => exact h.mono hn
  | cons t ts ih =>
    obtain ⟨hs, hlt, hle⟩ := ht t List.mem_cons_self
    rw [List.pairwise_cons] at ho
    refine ih (h.step hw hs hlt) (hw.step t) hle (fun u hu => ?_) ho.2
    exact ⟨ho.1 u hu, (ht u (List.mem_cons_of_mem _ hu)).2⟩

theorem pairwise (h : w.IsLaid now) : w.rows.Pairwise fun r q =>
    ∀ d e, r.stop = some d → q.stop = some e → r.start < q.start ∧ (d ≤ q.start ∨ e < d) := by
  rw [List.pairwise_iff_getElem]
  intro i j hi hj hij d e hd he
  have hbi : w.bounds[i]? = some (w.rows[i].start, some d) := by
    rw [bounds, List.getElem?_map, List.getElem?_eq_getElem hi, Option.map_some, Row.bounds, hd]
  have hbj : w.bounds[j]? = some (w.rows[j].start, some e) := by
    rw [bounds, List.getElem?_map, List.getElem?_eq_getElem hj, Option.map_some, Row.bounds, he]
  exact ⟨h.starts _ _ _ _ _ _ hij hbi hbj, h.nested _ _ _ _ _ _ hij hbi hbj⟩

theorem stop_of_mem (h : w.IsLaid now) {r : Row} (hr : r ∈ w.rows) {d : Nat}
    (hd : r.stop = some d) : r.start < d ∧ d ≤ now := by
  obtain ⟨i, hi⟩ := List.mem_iff_getElem?.1 hr
  refine h.stop i r.start d ?_
  rw [bounds, List.getElem?_map, hi, Option.map_some, Row.bounds, hd]

end IsLaid

end Walk

def closedSpans (html : Text) : List (Nat × Nat) :=
  (rows html).filterMap fun r => r.stop.map (r.start, ·)

theorem isLaid_rows (html : Text) :
    ((tokens structureNames html).foldl Walk.step .start).IsLaid html.length := by
  have hsub := tokens_sublist structureNames html
  refine (Walk.isLaid_start 0).foldl Walk.isSound_start (Nat.zero_le _) (fun t ht => ?_)
    ((pairwise_tokens html).sublist hsub)
  obtain ⟨hlt, hle, -⟩ := exists_isWritten (hsub.subset ht)
  exact ⟨Nat.zero_le _, hlt, hle⟩

inductive Fragment where
  | text (s : Text)
  | opening (r : Row)
  | closing (r : Row)

namespace Fragment

def erased : Fragment → Text
  | text s => s
  | opening _ => []
  | closing _ => []

def written (l : Layout) : Fragment → Text
  | text s => s
  | opening _ => wrapperOpening l
  | closing _ => wrapperClosing

end Fragment

inductive IsMatched : List Fragment → Prop
  | nil : IsMatched []
  | text (s : Text) {fs : List Fragment} (rest : IsMatched fs) : IsMatched (.text s :: fs)
  | row (r : Row) {fs gs : List Fragment} (inner : IsMatched fs) (rest : IsMatched gs) :
    IsMatched (.opening r :: (fs ++ .closing r :: gs))

def openings (place : Nat) : List Fragment → List (Row × Nat)
  | [] => []
  | .opening r :: fs => (r, place) :: openings place fs
  | f :: fs => openings (place + f.erased.length) fs

def closings (place : Nat) : List Fragment → List (Row × Nat)
  | [] => []
  | .closing r :: fs => (r, place) :: closings place fs
  | f :: fs => closings (place + f.erased.length) fs

def Row.IsMoved (rs : List Row) (r : Row) : Prop :=
  r.stop ≠ none ∧ 2 ≤ r.cells ∧ r.spans = false ∧ 2 ≤ (rs.filter (·.table = r.table)).length

instance (rs : List Row) : DecidablePred (Row.IsMoved rs) :=
  fun _ => inferInstanceAs (Decidable (_ ∧ _))

theorem isWrapped_iff {rs : List Row} {r : Row} : isWrapped rs r = true ↔ r.IsMoved rs := by
  simp only [isWrapped, isMultiColumn, Row.IsMoved, rowCount, List.countP_eq_length_filter,
    Option.isSome_iff_ne_none, Bool.and_eq_true, decide_eq_true_eq, Bool.not_eq_true', ge_iff_le]
  simp only [beq_eq_decide]
  tauto

def moved? (rs : List Row) (o : Option Nat) : Option Row :=
  o.bind fun i => rs[i]?.filter (isWrapped rs)

def fragments (rs : List Row) (w : Walk) (place : Nat) : Lexemes → List Fragment
  | [] => []
  | .hit (.tag k) s :: ps =>
    if k.isAmong structureNames then
      (moved? rs (w.opened? k)).toList.map .opening ++ .text s ::
        ((moved? rs (w.closed? k)).toList.map .closing ++
          fragments rs (w.step { k with start := place, stop := place + s.length })
            (place + s.length) ps)
    else .text s :: fragments rs w (place + s.length) ps
  | p :: ps => .text p.source :: fragments rs w (place + p.source.length) ps

theorem erased_fragments (rs : List Row) (w : Walk) (place : Nat) (ps : Lexemes) :
    (fragments rs w place ps).flatMap Fragment.erased = source ps := by
  have ho (o : Option Row) : (o.toList.map Fragment.opening).flatMap Fragment.erased = [] := by
    cases o <;> rfl
  have hc (o : Option Row) : (o.toList.map Fragment.closing).flatMap Fragment.erased = [] := by
    cases o <;> rfl
  induction ps using Lexemes.induction generalizing w place with
  | nil => rfl
  | char c ps ih => exact congrArg ([c] ++ ·) (ih ..)
  | comment s ps ih => exact congrArg (s ++ ·) (ih ..)
  | tag k s ps ih =>
    simp only [fragments]
    split
    · rw [List.flatMap_append, ho, List.flatMap_cons, List.flatMap_append, hc, ih]
      rfl
    · exact congrArg (s ++ ·) (ih ..)

theorem opensChosen_eq (b : Nat → Bool) (w : Walk) (k : Tag) :
    w.erase.opensChosen b (.of k) = (w.opened? k).any b := by
  have hl : w.erase.rows.length = w.rows.length := List.length_map ..
  have hf : w.erase.frames = w.frames := rfl
  cases hm : Mark.of k <;> simp [Walk.opensChosen, Walk.opened?, hm]
  rw [hl, hf]
  cases w.frames <;> simp

theorem closesChosen_eq (b : Nat → Bool) (w : Walk) (k : Tag) :
    w.erase.closesChosen b (.of k) = (w.closed? k).any b := by
  have hi : w.erase.innerRow = w.innerRow := rfl
  cases hm : Mark.of k <;> simp [Walk.closesChosen, Walk.closed?, hm, hi]

theorem isSome_moved? (rs : List Row) (o : Option Nat) :
    (moved? rs o).isSome = o.any fun i => rs[i]?.any (isWrapped rs) := by
  cases o with
  | none => rfl
  | some i => simp [moved?, Option.isSome_filter]

theorem written_fragments (l : Layout) (rs : List Row) (w : Walk) (place : Nat) (ps : Lexemes) :
    (fragments rs w place ps).flatMap (Fragment.written l) =
      paddedText l (fun i => rs[i]?.any (isWrapped rs)) w.erase ps := by
  have ho (o : Option Row) : (o.toList.map Fragment.opening).flatMap (Fragment.written l) =
      if o.isSome then wrapperOpening l else [] := by
    cases o <;> simp [Fragment.written]
  have hc (o : Option Row) : (o.toList.map Fragment.closing).flatMap (Fragment.written l) =
      if o.isSome then wrapperClosing else [] := by
    cases o <;> simp [Fragment.written]
  induction ps using Lexemes.induction generalizing w place with
  | nil => rfl
  | char c ps ih => exact congrArg ([c] ++ ·) (ih ..)
  | comment s ps ih => exact congrArg (s ++ ·) (ih ..)
  | tag k s ps ih =>
    simp only [fragments, paddedText]
    split
    · rw [List.flatMap_append, ho, List.flatMap_cons, List.flatMap_append, hc, ih,
        Walk.erase_step, opensChosen_eq, closesChosen_eq, isSome_moved?, isSome_moved?]
      rfl
    · exact congrArg (s ++ ·) (ih ..)

theorem exists_of_bounds {w : Walk} {i s : Nat} {d : Option Nat} (h : w.bounds[i]? = some (s, d)) :
    ∃ r, w.rows[i]? = some r ∧ r.start = s ∧ r.stop = d := by
  obtain ⟨r, hr, hb⟩ := exists_of_getElem?_map h
  exact ⟨r, hr, Prod.mk.inj hb⟩

theorem openings_append_opening (place : Nat) (o : Option Row) (fs : List Fragment) :
    openings place (o.toList.map .opening ++ fs) =
      o.toList.map (·, place) ++ openings place fs := by
  cases o <;> rfl

theorem openings_append_closing (place : Nat) (o : Option Row) (fs : List Fragment) :
    openings place (o.toList.map .closing ++ fs) = openings place fs := by
  cases o <;> rfl

theorem closings_append_opening (place : Nat) (o : Option Row) (fs : List Fragment) :
    closings place (o.toList.map .opening ++ fs) = closings place fs := by
  cases o <;> rfl

theorem closings_append_closing (place : Nat) (o : Option Row) (fs : List Fragment) :
    closings place (o.toList.map .closing ++ fs) =
      o.toList.map (·, place) ++ closings place fs := by
  cases o <;> rfl

section

variable {rs : List Row} {w : Walk} {t : Token} {ts : List Token}

theorem moved?_opened (hrs : (ts.foldl Walk.step (w.step t)).rows = rs) :
    (rs.drop w.rows.length).filter (isWrapped rs) =
        (moved? rs (w.opened? t.toTag)).toList ++
          (rs.drop (w.step t).rows.length).filter (isWrapped rs) ∧
      ∀ r ∈ moved? rs (w.opened? t.toTag), r.start = t.start := by
  cases w.moves t with
  | stays opens _ bounds _ =>
    have hl := congrArg List.length bounds
    rw [Walk.length_bounds, Walk.length_bounds] at hl
    simp [opens, hl, moved?]
  | closes opens _ bounds _ =>
    have hl := congrArg List.length bounds
    rw [List.length_modify, Walk.length_bounds, Walk.length_bounds] at hl
    simp [opens, hl, moved?]
  | opens opens _ bounds _ _ =>
    have hl := congrArg List.length bounds
    rw [List.length_append, Walk.length_bounds, Walk.length_bounds] at hl
    have hb : (w.step t).bounds[w.rows.length]? = some (t.start, none) := by
      rw [bounds, ← Walk.length_bounds, List.getElem?_concat_length]
    obtain ⟨d, hd⟩ := Walk.start_foldl hb ts
    obtain ⟨r, hr, hs, -⟩ := exists_of_bounds hd
    rw [hrs] at hr
    obtain ⟨hn, rfl⟩ := List.getElem?_eq_some_iff.1 hr
    have hm : moved? rs (some w.rows.length) =
        if isWrapped rs rs[w.rows.length] then some rs[w.rows.length] else none := by
      rw [moved?, Option.bind_some, hr, Option.filter_some]
    rw [opens, hm, hl, List.drop_eq_getElem_cons hn, List.filter_cons]
    split
    · exact ⟨rfl, fun r hr => Option.some.inj hr ▸ hs⟩
    · exact ⟨rfl, by simp⟩

theorem moved?_closed (hw : w.IsSound) (hrs : (ts.foldl Walk.step (w.step t)).rows = rs) :
    ∀ r ∈ moved? rs (w.closed? t.toTag), r.stop = some t.stop := by
  cases w.moves t with
  | stays _ closes _ _ => simp [closes, moved?]
  | opens _ closes _ _ _ => simp [closes, moved?]
  | @closes i _ closes bounds stack =>
    have hi : i ∈ w.openRows := stack ▸ List.mem_cons_self
    have hn : i ∉ (w.step t).openRows := by
      have := hw.distinct
      rw [stack, List.nodup_cons] at this
      exact this.1
    obtain ⟨r, hr, -⟩ := hw.unclosed i hi
    have hb : (w.step t).bounds[i]? = some (r.start, some t.stop) := by
      rw [bounds, List.getElem?_modify, Walk.bounds, List.getElem?_map, hr]
      simp [Row.bounds]
    have hlt : i < (w.step t).rows.length := by
      rw [← Walk.length_bounds]
      exact (List.getElem?_eq_some_iff.1 hb).1
    obtain ⟨q, hq, -, hstop⟩ := exists_of_bounds ((Walk.bounds_foldl_off_stack hlt hn ts).trans hb)
    rw [hrs] at hq
    intro u hu
    rw [closes, moved?, Option.bind_some, hq] at hu
    obtain ⟨he, -⟩ := Option.filter_eq_some_iff.1 hu
    exact Option.some.inj he ▸ hstop

end

theorem openings_fragments {rs : List Row} {w : Walk} {place : Nat} {ps : Lexemes}
    (hrs : ((tokensFrom structureNames place ps).foldl Walk.step w).rows = rs) :
    openings place (fragments rs w place ps) =
      ((rs.drop w.rows.length).filter (isWrapped rs)).map fun r => (r, r.start) := by
  induction ps using Lexemes.induction generalizing w place with
  | nil =>
    obtain rfl : w.rows = rs := hrs
    rw [List.drop_length]
    rfl
  | char c ps ih => exact ih hrs
  | comment s ps ih => exact ih hrs
  | tag k s ps ih =>
    by_cases hk : k.isAmong structureNames = true
    · rw [tokensFrom_among hk, List.foldl_cons] at hrs
      obtain ⟨hrows, hstart⟩ := moved?_opened hrs
      simp only [fragments, if_pos hk, openings_append_opening, openings,
        openings_append_closing, Fragment.erased, ih hrs]
      rw [hrows, List.map_append]
      refine congrArg (· ++ _) (List.map_congr_left fun r hr => ?_)
      rw [hstart r (by simpa using hr)]
    · rw [tokensFrom_not_among hk] at hrs
      simp only [fragments, if_neg hk]
      exact ih hrs

theorem closings_fragments {rs : List Row} {w : Walk} (hw : w.IsSound) {place : Nat} {ps : Lexemes}
    (hrs : ((tokensFrom structureNames place ps).foldl Walk.step w).rows = rs) :
    ∀ x ∈ closings place (fragments rs w place ps), x.1.stop = some x.2 := by
  induction ps using Lexemes.induction generalizing w place with
  | nil => simp [fragments, closings]
  | char c ps ih => exact ih hw hrs
  | comment s ps ih => exact ih hw hrs
  | tag k s ps ih =>
    by_cases hk : k.isAmong structureNames = true
    · rw [tokensFrom_among hk, List.foldl_cons] at hrs
      have hstop := moved?_closed hw hrs
      simp only [fragments, if_pos hk, closings_append_opening, closings,
        closings_append_closing, Fragment.erased]
      intro x hx
      rcases List.mem_append.1 hx with hx | hx
      · obtain ⟨r, hr, rfl⟩ := List.mem_map.1 hx
        exact hstop r (by simpa using hr)
      · exact ih (hw.step _) hrs x hx
    · rw [tokensFrom_not_among hk] at hrs
      simp only [fragments, if_neg hk]
      exact ih hw hrs

inductive ClosesAll : List Row → List Fragment → Prop
  | nil {fs : List Fragment} (rest : IsMatched fs) : ClosesAll [] fs
  | cons (r : Row) {rs : List Row} {fs gs : List Fragment} (inner : IsMatched fs)
    (rest : ClosesAll rs gs) : ClosesAll (r :: rs) (fs ++ .closing r :: gs)

namespace ClosesAll

variable {rs : List Row} {fs : List Fragment}

theorem text (h : ClosesAll rs fs) (s : Text) : ClosesAll rs (.text s :: fs) := by
  cases h with
  | nil rest => exact .nil (.text s rest)
  | cons r inner rest => exact .cons r (.text s inner) rest

theorem opening {r : Row} (h : ClosesAll (r :: rs) fs) : ClosesAll rs (.opening r :: fs) := by
  cases h with
  | @cons _ _ fs gs inner rest =>
    cases rest with
    | nil rest => exact .nil (.row r inner rest)
    | @cons q _ hs _ inner' rest =>
      have := ClosesAll.cons q (.row r inner inner') rest
      rwa [List.cons_append, List.append_assoc, List.cons_append] at this

theorem openings {o : Option Row} (h : ClosesAll (o.toList ++ rs) fs) :
    ClosesAll rs (o.toList.map .opening ++ fs) := by
  cases o with
  | none => exact h
  | some r => exact opening h

theorem closings (h : ClosesAll rs fs) (o : Option Row) :
    ClosesAll (o.toList ++ rs) (o.toList.map .closing ++ fs) := by
  cases o with
  | none => exact h
  | some r => exact .cons r .nil h

theorem isMatched (h : ClosesAll [] fs) : IsMatched fs := by
  cases h with
  | nil rest => exact rest

end ClosesAll

theorem filterMap_eq_of_sublist {α β : Type} {f : α → Option β} {as bs : List α}
    (h : as.Sublist bs) (hd : bs.Nodup) (hn : ∀ a ∈ bs, a ∉ as → f a = none) :
    as.filterMap f = bs.filterMap f := by
  induction h with
  | slnil => rfl
  | @cons as bs b h ih =>
    rw [List.nodup_cons] at hd
    have hb := hn b List.mem_cons_self fun hm => hd.1 (h.subset hm)
    rw [List.filterMap_cons_none hb]
    exact ih hd.2 fun a ha => hn a (List.mem_cons_of_mem _ ha)
  | @cons_cons as bs b h ih =>
    rw [List.nodup_cons] at hd
    have ih := ih hd.2 fun a ha hm => hn a (List.mem_cons_of_mem _ ha) fun hc => by
      rcases List.mem_cons.1 hc with rfl | hc
      · exact hd.1 ha
      · exact hm hc
    rw [List.filterMap_cons, List.filterMap_cons, ih]

theorem moved?_of_open {w : Walk} {i s : Nat} (h : w.bounds[i]? = some (s, none)) :
    moved? w.rows (some i) = none := by
  obtain ⟨r, hr, -, hstop⟩ := exists_of_bounds h
  rw [moved?, Option.bind_some, hr, Option.filter_some, if_neg]
  intro hm
  have := stop_of_isWrapped hm
  rw [hstop] at this
  cases this

theorem Walk.IsSound.bounds {w : Walk} (h : w.IsSound) {i : Nat} (hi : i ∈ w.openRows) :
    ∃ s, w.bounds[i]? = some (s, none) := by
  obtain ⟨r, hr, hs⟩ := h.unclosed i hi
  exact ⟨r.start, by rw [Walk.bounds, List.getElem?_map, hr, Option.map_some, Row.bounds, hs]⟩

def movedOn (rs : List Row) (w : Walk) : List Row :=
  w.openRows.filterMap fun i => moved? rs (some i)

section

variable {rs : List Row} {w : Walk} {t : Token} {ts : List Token}

theorem moved?_of_left (hw : w.IsSound) (hrs : (ts.foldl Walk.step (w.step t)).rows = rs) {i : Nat}
    (hi : i ∈ w.openRows) (hn : i ∉ (w.step t).openRows) (hc : w.closed? t.toTag ≠ some i) :
    moved? rs (some i) = none := by
  obtain ⟨s, hs⟩ := hw.bounds hi
  have hb : (w.step t).bounds[i]? = some (s, none) := by
    cases w.moves t with
    | stays _ _ bounds _ => rw [bounds, hs]
    | opens _ _ bounds _ _ => rw [bounds, getElem?_append_some hs]
    | closes _ closes _ stack =>
      rw [stack, List.mem_cons] at hi
      exact absurd (hi.resolve_right hn ▸ closes) hc
  have hlt : i < (w.step t).rows.length := by
    rw [← Walk.length_bounds]
    exact (List.getElem?_eq_some_iff.1 hb).1
  rw [← hrs]
  exact moved?_of_open ((Walk.bounds_foldl_off_stack hlt hn ts).trans hb)

theorem movedOn_step (hw : w.IsSound) (hrs : (ts.foldl Walk.step (w.step t)).rows = rs) :
    (moved? rs (w.opened? t.toTag)).toList ++ movedOn rs w =
      (moved? rs (w.closed? t.toTag)).toList ++ movedOn rs (w.step t) := by
  have hleft {i : Nat} (hi : i ∈ w.openRows) (hn : i ∉ (w.step t).openRows)
      (hc : w.closed? t.toTag ≠ some i) := moved?_of_left hw hrs hi hn hc
  cases w.moves t with
  | stays opens closes _ stack =>
    rw [opens, closes]
    refine (filterMap_eq_of_sublist stack hw.distinct fun i hi hn => hleft hi hn ?_).symm
    simp [closes]
  | @opens is opens closes _ stack sub =>
    rw [opens, closes, movedOn, movedOn, stack, List.filterMap_cons]
    have hsub : is.filterMap (fun i => moved? rs (some i)) =
        w.openRows.filterMap fun i => moved? rs (some i) := by
      refine filterMap_eq_of_sublist sub hw.distinct fun i hi hn => hleft hi ?_ (by simp [closes])
      rw [stack, List.mem_cons, not_or]
      exact ⟨Nat.ne_of_lt (hw.lt hi), hn⟩
    rw [← hsub]
    cases moved? rs (some w.rows.length) <;> rfl
  | @closes i opens closes _ stack =>
    rw [opens, closes, movedOn, movedOn, stack, List.filterMap_cons]
    cases moved? rs (some i) <;> rfl

end

theorem closesAll_fragments {rs : List Row} {w : Walk} (hw : w.IsSound) {place : Nat} {ps : Lexemes}
    (hrs : ((tokensFrom structureNames place ps).foldl Walk.step w).rows = rs) :
    ClosesAll (movedOn rs w) (fragments rs w place ps) := by
  induction ps using Lexemes.induction generalizing w place with
  | nil =>
    have hnone : movedOn rs w = [] := by
      refine List.filterMap_eq_nil_iff.2 fun i hi => ?_
      obtain ⟨s, hs⟩ := hw.bounds hi
      obtain rfl : w.rows = rs := hrs
      exact moved?_of_open hs
    rw [hnone]
    exact .nil .nil
  | char c ps ih => exact (ih hw hrs).text [c]
  | comment s ps ih => exact (ih hw hrs).text s
  | tag k s ps ih =>
    by_cases hk : k.isAmong structureNames = true
    · rw [tokensFrom_among hk, List.foldl_cons] at hrs
      have hrest := (ih (hw.step _) hrs).closings (moved? rs (w.closed? k))
      rw [← movedOn_step hw hrs] at hrest
      simp only [fragments, if_pos hk]
      exact (hrest.text s).openings
    · rw [tokensFrom_not_among hk] at hrs
      simp only [fragments, if_neg hk]
      exact (ih hw hrs).text s

/-- The closed rows of a document stand side by side or one inside another. The wrapped columns are
the document with a pair of brackets around each row that is moved, and the brackets match. -/
theorem wrapColumns_bracketed (l : Layout) (html : Text) :
    (∀ a ∈ closedSpans html, a.1 < a.2 ∧ a.2 ≤ html.length) ∧
      (closedSpans html).Pairwise (fun a b => a.1 < b.1 ∧ (a.2 ≤ b.1 ∨ b.2 < a.2)) ∧
      ∃ fs, IsMatched fs ∧ fs.flatMap Fragment.erased = html ∧
        fs.flatMap (Fragment.written l) = wrapColumns l html ∧
        openings 0 fs =
          ((rows html).filter (Row.IsMoved (rows html))).map (fun r => (r, r.start)) ∧
        ∀ x ∈ closings 0 fs, x.1.stop = some x.2 := by
  have hlaid := isLaid_rows html
  refine ⟨?_, ?_, fragments (rows html) .start 0 (lexemes html), ?_, ?_, ?_, ?_, ?_⟩
  · intro a ha
    obtain ⟨r, hr, ha⟩ := List.mem_filterMap.1 ha
    obtain ⟨d, hd, rfl⟩ := Option.map_eq_some_iff.1 ha
    exact hlaid.stop_of_mem hr hd
  · refine hlaid.pairwise.filterMap _ fun r q hrq a ha b hb => ?_
    obtain ⟨d, hd, rfl⟩ := Option.map_eq_some_iff.1 ha
    obtain ⟨e, he, rfl⟩ := Option.map_eq_some_iff.1 hb
    exact hrq d e hd he
  · exact (closesAll_fragments Walk.isSound_start rfl).isMatched
  · rw [erased_fragments, source, source_lexemes]
  · rw [written_fragments, wrapColumns_eq]
    rfl
  · have hopen := @openings_fragments (rows html) .start 0 (lexemes html) rfl
    rw [hopen]
    refine congrArg _ (List.filter_congr fun r _ => ?_)
    rw [Bool.eq_iff_iff, isWrapped_iff, decide_eq_true_iff]
  · exact closings_fragments Walk.isSound_start rfl

end MailMarkup.Table
