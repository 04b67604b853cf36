import MailMarkup.Proofs.Markup.NodeEdits
import MailMarkup.Proofs.Markup.TagOrder
import MailMarkup.Proofs.Table.Padding

namespace MailMarkup.Table

open Text Markup

def paddedText (l : Layout) (b : Nat → Bool) (w : Walk) : Lexemes → Text
  | [] => []
  | .hit (.tag k) s :: ps =>
    if k.isAmong structureNames then
      (if w.opensChosen b (.of k) then wrapperOpening l else []) ++ (s ++
        ((if w.closesChosen b (.of k) then wrapperClosing else []) ++
          paddedText l b (w.take (.of k)) ps))
    else s ++ paddedText l b w ps
  | p :: ps => p.source ++ paddedText l b w ps

def openingAt (l : Layout) (b : Nat → Bool) (w : Walk) (m : Mark) (place : Nat) :
    List Insertion :=
  if w.opensChosen b m then [⟨place, 1, wrapperOpening l⟩] else []

def closingAt (b : Nat → Bool) (w : Walk) (m : Mark) (place : Nat) : List Insertion :=
  if w.closesChosen b m then [⟨place, 0, wrapperClosing⟩] else []

def additions (l : Layout) (b : Nat → Bool) (w : Walk) (place : Nat) : Lexemes → List Insertion
  | [] => []
  | .hit (.tag k) s :: ps =>
    if k.isAmong structureNames then
      openingAt l b w (.of k) place ++ (closingAt b w (.of k) (place + s.length) ++
        additions l b (w.take (.of k)) (place + s.length) ps)
    else additions l b w (place + s.length) ps
  | p :: ps => additions l b w (place + p.source.length) ps

variable {l : Layout} {b : Nat → Bool}

theorem eq_of_mem_openingAt {w : Walk} {m : Mark} {place : Nat} {i : Insertion}
    (h : i ∈ openingAt l b w m place) : i = ⟨place, 1, wrapperOpening l⟩ := by
  unfold openingAt at h
  split at h
  · exact List.mem_singleton.1 h
  · cases h

theorem eq_of_mem_closingAt {w : Walk} {m : Mark} {place : Nat} {i : Insertion}
    (h : i ∈ closingAt b w m place) : i = ⟨place, 0, wrapperClosing⟩ := by
  unfold closingAt at h
  split at h
  · exact List.mem_singleton.1 h
  · cases h

theorem before_of_mem_additions {w : Walk} {place : Nat} {ps : Lexemes}
    (hp : ∀ p ∈ ps, p.source ≠ []) {i : Insertion} (h : i ∈ additions l b w place ps) :
    Insertion.before ⟨place, 1, wrapperOpening l⟩ i = true := by
  induction ps generalizing w place with
  | nil => cases h
  | cons p ps ih =>
    have hpos : 0 < p.source.length := List.length_pos_of_ne_nil (hp p List.mem_cons_self)
    have hrest {w : Walk} (h : i ∈ additions l b w (place + p.source.length) ps) :
        Insertion.before ⟨place, 1, wrapperOpening l⟩ i = true := by
      refine Insertion.before_trans _ _ _ ?_ (ih (fun q hq => hp q (List.mem_cons_of_mem _ hq)) h)
      simp only [Insertion.before, Bool.or_eq_true, decide_eq_true_eq]
      omega
    cases p with
    | char c => exact hrest h
    | hit x s =>
      cases x with
      | comment => exact hrest h
      | tag k =>
        simp only [additions] at h
        split at h
        · simp only [List.mem_append] at h
          rcases h with h | h | h
          · rw [eq_of_mem_openingAt h]
            simp [Insertion.before]
          · rw [eq_of_mem_closingAt h]
            simp only [Piece.source] at hpos
            simp only [Insertion.before, Bool.or_eq_true, decide_eq_true_eq]
            omega
          · exact hrest h
        · exact hrest h

theorem le_position_of_mem_additions {w : Walk} {place : Nat} {ps : Lexemes}
    (hp : ∀ p ∈ ps, p.source ≠ []) {i : Insertion} (h : i ∈ additions l b w place ps) :
    (place : Int) ≤ i.position := Insertion.position_le_of_before (before_of_mem_additions hp h)

theorem weave_append (t s r : Text) {is : List Insertion}
    (h : ∀ i ∈ is, ((t.length + s.length : Nat) : Int) ≤ i.position) :
    weave (t ++ (s ++ r)) t.length is =
      s ++ weave (t ++ (s ++ r)) (t.length + s.length : Nat) is := by
  have hlen : t.length + s.length ≤ (t ++ (s ++ r)).length := by
    simp only [List.length_append]
    omega
  have hlen' : t.length ≤ (t ++ (s ++ r)).length := by
    simp only [List.length_append]
    omega
  have hdrop : (t ++ (s ++ r)).drop (t.length + s.length) = r := by
    rw [← List.append_assoc, ← List.length_append, List.drop_left]
  cases is with
  | nil =>
    rw [weave, weave, fromIndex, fromIndex, clampIndex_natCast hlen, clampIndex_natCast hlen',
      List.drop_left, hdrop]
  | cons i is =>
    have hi := h i List.mem_cons_self
    obtain ⟨m, hm, hle⟩ : ∃ m, clampIndex (t ++ (s ++ r)).length i.position = m ∧
        t.length + s.length ≤ m := by
      refine ⟨_, rfl, ?_⟩
      unfold clampIndex
      split <;> omega
    have htake : (t ++ (s ++ r)).take m = t ++ (s ++ r.take (m - (t.length + s.length))) := by
      rw [List.take_append, List.take_of_length_le (by omega), List.take_append,
        List.take_of_length_le (by omega), Nat.sub_sub]
    have hdrop' : (t ++ (s ++ r.take (m - (t.length + s.length)))).drop (t.length + s.length) =
        r.take (m - (t.length + s.length)) := by
      rw [← List.append_assoc, ← List.length_append, List.drop_left]
    simp only [weave, between, hm, clampIndex_natCast hlen, clampIndex_natCast hlen', htake,
      List.drop_left, hdrop', List.append_assoc]

theorem weave_here (t s : Text) (c : Bool) (priority : Int) (addition : Text)
    (is : List Insertion) :
    weave (t ++ s) t.length ((if c then [⟨t.length, priority, addition⟩] else []) ++ is) =
      (if c then addition else []) ++ weave (t ++ s) t.length is := by
  cases c with
  | false => rfl
  | true =>
    have hlen : t.length ≤ (t ++ s).length := by simp
    simp only [if_true, List.singleton_append, weave, between, clampIndex_natCast hlen,
      List.take_left, List.drop_length, List.nil_append]

theorem weave_additions (t : Text) (w : Walk) {ps : Lexemes} (hp : ∀ p ∈ ps, p.source ≠ []) :
    weave (t ++ ps.flatMap Piece.source) t.length (additions l b w t.length ps) =
      paddedText l b w ps := by
  induction ps generalizing t w with
  | nil => simp [additions, weave, fromIndex, clampIndex_natCast, paddedText]
  | cons p ps ih =>
    have hps : ∀ q ∈ ps, q.source ≠ [] := fun q hq => hp q (List.mem_cons_of_mem _ hq)
    have hrest (s : Text) (w : Walk) :
        weave (t ++ (s ++ ps.flatMap Piece.source)) (t.length + s.length : Nat)
          (additions l b w (t.length + s.length) ps) = paddedText l b w ps := by
      have := ih (t ++ s) w hps
      rwa [List.append_assoc, List.length_append] at this
    have hstep (s : Text) (w : Walk) :
        weave (t ++ (s ++ ps.flatMap Piece.source)) t.length
          (additions l b w (t.length + s.length) ps) = s ++ paddedText l b w ps := by
      rw [weave_append t s _ fun i hi => le_position_of_mem_additions hps hi, hrest]
    cases p with
    | char c => exact hstep [c] w
    | hit x s =>
      cases x with
      | comment => exact hstep s w
      | tag k =>
        simp only [additions, paddedText, List.flatMap_cons, Piece.source]
        split
        · have hclose := weave_here (t ++ s) (ps.flatMap Piece.source) (w.closesChosen b (.of k)) 0
            wrapperClosing (additions l b (w.take (.of k)) (t.length + s.length) ps)
          rw [List.append_assoc, List.length_append] at hclose
          rw [openingAt, weave_here, weave_append t s, closingAt, hclose, hrest]
          intro i hi
          rcases List.mem_append.1 hi with hi | hi
          · exact Int.le_of_eq (congrArg Insertion.position (eq_of_mem_closingAt hi)).symm
          · exact le_position_of_mem_additions hps hi
        · exact hstep s w

theorem pairwise_openingAt (w : Walk) (m : Mark) (place : Nat) :
    (openingAt l b w m place).Pairwise fun i j => i.before j = true := by
  unfold openingAt
  split
  · exact List.pairwise_singleton _ _
  · exact .nil

theorem pairwise_closingAt (w : Walk) (m : Mark) (place : Nat) :
    (closingAt b w m place).Pairwise fun i j => i.before j = true := by
  unfold closingAt
  split
  · exact List.pairwise_singleton _ _
  · exact .nil

theorem pairwise_additions (w : Walk) (place : Nat) {ps : Lexemes}
    (hp : ∀ p ∈ ps, p.source ≠ []) :
    (additions l b w place ps).Pairwise fun i j => i.before j = true := by
  induction ps generalizing w place with
  | nil => exact .nil
  | cons p ps ih =>
    have hps : ∀ q ∈ ps, q.source ≠ [] := fun q hq => hp q (List.mem_cons_of_mem _ hq)
    cases p with
    | char c => exact ih _ _ hps
    | hit x s =>
      cases x with
      | comment => exact ih _ _ hps
      | tag k =>
        have hall : ∀ j ∈ additions l b w place (.hit (.tag k) s :: ps),
            Insertion.before ⟨place, 1, wrapperOpening l⟩ j = true :=
          fun j hj => before_of_mem_additions hp hj
        simp only [additions] at hall ⊢
        split at hall
        · rename_i hk
          rw [if_pos hk]
          refine List.pairwise_append.2 ⟨pairwise_openingAt w _ place,
            List.pairwise_append.2 ⟨pairwise_closingAt w _ _, ih _ _ hps, ?_⟩, ?_⟩
          · intro i hi j hj
            refine Insertion.before_trans _ _ _ ?_ (before_of_mem_additions hps hj)
            rw [eq_of_mem_closingAt hi]
            simp [Insertion.before]
          · intro i hi j hj
            rw [eq_of_mem_openingAt hi]
            exact hall j (List.mem_append_right _ hj)
        · rename_i hk
          rw [if_neg hk]
          exact ih _ _ hps

theorem addition_of_mem_additions {w : Walk} {place : Nat} {ps : Lexemes} {i : Insertion}
    (h : i ∈ additions l b w place ps) :
    i.addition = if i.priority = 1 then wrapperOpening l else wrapperClosing := by
  induction ps using Lexemes.induction generalizing w place with
  | nil => cases h
  | char c ps ih => exact ih h
  | comment s ps ih => exact ih h
  | tag k s ps ih =>
    simp only [additions] at h
    split at h
    · simp only [List.mem_append] at h
      rcases h with h | h | h
      · rw [eq_of_mem_openingAt h]
        rfl
      · rw [eq_of_mem_closingAt h]
        rfl
      · exact ih h
    · exact ih h

theorem eq_of_before {w : Walk} {place : Nat} {ps : Lexemes} {i j : Insertion}
    (hi : i ∈ additions l b w place ps) (hj : j ∈ additions l b w place ps)
    (hij : i.before j = true) (hji : j.before i = true) : i = j := by
  have ha := addition_of_mem_additions hi
  have hb := addition_of_mem_additions hj
  obtain ⟨p, q, t⟩ := i
  obtain ⟨p', q', t'⟩ := j
  simp only [Insertion.before, Bool.or_eq_true, Bool.and_eq_true, decide_eq_true_eq,
    beq_iff_eq] at hij hji
  obtain ⟨rfl, rfl⟩ : p = p' ∧ q = q' := by omega
  simp only at ha hb
  rw [ha, hb]

theorem splice_eq_weave (t : Text) {is js : List Insertion} (hp : is.Perm js)
    (ho : js.Pairwise fun i j => i.before j = true)
    (hj : ∀ i ∈ js, ∀ j ∈ js, i.before j = true → j.before i = true → i = j) :
    splice t is = weave t 0 js := by
  have he : is.mergeSort Insertion.before = js := by
    refine ((List.mergeSort_perm is _).trans hp).eq_of_pairwise ?_
      (List.pairwise_mergeSort Insertion.before_trans Insertion.before_total is) ho
    intro i j hi hjm
    exact hj i (hp.mem_iff.1 (List.mem_mergeSort.1 hi)) j hjm
  rw [splice_eq_weave_mergeSort, he]

def rowInsertions (l : Layout) (b : Nat → Bool) (i : Nat) : List Row → List Insertion
  | [] => []
  | r :: rs =>
    (if b i then
      ⟨r.start, 1, wrapperOpening l⟩ :: (r.stop.map fun p => ⟨p, 0, wrapperClosing⟩).toList
    else []) ++ rowInsertions l b (i + 1) rs

theorem rowInsertions_append (i : Nat) (rs qs : List Row) :
    rowInsertions l b i (rs ++ qs) =
      rowInsertions l b i rs ++ rowInsertions l b (i + rs.length) qs := by
  induction rs generalizing i with
  | nil => rfl
  | cons r rs ih =>
    rw [List.cons_append, rowInsertions, rowInsertions, ih, List.append_assoc, List.length_cons,
      Nat.add_assoc, Nat.add_comm 1]

theorem rowInsertions_modify {f : Row → Row} (hs : ∀ r, (f r).start = r.start)
    (hp : ∀ r, (f r).stop = r.stop) (i j : Nat) (rs : List Row) :
    rowInsertions l b i (rs.modify j f) = rowInsertions l b i rs := by
  induction rs generalizing i j with
  | nil => simp
  | cons r rs ih =>
    cases j with
    | zero => rw [List.modify_zero_cons, rowInsertions, rowInsertions, hs, hp]
    | succ j => rw [List.modify_succ_cons, rowInsertions, rowInsertions, ih]

theorem rowInsertions_close {rs : List Row} {i j place : Nat} {r : Row} (hr : rs[j]? = some r)
    (hs : r.stop = none) :
    (rowInsertions l b i (rs.modify j fun r => { r with stop := some place })).Perm
      (rowInsertions l b i rs ++ if b (i + j) then [⟨place, 0, wrapperClosing⟩] else []) := by
  induction rs generalizing i j with
  | nil => cases hr
  | cons q rs ih =>
    cases j with
    | zero =>
      obtain rfl : q = r := by simpa using hr
      rw [List.modify_zero_cons, rowInsertions, rowInsertions, hs]
      cases b i with
      | false => simp
      | true => simpa using (List.perm_append_singleton _ _).symm
    | succ j =>
      rw [List.modify_succ_cons, rowInsertions, rowInsertions, List.append_assoc]
      have := @ih (i + 1) j hr
      rw [Nat.add_assoc, Nat.add_comm 1] at this
      exact this.append_left _

theorem openingAt_erase (w : Walk) (m : Mark) (place : Nat) :
    openingAt l b w.erase m place = openingAt l b w m place := by
  cases m <;> simp [openingAt, Walk.opensChosen, Walk.erase]

theorem rowInsertions_openRow (w : Walk) (place : Nat) :
    rowInsertions l b 0 (w.openRow place).rows =
      rowInsertions l b 0 w.rows ++ openingAt l b w .openRow place := by
  obtain ⟨rs, _ | ⟨f, fs⟩, n⟩ := w
  · simp [Walk.openRow, openingAt, Walk.opensChosen]
  · rw [Walk.openRow, rowInsertions_append]
    cases hb : b rs.length <;> simp [rowInsertions, openingAt, Walk.opensChosen, hb]

theorem rowInsertions_closeRow {w : Walk} (hw : w.IsSound) (place : Nat) :
    (rowInsertions l b 0 (w.closeRow place).rows).Perm
      (rowInsertions l b 0 w.rows ++ closingAt b w .closeRow place) := by
  obtain ⟨rs, _ | ⟨⟨t, _ | i⟩, fs⟩, n⟩ := w
  · simp [Walk.closeRow, closingAt, Walk.closesChosen, Walk.innerRow]
  · simp [Walk.closeRow, closingAt, Walk.closesChosen, Walk.innerRow]
  · obtain ⟨r, hr, hs⟩ := hw.unclosed i (by simp [Walk.openRows])
    have := @rowInsertions_close l b rs 0 i place r hr hs
    rw [Nat.zero_add] at this
    exact this

theorem rowInsertions_openCell (w : Walk) (spans : Bool) :
    rowInsertions l b 0 (w.openCell spans).rows = rowInsertions l b 0 w.rows := by
  obtain ⟨rs, _ | ⟨⟨t, _ | i⟩, fs⟩, n⟩ := w
  · rfl
  · rfl
  · exact rowInsertions_modify
      (f := fun r => { r with cells := r.cells + 1, spans := r.spans || spans })
      (fun _ => rfl) (fun _ => rfl) 0 i rs

theorem rowInsertions_step {w : Walk} (hw : w.IsSound) (k : Token) :
    (rowInsertions l b 0 (w.step k).rows).Perm
      (rowInsertions l b 0 w.rows ++
        (openingAt l b w (.of k.toTag) k.start ++ closingAt b w (.of k.toTag) k.stop)) := by
  unfold Walk.step Mark.of
  split
  · split <;> simp [openingAt, closingAt, Walk.opensChosen, Walk.closesChosen, Walk.openTable,
      Walk.closeTable]
  · split
    · split
      · simpa [openingAt, Walk.opensChosen] using rowInsertions_closeRow hw k.stop
      · simp [closingAt, Walk.closesChosen, rowInsertions_openRow]
    · split <;> simp [openingAt, closingAt, Walk.opensChosen, Walk.closesChosen,
        rowInsertions_openCell]

theorem rowInsertions_foldl {w : Walk} (hw : w.IsSound) (place : Nat) (ps : Lexemes) :
    (rowInsertions l b 0 ((tokensFrom structureNames place ps).foldl Walk.step w).rows).Perm
      (rowInsertions l b 0 w.rows ++ additions l b w.erase place ps) := by
  induction ps using Lexemes.induction generalizing w place with
  | nil => simp [tokensFrom, additions]
  | char c ps ih => exact ih hw (place + 1)
  | comment s ps ih => exact ih hw (place + s.length)
  | tag k s ps ih =>
    simp only [additions]
    by_cases hk : k.isAmong structureNames = true
    · rw [if_pos hk, tokensFrom_among hk, List.foldl_cons]
      refine (ih (hw.step _) _).trans ?_
      rw [Walk.erase_step, openingAt_erase, ← List.append_assoc (openingAt ..),
        ← List.append_assoc]
      exact (rowInsertions_step hw _).append_right _
    · rw [if_neg hk, tokensFrom_not_among hk]
      exact ih hw _

def chosen (html : Text) (i : Nat) : Bool := (rows html)[i]?.any (isWrapped (rows html))

theorem stop_of_isWrapped {rs : List Row} {r : Row} (h : isWrapped rs r = true) :
    r.stop.isSome = true := by
  simp only [isWrapped, isMultiColumn, Bool.and_eq_true] at h
  exact h.1.1.1

theorem rowInsertions_eq {q : Row → Bool} (hq : ∀ r, q r = true → r.stop.isSome = true) {i : Nat}
    {rs : List Row} (hb : ∀ j r, rs[j]? = some r → b (i + j) = q r) :
    rowInsertions l b i rs = (rs.filter q).flatMap (wrapper l) := by
  induction rs generalizing i with
  | nil => rfl
  | cons r rs ih =>
    have hrest : rowInsertions l b (i + 1) rs = (rs.filter q).flatMap (wrapper l) :=
      ih fun j r hr => by
        rw [Nat.add_assoc, Nat.add_comm 1]
        exact hb (j + 1) r hr
    rw [rowInsertions, hrest, show b i = q r from hb 0 r rfl, List.filter_cons]
    cases hr : q r with
    | false => rfl
    | true =>
      obtain ⟨p, hp⟩ := Option.isSome_iff_exists.1 (hq r hr)
      simp [wrapper, hp]

theorem wrapColumns_eq (l : Layout) (html : Text) :
    wrapColumns l html = paddedText l (chosen html) .start (lexemes html) := by
  have hne : ∀ p ∈ lexemes html, p.source ≠ [] := fun p hp => source_ne_nil_of_mem_scan hp
  have hrows : rowInsertions l (chosen html) 0 (rows html) =
      (wrappedRows html).flatMap (wrapper l) :=
    rowInsertions_eq (fun r => stop_of_isWrapped) fun j r hr => by simp [chosen, hr]
  have hp := @rowInsertions_foldl l (chosen html) .start Walk.isSound_start 0 (lexemes html)
  have hp : ((wrappedRows html).flatMap (wrapper l)).Perm
      (additions l (chosen html) .start 0 (lexemes html)) := by
    rw [← hrows]
    exact hp
  have hw := @weave_additions l (chosen html) [] .start (lexemes html) hne
  rw [wrapColumns, splice_eq_weave html hp (pairwise_additions _ _ hne) fun i hi j hj =>
    eq_of_before hi hj]
  rwa [List.nil_append, source_lexemes] at hw

end MailMarkup.Table
