import MailMarkup.Proofs.Document.Declarations

namespace MailMarkup.Document

open Text Markup

def isDoctypeAt (html : Text) (i : Nat) : Bool :=
  (doctype? (html.drop i)).isSome && (commentSpans html).all fun s => !(s.1 ≤ i && i < s.2)

def hasDoctype (html : Text) : Bool := (List.range html.length).any (isDoctypeAt html)

theorem doctype?_isSome_iff {t : Text} : (doctype? t).isSome = true ↔
    ∃ z, dropFolded? "<!doctype".toList t = some z ∧ '>' ∈ z := by
  rw [doctype?]
  cases hz : dropFolded? "<!doctype".toList t with
  | none => simp
  | some z =>
    have hlt : (z.takeWhile (· != '>')).length < z.length ↔ '>' ∈ z := by
      rw [← not_iff_not, Nat.not_lt]
      constructor
      · intro hle hm
        have := List.takeWhile_eq_self_iff.1 ((List.takeWhile_prefix _).eq_of_length_le hle) _ hm
        simp at this
      · intro hm
        rw [List.takeWhile_eq_self_iff.2]
        intro c hc
        simpa using fun he : c = '>' => hm (he ▸ hc)
    by_cases hm : '>' ∈ z
    · simp [hlt.2 hm, hm]
    · simp [mt hlt.1 hm, hm]

theorem doctype?_append_right {t : Text} (h : (doctype? t).isSome = true) (r : Text) :
    (doctype? (t ++ r)).isSome = true := by
  obtain ⟨z, hz, hm⟩ := doctype?_isSome_iff.1 h
  exact doctype?_isSome_iff.2 ⟨z ++ r, dropFolded?_append_right hz r, List.mem_append_left _ hm⟩

theorem length_of_doctype? {t : Text} (h : (doctype? t).isSome = true) : 9 < t.length := by
  obtain ⟨z, hz, hm⟩ := doctype?_isSome_iff.1 h
  have := length_of_dropFolded? hz
  have := List.length_pos_of_mem hm
  simp at *
  omega

theorem le_of_mem_spansFrom {α : Type} {start : Nat} {ps : List (Piece α)} {s : Nat × Nat}
    (h : s ∈ spansFrom start ps) : start ≤ s.1 := by
  induction ps generalizing start with
  | nil => cases h
  | cons p ps ih =>
    cases p with
    | char c => exact Nat.le_of_succ_le (ih h)
    | hit x t =>
      rcases List.mem_cons.1 h with rfl | h
      · exact Nat.le_refl _
      · exact Nat.le_of_add_right_le (ih h)

theorem comment?_append_none {c : Char} {u : Text} (h : comment? (c :: u) = none)
    (hu : 3 ≤ u.length) (r : Text) : comment? (c :: (u ++ r)) = none := by
  match u, hu with
  | d :: e :: f :: u, _ =>
    unfold comment?
    split
    · rename_i he
      simp only [List.cons_append, List.cons.injEq] at he
      obtain ⟨rfl, rfl, rfl, rfl, -⟩ := he
      simp [comment?] at h
    · rfl

theorem comment?_append_some {c : Char} {u : Text} {n : Nat} (h : comment? (c :: u) = some ((), n))
    (hn : n < u.length) (r : Text) : comment? (c :: (u ++ r)) = some ((), n) := by
  unfold comment? at h
  split at h
  · rename_i v he
    obtain ⟨rfl, rfl⟩ := List.cons.inj he
    simp only [Option.some.injEq, Prod.mk.injEq, true_and] at h
    subst h
    have hlt : commentLength v < v.length := by
      simp only [List.length_cons] at hn
      omega
    have hk := commentLength_append (endsComment_take hlt) (v.drop (commentLength v) ++ r)
    rw [← List.append_assoc, List.take_append_drop, List.length_take,
      Nat.min_eq_left (Nat.le_of_lt hlt)] at hk
    simp [comment?, hk]
  · cases h

theorem outside_append {t : Text} {start i : Nat} (hd : (doctype? (t.drop i)).isSome = true)
    (h : ∀ s ∈ spansFrom start (scan comment? t), ¬ (s.1 ≤ start + i ∧ start + i < s.2))
    (r : Text) :
    ∀ s ∈ spansFrom start (scan comment? (t ++ r)), ¬ (s.1 ≤ start + i ∧ start + i < s.2) := by
  match t with
  | [] =>
    rw [List.drop_nil] at hd
    cases hd
  | c :: u =>
    have hlen := length_of_doctype? hd
    rw [List.length_drop, List.length_cons] at hlen
    match hc : comment? (c :: u) with
    | none =>
      rw [scan_cons_none hc] at h
      rw [List.cons_append, scan_cons_none (comment?_append_none hc (by omega) r)]
      cases i with
      | zero =>
        intro s hs
        have := @le_of_mem_spansFrom _ (start + 1) _ _ hs
        omega
      | succ j =>
        have hj : start + 1 + j = start + (j + 1) := by omega
        have := @outside_append u (start + 1) j hd (by rw [hj]; exact h) r
        rw [hj] at this
        exact this
    | some ((), n) =>
      rw [scan_cons_some hc] at h
      -- the comment ends in front of the doctype, so that it is the same in the longer text
      have hfirst : ((c :: u.take n).length : Nat) ≤ i := by
        have := h (start, start + (c :: u.take n).length) List.mem_cons_self
        simp only at this
        omega
      have hn : n < u.length := by
        simp only [List.length_cons, List.length_take] at hfirst
        omega
      have htake : (c :: u.take n).length = n + 1 := by simp; omega
      rw [List.cons_append, scan_cons_some (comment?_append_some hc hn r),
        List.take_append_of_le_length (Nat.le_of_lt hn),
        List.drop_append_of_le_length (Nat.le_of_lt hn)]
      intro s hs
      rcases List.mem_cons.1 hs with rfl | hs
      · simp only
        omega
      · obtain ⟨j, rfl⟩ : ∃ j, i = n + 1 + j := ⟨i - (n + 1), by omega⟩
        have hj : start + (n + 1) + j = start + (n + 1 + j) := by omega
        have hrest := @outside_append (u.drop n) (start + (n + 1)) j
          (by simpa [Nat.add_right_comm] using hd)
          (by
            rw [hj]
            intro s hs
            exact h s (List.mem_cons_of_mem _ (by rw [htake]; exact hs))) r
        rw [hj] at hrest
        rw [htake] at hs
        exact hrest s hs
termination_by t.length
decreasing_by all_goals (simp only [List.length_drop, List.length_cons]; omega)

theorem isDoctypeAt_iff {t : Text} {i : Nat} : isDoctypeAt t i = true ↔
    (doctype? (t.drop i)).isSome = true ∧
      ∀ s ∈ spansFrom 0 (scan comment? t), ¬ (s.1 ≤ 0 + i ∧ 0 + i < s.2) := by
  simp only [isDoctypeAt, commentSpans, hitSpans, Bool.and_eq_true, List.all_eq_true,
    Bool.not_eq_true', ← Bool.not_eq_true, decide_eq_true_eq, Nat.zero_add]

theorem hasDoctype_append {t : Text} (h : hasDoctype t = true) (r : Text) :
    hasDoctype (t ++ r) = true := by
  obtain ⟨i, hi, hat⟩ := List.any_eq_true.1 h
  rw [List.mem_range] at hi
  obtain ⟨hd, hs⟩ := isDoctypeAt_iff.1 hat
  refine List.any_eq_true.2 ⟨i, ?_, isDoctypeAt_iff.2 ⟨?_, outside_append hd hs r⟩⟩
  · rw [List.mem_range, List.length_append]
    omega
  · rw [List.drop_append_of_le_length (Nat.le_of_lt hi)]
    exact doctype?_append_right hd r

end MailMarkup.Document
