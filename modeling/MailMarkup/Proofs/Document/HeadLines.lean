import MailMarkup.Proofs.Spacing.Respacing

namespace MailMarkup.Text

theorem exists_trim (t : Text) : ∃ s e, t = s ++ (trim t ++ e) ∧ s.all isBlank = true ∧
    e.all isBlank = true := by
  have hw : ∀ (p : Char → Bool) (t : Text), (t.takeWhile p).all p = true :=
    fun p t => List.all_eq_true.2 fun c hc => List.mem_takeWhile_imp hc
  have hs := List.takeWhile_append_dropWhile (p := isBlank) (l := t)
  have he := congrArg List.reverse
    (List.takeWhile_append_dropWhile (p := isBlank) (l := (t.dropWhile isBlank).reverse))
  rw [List.reverse_append, List.reverse_reverse] at he
  refine ⟨t.takeWhile isBlank, ((t.dropWhile isBlank).reverse.takeWhile isBlank).reverse, ?_,
    hw _ _, by rw [List.all_reverse]; exact hw isBlank _⟩
  rw [show trim t = ((t.dropWhile isBlank).reverse.dropWhile isBlank).reverse from rfl, he, hs]

theorem fields_of_not_any {sep : Char → Bool} {t : Text} (h : t.any sep = false) :
    fields sep t = if t.isEmpty then [] else [t] := by
  induction t with
  | nil => rfl
  | cons c t ih =>
    simp only [List.any_cons, Bool.or_eq_false_iff] at h
    rw [fields, if_neg (by simp [h.1]), ih h.2]
    cases t with
    | nil => rfl
    | cons d t =>
      simp only [List.any_cons, Bool.or_eq_false_iff] at h
      simp [h.2.1]

theorem fields_append {sep : Char → Bool} {t : Text} (h : t.any sep = false) {b : Char}
    (hb : sep b = true) (r : Text) :
    fields sep (t ++ b :: r) = (if t.isEmpty then [] else [t]) ++ fields sep r := by
  induction t with
  | nil => rw [List.nil_append, fields, if_pos hb]; rfl
  | cons c t ih =>
    simp only [List.any_cons, Bool.or_eq_false_iff] at h
    rw [List.cons_append, fields, if_neg (by simp [h.1]), ih h.2]
    cases t with
    | nil => simp [hb]
    | cons d t =>
      simp only [List.any_cons, Bool.or_eq_false_iff] at h
      simp [h.2.1]

end MailMarkup.Text

namespace MailMarkup.Spacing

open Text

theorem isBlank_of_isLineBreak {c : Char} (h : isLineBreak c = true) : isBlank c = true := by
  simp only [isLineBreak, isBlank, inRanges, blankRanges, List.any_cons, List.any_nil,
    Bool.or_eq_true, Bool.and_eq_true, decide_eq_true_eq, Bool.or_false] at h ⊢
  omega

theorem Relined.keeps {s t : Text} (h : Relined s t) (w : Text) : Relined (w ++ s) (w ++ t) := by
  induction w with
  | nil => exact h
  | cons c w ih => exact .keep c ih

theorem filledLines_append {l : Text} (hl : l.any isLineBreak = false) {b : Char}
    (hb : isLineBreak b = true) (r : Text) :
    filledLines (l ++ b :: r) = filledLines l ++ filledLines r := by
  rw [filledLines, fields_append hl hb, filledLines, fields_of_not_any hl, List.map_append,
    List.filter_append]
  rfl

theorem filledLines_of_not_any {l : Text} (hl : l.any isLineBreak = false) :
    filledLines l = if trim l = [] then [] else [trim l] := by
  rw [filledLines, fields_of_not_any hl]
  cases l with
  | nil => rfl
  | cons c l =>
    by_cases h : trim (c :: l) = []
    · simp [h]
    · simp [h]

theorem Relined.line {w r u : Text} (hw : w.all isBlank = true) (hb : w.any isLineBreak = true)
    {l : Text} (hl : l.any isLineBreak = false)
    (h : ∀ e : Text, e.all isBlank = true → Relined (e ++ r) u) :
    Relined (w ++ (l ++ r)) ((filledLines l).flatMap ('\n' :: ·) ++ u) := by
  obtain ⟨s, e, hs, hsb, heb⟩ := exists_trim l
  rw [filledLines_of_not_any hl]
  by_cases hn : trim l = []
  · rw [hn, List.nil_append] at hs
    have := h (w ++ l) (by rw [hs]; simpa [hw, hsb] using heb)
    simpa [hn] using this
  · have hf : Relined (w ++ s ++ (trim l ++ (e ++ r))) ('\n' :: (trim l ++ u)) :=
      .fold (by simp [hw, hsb]) (by simp [hb]) ((h e heb).keeps _)
    have he : w ++ (l ++ r) = w ++ s ++ (trim l ++ (e ++ r)) := by
      rw [congrArg (· ++ r) hs]
      simp
    simpa [hn, he] using hf

theorem Relined.filledLines {w : Text} (hw : w.all isBlank = true)
    (hb : w.any isLineBreak = true) (t : Text) :
    Relined (w ++ (t ++ ['\n'])) ((filledLines t).flatMap ('\n' :: ·) ++ ['\n']) := by
  have hend : ∀ e : Text, e.all isBlank = true → Relined (e ++ ['\n']) ['\n'] := by
    intro e he
    have hn : isBlank '\n' = true ∧ isLineBreak '\n' = true := by decide
    simpa using Relined.fold (w := e ++ ['\n']) (by simpa [hn] using he) (by simp [hn]) .nil
  have hsplit := List.takeWhile_append_dropWhile (p := (!isLineBreak ·)) (l := t)
  have hl : (t.takeWhile (!isLineBreak ·)).any isLineBreak = false := by
    rw [List.any_eq_false]
    exact fun c hc => by simpa using List.mem_takeWhile_imp hc
  cases hr : t.dropWhile (!isLineBreak ·) with
  | nil =>
    rw [hr, List.append_nil] at hsplit
    rw [hsplit] at hl
    exact .line hw hb hl fun e he => hend e he
  | cons b r =>
    have hbr : isLineBreak b = true := by
      have := List.head?_dropWhile_not (!isLineBreak ·) t
      rw [hr] at this
      simpa using this
    have hlen : r.length < t.length := by
      rw [← hsplit, hr, List.length_append, List.length_cons]
      omega
    rw [hr] at hsplit
    rw [← hsplit, filledLines_append hl hbr, List.flatMap_append, List.append_assoc,
      List.append_assoc]
    refine .line hw hb hl fun e he => ?_
    have := Relined.filledLines (w := e ++ [b])
      (by simp [he, isBlank_of_isLineBreak hbr]) (by simp [hbr]) r
    simpa using this
termination_by t.length

theorem relined_filledLines (t : Text) :
    Relined ('\n' :: (t ++ ['\n']))
      ('\n' :: (if filledLines t = [] then [] else join ['\n'] (filledLines t) ++ ['\n'])) := by
  have h := Relined.filledLines (w := ['\n']) (by decide) (by decide) t
  have hj : ∀ ls : List Text, ls ≠ [] →
      ls.flatMap ('\n' :: ·) = '\n' :: join ['\n'] ls := by
    intro ls hl
    induction ls with
    | nil => exact absurd rfl hl
    | cons l ls ih =>
      cases ls with
      | nil => simp [join]
      | cons m ls =>
        rw [List.flatMap_cons, ih (by simp)]
        simp [join, List.intercalate_cons_cons]
  split
  · rename_i hn
    rw [hn] at h
    exact h
  · rename_i hn
    rw [hj _ hn] at h
    exact h

end MailMarkup.Spacing

namespace MailMarkup.Document

open Text Markup Spacing

theorem ne_nil_of_mem_filledLines {t l : Text} (h : l ∈ filledLines t) : l ≠ [] := by
  simpa using (List.mem_filter.1 h).2

theorem exists_spaced_filledLines {ns : List Node} (hc : IsClean ns) :
    ∃ ms, Spaced Relined Relined ns ms ∧ sources ms = '\n' ::
      (if join ['\n'] (filledLines (sources ns)) = [] then []
        else join ['\n'] (filledLines (sources ns)) ++ ['\n']) := by
  have hb : Node.isValid (.char '\n') = true := by decide
  have hc' : IsClean (.char '\n' :: (ns ++ [.char '\n'])) :=
    .cons hb (hc.append (.cons hb .nil))
  have hr := relined_filledLines (sources ns)
  rw [show '\n' :: (sources ns ++ ['\n']) = sources (.char '\n' :: (ns ++ [.char '\n'])) by
    rw [sources_cons, sources_append]; rfl] at hr
  obtain ⟨ms, hm, hs⟩ := isSpacing_relined.exists_spaced hc' hr
  have hk : skeleton [] (.char '\n' :: (ns ++ [.char '\n'])) = skeleton [] ns := by
    rw [← List.append_nil (skeleton [] ns)]
    exact skeleton_append [] ns [.char '\n']
  refine ⟨ms, ⟨hs.clean, hk ▸ hs.firm⟩, ?_⟩
  rw [← hm]
  simp only [join_eq_nil fun l => ne_nil_of_mem_filledLines]

end MailMarkup.Document
