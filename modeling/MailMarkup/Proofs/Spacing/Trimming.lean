import MailMarkup.Proofs.Spacing.Protection

namespace MailMarkup.Spacing

open Text

structure IsTidy (t : Text) : Prop where
  single : ¬ [' ', ' '] <:+: t
  trimmed : ∀ b, isSpaceOrTab b = true → ¬ [b, '\n'] <:+: t ∧ ¬ [b, '\r', '\n'] <:+: t

def HasStrayReturn (t : Text) : Prop :=
  ∃ b w, isSpaceOrTab b = true ∧ w ≠ [] ∧ w.all isSpaceOrTab = true ∧
    b :: '\r' :: (w ++ ['\n']) <:+: t

theorem infix_iff_exists_suffix {w t : Text} : w <:+: t ↔ ∃ s, w ++ s <:+ t := by
  constructor
  · rintro ⟨p, s, rfl⟩
    exact ⟨s, p, by simp⟩
  · rintro ⟨s, p, rfl⟩
    exact ⟨p, s, by simp⟩

theorem head?_narrowRuns (t : Text) : (narrowRuns t).head? = t.head? := by
  induction t with
  | nil => rfl
  | cons c r ih =>
    rw [narrowRuns]
    split
    · rename_i hc
      rw [ih, hc.1, hc.2, List.head?_cons]
    · rfl

theorem length_tidyPlain_le (t : Text) : (tidyPlain t).length ≤ t.length :=
  (tidied_tidyPlain t).sublist.length_le

theorem tidyPlain_cons_kept {c : Char} {t : Text} (h : tidyPlain (c :: t) = c :: tidyPlain t) :
    (c = ' ' → (tidyPlain t).head? ≠ some ' ') ∧
      (isSpaceOrTab c = true → atLineBreak (t.dropWhile isSpaceOrTab) = false) := by
  have hlt : tidyPlain t ≠ c :: tidyPlain t := by
    intro he
    simpa using congrArg List.length he
  rw [tidyPlain, trimLines] at h
  split at h
  · exact absurd h hlt
  · rename_i hc
    rw [narrowRuns] at h
    split at h
    · exact absurd h hlt
    · rename_i hd
      refine ⟨fun hs he => hd ⟨hs, ?_⟩, fun hs => by simpa [hs] using hc⟩
      rwa [tidyPlain, head?_narrowRuns] at he

theorem tidyPlain_suffix {s t : Text} (h : s <:+ t) : tidyPlain s <:+ tidyPlain t := by
  obtain ⟨p, rfl⟩ := h
  induction p with
  | nil => exact List.suffix_refl _
  | cons c p ih =>
    rcases tidyPlain_cons c (p ++ s) with he | ⟨-, he⟩
    · exact he ▸ ih.trans (List.suffix_cons c _)
    · exact he ▸ ih

theorem exists_of_suffix_tidyPlain {c : Char} {u t : Text} (h : c :: u <:+ tidyPlain t) :
    ∃ r, c :: r <:+ t ∧ tidyPlain (c :: r) = c :: tidyPlain r ∧ u = tidyPlain r := by
  induction t with
  | nil => cases List.suffix_nil.1 h
  | cons d t ih =>
    have hrest (h : c :: u <:+ tidyPlain t) := (ih h).imp fun r hr =>
      And.imp_left (·.trans (List.suffix_cons d t)) hr
    rcases tidyPlain_cons d t with he | ⟨-, he⟩
    · rw [he] at h
      rcases List.suffix_cons_iff.1 h with h | h
      · obtain ⟨rfl, rfl⟩ := List.cons.inj h
        exact ⟨t, List.suffix_refl _, he, rfl⟩
      · exact hrest h
    · exact hrest (he ▸ h)

theorem dropWhile_of_tidyPlain {d : Char} {u t : Text} (hd : isSpaceOrTab d = false)
    (h : tidyPlain t = d :: u) :
    ∃ r, t.dropWhile isSpaceOrTab = d :: r ∧ tidyPlain r = u := by
  induction t with
  | nil => cases h
  | cons c t ih =>
    rcases tidyPlain_cons c t with he | ⟨hc, he⟩
    · obtain ⟨rfl, rfl⟩ := List.cons.inj (he.symm.trans h)
      exact ⟨t, List.dropWhile_cons_of_neg (by simp [hd]), rfl⟩
    · rw [List.dropWhile_cons_of_pos hc]
      exact ih (he.symm.trans h)

theorem single_tidyPlain (t : Text) : ¬ [' ', ' '] <:+: tidyPlain t := by
  intro h
  obtain ⟨u, hu⟩ := infix_iff_exists_suffix.1 h
  obtain ⟨r, -, hkept, hr⟩ := exists_of_suffix_tidyPlain hu
  exact (tidyPlain_cons_kept hkept).1 rfl (hr ▸ rfl)

theorem not_blank_newline_tidyPlain {b : Char} (hb : isSpaceOrTab b = true) (t : Text) :
    ¬ [b, '\n'] <:+: tidyPlain t := by
  intro h
  obtain ⟨u, hu⟩ := infix_iff_exists_suffix.1 h
  obtain ⟨r, -, hkept, hr⟩ := exists_of_suffix_tidyPlain hu
  obtain ⟨s, hs, -⟩ := dropWhile_of_tidyPlain (by decide) hr.symm
  have := (tidyPlain_cons_kept hkept).2 hb
  rw [hs] at this
  cases this

theorem hasStrayReturn_of_infix_tidyPlain {b : Char} (hb : isSpaceOrTab b = true) {t : Text}
    (h : [b, '\r', '\n'] <:+: tidyPlain t) : HasStrayReturn t := by
  obtain ⟨u, hu⟩ := infix_iff_exists_suffix.1 h
  obtain ⟨r, hrt, hkept, hr⟩ := exists_of_suffix_tidyPlain hu
  obtain ⟨s, hs, hsu⟩ := dropWhile_of_tidyPlain (by decide) hr.symm
  obtain ⟨e, he, -⟩ := dropWhile_of_tidyPlain (by decide) hsu
  have hbreak := (tidyPlain_cons_kept hkept).2 hb
  rw [hs] at hbreak
  -- the blank nearest to the carriage return, whether it stays or goes
  obtain ⟨v, b', hv⟩ : ∃ v b', b :: r.takeWhile isSpaceOrTab = v ++ [b'] :=
    ⟨_, _, (List.dropLast_concat_getLast (List.cons_ne_nil _ _)).symm⟩
  have hb' : isSpaceOrTab b' = true := by
    have hm : b' ∈ b :: r.takeWhile isSpaceOrTab := hv ▸ List.mem_append_right v (by simp)
    rcases List.mem_cons.1 hm with rfl | hm
    · exact hb
    · exact List.mem_takeWhile_imp hm
  refine ⟨b', s.takeWhile isSpaceOrTab, hb', ?_, ?_, ?_⟩
  · intro hnil
    have hsn : s = '\n' :: e := by
      rw [← List.takeWhile_append_dropWhile (p := isSpaceOrTab) (l := s), hnil, he]
      rfl
    rw [hsn] at hbreak
    cases hbreak
  · exact List.all_eq_true.2 fun c hc => List.mem_takeWhile_imp hc
  · have hsplit : b :: r = v ++ b' :: '\r' :: (s.takeWhile isSpaceOrTab ++ '\n' :: e) := by
      rw [← he, List.takeWhile_append_dropWhile, ← hs, ← List.singleton_append (x := b'),
        ← List.append_assoc, ← hv, List.cons_append, List.takeWhile_append_dropWhile]
    refine List.IsInfix.trans ?_ hrt.isInfix
    exact ⟨v, e, by rw [hsplit]; simp⟩

theorem trimLines_blanks {w : Text} (hw : w.all isSpaceOrTab = true) (s : Text) :
    trimLines (w ++ '\n' :: s) = '\n' :: trimLines s := by
  induction w with
  | nil => rfl
  | cons c w ih =>
    rw [List.all_cons, Bool.and_eq_true] at hw
    have hdrop : (w ++ '\n' :: s).dropWhile isSpaceOrTab = '\n' :: s :=
      List.dropWhile_append_of_pos (List.all_eq_true.1 hw.2)
    rw [List.cons_append, trimLines, hdrop, hw.1]
    exact (if_pos rfl).trans (ih hw.2)

theorem tidyPlain_strayReturn {b : Char} {w : Text} (hne : w ≠ [])
    (hw : w.all isSpaceOrTab = true) (s : Text) :
    tidyPlain (b :: '\r' :: (w ++ '\n' :: s)) = b :: '\r' :: '\n' :: tidyPlain s := by
  have hreturn : trimLines ('\r' :: (w ++ '\n' :: s)) = '\r' :: '\n' :: trimLines s := by
    rw [trimLines, if_neg (by simp [isSpaceOrTab]), trimLines_blanks hw]
  have hbreak : atLineBreak (('\r' :: (w ++ '\n' :: s)).dropWhile isSpaceOrTab) = false := by
    obtain ⟨c, v, rfl⟩ := List.exists_cons_of_ne_nil hne
    have hc : c ≠ '\n' := by
      rintro rfl
      simp [isSpaceOrTab] at hw
    simp [isSpaceOrTab, atLineBreak, hc]
  rw [tidyPlain, trimLines, hbreak, Bool.and_false, if_neg Bool.false_ne_true, hreturn]
  simp [narrowRuns, tidyPlain]

theorem infix_tidyPlain_of_hasStrayReturn {t : Text} (h : HasStrayReturn t) :
    ∃ b, isSpaceOrTab b = true ∧ [b, '\r', '\n'] <:+: tidyPlain t := by
  obtain ⟨b, w, hb, hne, hw, hinfix⟩ := h
  obtain ⟨s, hs⟩ := infix_iff_exists_suffix.1 hinfix
  have hsuffix := tidyPlain_suffix hs
  rw [List.cons_append, List.cons_append, List.append_assoc, List.singleton_append,
    tidyPlain_strayReturn hne hw] at hsuffix
  exact ⟨b, hb, infix_iff_exists_suffix.2 ⟨tidyPlain s, hsuffix⟩⟩

theorem isTidy_tidyPlain_iff {t : Text} : IsTidy (tidyPlain t) ↔ ¬ HasStrayReturn t := by
  constructor
  · intro h hstray
    obtain ⟨b, hb, hinfix⟩ := infix_tidyPlain_of_hasStrayReturn hstray
    exact (h.trimmed b hb).2 hinfix
  · intro h
    refine ⟨single_tidyPlain t, fun b hb => ⟨not_blank_newline_tidyPlain hb t, fun hinfix => ?_⟩⟩
    exact h (hasStrayReturn_of_infix_tidyPlain hb hinfix)

theorem not_hasStrayReturn_tidyPlain (t : Text) : ¬ HasStrayReturn (tidyPlain t) := by
  rintro ⟨b, w, -, hne, hw, hinfix⟩
  have hb : isSpaceOrTab (w.getLast hne) = true := List.all_eq_true.1 hw _ (List.getLast_mem hne)
  refine not_blank_newline_tidyPlain hb t (List.IsInfix.trans ?_ hinfix)
  refine ⟨b :: '\r' :: w.dropLast, [], ?_⟩
  rw [List.append_nil, ← List.singleton_append (x := w.getLast hne), List.cons_append,
    List.cons_append, ← List.append_assoc, List.dropLast_concat_getLast]

theorem IsTidy.tail {c : Char} {t : Text} (h : IsTidy (c :: t)) : IsTidy t := by
  have hcons {w : Text} (hw : w <:+: t) : w <:+: c :: t := hw.trans (List.suffix_cons c t).isInfix
  refine ⟨fun hw => h.single (hcons hw), fun b hb => ⟨fun hw => ?_, fun hw => ?_⟩⟩
  · exact (h.trimmed b hb).1 (hcons hw)
  · exact (h.trimmed b hb).2 (hcons hw)

theorem IsTidy.not_atLineBreak {c : Char} {t : Text} (h : IsTidy (c :: t))
    (hc : isSpaceOrTab c = true) : atLineBreak (t.dropWhile isSpaceOrTab) = false := by
  induction t generalizing c with
  | nil => rfl
  | cons d t ih =>
    by_cases hd : isSpaceOrTab d = true
    · rw [List.dropWhile_cons_of_pos hd]
      exact ih h.tail hd
    · rw [List.dropWhile_cons_of_neg hd]
      by_contra hbreak
      rcases atLineBreak_iff.1 (by simpa using hbreak) with ⟨s, hs⟩ | ⟨s, hs⟩
      · exact (h.trimmed c hc).1 (infix_iff_exists_suffix.2 ⟨s, hs ▸ List.suffix_refl _⟩)
      · exact (h.trimmed c hc).2 (infix_iff_exists_suffix.2 ⟨s, hs ▸ List.suffix_refl _⟩)

theorem IsTidy.not_isLoose {c : Char} {t : Text} (h : IsTidy (c :: t)) : isLoose c t = false := by
  by_contra hl
  simp only [isLoose, Bool.not_eq_false, Bool.or_eq_true, Bool.and_eq_true, beq_iff_eq] at hl
  rcases hl with ⟨rfl, hhead⟩ | ⟨hc, hbreak⟩
  · obtain ⟨s, rfl⟩ := List.head?_eq_some_iff.1 hhead
    exact h.single (infix_iff_exists_suffix.2 ⟨s, List.suffix_refl _⟩)
  · rw [h.not_atLineBreak hc] at hbreak
    cases hbreak

theorem Tidied.eq_of_isTidy {s t : Text} (h : Tidied s t) (hs : IsTidy s) : t = s := by
  induction h with
  | nil => rfl
  | keep c _ ih => rw [ih hs.tail]
  | drop hc => rw [hs.not_isLoose] at hc; cases hc

theorem tidyPlain_suffix_self {s t : Text} (h : tidyPlain t = t) (hs : s <:+ t) :
    tidyPlain s = s := by
  obtain ⟨p, rfl⟩ := hs
  induction p with
  | nil => exact h
  | cons c p ih =>
    refine ih ?_
    rcases tidyPlain_cons c (p ++ s) with he | ⟨-, he⟩
    · exact (List.cons.inj (he.symm.trans h)).2
    · have hlen := length_tidyPlain_le (p ++ s)
      rw [he.symm.trans h, List.cons_append, List.length_cons] at hlen
      omega

theorem tidyPlain_eq_self_iff {t : Text} : tidyPlain t = t ↔ IsTidy t := by
  constructor
  · intro h
    refine ⟨h ▸ single_tidyPlain t, fun b hb => ⟨h ▸ not_blank_newline_tidyPlain hb t, ?_⟩⟩
    intro hinfix
    obtain ⟨s, hs⟩ := infix_iff_exists_suffix.1 hinfix
    have hall := tidyPlain_suffix_self h hs
    have hrest := tidyPlain_suffix_self h ((List.suffix_cons b _).trans hs)
    have := (tidyPlain_cons_kept (hall.trans (congrArg (b :: ·) hrest.symm))).2 hb
    cases this
  · exact (tidied_tidyPlain t).eq_of_isTidy

def plainParts (html : Text) : List Text :=
  (blocks (scan region? html)).1 :: (blocks (scan region? html)).2.map Prod.snd

theorem blocks_char {c : Char} {r : Text} (h : region? (c :: r) = none) :
    blocks (scan region? (c :: r)) =
      (c :: (blocks (scan region? r)).1, (blocks (scan region? r)).2) := by
  rw [scan_cons_none h, blocks]

theorem blocks_tidy (html : Text) : blocks (scan region? (tidy html)) =
    (tidyPlain (blocks (scan region? html)).1,
      (blocks (scan region? html)).2.map fun b => (b.1, tidyPlain b.2)) := by
  induction hl : html.length using Nat.strong_induction_on generalizing html with
  | _ l ih =>
    cases html with
    | nil => rfl
    | cons c r =>
      cases h : region? (c :: r) with
      | none =>
        have ihr := ih r.length (by simp [← hl]) r rfl
        have htidy : tidy (c :: r) = tidyPlain (c :: (blocks (scan region? r)).1) ++
            tidiedRest (blocks (scan region? r)).2 := by
          rw [tidy_eq, blocks_char h]
        rw [htidy, blocks_char h]
        rcases tidyPlain_cons c (blocks (scan region? r)).1 with he | ⟨-, he⟩
        · have hkept := region?_none_of_respaced (tidied_tidy r).respaced h
          rw [he, List.cons_append, ← tidy_eq, blocks_char hkept, ihr]
        · rw [he, ← tidy_eq, ihr]
      | some x =>
        obtain ⟨s, u, hsu, hs, hscan⟩ := exists_of_region? h
        have hlen : u.length < l := by
          have := List.length_pos_of_ne_nil hs
          rw [← hl, hsu, List.length_append]
          omega
        have hscanned := hscan u id
        have htidied := hscan (tidy u) fun hu => by rw [hu]; rfl
        rw [hsu, tidy_region hscanned, htidied, hscanned, blocks, blocks, ih u.length hlen u rfl]
        rfl

theorem plainParts_tidy (html : Text) :
    plainParts (tidy html) = (plainParts html).map tidyPlain := by
  simp [plainParts, blocks_tidy]

theorem tidy_eq_self_iff {html : Text} :
    tidy html = html ↔ ∀ s ∈ plainParts html, tidyPlain s = s := by
  constructor
  · intro h
    have hmap := plainParts_tidy html
    rw [h] at hmap
    exact List.map_inj_left.1 ((List.map_id' _).trans hmap).symm
  · intro h
    obtain ⟨hfirst, hrest⟩ := List.forall_mem_cons.1 h
    have hsource := source_blocks (scan region? html)
    rw [flatMap_source_scan] at hsource
    have htidied : tidiedRest (blocks (scan region? html)).2 =
        (blocks (scan region? html)).2.flatMap fun b => b.1 ++ b.2 := by
      refine List.flatMap_congr fun b hb => ?_
      exact congrArg (b.1 ++ ·) (hrest b.2 (List.mem_map_of_mem hb))
    rw [tidy_eq, hfirst, htidied, ← hsource]

theorem tidy_tidy_eq_iff {html : Text} :
    tidy (tidy html) = tidy html ↔ ∀ s ∈ plainParts html, ¬ HasStrayReturn s := by
  rw [tidy_eq_self_iff, plainParts_tidy, List.forall_mem_map]
  simp only [tidyPlain_eq_self_iff, isTidy_tidyPlain_iff]

/-- One tidying leaves no two spaces together. It leaves no blank at the end of a line, and a second
one changes nothing, just if there is no stray carriage return outside the protected regions; and a
third one never changes anything. -/
theorem tidy_settles (html : Text) :
    (∀ s ∈ plainParts (tidy html), ¬ [' ', ' '] <:+: s) ∧
      ((∀ s ∈ plainParts (tidy html), IsTidy s) ↔
        ∀ s ∈ plainParts html, ¬ HasStrayReturn s) ∧
      (tidy (tidy html) = tidy html ↔ ∀ s ∈ plainParts html, ¬ HasStrayReturn s) ∧
      tidy (tidy (tidy html)) = tidy (tidy html) := by
  refine ⟨?_, ?_, tidy_tidy_eq_iff, tidy_tidy_eq_iff.2 ?_⟩
  · rw [plainParts_tidy, List.forall_mem_map]
    exact fun s _ => single_tidyPlain s
  · rw [plainParts_tidy, List.forall_mem_map]
    simp only [isTidy_tidyPlain_iff]
  · rw [plainParts_tidy, List.forall_mem_map]
    exact fun s _ => not_hasStrayReturn_tidyPlain s

def strayReturn : Text := "a \r \nb".toList

theorem tidy_again_at_stray_return : ¬ ∀ html, tidy (tidy html) = tidy html := by
  intro h
  have hn : tidy (tidy strayReturn) ≠ tidy strayReturn := by decide +kernel
  exact hn (h strayReturn)

end MailMarkup.Spacing
