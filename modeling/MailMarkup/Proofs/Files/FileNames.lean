import Mathlib.Data.List.DropRight
import Mathlib.Data.List.Infix
import MailMarkup.Files.Name

namespace MailMarkup.Files

open Text

def IsLegal (c : Char) : Prop := c ∉ "<>:\"/\\|?*".toList ∧ 0x20 ≤ c.toNat

instance : DecidablePred IsLegal := fun c =>
  inferInstanceAs (Decidable (c ∉ "<>:\"/\\|?*".toList ∧ 0x20 ≤ c.toNat))

theorem isLegal_iff {c : Char} : IsLegal c ↔ isForbidden c = false := by
  simp [IsLegal, isForbidden, forbiddenSigns]

theorem mem_substituted {c : Char} {t : Text} (h : c ∈ substituted ['_'] t) :
    isForbidden c = false := by
  obtain ⟨d, -, hd⟩ := List.mem_flatMap.1 h
  split at hd
  · rw [List.mem_singleton.1 hd]
    decide
  · rename_i hf
    rw [List.mem_singleton.1 hd]
    simpa using hf

theorem length_substituted (t : Text) : (substituted ['_'] t).length = t.length := by
  induction t with
  | nil => rfl
  | cons c t ih =>
    rw [substituted, List.flatMap_cons, List.length_append]
    split
    · exact (Nat.add_comm 1 _).trans (congrArg (· + 1) ih)
    · exact (Nat.add_comm 1 _).trans (congrArg (· + 1) ih)

theorem substituted_eq_self {t : Text} (h : ∀ c ∈ t, isForbidden c = false) :
    substituted ['_'] t = t := by
  induction t with
  | nil => rfl
  | cons c t ih =>
    obtain ⟨hc, ht⟩ := List.forall_mem_cons.1 h
    rw [substituted, List.flatMap_cons, hc]
    exact congrArg (c :: ·) (ih ht)

def IsDoubled (t : Text) : Prop := ['_', '_'] <:+: t

theorem isDoubled_cons {c : Char} {t : Text} :
    IsDoubled (c :: t) ↔ c = '_' ∧ t.head? = some '_' ∨ IsDoubled t := by
  rw [IsDoubled, List.infix_cons_iff, List.cons_prefix_cons]
  refine or_congr_left (and_congr eq_comm ?_)
  rw [List.head?_eq_some_iff]
  exact ⟨fun ⟨r, hr⟩ => ⟨r, hr.symm⟩, fun ⟨r, hr⟩ => ⟨r, hr.symm⟩⟩

theorem not_isDoubled_append {s t : Text} (hs : ¬ IsDoubled s) (ht : ¬ IsDoubled t)
    (hhead : t.head? ≠ some '_') : ¬ IsDoubled (s ++ t) := by
  induction s with
  | nil => exact ht
  | cons c s ih =>
    rw [isDoubled_cons, not_or] at hs
    rw [List.cons_append, isDoubled_cons, not_or]
    refine ⟨fun ⟨hc, hst⟩ => ?_, ih hs.2⟩
    cases s with
    | nil => exact hhead hst
    | cons d s => exact hs.1 ⟨hc, hst⟩

theorem collapsed_cons_of_ne {c : Char} (h : c ≠ '_') (t : Text) :
    collapsed ['_'] (c :: t) = c :: collapsed ['_'] t := by
  have hrun : run? ['_'] (c :: t) = none := by simp [run?, h.symm]
  rw [collapsed, scan_cons_none hrun]
  rfl

theorem collapsed_underscore (t : Text) :
    collapsed ['_'] ('_' :: t) = '_' :: collapsed ['_'] (t.dropWhile (· == '_')) := by
  have hrun : run? ['_'] ('_' :: t) = some ((), (t.takeWhile (· == '_')).length) := by simp [run?]
  have hdrop : t.drop (t.takeWhile (· == '_')).length = t.dropWhile (· == '_') := by
    conv_lhs => rw [← List.takeWhile_append_dropWhile (p := (· == '_')) (l := t), List.drop_append]
    simp
  rw [collapsed, scan_cons_some hrun, hdrop]
  rfl

theorem head?_dropWhile_underscore (t : Text) : (t.dropWhile (· == '_')).head? ≠ some '_' := by
  intro h
  have := List.head?_dropWhile_not (· == '_') t
  rw [h] at this
  cases this

theorem collapsed_spec (t : Text) :
    ¬ IsDoubled (collapsed ['_'] t) ∧ (collapsed ['_'] t).head? = t.head? ∧
      (collapsed ['_'] t).Sublist t := by
  match t with
  | [] => exact ⟨by simp [collapsed, scan, scanFrom, IsDoubled], rfl, .slnil⟩
  | c :: t =>
    by_cases hc : c = '_'
    · subst hc
      obtain ⟨hd, hh, hs⟩ := collapsed_spec (t.dropWhile (· == '_'))
      rw [collapsed_underscore]
      refine ⟨?_, rfl, (hs.trans (List.dropWhile_suffix _).sublist).cons_cons _⟩
      rw [isDoubled_cons, not_or]
      exact ⟨fun h => head?_dropWhile_underscore t (hh ▸ h.2), hd⟩
    · obtain ⟨hd, -, hs⟩ := collapsed_spec t
      rw [collapsed_cons_of_ne hc]
      refine ⟨?_, rfl, hs.cons_cons _⟩
      rw [isDoubled_cons, not_or]
      exact ⟨fun h => hc h.1, hd⟩
termination_by t.length
decreasing_by
  · exact Nat.lt_succ_of_le (List.dropWhile_suffix _).length_le
  · exact Nat.lt_succ_self _

theorem collapsed_eq_self {t : Text} (h : ¬ IsDoubled t) : collapsed ['_'] t = t := by
  induction t with
  | nil => rfl
  | cons c t ih =>
    rw [isDoubled_cons, not_or] at h
    by_cases hc : c = '_'
    · subst hc
      have hdrop : t.dropWhile (· == '_') = t := by
        cases t with
        | nil => rfl
        | cons d t => exact List.dropWhile_cons_of_neg fun hd => h.1 ⟨rfl, by simpa using hd⟩
      rw [collapsed_underscore, hdrop, ih h.2]
    · rw [collapsed_cons_of_ne hc, ih h.2]

theorem not_of_mem_head?_of_isPrefix {p : Char → Bool} {s t : Text} (h : s <+: t)
    (ht : ∀ c ∈ t.head?, p c = false) : ∀ c ∈ s.head?, p c = false := by
  obtain ⟨r, rfl⟩ := h
  cases s with
  | nil => simp
  | cons c s => exact ht

structure IsCleaned (t : Text) : Prop where
  allowed : ∀ c ∈ t, isForbidden c = false
  single : ¬ IsDoubled t
  first : ∀ c ∈ t.head?, isEdge ['_'] c = false
  last : ∀ c ∈ t.getLast?, isEdge ['_'] c = false

def cleaned (t : Text) : Text := withoutEdges ['_'] (collapsed ['_'] (substituted ['_'] t))

theorem isCleaned_cleaned (t : Text) : IsCleaned (cleaned t) := by
  obtain ⟨hsingle, -, hsub⟩ := collapsed_spec (substituted ['_'] t)
  have hfirst : ∀ c ∈ ((collapsed ['_'] (substituted ['_'] t)).dropWhile (isEdge ['_'])).head?,
      isEdge ['_'] c = false := by
    intro c hc
    have := List.head?_dropWhile_not (isEdge ['_']) (collapsed ['_'] (substituted ['_'] t))
    rw [Option.mem_def.1 hc] at this
    simpa using this
  have hpre := List.rdropWhile_prefix (isEdge ['_'])
    ((collapsed ['_'] (substituted ['_'] t)).dropWhile (isEdge ['_']))
  have hpart : cleaned t <:+: collapsed ['_'] (substituted ['_'] t) :=
    hpre.isInfix.trans (List.dropWhile_suffix _).isInfix
  refine ⟨fun c hc => mem_substituted (hsub.subset (hpart.subset hc)),
    fun h => hsingle (h.trans hpart), not_of_mem_head?_of_isPrefix hpre hfirst, fun c hc => ?_⟩
  obtain ⟨hne, rfl⟩ := List.mem_getLast?_eq_getLast hc
  exact eq_false_of_ne_true (List.rdropWhile_last_not _ _ hne)

theorem length_cleaned_le (t : Text) : (cleaned t).length ≤ t.length := by
  calc (cleaned t).length
      ≤ ((collapsed ['_'] (substituted ['_'] t)).dropWhile (isEdge ['_'])).length :=
        (List.rdropWhile_prefix _ _).length_le
    _ ≤ (collapsed ['_'] (substituted ['_'] t)).length := (List.dropWhile_suffix _).length_le
    _ ≤ (substituted ['_'] t).length := (collapsed_spec _).2.2.length_le
    _ = t.length := length_substituted t

theorem dropWhile_eq_self {p : Char → Bool} {t : Text} (h : ∀ c ∈ t.head?, p c = false) :
    t.dropWhile p = t := by
  cases t with
  | nil => rfl
  | cons c t => exact List.dropWhile_cons_of_neg (by simp [h c rfl])

theorem IsCleaned.dropEndWhile_eq {t : Text} (h : IsCleaned t) :
    dropEndWhile (isEdge ['_']) t = t := by
  refine List.rdropWhile_eq_self_iff.2 fun hne => ?_
  simpa using h.last _ (List.getLast?_eq_some_getLast hne)

theorem IsCleaned.cleaned_eq {t : Text} (h : IsCleaned t) : cleaned t = t := by
  rw [cleaned, substituted_eq_self h.allowed, collapsed_eq_self h.single, withoutEdges,
    dropWhile_eq_self h.first, h.dropEndWhile_eq]

theorem IsCleaned.cleaned_underscore {t : Text} (h : IsCleaned t) : cleaned ('_' :: t) = t := by
  have hsingle : ¬ IsDoubled ('_' :: t) := by
    rw [isDoubled_cons, not_or]
    exact ⟨fun hd => absurd (h.first '_' hd.2) (by decide), h.single⟩
  rw [cleaned, substituted_eq_self (List.forall_mem_cons.2 ⟨by decide, h.allowed⟩),
    collapsed_eq_self hsingle, withoutEdges, List.dropWhile_cons_of_pos (by decide),
    dropWhile_eq_self h.first, h.dropEndWhile_eq]

theorem splitExtension_inversion (t : Text) : splitExtension t = (t, []) ∨
    ∃ stem ext, t = stem ++ '.' :: ext ∧ stem ≠ [] ∧ splitExtension t = (stem, '.' :: ext) := by
  have hcut := List.takeWhile_append_dropWhile (p := (· != '.')) (l := t.reverse)
  cases hd : t.reverse.dropWhile (· != '.') with
  | nil =>
    rw [hd, List.append_nil] at hcut
    refine .inl ?_
    simp [splitExtension, hcut]
  | cons c s =>
    have hc : c = '.' := by
      have := List.head?_dropWhile_not (· != '.') t.reverse
      rw [hd] at this
      simpa using this
    have ht : t = s.reverse ++ '.' :: (t.reverse.takeWhile (· != '.')).reverse := by
      rw [hd, hc] at hcut
      simpa using (congrArg List.reverse hcut).symm
    rw [splitExtension]
    generalize (t.reverse.takeWhile (· != '.')).reverse = ext at ht
    subst ht
    have hlen : (s.reverse ++ '.' :: ext).length - ext.length - 1 = s.reverse.length := by
      simp only [List.length_append, List.length_cons]
      omega
    rw [hlen, List.take_left]
    split
    · rename_i hstem
      refine .inr ⟨s.reverse, ext, rfl, ?_, rfl⟩
      intro hnil
      simp [hnil, afterLast] at hstem
    · exact .inl rfl

theorem splitExtension_append (t : Text) : (splitExtension t).1 ++ (splitExtension t).2 = t := by
  rcases splitExtension_inversion t with h | ⟨stem, ext, ht, -, h⟩
  · rw [h, List.append_nil]
  · rw [h, ht]

theorem head?_splitExtension_snd (t : Text) : (splitExtension t).2.head? ≠ some '_' := by
  rcases splitExtension_inversion t with h | ⟨stem, ext, -, -, h⟩
  · simp [h]
  · simp [h]

theorem splitExtension_fst_ne_nil {t : Text} (ht : t ≠ []) : (splitExtension t).1 ≠ [] := by
  rcases splitExtension_inversion t with h | ⟨stem, ext, -, hne, h⟩
  · rwa [h]
  · rwa [h]

theorem shortened_of_le {t : Text} (h : t.length ≤ 200) : shortened lengthLimit t = t :=
  if_neg (by simp only [lengthLimit]; omega)

section

variable {t : Text} (ht : 200 < t.length)

include ht

theorem shortened_of_lt : shortened lengthLimit t =
    upTo (splitExtension t).1 (200 - (splitExtension t).2.length) ++ (splitExtension t).2 :=
  if_pos (by simp only [lengthLimit]; omega)

theorem length_fst_add_length_snd :
    200 < (splitExtension t).1.length + (splitExtension t).2.length := by
  rwa [← List.length_append, splitExtension_append]

theorem shortened_of_extension_le (he : (splitExtension t).2.length ≤ 200) :
    shortened lengthLimit t =
      (splitExtension t).1.take (200 - (splitExtension t).2.length) ++ (splitExtension t).2 := by
  have hsum := length_fst_add_length_snd ht
  have hcast : (200 : Int) - (splitExtension t).2.length =
      (200 - (splitExtension t).2.length : Nat) := by omega
  rw [shortened_of_lt ht, upTo, hcast, clampIndex_natCast (by omega)]

theorem length_shortened (he : (splitExtension t).2.length ≤ 200) :
    (shortened lengthLimit t).length = 200 := by
  have hsum := length_fst_add_length_snd ht
  rw [shortened_of_extension_le ht he, List.length_append, List.length_take]
  omega

end

theorem shortened_subset (t : Text) : shortened lengthLimit t ⊆ t := by
  rcases Nat.lt_or_ge 200 t.length with ht | ht
  · rw [shortened_of_lt ht]
    conv_rhs => rw [← splitExtension_append t]
    exact List.append_subset.2 ⟨List.Subset.trans (List.take_subset _ _)
      (List.subset_append_left _ _), List.subset_append_right _ _⟩
  · rw [shortened_of_le ht]
    exact List.Subset.refl t

theorem IsCleaned.shortened {t : Text} (h : IsCleaned t) (ht : 200 < t.length)
    (he : (splitExtension t).2.length < 200)
    (hlast : ∀ c ∈ (shortened lengthLimit t).getLast?, isEdge ['_'] c = false) :
    IsCleaned (shortened lengthLimit t) := by
  have hsplit := splitExtension_append t
  have hne : (splitExtension t).1 ≠ [] :=
    splitExtension_fst_ne_nil (List.ne_nil_of_length_pos (by omega))
  refine ⟨fun c hc => h.allowed c (shortened_subset t hc), ?_, ?_, hlast⟩
  · rw [shortened_of_extension_le ht he.le]
    refine not_isDoubled_append (fun hd => h.single ?_) (fun hd => h.single ?_)
      (head?_splitExtension_snd t)
    · exact hd.trans ((List.take_prefix _ _).isInfix.trans
        ((List.prefix_append _ (splitExtension t).2).isInfix.trans (by rw [hsplit])))
    · exact hd.trans ((List.suffix_append (splitExtension t).1 _).isInfix.trans (by rw [hsplit]))
  · rw [shortened_of_extension_le ht he.le]
    obtain ⟨c, s, hs⟩ := List.exists_cons_of_ne_nil hne
    obtain ⟨k, hk⟩ : ∃ k, 200 - (splitExtension t).2.length = k + 1 :=
      ⟨199 - (splitExtension t).2.length, by omega⟩
    have hhead : t.head? = some c := by
      rw [← hsplit, hs]
      rfl
    rw [hs, hk]
    intro d hd
    exact h.first d (hhead.trans hd)

def finished (t : Text) : Text :=
  if t = [] then unnamed else if isDeviceName t then '_' :: t else t

theorem safeName_eq (t : Text) : safeName t = finished (shortened lengthLimit (cleaned t)) := by
  cases t with
  | nil => decide +kernel
  | cons c t =>
    by_cases hname : shortened lengthLimit (cleaned (c :: t)) = []
    · rw [finished, if_pos hname]
      exact if_pos (by simpa [cleaned] using hname)
    · rw [finished, if_neg hname]
      exact if_neg (by simpa [cleaned] using hname)

structure IsUsable (t : Text) : Prop where
  ne_nil : t ≠ []
  length_le : t.length ≤ 200
  legal : ∀ c ∈ t, IsLegal c
  first : ∀ c ∈ t.head?, c ≠ '.' ∧ c ≠ ' '
  last : ∀ c ∈ t.getLast?, c ≠ '.' ∧ c ≠ ' '
  again : safeName t = t

structure FitsLimit (t : Text) : Prop where
  cut : t.length ≤ 200 ∨ (splitExtension t).2.length < 200 ∧
    ∀ c ∈ (shortened lengthLimit t).getLast?, isEdge ['_'] c = false
  device : isDeviceName (shortened lengthLimit t) = true → (shortened lengthLimit t).length < 200

theorem ne_of_not_isEdge {c : Char} (h : isEdge ['_'] c = false) : c ≠ '.' ∧ c ≠ ' ' := by
  constructor <;> rintro rfl <;> cases h

theorem unnamed_eq : unnamed = ['u', 'n', 'n', 'a', 'm', 'e', 'd'] := by decide

theorem isUsable_unnamed : IsUsable unnamed where
  ne_nil := by decide
  length_le := by decide
  legal := by
    have hall : unnamed.all (decide <| IsLegal ·) = true := by decide
    exact fun c hc => of_decide_eq_true (List.all_eq_true.1 hall c hc)
  first := by
    rw [unnamed_eq]
    rintro c ⟨⟩
    decide
  last := by
    rw [unnamed_eq]
    rintro c ⟨⟩
    decide
  again := by decide +kernel

theorem IsCleaned.isUsable_finished {t : Text} (h : IsCleaned t) (hlen : t.length ≤ 200)
    (hdevice : isDeviceName t = true → t.length < 200) : IsUsable (finished t) := by
  rw [finished]
  split
  · exact isUsable_unnamed
  · rename_i hne
    split
    · rename_i hd
      have hagain : safeName ('_' :: t) = '_' :: t := by
        rw [safeName_eq, h.cleaned_underscore, shortened_of_le hlen, finished, if_neg hne,
          if_pos hd]
      refine ⟨List.cons_ne_nil _ _, hdevice hd, ?_, ?_, ?_, hagain⟩
      · exact List.forall_mem_cons.2 ⟨by decide, fun c hc => isLegal_iff.2 (h.allowed c hc)⟩
      · rintro c ⟨⟩
        decide
      · intro c hc
        rw [List.getLast?_cons_of_ne_nil hne] at hc
        exact ne_of_not_isEdge (h.last c hc)
    · rename_i hd
      have hagain : safeName t = t := by
        rw [safeName_eq, h.cleaned_eq, shortened_of_le hlen, finished, if_neg hne, if_neg hd]
      exact ⟨hne, hlen, fun c hc => isLegal_iff.2 (h.allowed c hc),
        fun c hc => ne_of_not_isEdge (h.first c hc), fun c hc => ne_of_not_isEdge (h.last c hc),
        hagain⟩

theorem IsCleaned.isUsable {t : Text} (h : IsCleaned t) (hfits : FitsLimit t) :
    IsUsable (finished (Files.shortened lengthLimit t)) := by
  rcases Nat.lt_or_ge 200 t.length with ht | ht
  · obtain ⟨he, hlast⟩ := hfits.cut.resolve_left (Nat.not_le.2 ht)
    exact (h.shortened ht he hlast).isUsable_finished (length_shortened ht he.le).le hfits.device
  · have hdevice := hfits.device
    rw [shortened_of_le ht] at hdevice ⊢
    exact h.isUsable_finished ht hdevice

theorem finished_of_ne_nil {t : Text} (h : t ≠ []) :
    finished t = if isDeviceName t then '_' :: t else t := if_neg h

theorem IsUsable.not_isDeviceName {t : Text} (h : IsUsable (finished t)) (ht : 200 ≤ t.length) :
    isDeviceName t = false := by
  by_contra hd
  have hlen := h.length_le
  have hne : t ≠ [] := List.ne_nil_of_length_pos (by omega)
  rw [finished_of_ne_nil hne, if_pos (by simpa using hd), List.length_cons] at hlen
  omega

theorem length_le_finished (t : Text) : t.length ≤ (finished t).length := by
  rw [finished]
  split
  · rename_i h
    simp [h]
  · split
    · exact Nat.le_succ _
    · exact Nat.le_refl _

theorem not_isEdge_of_mem_getLast?_safeName {t : Text} (ht : t.length ≤ 200) {c : Char}
    (hc : c ∈ (safeName t).getLast?) : isEdge ['_'] c = false := by
  have hlen : (cleaned t).length ≤ 200 := (length_cleaned_le t).trans ht
  have h := isCleaned_cleaned t
  rw [safeName_eq, shortened_of_le hlen, finished] at hc
  split at hc
  · rw [unnamed_eq] at hc
    cases hc
    rfl
  · rename_i hne
    split at hc
    · rw [List.getLast?_cons_of_ne_nil hne] at hc
      exact h.last c hc
    · exact h.last c hc

theorem fitsLimit_of_isUsable {t : Text} (h : IsUsable (finished (shortened lengthLimit t))) :
    FitsLimit t := by
  rcases Nat.lt_or_ge 200 t.length with ht | ht
  · have hle : (splitExtension t).2.length ≤ 200 := by
      have hout := (length_le_finished _).trans h.length_le
      rw [shortened_of_lt ht, List.length_append] at hout
      omega
    have hlen := length_shortened ht hle
    have hdevice := h.not_isDeviceName hlen.ge
    have hne : shortened lengthLimit t ≠ [] := List.ne_nil_of_length_pos (by omega)
    rw [finished_of_ne_nil hne, hdevice, if_neg Bool.false_ne_true] at h
    refine ⟨.inr ⟨Nat.lt_of_le_of_ne hle fun he => ?_, fun c hc => ?_⟩, fun hd => ?_⟩
    -- an extension of 200 characters is all that is left, and it begins with a point
    · rcases splitExtension_inversion t with hs | ⟨stem, ext, -, -, hs⟩
      · rw [hs] at he
        cases he
      · have hfirst := h.first '.'
        rw [shortened_of_extension_le ht hle, he, hs] at hfirst
        exact (hfirst rfl).1 rfl
    · rw [← h.again] at hc
      exact not_isEdge_of_mem_getLast?_safeName hlen.le hc
    · rw [hdevice] at hd
      cases hd
  · refine ⟨.inl ht, fun hd => ?_⟩
    rw [shortened_of_le ht] at h hd ⊢
    by_contra hlt
    rw [h.not_isDeviceName (Nat.le_of_not_lt hlt)] at hd
    cases hd

theorem finished_ne_nil (t : Text) : finished t ≠ [] := by
  rw [finished]
  split
  · decide
  · split
    · exact List.cons_ne_nil _ _
    · assumption

theorem isLegal_of_mem_finished {t : Text} (h : ∀ c ∈ t, IsLegal c) :
    ∀ c ∈ finished t, IsLegal c := by
  rw [finished]
  split
  · exact isUsable_unnamed.legal
  · split
    · exact List.forall_mem_cons.2 ⟨by decide, h⟩
    · exact h

/-- A safe name is never empty and holds no forbidden character. It keeps to the limit, begins and
ends with no blank or point, and stays as it is when made safe again, just if the cleaned name fits
the limit. -/
theorem safeName_usable_iff (t : Text) :
    safeName t ≠ [] ∧ (∀ c ∈ safeName t, IsLegal c) ∧
      (IsUsable (safeName t) ↔ FitsLimit (cleaned t)) := by
  have h := isCleaned_cleaned t
  rw [safeName_eq]
  refine ⟨finished_ne_nil _, isLegal_of_mem_finished fun c hc => ?_, fitsLimit_of_isUsable,
    h.isUsable⟩
  exact isLegal_iff.2 (h.allowed c (shortened_subset _ hc))

def longExtension : Text := 'a' :: '.' :: List.replicate 200 'b'

theorem not_isUsable_longExtension : ¬ ∀ t, t ≠ [] → IsUsable (safeName t) := by
  intro h
  have hlen : (safeName longExtension).length = 201 := by decide +kernel
  have := (h longExtension (List.cons_ne_nil _ _)).length_le
  omega

end MailMarkup.Files
