import Mathlib.Logic.Function.Iterate
import MailMarkup.Proofs.Files.FileNames
import MailMarkup.Proofs.Image.AltClaims
import MailMarkup.Proofs.Text.Utf8Repair

namespace MailMarkup.Text

def Run.avoids (r : Run) (bounds : Nat × Nat) : Bool :=
  bounds.1 != 0 && (r.partner + (r.last - r.first) < bounds.1 || bounds.2 < r.partner)

theorem toNat_ofNat_or (n : Nat) : (Char.ofNat n).toNat = n ∨ (Char.ofNat n).toNat = 0 := by
  by_cases h : n.isValidChar
  · exact .inl (Utf8.toNat_ofNat h)
  · rw [Char.ofNat, dif_neg h]
    exact .inr rfl

theorem Run.inRanges_map {r : Run} {c : Char} {rs : List (Nat × Nat)} (hc : r.contains c = true)
    (h : rs.all r.avoids = true) : inRanges rs (r.map c) = false := by
  rw [inRanges, List.any_eq_false]
  intro bounds hb hin
  obtain ⟨hlow, hhigh⟩ : bounds.1 ≤ (r.map c).toNat ∧ (r.map c).toNat ≤ bounds.2 := by
    simpa using hin
  have ha := List.all_eq_true.1 h bounds hb
  simp only [contains, Bool.and_eq_true, decide_eq_true_eq] at hc
  simp only [avoids, Bool.and_eq_true, bne_iff_ne, Bool.or_eq_true, decide_eq_true_eq] at ha
  rcases toNat_ofNat_or (r.partner + (c.toNat - r.first)) with hn | hn
  · rw [map, hn] at hlow hhigh
    omega
  · rw [map, hn] at hlow
    omega

theorem inRanges_of_partner? {runs : List Run} {rs : List (Nat × Nat)} {c d : Char}
    (h : (runs.all fun r => rs.all r.avoids) = true) (hd : partner? runs c = some d) :
    inRanges rs d = false := by
  obtain ⟨r, hr, rfl⟩ := Option.map_eq_some_iff.1 hd
  have hc : r.contains c = true := List.find?_some (p := (Run.contains · c)) hr
  exact Run.inRanges_map hc (List.all_eq_true.1 h r (List.mem_of_find?_eq_some hr))

theorem getD_partner? {runs : List Run} {rs : List (Nat × Nat)} {c : Char}
    (h : (runs.all fun r => rs.all r.avoids) = true) (hc : inRanges rs c = false) :
    inRanges rs ((partner? runs c).getD c) = false := by
  cases hp : partner? runs c with
  | none => exact hc
  | some d => exact inRanges_of_partner? h hp

end MailMarkup.Text

namespace MailMarkup.Image

open Text

def separatorRanges : List (Nat × Nat) := (0x2D, 0x2E) :: (0x5F, 0x5F) :: blankRanges

theorem isSeparator_iff {c : Char} :
    isSeparator c = true ↔ isBlank c = true ∨ c = '.' ∨ c = '_' ∨ c = '-' := by
  simp [isSeparator]

theorem isSeparator_eq (c : Char) : isSeparator c = inRanges separatorRanges c := by
  have heq (d : Char) : c = d ↔ c.toNat = d.toNat := Char.toNat_inj.symm
  rw [Bool.eq_iff_iff, isSeparator_iff, heq '.', heq '_', heq '-', isBlank,
    show '.'.toNat = 0x2E from rfl, show '_'.toNat = 0x5F from rfl, show '-'.toNat = 0x2D from rfl]
  simp only [separatorRanges, inRanges, List.any_cons, Bool.or_eq_true, Bool.and_eq_true,
    decide_eq_true_eq]
  cases blankRanges.any fun r => decide (r.1 ≤ c.toNat) && decide (c.toNat ≤ r.2) with
  | true => simp
  | false =>
    simp only [Bool.false_eq_true, false_or, or_false]
    omega

def IsWord (w : Text) : Prop :=
  w ≠ [] ∧ ∀ c ∈ w, isBlank c = false ∧ c ≠ '.' ∧ c ≠ '_' ∧ c ≠ '-'

theorem isWord_iff {w : Text} : IsWord w ↔ w ≠ [] ∧ ∀ c ∈ w, isSeparator c = false := by
  refine and_congr_right fun _ => forall₂_congr fun c _ => ?_
  rw [← Bool.not_eq_true (isSeparator c), isSeparator_iff, not_or, not_or, not_or,
    Bool.not_eq_true]

instance (w : Text) : Decidable (IsWord w) :=
  decidable_of_iff (w ≠ [] ∧ w.Forall (isSeparator · = false)) <| by
    rw [isWord_iff, List.forall_iff_forall_mem]

theorem isSeparator_toLower {c : Char} (h : isSeparator c = false) :
    isSeparator c.toLower = false := by
  by_cases hu : 65 ≤ c.toNat ∧ c.toNat ≤ 90
  · have hl := toNat_toLower c
    rw [if_pos hu] at hl
    rw [isSeparator_eq, inRanges, List.any_eq_false]
    intro bounds hb
    have hout : ∀ b ∈ separatorRanges, b.2 < 97 ∨ 122 < b.1 := by decide
    have := hout bounds hb
    simp only [Bool.and_eq_true, decide_eq_true_eq]
    omega
  · have hl := toNat_toLower c
    rw [if_neg hu] at hl
    rw [Char.toNat_inj.1 hl]
    exact h

theorem isSeparator_of_mem_lowerChar {c d : Char} (h : isSeparator c = false) {b : Bool} {r : Text}
    (hd : d ∈ lowerChar b c r) : isSeparator d = false := by
  have hruns : (lowerRuns.all fun r => separatorRanges.all r.avoids) = true := by decide
  rw [lowerChar] at hd
  split at hd
  · rw [List.mem_singleton.1 hd]
    exact isSeparator_toLower h
  split at hd
  · rw [List.mem_singleton.1 hd]
    split <;> decide
  split at hd
  · have hdotted : List.Forall (isSeparator · = false) ['i', '\u0307'] := by decide
    exact List.forall_iff_forall_mem.1 hdotted d hd
  · rw [List.mem_singleton.1 hd, isSeparator_eq]
    exact getD_partner? hruns (isSeparator_eq c ▸ h)

theorem isSeparator_of_mem_lowerFrom {t : Text} (h : ∀ c ∈ t, isSeparator c = false) {b : Bool}
    {d : Char} (hd : d ∈ lowerFrom b t) : isSeparator d = false := by
  induction t generalizing b with
  | nil => cases hd
  | cons c t ih =>
    obtain ⟨hc, ht⟩ := List.forall_mem_cons.1 h
    rcases List.mem_append.1 hd with hd | hd
    · exact isSeparator_of_mem_lowerChar hc hd
    · exact ih ht hd

theorem isSeparator_of_mem_titleChar {c d : Char} (h : isSeparator c = false)
    (hd : d ∈ titleChar c) : isSeparator d = false := by
  have hlong : ∀ p ∈ longTitles, p.2.Forall (isSeparator · = false) := by decide
  have hruns : (titleRuns.all fun r => separatorRanges.all r.avoids) = true := by decide
  rw [titleChar] at hd
  cases hf : longTitles.find? (·.1 == c) with
  | some p =>
    rw [hf] at hd
    exact List.forall_iff_forall_mem.1 (hlong p (List.mem_of_find?_eq_some hf)) d hd
  | none =>
    rw [hf] at hd
    rw [List.mem_singleton.1 hd, isSeparator_eq]
    exact getD_partner? hruns (isSeparator_eq c ▸ h)

theorem titleChar_ne_nil (c : Char) : titleChar c ≠ [] := by
  have hlong : ∀ p ∈ longTitles, p.2 ≠ [] := by decide
  rw [titleChar]
  cases hf : longTitles.find? (·.1 == c) with
  | some p => exact hlong p (List.mem_of_find?_eq_some hf)
  | none => exact List.cons_ne_nil _ _

theorem IsWord.shownWord {w : Text} (h : IsWord w) : IsWord (shownWord w) := by
  rw [Image.shownWord]
  split
  · rw [isWord_iff] at h ⊢
    cases w with
    | nil => exact absurd rfl h.1
    | cons c r =>
      obtain ⟨hc, hr⟩ := List.forall_mem_cons.1 h.2
      constructor
      · exact List.append_ne_nil_of_left_ne_nil (titleChar_ne_nil c) _
      · intro d hd
        rcases List.mem_append.1 hd with hd | hd
        · exact isSeparator_of_mem_titleChar hc hd
        · exact isSeparator_of_mem_lowerFrom hr hd
  · exact h

def IsPhrase (t : Text) : Prop := ∃ ws, ws ≠ [] ∧ (∀ w ∈ ws, IsWord w) ∧ t = join [' '] ws

theorem IsPhrase.append {s t : Text} (hs : IsPhrase s) (ht : IsPhrase t) :
    IsPhrase (s ++ ' ' :: t) := by
  obtain ⟨vs, hvs, hv, rfl⟩ := hs
  obtain ⟨ws, hws, hw, rfl⟩ := ht
  refine ⟨vs ++ ws, List.append_ne_nil_of_left_ne_nil hvs _, ?_, (join_append hvs hws).symm⟩
  intro w hmem
  exact (List.mem_append.1 hmem).elim (hv w) (hw w)

theorem IsWord.isPhrase {w : Text} (h : IsWord w) : IsPhrase w := by
  refine ⟨[w], List.cons_ne_nil _ _, ?_, (List.append_nil w).symm⟩
  intro v hv
  rwa [List.mem_singleton.1 hv]

theorem isPhrase_label {words : List Text} (h : ∀ w ∈ words, IsWord w) :
    IsPhrase (label words) := by
  rw [label]
  split
  · exact IsWord.isPhrase (by decide)
  · rename_i hne
    refine ⟨words.map shownWord, by simpa using hne, ?_, rfl⟩
    intro v hv
    obtain ⟨w, hw, rfl⟩ := List.mem_map.1 hv
    exact (h w hw).shownWord

theorem isPhrase_describe {tokens : List Text} (h : ∀ w ∈ tokens, IsWord w) :
    describe tokens = [] ∨ IsPhrase (describe tokens) := by
  have hwords : ∀ w ∈ tokens.filter (!isNumeral ·), IsWord w := fun w hw =>
    h w (List.mem_filter.1 hw).1
  have hlabel := isPhrase_label hwords
  rw [describe]
  cases hn : (tokens.filter isNumeral).getLast? with
  | none =>
    simp only
    split
    · exact .inl rfl
    · exact .inr hlabel
  | some n =>
    have hnumber : IsWord n := h n (List.mem_filter.1 (List.mem_of_getLast? hn)).1
    have hsection : IsWord "section".toList := by decide
    have hall := hlabel.append (hsection.isPhrase.append hnumber.isPhrase)
    refine .inr ?_
    simpa using hall

theorem stripOnce_isSuffix (t : Text) : stripOnce t <:+ t := by
  refine (List.dropWhile_suffix _).trans ?_
  cases h : behindExportWord? t with
  | none => exact List.suffix_refl t
  | some r =>
    obtain ⟨w, -, hw⟩ := List.exists_of_findSome?_eq_some h
    obtain ⟨p, -, hp⟩ := exists_append_of_dropFolded? (Option.eq_some_of_filter_eq_some hw)
    exact ⟨p, hp.symm⟩

theorem stripExportWords_iterate (t : Text) :
    ∃ k ≤ t.length, stripExportWords t = stripOnce^[k] t ∧
      stripOnce^[k + 1] t = stripOnce^[k] t ∧ ∀ j < k, stripOnce^[j + 1] t ≠ stripOnce^[j] t := by
  fun_induction stripExportWords t with
  | case1 t hlt ih =>
    obtain ⟨k, hk, heq, hlast, hbefore⟩ := ih
    refine ⟨k + 1, Nat.le_trans (Nat.succ_le_succ hk) hlt, heq, hlast, ?_⟩
    intro j hj
    cases j with
    | zero => exact fun h => Nat.ne_of_lt hlt (congrArg List.length h)
    | succ j => exact hbefore j (Nat.lt_of_succ_lt_succ hj)
  | case2 t hle =>
    have hsame : stripOnce t = t :=
      (stripOnce_isSuffix t).eq_of_length
        (Nat.le_antisymm (length_stripOnce_le t) (Nat.le_of_not_lt hle))
    exact ⟨0, Nat.zero_le _, rfl, hsame, fun j hj => absurd hj (Nat.not_lt_zero j)⟩

def bareName (src : Text) : Text :=
  withoutTail beforeScale? (withoutTail beforeExtension? (Url.unescape (fileName src)))

def IsInline (src : Text) : Prop := "data:".toList <+: lower src ∨ "cid:".toList <+: lower src

instance : DecidablePred IsInline := fun _ => inferInstanceAs (Decidable (_ ∨ _))

theorem altFromFileName_of_not_isInline {src : Text} (h : ¬ IsInline src) :
    altFromFileName src = describe (fields isSeparator (plainName src)) := by
  rw [altFromFileName]
  refine if_neg ?_
  simpa [IsInline] using h

theorem altFromFileName_eq_nil_or_isPhrase (src : Text) :
    altFromFileName src = [] ∨ IsPhrase (altFromFileName src) := by
  by_cases h : IsInline src
  · refine .inl (if_pos ?_)
    simpa [IsInline] using h
  · rw [altFromFileName_of_not_isInline h]
    exact isPhrase_describe fun w hw => isWord_iff.2 (not_sep_of_mem_fields hw)

theorem isInline_of_append_slash {s r : Text} (h : IsInline (s ++ '/' :: r)) : IsInline s := by
  rw [IsInline, divides_slash.lower_append] at h
  exact h.imp (isPrefix_of_append_cons (by decide)) (isPrefix_of_append_cons (by decide))

def endMarks : List Char := ['?', '#']

theorem isQueryMark_iff {c : Char} : isQueryMark c = true ↔ c ∈ endMarks := by
  simp [isQueryMark, endMarks]

theorem fileName_eq {front name tail : Text} (hfront : ∀ c ∈ front, c ∉ endMarks)
    (hlast : ∀ c ∈ front.getLast?, c = '/') (hne : name ≠ [])
    (hname : ∀ c ∈ name, c ≠ '/' ∧ c ∉ endMarks) (htail : ∀ c ∈ tail.head?, c ∈ endMarks) :
    fileName (front ++ (name ++ tail)) = name := by
  have hpath : (front ++ (name ++ tail)).takeWhile (!isQueryMark ·) = front ++ name := by
    rw [← List.append_assoc, List.takeWhile_append_of_pos]
    · cases tail with
      | nil => rw [List.takeWhile_nil, List.append_nil]
      | cons c r =>
        rw [List.takeWhile_cons_of_neg, List.append_nil]
        simpa using isQueryMark_iff.2 (htail c rfl)
    · intro c hc
      rw [Bool.not_eq_true', ← Bool.not_eq_true, isQueryMark_iff]
      exact (List.mem_append.1 hc).elim (hfront c) fun hc => (hname c hc).2
  have hend : dropEndWhile isSlash (front ++ name) = front ++ name := by
    refine List.rdropWhile_eq_self_iff.2 fun hne' => ?_
    rw [List.getLast_append_of_ne_nil hne' hne]
    have := (hname _ (List.getLast_mem hne)).1
    simpa [isSlash] using this
  have hbehind : front.reverse.takeWhile (· != '/') = [] := by
    cases hr : front.reverse with
    | nil => rfl
    | cons c r =>
      have hc := hlast c (by rw [List.getLast?_eq_head?_reverse, hr]; rfl)
      rw [List.takeWhile_cons_of_neg (by simp [hc])]
  rw [fileName, hpath, hend, afterLast, List.reverse_append, List.takeWhile_append_of_pos, hbehind,
    List.append_nil, List.reverse_reverse]
  intro c hc
  simpa using (hname c (List.mem_reverse.1 hc)).1

/-- The alternative text from the address of an image is that from the last part of its path. It is
empty or words without separators, one blank apart, and the words of export tools are taken off in
a number of passes. -/
theorem altFromFileName_words :
    (∀ folder name tail : Text, (∀ c ∈ folder, c ∉ endMarks) → ¬ IsInline folder →
      name ≠ [] → (∀ c ∈ name, c ≠ '/' ∧ c ∉ endMarks) → ¬ IsInline name →
      (∀ c ∈ tail.head?, c ∈ endMarks) →
      altFromFileName (folder ++ '/' :: (name ++ tail)) = altFromFileName name) ∧
    ∀ src, (∃ k ≤ (bareName src).length, plainName src = stripOnce^[k] (bareName src) ∧
        stripOnce^[k + 1] (bareName src) = stripOnce^[k] (bareName src) ∧
        ∀ j < k, stripOnce^[j + 1] (bareName src) ≠ stripOnce^[j] (bareName src)) ∧
      (altFromFileName src = [] ∨ IsPhrase (altFromFileName src)) := by
  constructor
  · intro folder name tail hfolder hf hne hname hn htail
    have hlong : fileName (folder ++ '/' :: (name ++ tail)) = name := by
      have hfile : fileName ((folder ++ ['/']) ++ (name ++ tail)) = name :=
        fileName_eq ?_ ?_ hne hname htail
      · simpa using hfile
      · intro c hc
        rcases List.mem_append.1 hc with hc | hc
        · exact hfolder c hc
        · rw [List.mem_singleton.1 hc]
          decide
      · intro c hc
        rw [List.getLast?_concat] at hc
        exact (Option.mem_some.1 hc).symm
    have hshort : fileName name = name := by
      have hfile : fileName ([] ++ (name ++ [])) = name := fileName_eq nofun nofun hne hname nofun
      simpa using hfile
    rw [altFromFileName_of_not_isInline fun h => hf (isInline_of_append_slash h),
      altFromFileName_of_not_isInline hn, plainName, plainName, hlong, hshort]
  · intro src
    exact ⟨stripExportWords_iterate (bareName src), altFromFileName_eq_nil_or_isPhrase src⟩

def exportFolder : Text := "data/DATA:x.png/img".toList

def exportName : Text := "Slice_02-IMG %2F ŉ%5Fhero@2x.png".toList

theorem altFromFileName_words_of_export :
    ((∀ c ∈ exportFolder, c ∉ endMarks) ∧ ¬ IsInline exportFolder ∧ exportName ≠ [] ∧
        (∀ c ∈ exportName, c ≠ '/' ∧ c ∉ endMarks) ∧ ¬ IsInline exportName ∧
        ∀ c ∈ "?v=/a#b".toList.head?, c ∈ endMarks) ∧
      altFromFileName (exportFolder ++ '/' :: (exportName ++ "?v=/a#b".toList)) =
        "Img / ŉ Hero section 02".toList := by
  have h : (∀ c ∈ exportFolder, c ∉ endMarks) ∧ ¬ IsInline exportFolder ∧ exportName ≠ [] ∧
      (∀ c ∈ exportName, c ≠ '/' ∧ c ∉ endMarks) ∧ ¬ IsInline exportName ∧
      ∀ c ∈ "?v=/a#b".toList.head?, c ∈ endMarks := by
    refine ⟨List.forall_iff_forall_mem.1 (by decide), by decide, by decide,
      List.forall_iff_forall_mem.1 (by decide), by decide, ?_⟩
    rintro c ⟨⟩
    decide
  refine ⟨h, ?_⟩
  obtain ⟨hfolder, hf, hne, hname, hn, htail⟩ := h
  have hlast : altFromFileName exportName = "Img / ŉ Hero section 02".toList := by decide +kernel
  exact (altFromFileName_words.1 _ _ _ hfolder hf hne hname hn htail).trans hlast

end MailMarkup.Image
