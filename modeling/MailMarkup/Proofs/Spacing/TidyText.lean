import MailMarkup.Proofs.Markup.StyleReading
import MailMarkup.Proofs.Run.PlainValues
import MailMarkup.Proofs.Spacing.Trimming

namespace MailMarkup.Spacing

open Text

instance (t : Text) : Decidable (IsTidy t) :=
  decidable_of_iff (tidyPlain t = t) tidyPlain_eq_self_iff

theorem IsTidy.of_isInfix {s t : Text} (h : IsTidy t) (hs : s <:+: t) : IsTidy s where
  single hw := h.single (List.IsInfix.trans hw hs)
  trimmed b hb := ⟨fun hw => (h.trimmed b hb).1 (List.IsInfix.trans hw hs),
    fun hw => (h.trimmed b hb).2 (List.IsInfix.trans hw hs)⟩

def standsAlone (c : Char) : Bool := !isSpaceOrTab c && c != '\n' && c != '\r'

theorem infix_of_not_mem {α : Type} {w a b : List α} {c : α} (h : w <:+: a ++ c :: b) (hc : c ∉ w) :
    w <:+: a ∨ w <:+: b := by
  obtain ⟨s, t, h⟩ := h
  rw [List.append_assoc] at h
  rcases List.append_eq_append_iff.1 h with ⟨x, rfl, hx⟩ | ⟨x, rfl, hx⟩
  · rcases List.append_eq_append_iff.1 hx with ⟨y, rfl, -⟩ | ⟨y, rfl, hy⟩
    · exact .inl ⟨s, y, by simp⟩
    · cases y with
      | nil => exact .inl ⟨s, [], by simp⟩
      | cons d y =>
        obtain ⟨rfl, -⟩ := List.cons.inj hy
        exact absurd (by simp) hc
  · cases x with
    | nil =>
      cases w with
      | nil => exact .inl (List.nil_infix)
      | cons d w =>
        obtain ⟨rfl, -⟩ := List.cons.inj hx
        exact absurd List.mem_cons_self hc
    | cons d x =>
      obtain ⟨rfl, rfl⟩ := List.cons.inj hx
      exact .inr ⟨x, t, by simp⟩

theorem IsTidy.around {a b : Text} (ha : IsTidy a) (hb : IsTidy b) {c : Char}
    (hc : standsAlone c = true) : IsTidy (a ++ c :: b) := by
  simp only [standsAlone, Bool.and_eq_true, Bool.not_eq_true', bne_iff_ne, ne_eq] at hc
  obtain ⟨⟨hb', hn⟩, hr⟩ := hc
  have hblank : ∀ d, isSpaceOrTab d = true → c ≠ d := by
    rintro d hd rfl
    rw [hd] at hb'
    cases hb'
  refine ⟨fun hw => ?_, fun d hd => ⟨fun hw => ?_, fun hw => ?_⟩⟩
  · rcases infix_of_not_mem hw (by simp [hblank ' ' rfl]) with h | h
    · exact ha.single h
    · exact hb.single h
  · rcases infix_of_not_mem hw (by simp [hblank d hd, hn]) with h | h
    · exact (ha.trimmed d hd).1 h
    · exact (hb.trimmed d hd).1 h
  · rcases infix_of_not_mem hw (by simp [hblank d hd, hn, hr]) with h | h
    · exact (ha.trimmed d hd).2 h
    · exact (hb.trimmed d hd).2 h

theorem infix_line {t u : Text} {b x : Char} (h : b :: (u ++ [x]) <:+: '\n' :: (t ++ ['\n']))
    (hb : b ≠ '\n') : b :: (u ++ [x]) <:+: t ∨ x = '\n' ∧ b :: u <:+ t := by
  rcases List.infix_cons_iff.1 h with h | h
  · exact absurd (List.cons_prefix_cons.1 h).1 hb
  · rcases List.infix_concat_iff.1 h with h | h
    · rcases List.suffix_concat_iff.1 h with h | ⟨v, hv, hs⟩
      · cases h
      · obtain ⟨rfl, hx⟩ := List.append_inj' (show (b :: u) ++ [x] = v ++ ['\n'] from hv) rfl
        exact .inr ⟨List.head_eq_of_cons_eq hx, hs⟩
    · exact .inl h

theorem IsTidy.line {t : Text} (h : IsTidy t) (ht : ∀ c ∈ t.getLast?, isBlank c = false) :
    IsTidy ('\n' :: (t ++ ['\n'])) := by
  have hend : ∀ {u : Text} {c : Char}, u ++ [c] <:+ t → isBlank c = true → False := by
    rintro u c ⟨s, rfl⟩ hc
    rw [ht c (by simp)] at hc
    cases hc
  have hblank : ∀ b, isSpaceOrTab b = true → b ≠ '\n' ∧ isBlank b = true := fun b hb => by
    simp only [isSpaceOrTab, Bool.or_eq_true, beq_iff_eq] at hb
    rcases hb with rfl | rfl <;> decide
  refine ⟨fun hw => ?_, fun b hb => ⟨fun hw => ?_, fun hw => ?_⟩⟩
  · rcases infix_line (u := []) hw (by decide) with hw | ⟨hw, -⟩
    · exact h.single hw
    · exact absurd hw (by decide)
  · rcases infix_line (u := []) hw (hblank b hb).1 with hw | ⟨-, hw⟩
    · exact (h.trimmed b hb).1 hw
    · exact hend (u := []) hw (hblank b hb).2
  · rcases infix_line (u := ['\r']) hw (hblank b hb).1 with hw | ⟨-, hw⟩
    · exact (h.trimmed b hb).2 hw
    · exact hend (u := [b]) hw (by decide)

theorem IsTidy.nil : IsTidy [] :=
  ⟨fun h => by simpa using h.length_le, fun _ _ =>
    ⟨fun h => by simpa using h.length_le, fun h => by simpa using h.length_le⟩⟩

theorem IsTidy.blank (c : Char) : IsTidy [c] :=
  ⟨fun h => by simpa using h.length_le, fun _ _ =>
    ⟨fun h => by simpa using h.length_le, fun h => by simpa using h.length_le⟩⟩

theorem IsTidy.around_word {a b w : Text} (ha : IsTidy a) (hb : IsTidy b) (hne : w ≠ [])
    (hw : w.all standsAlone = true) : IsTidy (a ++ (w ++ b)) := by
  induction w generalizing a with
  | nil => exact absurd rfl hne
  | cons c w ih =>
    rw [List.all_cons, Bool.and_eq_true] at hw
    cases w with
    | nil => exact ha.around hb hw.1
    | cons d w => exact ha.around (ih .nil (by simp) hw.2) hw.1

theorem isTidy_of_all {w : Text} (hw : w.all standsAlone = true) : IsTidy w := by
  cases w with
  | nil => exact .nil
  | cons c w => simpa using IsTidy.nil.around_word .nil (by simp) hw

theorem isTidy_escapeQuotes {t : Text} (h : IsTidy t) : IsTidy (escapeQuotes t) := by
  induction hl : t.length using Nat.strong_induction_on generalizing t with
  | _ l ih =>
    by_cases hq : '"' ∈ t
    · obtain ⟨a, b, rfl, ha⟩ := List.eq_append_cons_of_mem hq
      have hb : IsTidy b := h.of_isInfix ⟨a ++ ['"'], [], by simp⟩
      rw [escapeQuotes_append, escapeQuotes_eq_self ha, escapeQuotes_quote]
      refine IsTidy.around_word (w := "&quot;".toList) (h.of_isInfix ⟨[], '"' :: b, by simp⟩)
        (ih b.length ?_ hb rfl) (by decide) (by decide)
      rw [← hl, List.length_append, List.length_cons]
      omega
    · rwa [escapeQuotes_eq_self hq]

end MailMarkup.Spacing

namespace MailMarkup.Markup

open Text Spacing

theorem standsAlone_of_not_isBlank {c : Char} (h : isBlank c = false) : standsAlone c = true := by
  have hne : ∀ d, isBlank d = true → c ≠ d := by
    rintro d hd rfl
    rw [hd] at h
    cases h
  simp [standsAlone, isSpaceOrTab, hne ' ' (by decide), hne '\t' (by decide),
    hne '\n' (by decide), hne '\r' (by decide)]

namespace Attributes

structure IsTidyOne (a : Attribute) : Prop where
  legal : isLegalName a.name = true
  value : ∀ v, a.value = some v → IsTidy v

theorem isTidy_parse {t : Text} (h : IsTidy t) : All IsTidyOne (parse t) := fun a ha =>
  ⟨isLegal_parse t a ha, fun v hv => h.of_isInfix ((parse_isInfix ha).2 v hv)⟩

theorem isTidy_get? {as : Attributes} (h : All IsTidyOne as) {name v : Text}
    (hv : as.get? name = some v) : IsTidy v := by
  obtain ⟨a, ha, rfl⟩ := Option.map_eq_some_iff.1 hv
  cases hval : a.value with
  | none => exact .nil
  | some v => exact (h a (List.mem_of_find?_eq_some ha)).value v hval

theorem IsTidyOne.render_append {a : Attribute} (h : IsTidyOne a) {t : Text} (ht : IsTidy t) :
    IsTidy (' ' :: (renderOne a ++ t)) := by
  obtain ⟨hn, hv⟩ := h
  simp only [isLegalName, Bool.and_eq_true, Bool.not_eq_true', List.isEmpty_eq_false_iff] at hn
  have hw : a.name.all standsAlone = true := by
    refine List.all_eq_true.2 fun c hc => standsAlone_of_not_isBlank ?_
    have := List.all_eq_true.1 hn.2 c hc
    simp only [isNameChar, Bool.not_eq_true', Bool.or_eq_false_iff] at this
    exact this.1
  rw [renderOne]
  cases hval : a.value with
  | none => exact (IsTidy.blank ' ').around_word ht hn.1 hw
  | some v =>
    have hq : IsTidy (escapeQuotes v ++ '"' :: t) :=
      (isTidy_escapeQuotes (hv v hval)).around ht (by decide)
    have hword := (IsTidy.blank ' ').around_word (w := a.name ++ "=\"".toList) hq (by simp)
      (by rw [List.all_append, hw]; rfl)
    simpa using hword

theorem isTidy_render_append {as : Attributes} (h : All IsTidyOne as) {t : Text} (ht : IsTidy t) :
    IsTidy (as.render ++ t) := by
  induction as with
  | nil => exact ht
  | cons a as ih =>
    have := (h a List.mem_cons_self).render_append (ih fun b hb => h b (List.mem_cons_of_mem _ hb))
    simpa [render] using this

theorem isTidy_render {as : Attributes} (h : All IsTidyOne as) : IsTidy as.render := by
  simpa using isTidy_render_append h .nil

end Attributes

structure Declaration.IsSteady (d : Declaration) : Prop extends d.IsRegular where
  plain : '<' ∉ d.text
  tidy : IsTidy d.text

instance (d : Declaration) : Decidable d.IsSteady :=
  decidable_of_iff (d.IsRegular ∧ '<' ∉ d.text ∧ IsTidy d.text)
    ⟨fun h => ⟨h.1, h.2.1, h.2.2⟩, fun h => ⟨h.toIsRegular, h.plain, h.tidy⟩⟩

namespace Style

def IsSteady (s : Style) : Prop := ∀ d ∈ s, d.IsSteady

instance (s : Style) : Decidable s.IsSteady := inferInstanceAs (Decidable (∀ d ∈ s, d.IsSteady))

variable {s b : Style}

theorem IsSteady.isRegular (h : s.IsSteady) : s.IsRegular := fun d hd => (h d hd).toIsRegular

theorem IsSteady.isPlain (h : s.IsSteady) : s.IsPlain := by
  intro d hd
  have := (h d hd).plain
  rw [Declaration.text, List.mem_append, List.mem_cons, not_or, not_or] at this
  exact ⟨this.1, this.2.2⟩

theorem IsSteady.filter (h : s.IsSteady) (p : Declaration → Bool) : IsSteady (List.filter p s) :=
  fun d hd => h d (List.mem_filter.1 hd).1

theorem IsSteady.foldl_remove (h : s.IsSteady) (properties : List Text) :
    IsSteady (properties.foldl Style.remove s) := by
  induction properties generalizing s with
  | nil => exact h
  | cons p ps ih => exact ih (h.filter _)

theorem IsSteady.mergedAhead (h : s.IsSteady) (hb : b.IsSteady) : (s.mergedAhead b).IsSteady := by
  intro d hd
  rcases List.mem_append.1 hd with hd | hd
  · exact hb d hd
  · exact h.filter _ d hd

theorem IsSteady.isTidy_render (h : s.IsSteady) : IsTidy s.render := by
  induction s with
  | nil => exact .nil
  | cons d s ih =>
    have hs := (h d List.mem_cons_self).tidy.around (c := ';')
      (ih fun e he => h e (List.mem_cons_of_mem _ he)) (by decide)
    simpa [render, renderOne, Declaration.text] using hs

end Style

def Tag.HasSteadyStyle (k : Tag) : Prop :=
  ∃ s, Style.parse (Attributes.parse k.attrs).styleText = .ok s ∧ s.IsSteady

instance (k : Tag) : Decidable k.HasSteadyStyle :=
  match h : Style.parse (Attributes.parse k.attrs).styleText with
  | .ok s => decidable_of_iff s.IsSteady (by simp [Tag.HasSteadyStyle, h])
  | .error _ => .isFalse (by simp [Tag.HasSteadyStyle, h])

end MailMarkup.Markup
