import Mathlib.Data.List.Find
import MailMarkup.Proofs.Markup.StyleMerging

namespace MailMarkup.Markup

open Text

def Declaration.IsTrimmed (d : Declaration) : Prop := ofTexts d.property d.value = d

theorem Declaration.isTrimmed_ofTexts (p v : Text) : (ofTexts p v).IsTrimmed := by
  simp [IsTrimmed, ofTexts, trim_trim]

theorem Declaration.IsTrimmed.lower_trim {d : Declaration} (h : d.IsTrimmed) :
    lower (trim d.property) = d.key :=
  congrArg Declaration.key h

namespace Style

def IsTrimmed (s : Style) : Prop := ∀ d ∈ s, d.IsTrimmed

variable {s a b : Style}

theorem isTrimmed_of_parse {t : Text} (h : Style.parse t = .ok s) : s.IsTrimmed := by
  intro d hd
  obtain ⟨u, w, -, -, hw⟩ := exists_chunk_of_parse h hd
  obtain ⟨p, v, -, -, rfl, -⟩ := Declaration.exists_of_ofChunk? hw
  exact Declaration.isTrimmed_ofTexts p v

theorem IsTrimmed.mergedAhead (hs : s.IsTrimmed) (hb : b.IsTrimmed) :
    (s.mergedAhead b).IsTrimmed := by
  intro d hd
  rcases List.mem_append.1 hd with hd | hd
  · exact hb d hd
  · exact hs d (List.mem_filter.1 hd).1

theorem IsTrimmed.remove (hs : s.IsTrimmed) (property : Text) : (s.remove property).IsTrimmed :=
  fun d hd => hs d (List.mem_filter.1 hd).1

theorem IsTrimmed.replace (hs : s.IsTrimmed) (property value : Text) :
    (Style.replace property value s).IsTrimmed := by
  induction s with
  | nil => exact hs
  | cons d s ih =>
    obtain ⟨hd, hs⟩ := List.forall_mem_cons.1 hs
    rw [Style.replace]
    split
    · have hd' : ({ d with value := trim value } : Declaration).IsTrimmed := by
        have hp : trim d.property = d.property := congrArg Declaration.property hd
        simp [Declaration.IsTrimmed, Declaration.ofTexts, hp, trim_trim]
      exact List.forall_mem_cons.2 ⟨hd', IsTrimmed.remove hs property⟩
    · exact List.forall_mem_cons.2 ⟨hd, ih hs⟩

theorem IsTrimmed.set (hs : s.IsTrimmed) (property value : Text) :
    (s.set property value).IsTrimmed := by
  rw [Style.set]
  split
  · exact hs.replace property value
  · refine List.forall_mem_append.2 ⟨hs, fun d hd => ?_⟩
    rw [List.mem_singleton.1 hd]
    exact Declaration.isTrimmed_ofTexts property value

variable {p q : Text}

theorem declares_iff : s.declares p = true ↔ ∃ d ∈ s, d.key = lower (trim p) := by
  simp [declares]

theorem declares_eq_of_key (h : lower (trim p) = lower (trim q)) :
    s.declares p = s.declares q := by
  rw [declares, declares, h]

theorem declares_mergedAhead (hs : s.IsTrimmed) (p : Text) :
    (s.mergedAhead b).declares p = (b.declares p || s.declares p) := by
  rw [Bool.eq_iff_iff, Bool.or_eq_true, declares_iff, declares_iff, declares_iff]
  constructor
  · rintro ⟨d, hd, hk⟩
    rcases List.mem_append.1 hd with hd | hd
    · exact .inl ⟨d, hd, hk⟩
    · exact .inr ⟨d, (List.mem_filter.1 hd).1, hk⟩
  · rintro (⟨d, hd, hk⟩ | ⟨d, hd, hk⟩)
    · exact ⟨d, List.mem_append_left _ hd, hk⟩
    · cases hb : b.declares p with
      | true =>
        obtain ⟨e, he, hk'⟩ := declares_iff.1 hb
        exact ⟨e, List.mem_append_left _ he, hk'⟩
      | false =>
        have hleft : b.declares d.property = false :=
          (declares_eq_of_key ((hs d hd).lower_trim.trans hk)).trans hb
        exact ⟨d, List.mem_append_right _ (List.mem_filter.2 ⟨hd, by rw [hleft]; rfl⟩), hk⟩

theorem mergedAhead_assoc (ha : a.IsTrimmed) :
    (s.mergedAhead a).mergedAhead b = s.mergedAhead (a.mergedAhead b) := by
  have hboth : (fun d : Declaration => !(a.mergedAhead b).declares d.property) =
      fun d => !b.declares d.property && !a.declares d.property := by
    funext d
    rw [declares_mergedAhead ha, Bool.not_or]
  calc (s.mergedAhead a).mergedAhead b
    _ = b ++ (a.filter (!b.declares ·.property) ++
          s.filter fun d => !b.declares d.property && !a.declares d.property) := by
      rw [mergedAhead, mergedAhead, List.filter_append, List.filter_filter]
    _ = s.mergedAhead (a.mergedAhead b) := by
      rw [mergedAhead, hboth, mergedAhead, List.append_assoc]

theorem declares_self (hb : b.IsTrimmed) {d : Declaration} (hd : d ∈ b) :
    b.declares d.property = true :=
  declares_iff.2 ⟨d, hd, (hb d hd).lower_trim.symm⟩

theorem mergedAhead_self (hb : b.IsTrimmed) : b.mergedAhead b = b := by
  rw [mergedAhead, List.filter_eq_nil_iff.2, List.append_nil]
  intro d hd
  simp [declares_self hb hd]

theorem get?_eq_find? (s : Style) (p : Text) :
    s.get? p = (s.reverse.find? (·.key == lower (trim p))).map (·.value) := by
  rw [get?, List.findRev?_eq_find?_reverse]

theorem get?_append (s b : Style) (p : Text) : get? (s ++ b) p = (b.get? p).or (s.get? p) := by
  rw [get?_eq_find?, get?_eq_find?, get?_eq_find?, List.reverse_append, List.find?_append,
    Option.map_or]

theorem get?_eq_none_iff : s.get? p = none ↔ s.declares p = false := by
  simp [get?_eq_find?, declares]

theorem get?_filter {keeps : Declaration → Bool}
    (h : ∀ d ∈ s, d.key = lower (trim p) → keeps d = true) :
    get? (s.filter keeps) p = s.get? p := by
  rw [get?_eq_find?, get?_eq_find?, ← List.filter_reverse, List.find?_filter]
  refine congrArg (Option.map _) (List.find?_congr fun d hd => ?_)
  by_cases hk : d.key = lower (trim p)
  · simp [h d (List.mem_reverse.1 hd) hk, hk]
  · simp [hk]

theorem get?_mergedAhead (hs : s.IsTrimmed) (b : Style) (p : Text) :
    (s.mergedAhead b).get? p = if b.declares p = true then b.get? p else s.get? p := by
  have hkey : ∀ d ∈ s, d.key = lower (trim p) → b.declares d.property = b.declares p :=
    fun d hd hk => declares_eq_of_key ((hs d hd).lower_trim.trans hk)
  rw [mergedAhead, get?_append]
  split
  · rename_i hb
    have hgone : declares (s.filter (!b.declares ·.property)) p = false := by
      rw [← Bool.not_eq_true, declares_iff]
      rintro ⟨d, hd, hk⟩
      obtain ⟨hd, hleft⟩ := List.mem_filter.1 hd
      simp [hkey d hd hk, hb] at hleft
    rw [get?_eq_none_iff.2 hgone, Option.none_or]
  · rename_i hb
    rw [Bool.not_eq_true] at hb
    rw [get?_eq_none_iff.2 hb, Option.or_none, get?_filter]
    intro d hd hk
    rw [hkey d hd hk, hb]
    rfl

theorem filter_mergedAhead (hb : b.IsTrimmed) (s : Style) :
    (s.mergedAhead b).filter (!b.declares ·.property) = s.filter (!b.declares ·.property) := by
  have hblock : b.filter (!b.declares ·.property) = [] := by
    refine List.filter_eq_nil_iff.2 fun d hd => ?_
    simp [declares_self hb hd]
  rw [mergedAhead, List.filter_append, hblock, List.nil_append, List.filter_filter]
  simp only [Bool.and_self]

def Trimmed : Type := {s : Style // s.IsTrimmed}

namespace Trimmed

def ofTexts (ds : List (Text × Text)) : Trimmed :=
  ⟨ds.map fun d => .ofTexts d.1 d.2, by
    rintro _ hd
    obtain ⟨d, -, rfl⟩ := List.mem_map.1 hd
    exact Declaration.isTrimmed_ofTexts d.1 d.2⟩

def parse (t : Text) : Except Fault Trimmed :=
  match h : Style.parse t with
  | .ok s => .ok ⟨s, isTrimmed_of_parse h⟩
  | .error e => .error e

def set (s : Trimmed) (property value : Text) : Trimmed :=
  ⟨s.1.set property value, s.2.set property value⟩

def remove (s : Trimmed) (property : Text) : Trimmed := ⟨s.1.remove property, s.2.remove property⟩

def mergedAhead (s block : Trimmed) : Trimmed := ⟨s.1.mergedAhead block.1, s.2.mergedAhead block.2⟩

end Trimmed

theorem map_val_parse (t : Text) : (Trimmed.parse t).map Subtype.val = Style.parse t := by
  unfold Trimmed.parse
  split
  · rename_i hs
    exact hs.symm
  · rename_i he
    exact he.symm

/-- Merging blocks is associative, and a block merged into itself stays as it is. The block's
properties are found as the block has them and all others as the style had them; the declarations
that the block says nothing of are all there, in their order. -/
theorem mergedAhead_assoc_and_precedence (s a b : Trimmed) :
    (s.mergedAhead a).mergedAhead b = s.mergedAhead (a.mergedAhead b) ∧
      b.mergedAhead b = b ∧
      (∀ p, (s.mergedAhead b).1.get? p =
        if b.1.declares p = true then b.1.get? p else s.1.get? p) ∧
      (s.mergedAhead b).1.filter (!b.1.declares ·.property) =
        s.1.filter (!b.1.declares ·.property) :=
  ⟨Subtype.ext (mergedAhead_assoc a.2), Subtype.ext (mergedAhead_self b.2),
    get?_mergedAhead s.2 b.1, filter_mergedAhead b.2 s.1⟩

def fallbackWidths : Trimmed := .ofTexts [
  ("Width".toList, "100%".toList), ("color".toList, " red".toList),
  ("width".toList, "calc(100% - 2px)".toList), ("COLOR".toList, "#f00".toList)]

def darkColors : Trimmed := (Trimmed.ofTexts []).set "Color ".toList "black".toList

def margins : Trimmed :=
  .remove (.ofTexts [("MARGIN".toList, "1px".toList), ("padding".toList, "0".toList),
    ("margin".toList, "2px ".toList)]) "Padding".toList

theorem mergedAhead_assoc_and_precedence_of_fallbacks :
    (fallbackWidths.mergedAhead (darkColors.mergedAhead margins)).1 = [
        ⟨"MARGIN".toList, "1px".toList⟩, ⟨"margin".toList, "2px".toList⟩,
        ⟨"Color".toList, "black".toList⟩, ⟨"Width".toList, "100%".toList⟩,
        ⟨"width".toList, "calc(100% - 2px)".toList⟩] ∧
      (fallbackWidths.mergedAhead darkColors).mergedAhead margins =
        fallbackWidths.mergedAhead (darkColors.mergedAhead margins) ∧
      (fallbackWidths.mergedAhead darkColors).1.get? "color".toList = some "black".toList ∧
      (fallbackWidths.mergedAhead darkColors).1.get? "WIDTH".toList =
        some "calc(100% - 2px)".toList := by
  obtain ⟨hassoc, -, -, -⟩ := mergedAhead_assoc_and_precedence fallbackWidths darkColors margins
  obtain ⟨-, -, hget, -⟩ := mergedAhead_assoc_and_precedence fallbackWidths darkColors darkColors
  exact ⟨by decide, hassoc, (hget _).trans (by decide), (hget _).trans (by decide)⟩

example : (Trimmed.parse "Width:100%; color : red;width:calc(100% - 2px);COLOR:#f00".toList).map
    Subtype.val = .ok fallbackWidths.1 := by decide

end Style

end MailMarkup.Markup
