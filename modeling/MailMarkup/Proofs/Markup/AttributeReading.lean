import MailMarkup.Proofs.Entity.References
import MailMarkup.Proofs.Markup.Rendering

namespace MailMarkup.Markup

open Text

namespace Attributes

def written (a : Attribute) : Attribute := ⟨a.name, a.value.map escapeQuotes⟩

structure EndsAttribute (t : Text) : Prop where
  name : t.head?.all (!isNameChar ·) = true
  value : (t.dropWhile isBlank).head? ≠ some '='

theorem takeWhile_legalName {name t : Text} (hn : isLegalName name = true)
    (ht : t.head?.all (!isNameChar ·) = true) :
    (name ++ t).takeWhile isNameChar = name := by
  simp only [isLegalName, Bool.and_eq_true, List.all_eq_true] at hn
  rw [List.takeWhile_append_of_pos hn.2]
  cases t with
  | nil => simp
  | cons c t =>
    have hc : isNameChar c = false := by simpa using ht
    simp [hc]

theorem assigned?_eq_none {t : Text} (h : (t.dropWhile isBlank).head? ≠ some '=') :
    assigned? t = none := by
  unfold assigned?
  simp only [drop_takeWhile_length]
  split
  · rename_i r hr
    simp [hr] at h
  · rfl

theorem takeWhile_ne_append {d : Char} {v : Text} (h : d ∉ v) (t : Text) :
    (v ++ d :: t).takeWhile (· != d) = v := by
  have hv : ∀ c ∈ v, (c != d) = true := by
    intro c hc
    simp only [bne_iff_ne, ne_eq]
    rintro rfl
    exact h hc
  rw [List.takeWhile_append_of_pos hv]
  simp

theorem assigned?_quoted {v : Text} (h : '"' ∉ v) (t : Text) :
    assigned? ('=' :: '"' :: (v ++ '"' :: t)) = some (v, v.length + 3) := by
  have hb : ('=' :: '"' :: (v ++ '"' :: t)).takeWhile isBlank = [] := rfl
  have hb' : ('"' :: (v ++ '"' :: t)).takeWhile isBlank = [] := rfl
  simp [assigned?, hb, hb', value?, isQuote, quotedValue?, takeWhile_ne_append h]
  omega

theorem attribute?_quoted {name v : Text} (hn : isLegalName name = true) (hv : '"' ∉ v) (t : Text) :
    attribute? (name ++ '=' :: '"' :: (v ++ '"' :: t)) =
      some (⟨name, some v⟩, name.length + v.length + 2) := by
  have hne : name.isEmpty = false := by
    simp only [isLegalName, Bool.and_eq_true, Bool.not_eq_true'] at hn
    exact hn.1
  have hw : (name ++ '=' :: '"' :: (v ++ '"' :: t)).takeWhile isNameChar = name :=
    takeWhile_legalName hn rfl
  simp only [attribute?, hw, hne, List.drop_left, assigned?_quoted hv]
  exact congrArg some (Prod.ext rfl (by simp; omega))

theorem attribute?_renderOne {a : Attribute} (ha : isLegalName a.name = true) {t : Text}
    (ht : EndsAttribute t) :
    attribute? (renderOne a ++ t) = some (written a, (renderOne a).length - 1) := by
  have hne : a.name.isEmpty = false := by
    simp only [isLegalName, Bool.and_eq_true, Bool.not_eq_true'] at ha
    exact ha.1
  cases hv : a.value with
  | none =>
    simp only [attribute?, renderOne, hv, takeWhile_legalName ha ht.name, hne, List.drop_left,
      assigned?_eq_none ht.value, written]
    rfl
  | some v =>
    have hr : renderOne a ++ t = a.name ++ '=' :: '"' :: (escapeQuotes v ++ '"' :: t) := by
      simp [renderOne, hv]
    rw [hr, attribute?_quoted ha (quote_not_mem_escapeQuotes v)]
    refine congrArg some (Prod.ext (by rw [written, hv]; rfl) ?_)
    simp [renderOne, hv]
    omega

theorem renderOne_ne_nil {a : Attribute} (h : isLegalName a.name = true) : renderOne a ≠ [] := by
  have hn : a.name ≠ [] := by
    intro hn
    simp [isLegalName, hn] at h
  rw [renderOne]
  cases a.value with
  | none => exact hn
  | some v => simp

theorem parse_blank {t : Text} (h : t.all isBlank = true) : parse t = [] := by
  induction t with
  | nil => rfl
  | cons c t ih =>
    simp only [List.all_cons, Bool.and_eq_true] at h
    have hn : attribute? (c :: t) = none := by simp [attribute?, isNameChar, h.1]
    have := ih h.2
    simp only [parse, hits] at this ⊢
    rw [scan_cons_none hn]
    exact this

theorem endsAttribute_blank {t : Text} (h : t.all isBlank = true) : EndsAttribute t where
  name := by
    cases t with
    | nil => rfl
    | cons c t =>
      simp only [List.all_cons, Bool.and_eq_true] at h
      simp [isNameChar, h.1]
  value := by
    rw [List.all_eq_true] at h
    rw [List.dropWhile_eq_nil_iff.2 h]
    simp

theorem endsAttribute_render {as : Attributes} (h : as.IsLegal) {t : Text}
    (ht : t.all isBlank = true) : EndsAttribute (as.render ++ t) := by
  cases as with
  | nil => exact endsAttribute_blank ht
  | cons a as =>
    have ha := h a List.mem_cons_self
    obtain ⟨c, n, hn⟩ : ∃ c n, a.name = c :: n := by
      cases hn : a.name with
      | nil => simp [isLegalName, hn] at ha
      | cons c n => exact ⟨c, n, rfl⟩
    have hc : isNameChar c = true := by
      simp only [isLegalName, hn, List.all_cons, Bool.and_eq_true] at ha
      exact ha.2.1
    have hb : isBlank c = false ∧ c ≠ '=' := by
      simp only [isNameChar, List.contains_cons, Bool.not_eq_true', Bool.or_eq_false_iff,
        beq_eq_false_iff_ne] at hc
      exact ⟨hc.1, hc.2.2.2.2.2.1⟩
    have hr : ∃ r, Attributes.render (a :: as) ++ t = ' ' :: c :: r := by
      rw [Attributes.render, List.flatMap_cons, renderOne]
      cases a.value <;> simp [hn]
    obtain ⟨r, hr⟩ := hr
    rw [hr]
    refine ⟨rfl, ?_⟩
    rw [List.dropWhile_cons_of_pos rfl, List.dropWhile_cons_of_neg (by simp [hb.1])]
    simpa using hb.2

theorem parse_render_append {as : Attributes} (h : as.IsLegal) {t : Text}
    (ht : t.all isBlank = true) : parse (as.render ++ t) = as.map written := by
  induction as with
  | nil => exact parse_blank ht
  | cons a as ih =>
    have hl : IsLegal as := fun b hb => h b (List.mem_cons_of_mem _ hb)
    have ha := attribute?_renderOne (h a List.mem_cons_self) (endsAttribute_render hl ht)
    have hs : Attributes.render (a :: as) ++ t = ' ' :: (renderOne a ++ (render as ++ t)) := by
      simp [Attributes.render]
    have hb : attribute? (' ' :: (renderOne a ++ (render as ++ t))) = none := rfl
    have hne := renderOne_ne_nil (h a List.mem_cons_self)
    rw [hs, parse, hits, scan_cons_none hb, scan_append hne ha]
    exact congrArg (written a :: ·) (ih hl)

theorem parse_render {as : Attributes} (h : as.IsLegal) : parse as.render = as.map written := by
  have := parse_render_append (t := []) h rfl
  rwa [List.append_nil] at this

theorem exists_last_renderOne {a : Attribute} (h : isLegalName a.name = true) :
    ∃ u c, renderOne a = u ++ [c] ∧ (isNameChar c = true ∨ c = '"') := by
  simp only [isLegalName, Bool.and_eq_true, List.all_eq_true, Bool.not_eq_true',
    List.isEmpty_eq_false_iff] at h
  rw [renderOne]
  cases a.value with
  | none =>
    exact ⟨_, _, (List.dropLast_append_getLast h.1).symm, .inl (h.2 _ (List.getLast_mem h.1))⟩
  | some v => exact ⟨_, '"', rfl, .inr rfl⟩

theorem exists_last_render {as : Attributes} (h : as.IsLegal) (hne : as ≠ []) :
    ∃ u c, as.render = u ++ [c] ∧ (isNameChar c = true ∨ c = '"') := by
  induction as with
  | nil => exact absurd rfl hne
  | cons a as ih =>
    have hr : Attributes.render (a :: as) = ' ' :: renderOne a ++ render as := by
      simp [Attributes.render]
    rw [hr]
    by_cases has : as = []
    · obtain ⟨u, c, hu, hc⟩ := exists_last_renderOne (h a List.mem_cons_self)
      exact ⟨' ' :: u, c, by simp [has, hu, Attributes.render], hc⟩
    · obtain ⟨u, c, hu, hc⟩ := ih (fun b hb => h b (List.mem_cons_of_mem _ hb)) has
      exact ⟨' ' :: renderOne a ++ u, c, by simp [hu], hc⟩

end Attributes

theorem trimEnd_append_of_not_isBlank {c : Char} (h : isBlank c = false) (u : Text) :
    trimEnd (u ++ [c]) = u ++ [c] := by
  simp [trimEnd, dropEndWhile, h]

theorem ofBody_render {as : Attributes} (h : as.IsLegal) (closing : Bool) (name : Text) :
    Tag.ofBody closing name as.render = ⟨name.map Char.toLower, as.render, closing, false⟩ := by
  by_cases hne : as = []
  · subst hne
    rfl
  · obtain ⟨u, c, hu, hc⟩ := Attributes.exists_last_render h hne
    have hb : isBlank c = false ∧ c ≠ '/' := by
      rcases hc with hc | rfl
      · simp only [Attributes.isNameChar, List.contains_cons, Bool.not_eq_true',
          Bool.or_eq_false_iff, beq_eq_false_iff_ne] at hc
        exact ⟨hc.1, hc.2.2.2.2.1⟩
      · decide
    simp [Tag.ofBody, hu, trimEnd_append_of_not_isBlank hb.1, hb.2]

theorem ofBody_render_slash (as : Attributes) (closing : Bool) (name : Text) :
    Tag.ofBody closing name (as.render ++ " /".toList) =
      ⟨name.map Char.toLower, as.render ++ [' '], closing, true⟩ := by
  have hs : as.render ++ " /".toList = (as.render ++ [' ']) ++ ['/'] := by simp
  rw [hs]
  simp only [Tag.ofBody, trimEnd_append_of_not_isBlank (show isBlank '/' = false from rfl)]
  simp

theorem parse_attrs_render {as : Attributes} (h : as.IsLegal) (closing : Bool) {name body : Text}
    (hb : body = as.render ∨ body = as.render ++ " /".toList) :
    Attributes.parse (Tag.ofBody closing name body).attrs = as.map Attributes.written := by
  rcases hb with rfl | rfl
  · rw [ofBody_render h]
    exact Attributes.parse_render h
  · rw [ofBody_render_slash]
    exact Attributes.parse_render_append h rfl

theorem ofBody_eq_of_tagText_eq {closing closing' : Bool} {name name' body body' : Text}
    (h : IsTag name body) (h' : IsTag name' body')
    (he : tagText closing name body = tagText closing' name' body') :
    Tag.ofBody closing name body = Tag.ofBody closing' name' body' := by
  have h1 := @lexeme?_tagText closing name body h []
  have h2 := @lexeme?_tagText closing' name' body' h' []
  rw [he, h2] at h1
  simp only [Option.some.injEq, Prod.mk.injEq, Lexeme.tag.injEq] at h1
  exact h1.1.symm

namespace Attributes

theorem key_written (a : Attribute) : (written a).key = a.key := rfl

theorem countP_key_map_written (as : Attributes) (key : Text) :
    (as.map written).countP (·.key == key) = as.countP (·.key == key) :=
  List.countP_map

theorem countP_key_filter {p : Text → Bool} {key : Text} (h : p key = false) (as : Attributes) :
    (as.filter (p ·.key)).countP (·.key == key) = 0 := by
  rw [List.countP_eq_zero]
  intro a ha hk
  have hp := (List.mem_filter.1 ha).2
  rw [eq_of_beq hk, h] at hp
  cases hp

theorem get?_map_written (as : Attributes) (name : Text) :
    get? (as.map written) name = (as.get? name).map escapeQuotes := by
  induction as with
  | nil => rfl
  | cons a as ih =>
    simp only [get?] at ih ⊢
    rw [List.map_cons, List.find?_cons, List.find?_cons, key_written]
    split
    · cases h : a.value with
      | none => simp [written, h, show escapeQuotes [] = [] from rfl]
      | some v => simp [written, h]
    · exact ih

theorem styleText_map_written (as : Attributes) :
    styleText (as.map written) = escapeQuotes as.styleText := by
  rw [styleText, get?_map_written, styleText]
  cases as.get? "style".toList <;> rfl

theorem get?_remove_of_ne {as : Attributes} {name other : Text} (h : lower name ≠ lower other) :
    (as.remove other).get? name = as.get? name := by
  induction as with
  | nil => rfl
  | cons a as ih =>
    simp only [get?, remove] at ih ⊢
    rw [List.filter_cons]
    split
    · rw [List.find?_cons, List.find?_cons]
      split
      · rfl
      · exact ih
    · rename_i hk
      have hk' : a.key = lower other := by simpa using hk
      rw [List.find?_cons_of_neg (by simpa [hk'] using Ne.symm h)]
      exact ih

theorem get?_remove_self (as : Attributes) (name : Text) : (as.remove name).get? name = none := by
  simp only [get?, remove, Option.map_eq_none_iff, List.find?_eq_none]
  intro a ha
  simpa using (List.mem_filter.1 ha).2

theorem styleText_of_dropEmptyStyle {as bs : Attributes}
    (h : Attributes.dropEmptyStyle as = Except.ok bs) :
    bs.styleText = [] ∨ bs.styleText = as.styleText := by
  obtain ⟨s, -, h⟩ := bind_eq_ok.1 h
  rw [← pure_eq_ok.1 h]
  split
  · exact .inl (by rw [styleText, get?_remove_self]; rfl)
  · exact .inr rfl

end Attributes

theorem allBlank_escapeQuotes (t : Text) : allBlank (escapeQuotes t) = allBlank t := by
  induction t with
  | nil => rfl
  | cons c t ih =>
    rw [escapeQuotes_cons]
    by_cases hc : c = '"'
    · subst hc
      rfl
    · rw [if_neg hc, List.singleton_append]
      exact congrArg (isBlank c && ·) ih

theorem Style.parse_escapeQuotes (t : Text) : Style.parse (escapeQuotes t) = Style.parse t := by
  rw [Style.parse, Style.parse, allBlank_escapeQuotes, Entity.decode_escapeQuotes]

end MailMarkup.Markup
