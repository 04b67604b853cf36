import MailMarkup.Markup.Style
import MailMarkup.Proofs.Markup.TagReading
import MailMarkup.Proofs.Text.Scanning

namespace MailMarkup.Markup

open Text

namespace Attributes

def All (P : Attribute → Prop) (as : Attributes) : Prop := ∀ a ∈ as, P a

section All

variable {P : Attribute → Prop} {as bs : Attributes}

theorem All.nil : All P [] := by simp [All]

theorem All.singleton {a : Attribute} (h : P a) : All P [a] := by
  intro b hb
  exact List.mem_singleton.1 hb ▸ h

theorem All.append (ha : All P as) (hb : All P bs) : All P (as ++ bs) := by
  intro a h
  rcases List.mem_append.1 h with h | h
  · exact ha a h
  · exact hb a h

theorem All.filter (h : All P as) (p : Attribute → Bool) : All P (List.filter p as) :=
  fun a ha => h a (List.mem_filter.1 ha).1

theorem All.remove (h : All P as) (name : Text) : All P (as.remove name) := h.filter _

theorem mem_replace {name : Text} {value : Option Text} {a : Attribute}
    (h : a ∈ replace name value as) : a = ⟨name, value⟩ ∨ a ∈ as := by
  induction as with
  | nil => simp [replace] at h
  | cons b bs ih =>
    simp only [replace] at h
    split at h
    · rcases List.mem_cons.1 h with h | h
      · exact .inl h
      · exact .inr (List.mem_cons_of_mem _ (List.mem_filter.1 h).1)
    · rcases List.mem_cons.1 h with h | h
      · exact .inr (h ▸ List.mem_cons_self)
      · exact (ih h).imp id (List.mem_cons_of_mem _)

theorem All.set (h : All P as) {name : Text} {value : Option Text} (hn : P ⟨name, value⟩) :
    All P (as.set name value) := by
  simp only [Attributes.set]
  split
  · intro a ha
    rcases mem_replace ha with rfl | ha
    · exact hn
    · exact h a ha
  · exact h.append (.singleton hn)

theorem All.setAll {forced : Attributes} (h : All P as) (hf : All P forced) :
    All P (as.setAll forced) := by
  unfold Attributes.setAll
  induction forced generalizing as with
  | nil => exact h
  | cons f fs ih =>
    exact ih (h.set (hf f List.mem_cons_self)) fun a ha => hf a (List.mem_cons_of_mem _ ha)

theorem All.applyStyle (h : All P as) {block : StyleBlock} {dropped : List Text}
    (hb : Attributes.applyStyle as block dropped = Except.ok bs)
    (hs : ∀ s b, Style.parse as.styleText = .ok s → block.toStyle = .ok b →
      P ⟨"style".toList, some ((dropped.foldl Style.remove s).mergedAhead b).render⟩) :
    All P bs := by
  obtain ⟨s, h1, hb⟩ := bind_eq_ok.1 hb
  obtain ⟨b, h2, hb⟩ := bind_eq_ok.1 hb
  rw [pure_eq_ok] at hb
  rw [← hb]
  split
  · exact h.remove _
  · exact h.set (hs s b h1 h2)

theorem All.dropEmptyStyle (h : All P as)
    (hb : Attributes.dropEmptyStyle as = Except.ok bs) : All P bs := by
  obtain ⟨s, -, hb⟩ := bind_eq_ok.1 hb
  rw [pure_eq_ok] at hb
  rw [← hb]
  split
  · exact h.remove _
  · exact h

end All

def isLegalName (name : Text) : Bool := !name.isEmpty && name.all isNameChar

def IsLegal (as : Attributes) : Prop := All (fun a => isLegalName a.name = true) as

theorem name_of_attribute? {t : Text} {a : Attribute} {n : Nat}
    (h : attribute? t = some (a, n)) :
    a.name = t.takeWhile isNameChar ∧ t.takeWhile isNameChar ≠ [] := by
  simp only [attribute?] at h
  split at h
  · simp at h
  · rename_i hn
    have hne : t.takeWhile isNameChar ≠ [] := by simpa using hn
    split at h <;> simp only [Option.some.injEq, Prod.mk.injEq] at h
    · exact ⟨by rw [← h.1], hne⟩
    · exact ⟨by rw [← h.1], hne⟩

theorem isLegal_parse (t : Text) : (parse t).IsLegal := by
  intro a h
  obtain ⟨u, n, -, hu⟩ := exists_of_mem_hits h
  obtain ⟨hn, hne⟩ := name_of_attribute? hu
  simp [isLegalName, hn, hne]

theorem isSealed_name {e : Bool} {n : Text} (h : isLegalName n = true) (t : Text) :
    isSealed (.outside e) (n ++ t) = isSealed (.outside false) t := by
  induction n generalizing e with
  | nil => simp [isLegalName] at h
  | cons c n ih =>
    simp only [isLegalName, List.isEmpty_cons, Bool.not_false, Bool.true_and, List.all_cons,
      Bool.and_eq_true] at h
    have hc := h.1
    simp only [isNameChar, List.contains_cons, List.contains_nil, Bool.not_eq_true',
      Bool.or_eq_false_iff, beq_eq_false_iff_ne, ne_eq] at hc
    obtain ⟨hb, hd, hs, hg, -, he, -⟩ := hc
    have ho : Quoting.onward (.outside e) c = .outside false := by
      simp [Quoting.onward, isQuote, hd, hs, he, hb]
    rw [List.cons_append, isSealed_cons, ho]
    have hq : (Quoting.outside e).endsTag c = false := by simp [Quoting.endsTag, hg]
    rw [hq, Bool.not_false, Bool.true_and]
    cases n with
    | nil => rfl
    | cons d n => exact ih (by simpa [isLegalName] using h.2)

theorem isSealed_quoted {d : Char} {v : Text} (h : d ∉ v) (t : Text) :
    isSealed (.inside d) (v ++ d :: t) = isSealed (.outside false) t := by
  induction v with
  | nil => simp [isSealed_cons, Quoting.onward, Quoting.endsTag]
  | cons c v ih =>
    rw [List.mem_cons, not_or] at h
    simp only [List.cons_append, isSealed_cons, Quoting.onward, Quoting.endsTag, Ne.symm h.1,
      if_false, Bool.not_false, Bool.true_and]
    exact ih h.2

theorem isSealed_renderOne {a : Attribute} (h : isLegalName a.name = true) (t : Text) :
    isSealed (.outside false) (' ' :: (renderOne a ++ t)) = isSealed (.outside false) t := by
  have hb : isSealed (.outside false) (' ' :: (renderOne a ++ t)) =
      isSealed (.outside false) (renderOne a ++ t) := by
    simp [isSealed_cons, Quoting.onward, Quoting.endsTag]
  rw [hb, renderOne]
  cases a.value with
  | none => exact isSealed_name h t
  | some v =>
    have hq := isSealed_quoted (quote_not_mem_escapeQuotes v) t
    simp only [List.append_assoc]
    rw [isSealed_name h]
    simpa [isSealed_cons, Quoting.onward, Quoting.endsTag, isQuote] using hq

theorem isSealed_render {as : Attributes} (h : as.IsLegal) (t : Text) :
    isSealed (.outside false) (as.render ++ t) = isSealed (.outside false) t := by
  induction as with
  | nil => rfl
  | cons a as ih =>
    have hr : Attributes.render (a :: as) ++ t = ' ' :: (renderOne a ++ (render as ++ t)) := by
      simp [Attributes.render]
    rw [hr, isSealed_renderOne (h a List.mem_cons_self)]
    exact ih fun b hb => h b (List.mem_cons_of_mem _ hb)

theorem endsName_render (as : Attributes) {t : Text} (h : endsName t = true) :
    endsName (as.render ++ t) = true := by
  cases as with
  | nil => exact h
  | cons a as => rfl

end Attributes

theorem isTag_render {name : Text} (hn : isName name = true) {as : Attributes}
    (h : as.IsLegal) : IsTag name as.render where
  name_ok := hn
  ends := as.endsName_render rfl
  sealed := by
    have hs := Attributes.isSealed_render h []
    rwa [List.append_nil] at hs

theorem isTag_render_slash {name : Text} (hn : isName name = true) {as : Attributes}
    (h : as.IsLegal) : IsTag name (as.render ++ " /".toList) where
  name_ok := hn
  ends := by
    rw [List.append_assoc]
    exact as.endsName_render rfl
  sealed := by
    rw [Attributes.isSealed_render h]
    rfl

theorem openTag_eq_tagText (name : Text) (as : Attributes) :
    openTag name as = tagText false name as.render := by
  simp [openTag, tagText]

theorem closedTag_eq_tagText (name : Text) (as : Attributes) :
    closedTag name as = tagText false name (as.render ++ " /".toList) := by
  simp [closedTag, tagText]

def IsOpening (name t : Text) : Prop :=
  ∃ n body, IsTag n body ∧ n.map Char.toLower = name ∧ t = tagText false n body

theorem isOpening_openTag {name : Text} (hn : isName name = true) {as : Attributes}
    (h : as.IsLegal) : IsOpening (name.map Char.toLower) (openTag name as) :=
  ⟨name, _, isTag_render hn h, rfl, openTag_eq_tagText name as⟩

theorem isOpening_closedTag {name : Text} (hn : isName name = true) {as : Attributes}
    (h : as.IsLegal) : IsOpening (name.map Char.toLower) (closedTag name as) :=
  ⟨name, _, isTag_render_slash hn h, rfl, closedTag_eq_tagText name as⟩

end MailMarkup.Markup
