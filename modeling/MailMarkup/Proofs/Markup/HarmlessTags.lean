import Mathlib.Data.List.DropRight
import MailMarkup.Proofs.Markup.Node
import MailMarkup.Proofs.Markup.Rendering

namespace MailMarkup.Text

theorem takeWhile_isInfix (p : Char → Bool) (t : Text) : t.takeWhile p <:+: t :=
  (List.takeWhile_prefix p).isInfix

theorem dropWhile_isInfix (p : Char → Bool) (t : Text) : t.dropWhile p <:+: t :=
  (List.dropWhile_suffix p).isInfix

theorem trim_isInfix (t : Text) : trim t <:+: t :=
  (List.rdropWhile_prefix isBlank (trimStart t)).isInfix.trans (dropWhile_isInfix isBlank t)

end MailMarkup.Text

namespace MailMarkup.Markup

open Text

theorem isHarmless_escapeQuotes {t : Text} (h : isHarmless t = true) :
    isHarmless (escapeQuotes t) = true := by
  induction t with
  | nil => rfl
  | cons c t ih =>
    have hr := ih (isHarmless_cons h)
    by_cases hc : c = '"'
    · subst hc
      rw [escapeQuotes_quote]
      simpa [isHarmless] using hr
    · rw [escapeQuotes_cons_of_ne hc]
      simp only [isHarmless, Bool.and_eq_true, Bool.not_eq_true'] at h ⊢
      refine ⟨?_, hr⟩
      cases t with
      | nil => exact h.1
      | cons d t =>
        by_cases hd : d = '"'
        · subst hd
          rw [escapeQuotes_quote]
          simp [isMarkupStart]
        · rw [escapeQuotes_cons_of_ne hd]
          simpa using h.1

namespace Attributes

structure IsQuietOne (a : Attribute) : Prop where
  legal : isLegalName a.name = true
  name : isHarmless a.name = true
  value : ∀ v, a.value = some v → isHarmless v = true

def IsQuiet (as : Attributes) : Prop := All IsQuietOne as

theorem IsQuiet.isLegal {as : Attributes} (h : as.IsQuiet) : as.IsLegal :=
  fun a ha => (h a ha).legal

theorem isHarmless_renderOne {a : Attribute} (h : IsQuietOne a) :
    isHarmless (renderOne a) = true := by
  rw [renderOne]
  cases hv : a.value with
  | none => exact h.name
  | some v =>
    have hq := isHarmless_escapeQuotes (h.value v hv)
    simp only [List.append_assoc]
    refine isHarmless_append h.name ?_ rfl
    simp only [String.reduceToList, List.cons_append, List.nil_append]
    have hv : isHarmless (escapeQuotes v ++ ['"']) = true :=
      isHarmless_append hq (by decide) (by decide)
    simpa [isHarmless] using hv

theorem isHarmless_render {as : Attributes} (h : as.IsQuiet) : isHarmless as.render = true := by
  induction as with
  | nil => rfl
  | cons a as ih =>
    have ha := isHarmless_renderOne (h a List.mem_cons_self)
    have hr := ih fun b hb => h b (List.mem_cons_of_mem _ hb)
    rw [Attributes.render, List.flatMap_cons]
    change isHarmless (' ' :: renderOne a ++ Attributes.render as) = true
    refine isHarmless_append ?_ hr ?_
    · simpa [isHarmless] using ha
    · cases as <;> rfl

theorem quotedValue?_isInfix {d : Char} {t v : Text} {n : Nat}
    (h : quotedValue? d t = some (v, n)) : v <:+: t := by
  simp only [quotedValue?] at h
  split at h
  · simp only [Option.some.injEq, Prod.mk.injEq] at h
    exact h.1 ▸ takeWhile_isInfix _ t
  · simp at h

theorem value?_isInfix {t v : Text} {n : Nat} (h : value? t = some (v, n)) : v <:+: t := by
  cases t with
  | nil => simp [value?] at h
  | cons c r =>
    simp only [value?] at h
    split at h
    · exact (quotedValue?_isInfix h).trans (List.suffix_cons c r).isInfix
    · split at h
      · simp at h
      · simp only [Option.some.injEq, Prod.mk.injEq] at h
        exact h.1 ▸ takeWhile_isInfix _ (c :: r)

theorem assigned?_isInfix {t v : Text} {n : Nat} (h : assigned? t = some (v, n)) : v <:+: t := by
  simp only [assigned?] at h
  split at h
  · rename_i r hr
    obtain ⟨x, hx, he⟩ := Option.map_eq_some_iff.1 h
    obtain ⟨u, m⟩ := x
    simp only [Prod.mk.injEq] at he
    have h1 := value?_isInfix hx
    have h2 : r <:+: t := by
      have := (List.drop_suffix (t.takeWhile isBlank).length t).isInfix
      rw [hr] at this
      exact (List.suffix_cons '=' r).isInfix.trans this
    exact he.1 ▸ (h1.trans (List.drop_suffix _ r).isInfix).trans h2
  · simp at h

theorem attribute?_isInfix {t : Text} {a : Attribute} {n : Nat} (h : attribute? t = some (a, n)) :
    a.name <:+: t ∧ ∀ v, a.value = some v → v <:+: t := by
  refine ⟨(name_of_attribute? h).1 ▸ takeWhile_isInfix _ t, ?_⟩
  intro v hv
  simp only [attribute?] at h
  split at h
  · simp at h
  · split at h
    · rename_i u m hu
      simp only [Option.some.injEq, Prod.mk.injEq] at h
      obtain rfl : u = v := by simpa [← h.1] using hv
      exact (assigned?_isInfix hu).trans (List.drop_suffix _ t).isInfix
    · simp only [Option.some.injEq, Prod.mk.injEq] at h
      simp [← h.1] at hv

theorem parse_isInfix {t : Text} {a : Attribute} (h : a ∈ parse t) :
    a.name <:+: t ∧ ∀ v, a.value = some v → v <:+: t := by
  obtain ⟨u, n, hs, hu⟩ := exists_of_mem_hits h
  obtain ⟨hn, hv⟩ := attribute?_isInfix hu
  exact ⟨hn.trans hs.isInfix, fun v h => (hv v h).trans hs.isInfix⟩

theorem isQuiet_parse {t : Text} (h : isHarmless t = true) : (parse t).IsQuiet := by
  intro a ha
  obtain ⟨hn, hv⟩ := parse_isInfix ha
  exact ⟨isLegal_parse t a ha, isHarmless_of_isInfix hn h,
    fun v hv' => isHarmless_of_isInfix (hv v hv') h⟩

end Attributes

theorem ofBody_attrs_isPrefix (closing : Bool) (name body : Text) :
    (Tag.ofBody closing name body).attrs <+: body := by
  simp only [Tag.ofBody]
  split
  · exact (List.dropLast_prefix _).trans (List.rdropWhile_prefix isBlank body)
  · exact List.prefix_refl _

theorem isValid_tag {closing : Bool} {name body : Text} :
    (Node.tag closing name body).isValid = true ↔ IsTag name body ∧ isHarmless body = true := by
  simp [Node.isValid, Node.isTag_iff]

theorem isQuiet_of_isValid {closing : Bool} {name body : Text}
    (h : (Node.tag closing name body).isValid = true) :
    (Attributes.parse (Tag.ofBody closing name body).attrs).IsQuiet :=
  Attributes.isQuiet_parse
    (isHarmless_of_isPrefix (ofBody_attrs_isPrefix closing name body) (isValid_tag.1 h).2)

theorem isValid_render {name : Text} (hn : isName name = true) {as : Attributes}
    (h : as.IsQuiet) : (Node.tag false name as.render).isValid = true :=
  isValid_tag.2 ⟨isTag_render hn h.isLegal, Attributes.isHarmless_render h⟩

theorem isValid_render_slash {name : Text} (hn : isName name = true) {as : Attributes}
    (h : as.IsQuiet) : (Node.tag false name (as.render ++ " /".toList)).isValid = true :=
  isValid_tag.2 ⟨isTag_render_slash hn h.isLegal,
    isHarmless_append (Attributes.isHarmless_render h) (by decide) (by decide)⟩

theorem isHarmless_append_of_not_mem {s t : Text} (hs : '<' ∉ s) (ht : isHarmless t = true) :
    isHarmless (s ++ t) = true := by
  induction s with
  | nil => exact ht
  | cons c s ih =>
    rw [List.mem_cons, not_or] at hs
    simp [isHarmless, Ne.symm hs.1, ih hs.2]

theorem isHarmless_tag {closing : Bool} {name body : Text}
    (h : (Node.tag closing name body).isValid = true) : isHarmless (name ++ body) = true := by
  obtain ⟨ht, hh⟩ := isValid_tag.1 h
  have hn := ht.name_ok
  simp only [isName, Bool.and_eq_true, List.all_eq_true] at hn
  exact isHarmless_append_of_not_mem (fun hm => absurd (hn.2 _ hm) (by decide)) hh

theorem exists_tag_cons {closing : Bool} {name body : Text}
    (h : (Node.tag closing name body).isValid = true) :
    ∃ c t, (if closing then '/' :: name else name) ++ body = c :: t ∧ c ≠ '!' ∧ c ≠ '?' ∧
      (closing = false → c ≠ '/') ∧ isHarmless (c :: t) = true := by
  have hh := isHarmless_tag h
  cases closing with
  | true => exact ⟨'/', name ++ body, rfl, by decide, by decide, by simp,
    by simpa [isHarmless] using hh⟩
  | false =>
    have hname := (isValid_tag.1 h).1.name_ok
    cases name with
    | nil => exact absurd hname (by decide)
    | cons c name =>
      have hne : ∀ d, isNameStart d = false → c ≠ d := by
        rintro d hd rfl
        simp [isName, hd] at hname
      exact ⟨c, name ++ body, rfl, hne _ (by decide), hne _ (by decide),
        fun _ => hne _ (by decide), hh⟩

theorem passes_source {f : Text → Option β} (hf : StartsMarkup f) {n : Node}
    (hv : n.isValid = true) (hn : ∀ inner, n ≠ .comment inner) {r : Text}
    (hp : f (n.source ++ r) = none) : Passes f n.source r := by
  cases n with
  | char c =>
    simp only [Node.isValid, bne_iff_ne, ne_eq] at hv
    exact .cons (hf.angle _ hv) (.nil f r)
  | angle c =>
    simp only [Node.isValid, Bool.and_eq_true, bne_iff_ne, ne_eq, Bool.not_eq_true'] at hv
    exact .cons (hf.start _ hv.2) (.cons (hf.angle _ hv.1) (.nil f r))
  | declaration m inner =>
    obtain ⟨hm, hl, -, -⟩ := isValid_declaration.1 hv
    have hs : '<' ∉ m :: inner := by
      rcases hm with rfl | rfl <;> simp [hl]
    exact .cons hp (passes_harmless hf (isHarmless_of_not_mem hs) (by decide) (by decide) r)
  | comment inner => exact absurd rfl (hn inner)
  | tag closing name body =>
    obtain ⟨c, t, ht, -, -, -, hh⟩ := exists_tag_cons hv
    have hs : (Node.tag closing name body).source = '<' :: (c :: t ++ ['>']) := by
      rw [Node.source, tagText, ht]
    rw [hs] at hp ⊢
    exact .cons hp (passes_harmless hf hh (by decide) (by decide) r)

theorem scan_passed {f : Recogniser α} (hf : StartsMarkup f) {n : Node} (hv : n.isValid = true)
    (hn : ∀ inner, n ≠ .comment inner) {r : Text}
    (hp : f (n.source ++ r) = none) : scan f (n.source ++ r) = n.source.map .char ++ scan f r :=
  scan_of_passes (passes_source hf hv hn hp)

end MailMarkup.Markup
