import MailMarkup.Proofs.Markup.EditedTags
import MailMarkup.Proofs.Markup.StyleReading

namespace MailMarkup.Markup

open Text

namespace Attributes

variable {as bs : Attributes} {name : Text}

theorem has_append : has (as ++ bs) name = (as.has name || bs.has name) := List.any_append

theorem set_of_not_has (h : as.has name = false) (value : Option Text) :
    as.set name value = as ++ [⟨name, value⟩] := by
  rw [set, if_neg (by simp [h])]

theorem setAll_of_not_has {forced : Attributes} (h : ∀ f ∈ forced, as.has f.name = false)
    (hd : forced.Pairwise fun a b => a.key ≠ b.key) : as.setAll forced = as ++ forced := by
  induction forced generalizing as with
  | nil => exact (List.append_nil as).symm
  | cons f fs ih =>
    obtain ⟨hf, hfs⟩ := List.forall_mem_cons.1 h
    obtain ⟨hne, hd⟩ := List.pairwise_cons.1 hd
    have hnext : ∀ g ∈ fs, has (as ++ [f]) g.name = false := by
      intro g hg
      rw [has_append, hfs g hg]
      simpa [has, Attribute.key] using hne g hg
    have := ih hnext hd
    rw [setAll, List.foldl_cons, set_of_not_has hf]
    simpa [setAll] using this

theorem get?_append_of_not_has (h : as.has name = false) :
    get? (as ++ bs) name = bs.get? name := by
  have hn : as.find? (·.key == lower name) = none := by
    simpa [has] using h
  rw [get?, List.find?_append, hn, Option.none_or, get?]

theorem has_filter_eq_false {p : Text → Bool} (h : p (lower name) = false) :
    has (List.filter (fun a => p a.key) as) name = false := by
  simp only [has, List.any_eq_false, List.mem_filter, beq_iff_eq, and_imp]
  rintro a - hp hk
  rw [hk, h] at hp
  cases hp

theorem renderOne_written (a : Attribute) : renderOne (written a) = renderOne a := by
  cases hv : a.value with
  | none => simp [renderOne, written, hv]
  | some v =>
    simp [renderOne, written, hv, escapeQuotes_eq_self (quote_not_mem_escapeQuotes v)]

theorem render_map_written (as : Attributes) : render (as.map written) = as.render := by
  rw [render, List.flatMap_map, render]
  exact congrArg (List.flatMap · as) (funext fun a => congrArg (' ' :: ·) (renderOne_written a))

end Attributes

end MailMarkup.Markup

namespace MailMarkup.Table

open Text Markup

theorem isRegular_containerStyle (l : Layout) : (containerStyle l).IsRegular := by
  obtain ⟨responsive, size, pointed⟩ := l
  cases responsive <;> cases size <;> cases pointed <;> decide

theorem declares_containerStyle (l : Layout) :
    ∀ d ∈ containerStyle l, (containerStyle l).declares d.property = true := by
  obtain ⟨responsive, size, pointed⟩ := l
  cases responsive <;> cases size <;> cases pointed <;> decide

theorem normalStyle_settled (l : Layout) {t : Text} {s : Style} (h : Style.parse t = .ok s)
    (hs : s.IsRegular) :
    ∃ n, normalStyle l t = .ok n ∧ normalStyle l (escapeQuotes n.render) = .ok n := by
  have hn : Style.IsRegular ((widthProperties.foldl Style.remove s).mergedAhead
      (containerStyle l)) := by
    rw [Style.foldl_remove_eq_filter]
    exact (isRegular_containerStyle l).append ((hs.filter _).filter _)
  refine ⟨_, by rw [normalStyle, h]; rfl, ?_⟩
  rw [normalStyle, hn.parse_render]
  exact congrArg Except.ok (Style.mergedAhead_again (declares_containerStyle l) s widthProperties)

def normalList (l : Layout) (kept : Attributes) (s : Style) : Attributes :=
  kept ++ (forcedAttributes l ++ [⟨"style".toList, some s.render⟩])

theorem keeps_forced (l : Layout) : ∀ f ∈ forcedAttributes l, keeps (lower f.name) = false := by
  simp only [forcedAttributes, List.mem_cons, List.not_mem_nil, or_false, forall_eq_or_imp,
    forall_eq]
  decide

theorem pairwise_forced (l : Layout) :
    (forcedAttributes l).Pairwise fun a b => a.key ≠ b.key := by
  rw [← List.pairwise_map (f := Attribute.key) (R := (· ≠ ·))]
  exact (by decide : ["role".toList, "align".toList, "width".toList, "border".toList,
    "cellpadding".toList, "cellspacing".toList].Pairwise (· ≠ ·))

theorem keeps_style : keeps (lower "style".toList) = false := by decide

theorem normalAttributes_eq (l : Layout) {as : Attributes} {s : Style}
    (h : normalStyle l as.styleText = .ok s) :
    normalAttributes l as = .ok (normalList l (as.filter (keeps ·.key)) s) := by
  have hforced : Attributes.setAll (as.filter (keeps ·.key)) (forcedAttributes l) =
      as.filter (keeps ·.key) ++ forcedAttributes l :=
    Attributes.setAll_of_not_has
      (fun f hf => Attributes.has_filter_eq_false (keeps_forced l f hf)) (pairwise_forced l)
  have hstyle : Attributes.has (as.filter (keeps ·.key) ++ forcedAttributes l)
      "style".toList = false := by
    rw [Attributes.has_append, Attributes.has_filter_eq_false keeps_style]
    rfl
  simp only [normalAttributes, h, hforced, Attributes.set_of_not_has hstyle, normalList,
    List.append_assoc]
  rfl

theorem styleText_normalList (l : Layout) (as : Attributes) (s : Style) :
    (normalList l (as.filter (keeps ·.key)) s).styleText = s.render := by
  rw [Attributes.styleText, normalList,
    Attributes.get?_append_of_not_has (Attributes.has_filter_eq_false keeps_style)]
  rfl

theorem filter_keeps_normalList (l : Layout) (as : Attributes) (s : Style) :
    (normalList l (as.filter (keeps ·.key)) s).filter (keeps ·.key) =
      as.filter (keeps ·.key) := by
  have hnew : List.filter (fun a => keeps a.key)
      (forcedAttributes l ++ [⟨"style".toList, some s.render⟩]) = [] := by
    rw [List.filter_eq_nil_iff]
    intro a ha
    rcases List.mem_append.1 ha with ha | ha
    · exact Bool.eq_false_iff.1 (keeps_forced l a ha)
    · rw [List.mem_singleton.1 ha]
      exact Bool.eq_false_iff.1 keeps_style
  rw [normalList, List.filter_append, hnew, List.append_nil, List.filter_filter]
  simp

theorem isLegal_normalList (l : Layout) {kept : Attributes} (h : kept.IsLegal) (s : Style) :
    (normalList l kept s).IsLegal :=
  h.append ((Run.isLegal_forcedAttributes l).append (.singleton rfl))

theorem render_normalList_map_written (l : Layout) (as : Attributes) (s : Style) :
    (normalList l (as.map Attributes.written) s).render = (normalList l as s).render := by
  simp only [normalList, Attributes.render, List.flatMap_append]
  exact congrArg (· ++ _) (Attributes.render_map_written as)

theorem normalTag_settled (l : Layout) {k : Tag}
    (h : ∃ s, Style.parse (Attributes.parse k.attrs).styleText = .ok s ∧ s.IsRegular) :
    ∃ as, Attributes.IsLegal as ∧ normalTag l k.attrs = .ok (openTag name as) ∧
      normalTag l as.render = .ok (openTag name as) := by
  obtain ⟨s, hs, hr⟩ := h
  obtain ⟨n, h1, h2⟩ := normalStyle_settled l hs hr
  let kept := (Attributes.parse k.attrs).filter (keeps ·.key)
  have hl : (normalList l kept n).IsLegal :=
    isLegal_normalList l ((Attributes.isLegal_parse k.attrs).filter _) n
  refine ⟨normalList l kept n, hl, ?_, ?_⟩
  · rw [normalTag, normalAttributes_eq l h1]
    rfl
  · have hstyle : Attributes.styleText ((normalList l kept n).map Attributes.written) =
        escapeQuotes n.render := by
      rw [Attributes.styleText_map_written, styleText_normalList]
    have hkept : ((normalList l kept n).map Attributes.written).filter (keeps ·.key) =
        kept.map Attributes.written := by
      rw [List.filter_map]
      exact congrArg (List.map Attributes.written) (filter_keeps_normalList l _ n)
    have hagain := normalAttributes_eq l (hstyle ▸ h2)
    rw [hkept] at hagain
    rw [normalTag, Attributes.parse_render hl, hagain]
    exact congrArg (fun r => Except.ok ('<' :: name ++ r ++ ['>']))
      (render_normalList_map_written l kept n)

theorem normalizedTag_settled (l : Layout) {k : Tag} (h : k.closing = false →
      ∃ s, Style.parse (Attributes.parse k.attrs).styleText = .ok s ∧ s.IsRegular) :
    ∃ e, normalizedTag l k = .ok e ∧ ∀ s, e = some s → ∀ n body, IsTag n body →
      s = tagText false n body → normalizedTag l (.ofBody false n body) = .ok (some s) := by
  cases hc : k.closing with
  | true => exact ⟨none, by rw [normalizedTag, hc]; rfl, by simp⟩
  | false =>
    obtain ⟨as, hl, h1, h2⟩ := normalTag_settled l (h hc)
    refine ⟨some (openTag name as), by rw [normalizedTag, hc, h1]; rfl, ?_⟩
    rintro s ⟨⟩ n body ht hb
    have hname : isName name = true := by decide
    rw [← ofBody_eq_of_tagText_eq (isTag_render hname hl) ht
      ((openTag_eq_tagText name as).symm.trans hb), ofBody_render hl, normalizedTag, h2]
    rfl

theorem exists_normalEdits {l : Layout} {ks : List Token}
    (h : ∀ k ∈ ks, k.closing = false → k.toTag.HasClosedStyle) :
    ∃ es, ks.mapM (normalizedTag l ·.toTag) = .ok es := by
  induction ks with
  | nil => exact ⟨[], rfl⟩
  | cons k ks ih =>
    obtain ⟨hk, hks⟩ := List.forall_mem_cons.1 h
    obtain ⟨e, he, -⟩ := normalizedTag_settled l fun hc => (hk hc).parse
    obtain ⟨es, hes⟩ := ih hks
    exact ⟨e :: es, by rw [List.mapM_cons, he, hes]; rfl⟩

/-- A document without a fallback whose table styles close what they open is written in its normal
form once: written anew it stays the same. -/
theorem normalize_settled (l : Layout) {html : Text} (hf : fallbacks html = [])
    (hs : ∀ k ∈ tokens [name] html, k.closing = false → k.toTag.HasClosedStyle) :
    ∃ out, normalize l html = .ok out ∧ normalize l out = .ok out := by
  obtain ⟨es, hes⟩ := exists_normalEdits (l := l) hs
  have hfit : Fits (tokens [name] html) es :=
    Run.forall₂_imp_of_mem (forall₂_of_mapM hes) fun k hk e he =>
      Run.written_normalizedTag (name_of_mem_tokens (by decide) hk)
        (Attributes.isLegal_parse k.attrs) (Run.isLegal_forcedAttributes l) (fun _ _ => rfl) he
  have hread : NeverFallsBack html := neverFallsBack_of_fallbacksFrom hf
  have hpairs := List.forall₂_iff_zip.1 (forall₂_of_mapM hes)
  have hsettled : ∀ k s, .hit (.tag k) s ∈ lexemes (editTags [name] html es) →
      k.isAmong [name] = true →
      normalizedTag l k = .ok none ∨ normalizedTag l k = .ok (some s) := by
    intro k s hm hk
    obtain ⟨⟨k', e⟩, hx, hx'⟩ := tag_of_mem_lexemes_edited hread hfit hm hk
    have he : normalizedTag l k'.toTag = .ok e := hpairs.2 hx
    rcases hx' with ⟨rfl, rfl⟩ | ⟨rfl, n, body, ht, hb, rfl⟩
    · exact .inl he
    · obtain ⟨e, h1, h2⟩ :=
        normalizedTag_settled l fun hc => (hs k' (List.of_mem_zip hx).1 hc).parse
      obtain rfl := Except.ok.inj (h1.symm.trans he)
      exact .inr (h2 s rfl n body ht hb)
  obtain ⟨es', h1, h2⟩ := exists_edits_of_settled hsettled 0
  have h1 : normalEdits l (editTags [name] html es) = .ok es' := h1
  have hes : normalEdits l html = .ok es := hes
  refine ⟨editTags [name] html es, by rw [normalize, hes]; rfl, ?_⟩
  rw [normalize, h1]
  exact congrArg Except.ok (h2.trans (source_lexemes _))

def quotedStyle : Text := "<table style=\"A:'&quot;;' ;max-width:1px\">".toList

def normalQuotedStyle : Text :=
  ("<table role=\"presentation\" align=\"center\" width=\"100%\" border=\"0\" cellpadding=\"0\" " ++
    "cellspacing=\"0\" style=\"mso-table-lspace:0pt;mso-table-rspace:0pt;" ++
    "border-collapse:collapse;max-width:600px;A:'&quot;;';\">").toList

theorem normalize_settled_on_quoted_style :
    fallbacks quotedStyle = [] ∧
      (∀ k ∈ tokens [name] quotedStyle, k.closing = false → k.toTag.HasClosedStyle) ∧
      normalize ⟨true, .px600, false⟩ quotedStyle = .ok normalQuotedStyle ∧
      normalize ⟨true, .px600, false⟩ normalQuotedStyle = .ok normalQuotedStyle := by
  have hf : fallbacks quotedStyle = [] := by decide +kernel
  have hs : ∀ k ∈ tokens [name] quotedStyle, k.closing = false → k.toTag.HasClosedStyle := by
    decide +kernel
  have hn : normalize ⟨true, .px600, false⟩ quotedStyle = .ok normalQuotedStyle := by
    decide +kernel
  obtain ⟨out, h1, h2⟩ := normalize_settled ⟨true, .px600, false⟩ hf hs
  have ho : out = normalQuotedStyle := Except.ok.inj (h1.symm.trans hn)
  rw [ho] at h2
  exact ⟨hf, hs, hn, h2⟩

end MailMarkup.Table
