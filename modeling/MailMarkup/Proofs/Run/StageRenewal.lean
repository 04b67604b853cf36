import MailMarkup.Proofs.Spacing.OrdinaryNodes
import MailMarkup.Proofs.Table.Heights

namespace MailMarkup.Table

open Text Markup Spacing

variable {l : Layout} {ns ms : List Node}

theorem isSteady_containerStyle (l : Layout) : (containerStyle l).IsSteady := by
  obtain ⟨responsive, size, pointed⟩ := l
  cases responsive <;> cases size <;> cases pointed <;> decide

theorem isSuited_forcedAttributes (l : Layout) (tag : Text) :
    Attributes.All (IsSuited tag) (forcedAttributes l) := by
  have hw : IsTidy (widthText l) := by
    obtain ⟨r, w, p⟩ := l
    cases r <;> cases w <;> cases p <;> decide
  intro a ha
  simp only [forcedAttributes, List.mem_cons, List.not_mem_nil, or_false] at ha
  rcases ha with rfl | rfl | rfl | rfl | rfl | rfl
  · exact isSuited_value (by decide) (by decide) (by decide)
  · exact isSuited_value (by decide) (by decide) (by decide)
  · exact isSuited_value (by decide) (by decide) hw
  · exact isSuited_value (by decide) (by decide) (by decide)
  · exact isSuited_value (by decide) (by decide) (by decide)
  · exact isSuited_value (by decide) (by decide) (by decide)

theorem exists_strippedTag {k : Tag} (hk : k.name = name)
    (h : Attributes.All (IsSuited k.name) (Attributes.parse k.attrs)) :
    ∃ e, strippedTag k = .ok e ∧ Written (IsSuited k.name) k e := by
  have hall : Attributes.All (IsSuited k.name)
      (Attributes.leaving ["height".toList] (.parse k.attrs)) := h.filter _
  obtain ⟨s, hs, -⟩ := exists_style (hk ▸ by decide) hall
  obtain ⟨e, he⟩ : ∃ e, strippedTag k = .ok e := by
    rw [strippedTag, Attributes.revise_dropped, Attributes.dropEmptyStyle, hs]
    split
    · exact ⟨none, rfl⟩
    · exact ⟨_, rfl⟩
  exact ⟨e, he, Run.written_strippedTag hk h he⟩

theorem exists_stripHeights {c : Config} (hb : '<' ∉ c.imageBase) (hc : IsClean ns)
    (ho : ∀ n ∈ ns, IsOrdinary n) : ∃ ms, stripHeights (sources ns) = .ok (sources ms) ∧
      IsClean ms ∧ (∀ m ∈ ms, IsOrdinary m) ∧
      List.Forall₂ (Renewal [name] fun k e => strippedTag k = .ok e) ns ms :=
  @exists_ordinary strippedTag ns .stripHeights c hb hc ho rfl (by decide)
    (fun _ _ _ _ _ => trivial)
    fun n hn k hk hname => exists_strippedTag (List.mem_singleton.1 hname) ((ho n hn).suited hk)

def IsNormal (l : Layout) (k : Tag) (s : Text) : Prop :=
  strippedTag k = .ok none ∧ (normalizedTag l k = .ok none ∨ normalizedTag l k = .ok (some s))

theorem exists_normalizedTag {k : Tag} (hk : k.name = name)
    (h : Attributes.All (IsSuited k.name) (Attributes.parse k.attrs)) :
    ∃ e, normalizedTag l k = .ok e ∧ Written (IsSuited k.name) k e := by
  obtain ⟨s, hs, hsteady⟩ := exists_style (hk ▸ by decide) h
  obtain ⟨e, he, -⟩ := normalizedTag_settled l fun _ => ⟨s, hs, hsteady.isRegular⟩
  refine ⟨e, he, Run.written_normalizedTag hk h (isSuited_forcedAttributes l _) ?_ he⟩
  intro t ht
  rw [normalStyle, hs] at ht
  obtain rfl := pure_eq_ok.1 ht
  exact ((hsteady.foldl_remove _).mergedAhead (isSteady_containerStyle l)).isSuited _

theorem strippedTag_of_normalizedTag {k : Tag} {n body : Text} (ht : IsTag n body)
    (he : normalizedTag l k = .ok (some (tagText false n body))) :
    strippedTag (.ofBody false n body) = .ok none := by
  rw [normalizedTag] at he
  split at he
  · cases pure_eq_ok.1 he
  · obtain ⟨t, ht', he⟩ := bind_eq_ok.1 he
    obtain ⟨as, has, ht'⟩ := bind_eq_ok.1 ht'
    obtain ⟨s, hs, -⟩ := bind_eq_ok.1 has
    rw [normalAttributes_eq l hs] at has
    obtain rfl := Except.ok.inj has
    have hl := isLegal_normalList l ((Attributes.isLegal_parse k.attrs).filter (keeps ·.key)) s
    have ho := Option.some.inj (pure_eq_ok.1 he)
    rw [← pure_eq_ok.1 ht', openTag_eq_tagText] at ho
    rw [← ofBody_eq_of_tagText_eq (isTag_render (by decide) hl) ht ho, ofBody_render hl,
      strippedTag, Attributes.parse_render hl, has_map_written, normalList, Attributes.has_append,
      Attributes.has_filter_eq_false (p := keeps) (by decide)]
    rfl

theorem isNormal_of_closing {k : Tag} (h : k.closing = true) (s : Text) : IsNormal l k s := by
  refine ⟨?_, .inl ?_⟩
  · rw [strippedTag, if_pos (by rw [h]; rfl)]
    rfl
  · rw [normalizedTag, if_pos h]
    rfl

theorem closing_of_normalizedTag {k : Tag} (h : normalizedTag l k = .ok none) :
    k.closing = true := by
  rw [normalizedTag] at h
  split at h
  · assumption
  · obtain ⟨t, -, h⟩ := bind_eq_ok.1 h
    cases pure_eq_ok.1 h

theorem isNormal_of_normalizedTag {k : Tag} (hk : k.name = name)
    (hs : Attributes.All (IsSuited k.name) (Attributes.parse k.attrs)) {n body : Text}
    (ht : IsTag n body) (he : normalizedTag l k = .ok (some (tagText false n body))) :
    IsNormal l (.ofBody false n body) (tagText false n body) := by
  obtain ⟨s, hs, hsteady⟩ := exists_style (hk ▸ by decide) hs
  obtain ⟨e, h1, h2⟩ := normalizedTag_settled l fun _ => ⟨s, hs, hsteady.isRegular⟩
  obtain rfl := Except.ok.inj (h1.symm.trans he)
  exact ⟨strippedTag_of_normalizedTag ht he, .inr (h2 _ rfl _ _ ht rfl)⟩

theorem exists_normalize {c : Config} (hb : '<' ∉ c.imageBase) (hc : IsClean ns)
    (ho : ∀ n ∈ ns, IsOrdinary n) : ∃ ms, normalize c.layout (sources ns) = .ok (sources ms) ∧
      IsClean ms ∧ (∀ m ∈ ms, IsOrdinary m) ∧
      List.Forall₂ (Renewal [name] fun k e => normalizedTag c.layout k = .ok e) ns ms ∧
      OnTags name (IsNormal c.layout) ms := by
  obtain ⟨ms, ha, hm, hom, hr⟩ := @exists_ordinary (normalizedTag c.layout) ns .normalizeTables c
    hb hc ho rfl (by decide)
    (fun n hn k hk hname => hasPlainStyle_of_suited
      (List.mem_singleton.1 hname ▸ by decide) ((ho n hn).suited hk))
    fun n hn k hk hname => exists_normalizedTag (List.mem_singleton.1 hname) ((ho n hn).suited hk)
  refine ⟨ms, ha, hm, hom, hr, fun m hmem k hk hname => ?_⟩
  rcases exists_before .normalizeTables hr hmem hk (List.mem_singleton.2 hname) with
    ⟨-, hf⟩ | ⟨n, hn, old, n', body, hold, hsame, rfl, ht, rfl, he⟩
  · exact isNormal_of_closing (closing_of_normalizedTag hf) _
  · exact isNormal_of_normalizedTag (hsame.trans hname) ((ho _ hn).suited hold) ht he

theorem isIdleSpan_of_escapeQuotes {v : Text} (h : isIdleSpan (escapeQuotes v) = true) :
    isIdleSpan v = true := by
  by_cases hq : '"' ∈ v
  · -- the reference for the quote is no blank, and no digit
    have hm : '&' ∈ trim (escapeQuotes v) :=
      mem_trim (by decide) (List.mem_flatMap.2 ⟨'"', hq, by decide⟩)
    simp only [isIdleSpan, Bool.or_eq_true, beq_iff_eq] at h
    rcases h with h | h
    · simp [h] at hm
    · simp [h] at hm
  · rwa [escapeQuotes_eq_self hq] at h

def IsUnspanned (k : Tag) (_ : Text) : Prop := unspannedTag k = none

instance (k : Tag) (s : Text) : Decidable (IsUnspanned k s) :=
  inferInstanceAs (Decidable (unspannedTag k = none))

theorem isUnspanned_iff {k : Tag} {s : Text} : IsUnspanned k s ↔
    k.closing = true ∨
      ∀ v, (Attributes.parse k.attrs).get? colspan = some v → isIdleSpan v = false := by
  rw [IsUnspanned, unspannedTag]
  cases k.closing <;> cases (Attributes.parse k.attrs).get? colspan <;> simp

theorem isUnspanned_rendered {k : Tag} {s : Text} (h : IsUnspanned k s) (hopen : k.closing = false)
    {as : Attributes} (hl : as.IsLegal)
    (hspan : as.get? colspan = (Attributes.parse k.attrs).get? colspan) {n s' : Text} :
    IsUnspanned ⟨n, as.render, false, false⟩ s' := by
  rw [isUnspanned_iff, hopen] at h
  refine isUnspanned_iff.2 (.inr fun v hv => ?_)
  rw [Attributes.parse_render hl, Attributes.get?_map_written, hspan] at hv
  obtain ⟨w, hw, rfl⟩ := Option.map_eq_some_iff.1 hv
  by_contra hidle
  have := isIdleSpan_of_escapeQuotes (by simpa using hidle)
  rw [h.resolve_left Bool.false_ne_true w hw] at this
  cases this

theorem exists_unspanned {k : Tag} {name body : Text} (hk : isName k.name = true)
    (ht : IsTag name body) (he : unspannedTag k = some (tagText false name body)) :
    name = k.name ∧ (body = ((Attributes.parse k.attrs).remove colspan).render ∨
      body = ((Attributes.parse k.attrs).remove colspan).render ++ " /".toList) := by
  have hl : Attributes.IsLegal ((Attributes.parse k.attrs).remove colspan) :=
    Attributes.All.remove (Attributes.isLegal_parse k.attrs) _
  rw [unspannedTag] at he
  split at he
  · have ho := Option.some.inj he
    split at ho
    · rw [closedTag_eq_tagText] at ho
      obtain ⟨rfl, rfl⟩ := eq_of_tagText_eq (isTag_render_slash hk hl) ht ho
      exact ⟨rfl, .inr rfl⟩
    · rw [openTag_eq_tagText] at ho
      obtain ⟨rfl, rfl⟩ := eq_of_tagText_eq (isTag_render hk hl) ht ho
      exact ⟨rfl, .inl rfl⟩
  · cases he

def spanNames : List Text := [cellName, headerCellName]

theorem isName_of_spanNames : ∀ n ∈ spanNames, isName n = true := by decide

theorem exists_removeIdleSpans {c : Config} (hb : '<' ∉ c.imageBase) (hc : IsClean ns)
    (ho : ∀ n ∈ ns, IsOrdinary n) : ∃ ms, removeIdleSpans (sources ns) = sources ms ∧
      IsClean ms ∧ (∀ m ∈ ms, IsOrdinary m) ∧
      List.Forall₂ (Renewal spanNames fun k e => unspannedTag k = e) ns ms ∧
      ∀ name ∈ spanNames, OnTags name IsUnspanned ms := by
  have hedits : Run.Rewriter.cleanColspans.edits c (sources ns) =
      (tokens spanNames (sources ns)).mapM (fun k => Except.ok (unspannedTag k.toTag)) :=
    (List.mapM_pure (m := Except Fault) ..).symm
  obtain ⟨ms, ha, hm, hom, hr⟩ := @exists_ordinary _ ns .cleanColspans c hb hc ho hedits (by decide)
    (fun _ _ _ _ _ => trivial)
    fun n hn k hk hname => ⟨_, rfl, Run.written_unspannedTag
      (by simpa [Run.Rewriter.names] using hname) ((ho n hn).suited hk)⟩
  have hr := hr.imp fun _ _ => Renewal.imp fun _ _ => Except.ok.inj
  refine ⟨ms, Except.ok.inj ha, hm, hom, hr, fun name hn m hmem k hk hname => ?_⟩
  subst hname
  rcases exists_before .cleanColspans hr hmem hk hn with
    ⟨-, hf⟩ | ⟨n, -, old, name, body, -, hsame, rfl, ht, rfl, hf⟩
  · exact hf
  · obtain ⟨-, hbody⟩ := exists_unspanned (hsame ▸ isName_of_spanNames _ hn) ht hf
    refine isUnspanned_iff.2 (.inr fun v hv => ?_)
    rw [parse_attrs_render (Attributes.All.remove (Attributes.isLegal_parse old.attrs) _) _ hbody,
      Attributes.get?_map_written, Attributes.get?_remove_self] at hv
    cases hv

end MailMarkup.Table

namespace MailMarkup.Link

open Text Markup Spacing

variable {ns ms : List Node}

def IsTagged (p : Campaign) (k : Tag) (s : Text) : Prop :=
  taggedTag p k = none ∨ taggedTag p k = some s

theorem written_taggedTag {p : Campaign} {k : Tag} (hk : k.name = "a".toList)
    (h : Attributes.All (IsSuited k.name) (Attributes.parse k.attrs)) (hl : HasSteadyLink p k) :
    Written (IsSuited k.name) k (taggedTag p k) := by
  refine Run.written_taggedTag hk h fun href new hh hn => ?_
  obtain ⟨d, hd, hn⟩ := newAddress_eq_ok.1 hn
  exact isSuited_value (by decide) (by decide) ((hl href d hh hd).settled new hn).1

theorem exists_tagAll {c : Config} (hb : '<' ∉ c.imageBase) (hc : IsClean ns)
    (ho : ∀ n ∈ ns, IsOrdinary n) (hp : OnTags "a".toList (fun k _ => k.HasPlainLink) ns)
    (hs : OnTags "a".toList (fun k _ => HasSteadyLink c.campaign.trimmed k) ns)
    (he : c.campaign.trimmed.isEmpty = false) :
    ∃ ms, tagAll c.campaign (sources ns) = sources ms ∧ IsClean ms ∧ (∀ m ∈ ms, IsOrdinary m) ∧
      List.Forall₂ (Renewal ["a".toList] fun k e => taggedTag c.campaign.trimmed k = e) ns ms ∧
      OnTags "a".toList (IsTagged c.campaign.trimmed) ms := by
  have hedits : Run.Rewriter.tagLinks.edits c (sources ns) =
      (tokens ["a".toList] (sources ns)).mapM
        (fun k => Except.ok (taggedTag c.campaign.trimmed k.toTag)) := by
    rw [Run.Rewriter.edits, if_neg (by simp [he]), edits]
    exact (List.mapM_pure (m := Except Fault) ..).symm
  obtain ⟨ms, ha, hm, hom, hr⟩ := @exists_ordinary _ ns .tagLinks c hb hc ho hedits (by decide)
    (fun n hn k hk hname => hp n hn k hk (List.mem_singleton.1 hname))
    fun n hn k hk hname => ⟨_, rfl, written_taggedTag (List.mem_singleton.1 hname)
      ((ho n hn).suited hk) (hs n hn k hk (List.mem_singleton.1 hname))⟩
  have hr := hr.imp fun _ _ => Renewal.imp fun _ _ => Except.ok.inj
  refine ⟨ms, Except.ok.inj ha, hm, hom, hr, fun m hmem k hk hname => ?_⟩
  rcases exists_before .tagLinks hr hmem hk (List.mem_singleton.2 hname) with
    ⟨-, hf⟩ | ⟨n, hn, old, n', body, hold, hsame, rfl, ht, rfl, hf⟩
  · exact .inl hf
  · exact taggedTag_settled he (hs n hn old hold (hsame.trans hname)) hf ht rfl

end MailMarkup.Link

namespace MailMarkup.Background

open Text Markup Spacing

variable {ns ms : List Node}

theorem isTidy_color {style color : Text} (h : resolve? style = .ok (some color)) :
    IsTidy color := by
  refine isTidy_of_all (List.all_eq_true.2 fun c hc => ?_)
  have hne : ∀ x ∈ colorless, c ≠ x := by
    rintro x hx rfl
    exact not_mem_resolve hx h hc
  simp [standsAlone, isSpaceOrTab, hne ' ' (by decide), hne '\t' (by decide),
    hne '\n' (by decide), hne '\r' (by decide)]

theorem exists_coloredTag {k : Tag} (hk : k.name = "td".toList)
    (h : Attributes.All (IsSuited k.name) (Attributes.parse k.attrs)) :
    ∃ e, coloredTag k = .ok e ∧ Written (IsSuited k.name) k e := by
  have hn : k.name ∈ styledNames := hk ▸ by decide
  have hsuited : ∀ color, resolve? (Attributes.parse k.attrs).styleText = .ok (some color) →
      IsSuited k.name ⟨bgcolor, some color⟩ := fun color hc =>
    isSuited_value (by decide) (by decide) (isTidy_color hc)
  obtain ⟨s, hs, -⟩ := exists_style hn h
  have hr : resolve? (Attributes.parse k.attrs).styleText = .ok (lastColor? s) := by
    rw [resolve?, hs]
    rfl
  obtain ⟨e, he⟩ : ∃ e, coloredTag k = .ok e := by
    rw [coloredTag, hr]
    split
    · exact ⟨none, rfl⟩
    · cases hl : lastColor? s with
      | none => exact ⟨none, rfl⟩
      | some color =>
        obtain ⟨t, ht, -⟩ := exists_style hn (h.setAll (.singleton (hsuited color (hl ▸ hr))))
        obtain ⟨as, has⟩ : ∃ as, Attributes.dropEmptyStyle
            ((Attributes.parse k.attrs).setAll [⟨bgcolor, some color⟩]) = .ok as := by
          rw [Attributes.dropEmptyStyle, ht]
          exact ⟨_, rfl⟩
        refine ⟨some (openTag "td".toList as), ?_⟩
        change (Attributes.dropEmptyStyle _ >>= fun as => pure (some (openTag "td".toList as))) = _
        rw [List.foldl_nil, has]
        rfl
  exact ⟨e, he, Run.written_coloredTag hk h hsuited he⟩

def IsColored (k : Tag) (_ : Text) : Prop := coloredTag k = .ok none

theorem exists_colored {k : Tag} {name body : Text} (ht : IsTag name body)
    (he : coloredTag k = .ok (some (tagText false name body))) :
    ∃ color as,
      Attributes.dropEmptyStyle ((Attributes.parse k.attrs).set bgcolor (some color)) = .ok as ∧
      as.IsLegal ∧ tagText false name body = openTag "td".toList as ∧
      Tag.ofBody false name body = .ofBody false "td".toList as.render := by
  rw [coloredTag] at he
  split at he
  · cases pure_eq_ok.1 he
  · obtain ⟨o, -, he⟩ := bind_eq_ok.1 he
    cases o with
    | none => cases pure_eq_ok.1 he
    | some color =>
      obtain ⟨as, has, he⟩ := bind_eq_ok.1 he
      have ho := Option.some.inj (pure_eq_ok.1 he)
      have hl : as.IsLegal :=
        Attributes.All.dropEmptyStyle ((Attributes.isLegal_parse k.attrs).set rfl) has
      exact ⟨color, as, has, hl, ho.symm, (ofBody_eq_of_tagText_eq (isTag_render (by decide) hl) ht
        ((openTag_eq_tagText _ _).symm.trans ho)).symm⟩

theorem exists_propagate {c : Config} (hb : '<' ∉ c.imageBase) (hc : IsClean ns)
    (ho : ∀ n ∈ ns, IsOrdinary n) : ∃ ms, propagate (sources ns) = .ok (sources ms) ∧
      IsClean ms ∧ (∀ m ∈ ms, IsOrdinary m) ∧
      List.Forall₂ (Renewal ["td".toList] fun k e => coloredTag k = .ok e) ns ms ∧
      OnTags "td".toList IsColored ms := by
  obtain ⟨ms, ha, hm, hom, hr⟩ := @exists_ordinary coloredTag ns .propagateBackgrounds c hb hc ho
    rfl (by decide) (fun _ _ _ _ _ => trivial)
    fun n hn k hk hname => exists_coloredTag (List.mem_singleton.1 hname) ((ho n hn).suited hk)
  refine ⟨ms, ha, hm, hom, hr, fun m hmem k hk hname => ?_⟩
  rcases exists_before .propagateBackgrounds hr hmem hk (List.mem_singleton.2 hname) with
    ⟨-, hf⟩ | ⟨n, -, old, name, body, -, -, rfl, ht, rfl, hf⟩
  · exact hf
  · obtain ⟨color, as, has, hl, -, htag⟩ := exists_colored ht hf
    have hcolor : as.HoldsOnce bgcolor color :=
      (Attributes.holdsOnce_set _ _ _).dropEmptyStyle (by decide) has
    rw [IsColored, htag, ofBody_render hl, coloredTag, Attributes.parse_render hl,
      hcolor.map_written.has, Bool.or_true]
    rfl

theorem exists_colored_span {k : Tag} {name body : Text} (ht : IsTag name body)
    (he : coloredTag k = .ok (some (tagText false name body))) :
    ∃ as, Attributes.IsLegal as ∧
      Tag.ofBody false name body = ⟨"td".toList, as.render, false, false⟩ ∧
      as.filter (·.key == lower Table.colspan) =
        (Attributes.parse k.attrs).filter (·.key == lower Table.colspan) := by
  obtain ⟨color, as, has, hl, -, htag⟩ := exists_colored ht he
  refine ⟨as, hl, htag.trans (ofBody_render hl false _), ?_⟩
  rw [Attributes.filter_dropEmptyStyle (fun a ha => ?_) has, Attributes.filter_set (by decide)]
  rw [beq_iff_eq.1 ha]
  decide

theorem isUnspanned_of_coloredTag {k : Tag} {s name body : Text} (h : Table.IsUnspanned k s)
    (hopen : k.closing = false) (ht : IsTag name body)
    (he : coloredTag k = .ok (some (tagText false name body))) (s' : Text) :
    Table.IsUnspanned (.ofBody false name body) s' := by
  obtain ⟨as, hl, htag, hspan⟩ := exists_colored_span ht he
  rw [htag]
  refine Table.isUnspanned_rendered h hopen hl ?_
  rw [Attributes.get?_eq_head?, hspan, Attributes.get?_eq_head?]

end MailMarkup.Background
