import MailMarkup.Proofs.Run.LateStages
import MailMarkup.Proofs.Table.Rewrapping

namespace MailMarkup.Markup

open Text

theorem OnTags.apply (r : Run.Rewriter) {c : Config} {ns : List Node} (hc : IsClean ns)
    {f : Tag → Except Fault (Option Text)}
    (hf : r.edits c (sources ns) = (tokens r.names (sources ns)).mapM (f ·.toTag))
    {P : Tag → Text → Prop} (h : ∀ name ∈ r.names, OnTags name P ns)
    (hP : ∀ k s, P k s → f k = .ok none ∨ f k = .ok (some s)) :
    r.stage.apply c (sources ns) = .ok (sources ns) := by
  have hs : Settled r.names f ns := fun n hn k hk ha =>
    hP k _ (h k.name ((isAmong_iff r.lower_names r.names_ne_nil).1 ha) n hn k hk rfl)
  obtain ⟨es, he, hm⟩ := hs.exists_edits hc.isRead
  rw [r.apply_stage, hf, he]
  exact congrArg Except.ok hm

theorem OnTags.mem_singleton {name : Text} {P : Tag → Text → Prop} {ns : List Node}
    (h : OnTags name P ns) : ∀ other ∈ [name], OnTags other P ns := by
  rintro other ho
  rwa [List.mem_singleton.1 ho]

end MailMarkup.Markup

namespace MailMarkup.Run

open Text Markup Spacing

variable {c : Config} {ns ms : List Node}

structure IsStanding (c : Config) (ns : List Node) : Prop where
  clean : IsClean ns
  tables : OnTags Table.name (Table.IsNormal c.layout) ns
  images : ∃ alts, Image.Showing c ns alts ∧ (alts.map lower).Nodup
  cells : Table.CellsPadless ns
  rows : c.wrapColumns = true → Table.RowsStay ns
  spans : ∀ name ∈ Table.spanNames, OnTags name Table.IsUnspanned ns
  links : c.campaign.trimmed.isEmpty = false →
    OnTags "a".toList (Link.IsTagged c.campaign.trimmed) ns
  neat : ∀ n ∈ ns, IsNeat n
  text : HasTidyText ns
  colors : OnTags "td".toList Background.IsColored ns

theorem apply_cleanColspans_of_isUnspanned (hc : IsClean ns)
    (h : ∀ name ∈ Table.spanNames, OnTags name Table.IsUnspanned ns) :
    Stage.cleanColspans.apply c (sources ns) = .ok (sources ns) :=
  OnTags.apply (f := fun k => .ok (Table.unspannedTag k)) .cleanColspans hc
    (List.mapM_pure (m := Except Fault) ..).symm h fun _ _ hk => .inl (congrArg Except.ok hk)

theorem IsStanding.apply (h : IsStanding c ns) (hp : allBlank c.preheader = true)
    (hb : allBlank c.balance = true) {s : Stage} (hs : s ∈ Stage.stagesOf c)
    (hd : s ≠ .wrapDocument) : s.apply c (sources ns) = .ok (sources ns) := by
  cases s with
  | stripHeights =>
    exact OnTags.apply .stripHeights h.clean rfl h.tables.mem_singleton fun _ _ hk => .inl hk.1
  | normalizeTables =>
    exact OnTags.apply .normalizeTables h.clean rfl h.tables.mem_singleton fun _ _ hk => hk.2
  | injectPreheader => exact congrArg Except.ok (if_pos hp)
  | injectBalanceText => exact congrArg Except.ok (if_pos hb)
  | enhanceImages =>
    obtain ⟨alts, hs, hd⟩ := h.images
    exact hs.enhance hd h.clean
  | collapseImageCells => exact h.cells.collapseImageCells h.clean
  | wrapColumns =>
    have hw : c.wrapColumns = true := by simpa [Stage.stagesOf, Stage.mem_all] using hs
    exact congrArg Except.ok (Table.wrapColumns_of_not_isWrapped c.layout (h.rows hw))
  | cleanColspans => exact apply_cleanColspans_of_isUnspanned h.clean h.spans
  | tagLinks =>
    cases he : c.campaign.trimmed.isEmpty with
    | true => exact congrArg Except.ok (if_pos he)
    | false =>
      refine OnTags.apply (f := fun k => .ok (Link.taggedTag c.campaign.trimmed k)) .tagLinks
        h.clean ?_ (h.links he).mem_singleton
        fun _ _ hk => hk.imp (congrArg Except.ok) (congrArg Except.ok)
      rw [Rewriter.edits, if_neg (by simp [he])]
      exact (List.mapM_pure (m := Except Fault) ..).symm
  | tidyWhitespace => exact congrArg Except.ok (tidy_eq_self_of_neat h.clean h.neat h.text)
  | propagateBackgrounds =>
    exact OnTags.apply .propagateBackgrounds h.clean rfl h.colors.mem_singleton
      fun _ _ hk => .inl hk
  | wrapDocument => exact absurd rfl hd

def applyAll (c : Config) (ss : List Stage) (t : Text) : Except Fault Text :=
  ss.foldlM (fun t s => s.apply c t) t

theorem applyAll_cons {s : Stage} {ss : List Stage} {t u v : Text} (h : s.apply c t = .ok u)
    (hs : applyAll c ss u = .ok v) : applyAll c (s :: ss) t = .ok v := by
  rw [applyAll, List.foldlM_cons, h]
  exact hs

theorem applyAll_append {ss us : List Stage} {t u : Text} (h : applyAll c ss t = .ok u) :
    applyAll c (ss ++ us) t = applyAll c us u := by
  rw [applyAll, List.foldlM_append]
  exact congrArg (· >>= _) h

abbrev Linked (c : Config) (k : Tag) (_ : Text) : Prop :=
  k.HasPlainLink ∧ Link.HasSteadyLink c.campaign.trimmed k

structure IsFormattable (c : Config) (ns : List Node) : Prop where
  clean : IsClean ns
  ordinary : ∀ n ∈ ns, IsOrdinary n
  alts : OnTags Image.name (fun k _ => Image.HasReadableAlt k) ns
  links : c.campaign.trimmed.isEmpty = false → OnTags "a".toList (Linked c) ns
  spans : c.wrapColumns = true → ∀ name ∈ Table.spanNames, OnTags name Table.IsUnspanned ns

structure IsLaidOut (c : Config) (P : Tag → Text → Prop) (ns : List Node) : Prop where
  clean : IsClean ns
  ordinary : ∀ n ∈ ns, IsOrdinary n
  tables : OnTags Table.name (Table.IsNormal c.layout) ns
  images : ∃ alts, Image.Showing c ns alts ∧ (alts.map lower).Nodup
  cells : Table.CellsPadless ns
  links : c.campaign.trimmed.isEmpty = false → OnTags "a".toList P ns

variable {P Q : Tag → Text → Prop}

theorem exists_laidOut (hp : allBlank c.preheader = true) (hb : allBlank c.balance = true)
    (hbase : Image.IsSteadyBase c.imageBase) (h : IsFormattable c ns) :
    ∃ ms, applyAll c (earlyStages ++ [.enhanceImages, .collapseImageCells]) (sources ns) =
        .ok (sources ms) ∧ IsLaidOut c (Linked c) ms ∧
      (c.wrapColumns = true → ∀ name ∈ Table.spanNames, OnTags name Table.IsUnspanned ms) := by
  obtain ⟨n₁, h₁, c₁, o₁, r₁⟩ := Table.exists_stripHeights hbase.plain h.clean h.ordinary
  obtain ⟨n₂, h₂, c₂, o₂, r₂, t₂⟩ := Table.exists_normalize hbase.plain c₁ o₁
  have hkeep : ∀ {name : Text} {R : Tag → Text → Prop}, name ≠ Table.name → OnTags name R ns →
      OnTags name R n₂ := fun hn hR =>
    (hR.of_renewed .stripHeights (renewed_of_renewal r₁) (List.mem_singleton.not.2 hn)).of_renewed
      .normalizeTables (renewed_of_renewal r₂) (List.mem_singleton.not.2 hn)
  obtain ⟨n₃, alts, h₃, c₃, o₃, r₃, s₃, d₃⟩ :=
    Image.exists_enhance hbase c₂ o₂ (hkeep (by decide) h.alts)
  obtain ⟨n₄, h₄, c₄, o₄, r₄, p₄⟩ := Table.exists_collapseImageCells hbase.plain c₃ o₃
  have hr₄ := renewed_of_renewal r₄
  refine ⟨n₄, ?_, ⟨c₄, o₄, ?_, ⟨alts, ?_, d₃⟩, p₄, fun he => ?_⟩, fun hw name hname => ?_⟩
  · exact applyAll_cons h₁ <| applyAll_cons h₂ <| applyAll_cons (congrArg Except.ok (if_pos hp)) <|
      applyAll_cons (congrArg Except.ok (if_pos hb)) <| applyAll_cons h₃ <| applyAll_cons h₄ rfl
  · exact (t₂.of_renewed .enhanceImages r₃ (by decide)).of_renewed .collapseImageCells hr₄
      (by decide)
  · exact s₃.of_renewed .collapseImageCells hr₄ (by decide)
  · exact ((hkeep (by decide) (h.links he)).of_renewed .enhanceImages r₃ (by decide)).of_renewed
      .collapseImageCells hr₄ (by decide)
  · have hno : name ∉ [Table.name] ∧ name ∉ [Image.name] := by
      revert name
      decide
    refine ((hkeep (List.mem_singleton.not.1 hno.1) (h.spans hw name hname)).of_renewed
      .enhanceImages r₃ hno.2).of_renewal r₄ fun k s _ _ hk hs hR ht => ?_
    obtain ⟨t, b, rfl, he⟩ := hR
    exact Table.isUnspanned_of_collapsedTag hs hk ht he

theorem IsLaidOut.of_renewed (h : IsLaidOut c P ns) (r : Rewriter)
    (hr : List.Forall₂ (Renewed r.names) ns ms) (hn : Table.name ∉ r.names ∧ Image.name ∉ r.names)
    (hc : IsClean ms) (ho : ∀ m ∈ ms, IsOrdinary m) (hcells : Table.CellsPadless ms)
    (hlinks : c.campaign.trimmed.isEmpty = false → OnTags "a".toList Q ms) :
    IsLaidOut c Q ms := by
  obtain ⟨alts, hs, hd⟩ := h.images
  exact ⟨hc, ho, h.tables.of_renewed r hr hn.1, ⟨alts, hs.of_renewed r hr hn.2, hd⟩, hcells, hlinks⟩

theorem exists_spanned (hbase : '<' ∉ c.imageBase) (h : IsLaidOut c P ns)
    (hs : c.wrapColumns = true → ∀ name ∈ Table.spanNames, OnTags name Table.IsUnspanned ns) :
    ∃ ms, applyAll c ((if c.wrapColumns then [.wrapColumns] else []) ++ [.cleanColspans])
        (sources ns) = .ok (sources ms) ∧ IsLaidOut c P ms ∧
      (c.wrapColumns = true → Table.RowsStay ms) ∧
      ∀ name ∈ Table.spanNames, OnTags name Table.IsUnspanned ms := by
  cases hw : c.wrapColumns with
  | true =>
    obtain ⟨ms, hm, hww, hclean, hrows⟩ := Table.exists_withWrappers h.clean c.layout
    have hspans : ∀ name ∈ Table.spanNames, OnTags name Table.IsUnspanned ms := fun name hn =>
      hww.onTags (hs hw name hn) (Table.isUnspanned_wrapperNodes _ hn)
    obtain ⟨alts, hshow, hd⟩ := h.images
    refine ⟨ms, applyAll_cons (congrArg Except.ok hm)
      (applyAll_cons (apply_cleanColspans_of_isUnspanned hclean hspans) rfl),
      ⟨hclean, hww.forall_mem h.ordinary (Table.isOrdinary_wrapperNodes _),
        hww.onTags h.tables (Table.isNormal_wrapperNodes _), ⟨alts, hww.showing hshow, hd⟩,
        hww.cellsPadless h.cells, fun he => ?_⟩, fun _ => hrows, hspans⟩
    exact hww.onTags (h.links he) (Table.onTags_wrapperNodes _ (by decide) P)
  | false =>
    obtain ⟨ms, hm, hclean, ho, hr, hspans⟩ :=
      Table.exists_removeIdleSpans hbase h.clean h.ordinary
    refine ⟨ms, applyAll_cons (congrArg Except.ok hm) rfl, h.of_renewed .cleanColspans
      (renewed_of_renewal hr) (by decide) hclean ho (h.cells.of_renewal hr ?_) fun he => ?_,
      nofun, hspans⟩
    · exact fun k s name body _ hk hp he ht => hp.of_unspannedTag hk ht he
    · exact (h.links he).of_renewed .cleanColspans (renewed_of_renewal hr) (by decide)

theorem exists_linked (hbase : '<' ∉ c.imageBase) (h : IsLaidOut c (Linked c) ns)
    (hrows : c.wrapColumns = true → Table.RowsStay ns)
    (hspans : ∀ name ∈ Table.spanNames, OnTags name Table.IsUnspanned ns) :
    ∃ ms, Stage.tagLinks.apply c (sources ns) = .ok (sources ms) ∧
      IsLaidOut c (Link.IsTagged c.campaign.trimmed) ms ∧
      (c.wrapColumns = true → Table.RowsStay ms) ∧
      ∀ name ∈ Table.spanNames, OnTags name Table.IsUnspanned ms := by
  cases he : c.campaign.trimmed.isEmpty with
  | true =>
    refine ⟨ns, congrArg Except.ok (if_pos he), { h with links := fun hn => ?_ }, hrows, hspans⟩
    cases he.symm.trans hn
  | false =>
    obtain ⟨ms, hm, hclean, ho, hr, ht⟩ := Link.exists_tagAll hbase h.clean h.ordinary
      (fun n hn k hk hname => (h.links he n hn k hk hname).1)
      (fun n hn k hk hname => (h.links he n hn k hk hname).2) he
    have hlink : ∀ k : Tag, k.isAmong ["a".toList] = true → k.name = "a".toList := fun k =>
      (isAmong_singleton (by decide)).1
    have hcells : Table.CellsPadless ms := h.cells.of_renewal hr fun k _ _ _ hk hcell =>
      absurd (hcell.symm.trans (hlink k hk)) (by decide)
    have hmarks : ms.filterMap Table.markOf? = ns.filterMap Table.markOf? :=
      Table.filterMap_markOf?_of_renewal hr fun k _ _ _ hk hs =>
        absurd (hlink k hk ▸ hs) (by decide)
    refine ⟨ms, congrArg Except.ok hm, h.of_renewed .tagLinks (renewed_of_renewal hr) (by decide)
      hclean ho hcells fun _ => ht, fun hw => (hrows hw).of_marks h.clean hclean hmarks,
      fun name hn => (hspans name hn).of_renewed .tagLinks (renewed_of_renewal hr) ?_⟩
    revert name
    decide

theorem map_glyph_of_renewed {names : List Text} (h : List.Forall₂ (Renewed names) ns ms) :
    ms.map glyph = ns.map glyph := by
  induction h with
  | nil => rfl
  | cons hr _ ih =>
    rw [List.map_cons, List.map_cons, ih]
    cases hr <;> rfl

theorem exists_standing (hbase : '<' ∉ c.imageBase)
    (h : IsLaidOut c (Link.IsTagged c.campaign.trimmed) ns)
    (hrows : c.wrapColumns = true → Table.RowsStay ns)
    (hspans : ∀ name ∈ Table.spanNames, OnTags name Table.IsUnspanned ns) :
    ∃ ms, applyAll c [.tidyWhitespace, .propagateBackgrounds] (sources ns) = .ok (sources ms) ∧
      IsStanding c ms ∧ ∀ m ∈ ms, IsOrdinary m := by
  obtain ⟨ks, hk, ht, htext⟩ := exists_thinned h.clean fun n hn => (h.ordinary n hn).neat
  have hsub : ks ⊆ ns := ht.sublist.subset
  have hclean : IsClean ks := fun n hn => h.clean n (hsub hn)
  obtain ⟨ms, hm, hcm, ho, hr, hcolors⟩ := Background.exists_propagate hbase hclean
    fun n hn => h.ordinary n (hsub hn)
  obtain ⟨alts, hs, hd⟩ := h.images
  have hr' := renewed_of_renewal hr
  have hmarks : ms.filterMap Table.markOf? = ks.filterMap Table.markOf? :=
    Table.filterMap_markOf?_of_renewal hr fun k n body hk ha _ he hn =>
      Table.mark_of_coloredTag (Table.isAmong_cellName.1 ha) hk he hn
  refine ⟨ms, applyAll_cons (congrArg Except.ok hk) (applyAll_cons hm rfl), {
    clean := hcm
    tables := (h.tables.of_subset hsub).of_renewed .propagateBackgrounds hr' (by decide)
    images := ⟨alts, (hs.of_thinned ht).of_renewed .propagateBackgrounds hr' (by decide), hd⟩
    cells := (h.cells.of_thinned ht).of_renewal hr fun k s name body _ _ hp he ht =>
      hp.of_coloredTag ht he
    rows := fun hw => (hrows hw).of_marks h.clean hcm (hmarks.trans
      (Table.filterMap_markOf?_of_thinned ht))
    spans := fun name hn => ((hspans name hn).of_subset hsub).of_renewal hr
      fun k s _ _ hk hs he hn => Background.isUnspanned_of_coloredTag hs hk hn he _
    links := fun he => ((h.links he).of_subset hsub).of_renewed .propagateBackgrounds hr'
      (by decide)
    neat := fun n hn => (ho n hn).neat
    text := ?_
    colors := hcolors }, ho⟩
  rwa [hasTidyText_iff, map_glyph_of_renewed hr', ← hasTidyText_iff]

theorem IsFormattable.exists_standing (h : IsFormattable c ns) (hp : allBlank c.preheader = true)
    (hb : allBlank c.balance = true) (hbase : Image.IsSteadyBase c.imageBase) :
    ∃ ms, applyAll c (innerStages c) (sources ns) = .ok (sources ms) ∧ IsStanding c ms ∧
      ∀ m ∈ ms, IsOrdinary m := by
  obtain ⟨n₁, h₁, l₁, s₁⟩ := exists_laidOut hp hb hbase h
  obtain ⟨n₂, h₂, l₂, r₂, s₂⟩ := exists_spanned hbase.plain l₁ s₁
  obtain ⟨n₃, h₃, l₃, r₃, s₃⟩ := exists_linked hbase.plain l₂ r₂ s₂
  obtain ⟨n₄, h₄, l₄, o₄⟩ := Run.exists_standing hbase.plain l₃ r₃ s₃
  refine ⟨n₄, ?_, l₄, o₄⟩
  have hstages : innerStages c = (earlyStages ++ [.enhanceImages, .collapseImageCells]) ++
      (((if c.wrapColumns then [.wrapColumns] else []) ++ [.cleanColspans]) ++
        [.tagLinks, .tidyWhitespace, .propagateBackgrounds]) := by
    simp [innerStages]
  rw [hstages, applyAll_append h₁, applyAll_append h₂]
  exact applyAll_cons h₃ h₄

end MailMarkup.Run
