import MailMarkup.Proofs.Run.StageNodes
import MailMarkup.Run.Format

namespace MailMarkup.Run

open Text Markup

def Stage.run (c : Config) (t : Text) (s : Stage) : Text :=
  match s.apply c t with
  | .ok t' => t'
  | .error _ => t

theorem Stage.run_of_ok {c : Config} {t t' : Text} {s : Stage} (h : s.apply c t = .ok t') :
    s.run c t = t' := by
  rw [Stage.run, h]

theorem fst_runSteps (c : Config) (ss : List Stage) (t : Text) :
    (runSteps (Stage.apply c) ss t).1 = ss.foldl (Stage.run c) t := by
  induction ss generalizing t with
  | nil => rfl
  | cons s ss ih =>
    rw [List.foldl_cons, ← ih, runSteps, Stage.run]
    cases s.apply c t <;> rfl

def earlyNames : List Text :=
  ["table".toList, "tr".toList, "td".toList, "th".toList, "div".toList, "img".toList, "a".toList]

def PlainStyles (names : List Text) (ns : List Node) : Prop :=
  ∀ k ∈ tagsOf ns, k.name ∈ names → k.HasPlainStyle

def PlainLinks (ns : List Node) : Prop := ∀ k ∈ tagsOf ns, k.name = "a".toList → k.HasPlainLink

structure Between (source : List Node) (P : List Tag → Prop) (styled : List Text) (linked : Bool)
    (ns : List Node) : Prop where
  reworked : Reworked earlyNames source ns
  images : P (chosen [Image.name] ns)
  styles : PlainStyles styled ns
  links : linked = true → PlainLinks ns

def At (source : List Node) (P : List Tag → Prop) (styled : List Text) (linked : Bool)
    (t : Text) : Prop :=
  ∃ ns, t = sources ns ∧ Between source P styled linked ns

theorem mem_tagsOf_of_reworked {names : List Text} {ns ms : List Node}
    (h : Reworked names ns ms) {k : Tag} (hk : k ∈ tagsOf ms) (hn : k.name ∉ names) :
    k ∈ tagsOf ns := by
  have hs : ∀ xs : List Node, k ∈ tagsOf (skeleton names xs) ↔ k ∈ tagsOf xs := by
    intro xs
    simp only [tagsOf, List.mem_filterMap, skeleton, List.mem_filter]
    constructor
    · rintro ⟨n, hm, ht⟩
      exact ⟨n, hm.1, ht⟩
    · rintro ⟨n, hm, ht⟩
      refine ⟨n, ⟨hm, ?_⟩, ht⟩
      cases n with
      | tag closing name body =>
        obtain rfl := Option.some.inj ht
        simpa [Node.isFirm, Tag.ofBody] using hn
      | _ => simp [Node.tag?] at ht
  rw [← hs, h.skeleton_eq, hs] at hk
  exact hk

theorem PlainStyles.of_reworked {names styled : List Text} {ns ms : List Node}
    (h : PlainStyles styled ns) (hr : Reworked names ns ms) (hd : ∀ n ∈ styled, n ∉ names) :
    PlainStyles styled ms :=
  fun k hk hn => h k (mem_tagsOf_of_reworked hr hk (hd _ hn)) hn

theorem PlainLinks.of_reworked {names : List Text} {ns ms : List Node} (h : PlainLinks ns)
    (hr : Reworked names ns ms) (hd : "a".toList ∉ names) : PlainLinks ms :=
  fun k hk hn => h k (mem_tagsOf_of_reworked hr hk (hn ▸ hd)) hn

variable {source : List Node} {P : List Tag → Prop} {styled styled' : List Text}
  {linked linked' : Bool}

theorem PlainStyles.mono {ns : List Node} (h : PlainStyles styled ns) (hs : styled' ⊆ styled) :
    PlainStyles styled' ns := fun k hk hn => h k hk (hs hn)

theorem At.mono {t : Text} (h : At source P styled linked t) (hs : styled' ⊆ styled)
    (hl : linked' = true → linked = true) : At source P styled' linked' t := by
  obtain ⟨ns, ht, h⟩ := h
  exact ⟨ns, ht, h.reworked, h.images, h.styles.mono hs, fun h' => h.links (hl h')⟩

theorem Between.step {ns ms : List Node} (h : Between source P styled linked ns)
    {names : List Text} (hr : Reworked names ns ms) (hn : names ⊆ earlyNames)
    (hi : Image.name ∉ names) (hs : PlainStyles styled' ms)
    (hl : linked' = true → PlainLinks ms) : Between source P styled' linked' ms where
  reworked := h.reworked.trans (hr.mono hn)
  images := by
    have he : chosen [Image.name] ms = chosen [Image.name] ns :=
      hr.chosen_eq (by decide) (by simp) (by simpa using hi)
    rw [he]
    exact h.images
  styles := hs
  links := hl

theorem mem_chosen_iff {names : List Text} (hl : ∀ n ∈ names, lower n = n) (hne : names ≠ [])
    {ns : List Node} {k : Tag} : k ∈ chosen names ns ↔ k ∈ tagsOf ns ∧ k.name ∈ names := by
  rw [chosen, List.mem_filter, isAmong_iff hl hne]

theorem At.rewriter {r : Rewriter} {c : Config} (hb : '<' ∉ c.imageBase) {t : Text}
    (h : At source P styled linked t)
    (hw : ∀ ns, Between source P styled linked ns → ∀ k ∈ tagsOf ns, k.name ∈ r.names → r.Wants k)
    (hn : r.names ⊆ earlyNames) (hi : Image.name ∉ r.names) (hs : styled' ⊆ styled)
    (hd : ∀ n ∈ styled', n ∉ r.names)
    (hl : linked' = true → linked = true ∧ "a".toList ∉ r.names) :
    At source P styled' linked' (r.stage.run c t) := by
  rw [Stage.run]
  split
  · rename_i t' ha
    obtain ⟨ns, rfl, h⟩ := h
    have hk : ∀ k ∈ chosen r.names ns, r.Wants k := by
      intro k hk
      obtain ⟨h1, h2⟩ := (mem_chosen_iff r.lower_names r.names_ne_nil).1 hk
      exact hw ns h k h1 h2
    obtain ⟨ms, hr, rfl⟩ := exists_reworked_of_apply hb h.reworked.clean hk ha
    exact ⟨ms, rfl, h.step hr hn hi ((h.styles.mono hs).of_reworked hr hd) fun h' =>
      (h.links (hl h').1).of_reworked hr (hl h').2⟩
  · exact h.mono hs fun h' => (hl h').1

theorem exists_of_forall₂ {α β : Type} {r : α → β → Prop} {as : List α} {bs : List β}
    (h : List.Forall₂ r as bs) {b : β} (hb : b ∈ bs) : ∃ a ∈ as, r a b := by
  induction h with
  | nil => simp at hb
  | cons hr _ ih =>
    rcases List.mem_cons.1 hb with rfl | hb
    · exact ⟨_, List.mem_cons_self, hr⟩
    · obtain ⟨a, ha, h⟩ := ih hb
      exact ⟨a, List.mem_cons_of_mem _ ha, h⟩

theorem hasPlainStyle_strippedTag {k : Tag} {name body : Text} (ht : IsTag name body)
    (he : Table.strippedTag k = .ok (some (tagText false name body))) :
    (Tag.ofBody false name body).name = Table.name ∧
      (k.HasPlainStyle → (Tag.ofBody false name body).HasPlainStyle) := by
  simp only [Table.strippedTag] at he
  split at he
  · cases pure_eq_ok.1 he
  · obtain ⟨as, ha, he⟩ := bind_eq_ok.1 he
    have hl : as.IsLegal :=
      ((Attributes.isLegal_parse k.attrs).remove _).dropEmptyStyle ha
    have ho := Option.some.inj (pure_eq_ok.1 he)
    rw [openTag_eq_tagText] at ho
    have hb := ofBody_eq_of_tagText_eq (isTag_render (by decide) hl) ht ho
    refine ⟨by rw [← hb]; rfl, fun h => ?_⟩
    rw [← hb, Tag.HasPlainStyle, parse_attrs_render hl false (.inl rfl),
      Attributes.styleText_map_written, Style.parse_escapeQuotes]
    rcases Attributes.styleText_of_dropEmptyStyle ha with hs | hs
    · rw [hs]
      decide +kernel
    · have hr : Attributes.styleText ((Attributes.parse k.attrs).remove "height".toList) =
          (Attributes.parse k.attrs).styleText := by
        rw [Attributes.styleText, Attributes.get?_remove_of_ne (by decide)]
        rfl
      rw [hs]
      exact hr ▸ h

theorem plainStyles_stripHeights {ns ms : List Node} {es : List (Option Text)} (hc : IsClean ns)
    (he : Table.heightEdits (sources ns) = .ok es) (hr : Rewrites [Table.name] ns es ms)
    (h : PlainStyles styled ns) : PlainStyles styled ms := by
  intro k hk hn
  rcases hr.mem_tagsOf hk with hk | ⟨name, body, hv, rfl, he'⟩
  · exact h k hk hn
  · obtain ⟨k', hk', he'⟩ := exists_of_forall₂ (forall₂_of_mapM he) he'
    have hk'' : k'.toTag ∈ chosen [Table.name] ns := by
      rw [← map_toTag_tokens hc]
      exact List.mem_map_of_mem hk'
    obtain ⟨h1, h2⟩ := (mem_chosen_iff (by decide) (by simp)).1 hk''
    obtain ⟨hname, hs⟩ := hasPlainStyle_strippedTag (isValid_tag.1 hv).1 he'
    refine hs (h _ h1 ?_)
    rwa [List.mem_singleton.1 h2, ← hname]

theorem At.stripHeights {c : Config} (hb : '<' ∉ c.imageBase) {t : Text}
    (h : At source P styled linked t) :
    At source P styled linked (Stage.stripHeights.run c t) := by
  rw [Stage.run]
  split
  · rename_i t' ha
    obtain ⟨ns, rfl, h⟩ := h
    obtain ⟨es, ms, he, rfl, ⟨-, rfl⟩ | hr⟩ :=
      exists_rewrites_of_apply (r := .stripHeights) hb h.reworked.clean (fun _ _ => .intro) ha
    · exact ⟨ms, rfl, h⟩
    · have hrw : Reworked [Table.name] ns ms :=
        hr.reworked Rewriter.stripHeights.lower_names Rewriter.stripHeights.names_ne_nil
          (List.Subset.refl _) h.reworked.clean
      exact ⟨ms, rfl, h.step hrw (by decide) (by decide)
        (plainStyles_stripHeights h.reworked.clean he hr h.styles)
        fun h' => (h.links h').of_reworked hrw (by decide)⟩
  · exact h

theorem At.of_grown {ns ms : List Node} (h : Between source P styled linked ns)
    (hg : Grown HiddenText.IsPlainFiller ns ms) : At source P styled linked (sources ms) := by
  have hr := hg.reworked_filler (fun n hn => hn.1) h.reworked.clean
  refine ⟨ms, rfl, h.step hr (by decide) (by decide) ?_ fun h' =>
    (h.links h').of_reworked hr (by decide)⟩
  have hs := h.styles
  clear h hr
  intro k hk hn
  rcases hg.mem_tagsOf hk with hk | ⟨n, hp, ht⟩
  · exact hs k hk hn
  · exact hp.2 k ht

theorem At.injectPreheader {c : Config} {t : Text} (h : At source P styled linked t) :
    At source P styled linked (Stage.injectPreheader.run c t) := by
  obtain ⟨ns, rfl, h⟩ := h
  obtain ⟨ms, hg, hm⟩ := HiddenText.exists_injectPreheader h.reworked.clean c.preheader
  rw [Stage.run, Stage.apply, hm]
  exact .of_grown h hg

theorem At.injectBalance {c : Config} {t : Text} (h : At source P styled linked t) :
    At source P styled linked (Stage.injectBalanceText.run c t) := by
  obtain ⟨ns, rfl, h⟩ := h
  obtain ⟨ms, hg, hm⟩ := HiddenText.exists_injectBalance h.reworked.clean c.balance
  rw [Stage.run, Stage.apply, hm]
  exact .of_grown h hg

theorem At.wrapColumns {c : Config} {t : Text} (h : At source P styled linked t)
    (hd : ∀ n ∈ styled, n ∉ Table.wrapperNames) :
    At source P styled linked (Stage.wrapColumns.run c t) := by
  obtain ⟨ns, rfl, h⟩ := h
  obtain ⟨ms, hr, hm⟩ := Table.exists_wrapColumns h.reworked.clean c.layout
  rw [Stage.run, Stage.apply, hm]
  exact ⟨ms, rfl, h.step hr (by decide) (by decide) (h.styles.of_reworked hr hd) fun h' =>
    (h.links h').of_reworked hr (by decide)⟩

theorem eq_nil_of_editsFrom {c : Config} {index : Nat} {used : Image.Registry} {ks : List Tag}
    (h : Image.editsFrom c index used ks = .ok []) : ks = [] := by
  cases ks with
  | nil => rfl
  | cons k ks =>
    simp only [Image.editsFrom] at h
    split at h
    · obtain ⟨es, -, h⟩ := bind_eq_ok.1 h
      cases pure_eq_ok.1 h
    · obtain ⟨p, -, h⟩ := bind_eq_ok.1 h
      obtain ⟨as, -, h⟩ := bind_eq_ok.1 h
      obtain ⟨es, -, h⟩ := bind_eq_ok.1 h
      cases pure_eq_ok.1 h

theorem rewrites_nil {names : List Text} {ns : List Node} (h : chosen names ns = []) :
    Rewrites names ns [] ns := by
  induction ns with
  | nil => exact .nil
  | cons n ns ih =>
    rw [chosen_cons, List.append_eq_nil_iff, List.filter_eq_nil_iff] at h
    exact .pass (fun t ht => by simpa using h.1 t (by simp [ht])) (ih h.2)

theorem At.enhance {P' : List Tag → Prop} {c : Config} (hb : '<' ∉ c.imageBase) {t : Text}
    (h : At source P styled linked t) (hi : Image.name ∈ styled) (hs : styled' ⊆ styled)
    (hd : Image.name ∉ styled')
    (hp : ∀ ns es ms, IsClean ns → P (chosen [Image.name] ns) →
      Image.edits c (sources ns) = .ok es → Rewrites [Image.name] ns es ms →
      P' (chosen [Image.name] ms))
    (hf : (∃ u, Image.enhance c t = .ok u) ∨ ∀ ks, P ks → P' ks) :
    At source P' styled' linked (Stage.enhanceImages.run c t) := by
  rw [Stage.run]
  split
  · rename_i t' ha
    obtain ⟨ns, rfl, h⟩ := h
    have hw : ∀ k ∈ chosen Rewriter.enhanceImages.names ns, Rewriter.Wants k .enhanceImages := by
      intro k hk
      obtain ⟨h1, h2⟩ := (mem_chosen_iff (Rewriter.lower_names _) (Rewriter.names_ne_nil _)).1 hk
      refine h.styles k h1 ?_
      rwa [List.mem_singleton.1 h2]
    obtain ⟨es, ms, he, rfl, hr⟩ :=
      exists_rewrites_of_apply (r := .enhanceImages) hb h.reworked.clean hw ha
    have hr' : Rewrites [Image.name] ns es ms := by
      rcases hr with ⟨rfl, rfl⟩ | hr
      · refine rewrites_nil ?_
        rw [← map_toTag_tokens h.reworked.clean]
        exact eq_nil_of_editsFrom he
      · exact hr
    have hrw : Reworked [Image.name] ns ms :=
      hr'.reworked (by decide) (by simp) (List.Subset.refl _) h.reworked.clean
    refine ⟨ms, rfl, h.reworked.trans (hrw.mono (by decide)),
      hp ns es ms h.reworked.clean h.images he hr',
      (h.styles.mono hs).of_reworked hrw ?_, fun h' => (h.links h').of_reworked hrw (by decide)⟩
    intro n hn hm
    rw [List.mem_singleton.1 hm] at hn
    exact hd hn
  · rename_i f ha
    rcases hf with ⟨u, hu⟩ | hf
    · rw [Stage.apply, hu] at ha
      cases ha
    · obtain ⟨ns, rfl, h⟩ := h
      exact ⟨ns, rfl, h.reworked, hf _ h.images, h.styles.mono hs, h.links⟩

def earlyStages : List Stage :=
  [.stripHeights, .normalizeTables, .injectPreheader, .injectBalanceText]

def earlyText (c : Config) (source : Text) : Text := earlyStages.foldl (Stage.run c) source

theorem stagesOf_eq (c : Config) : Stage.stagesOf c = earlyStages ++ [.enhanceImages] ++
      ([.collapseImageCells] ++ (if c.wrapColumns then [.wrapColumns] else []) ++
        [.cleanColspans, .tagLinks]) ++
      [.tidyWhitespace, .propagateBackgrounds, .wrapDocument] := by
  cases h : c.wrapColumns <;> simp [Stage.stagesOf, Stage.all, earlyStages, h]

theorem at_first {c : Config} (hb : '<' ∉ c.imageBase) (hc : IsClean source)
    (hp : P (chosen [Image.name] source))
    (hs : PlainStyles [Table.name, Image.name, "td".toList] source) (hl : PlainLinks source) :
    At source P [Image.name, "td".toList] true (earlyText c (sources source)) := by
  have h0 : At source P [Table.name, Image.name, "td".toList] true (sources source) :=
    ⟨source, rfl, .refl hc, hp, hs, fun _ => hl⟩
  have h1 := h0.stripHeights hb (c := c)
  have h2 : At source P [Image.name, "td".toList] true _ :=
    h1.rewriter (r := .normalizeTables) hb (fun ns h k hk hn => h.styles k hk (by
      rw [List.mem_singleton.1 hn]
      exact List.mem_cons_self)) (by decide) (by decide) (by simp) (by decide)
      (fun _ => ⟨rfl, by decide⟩)
  exact (h2.injectPreheader (c := c)).injectBalance

theorem at_second {c : Config} (hb : '<' ∉ c.imageBase) {t : Text}
    (h : At source P ["td".toList] true t) :
    At source P [] false
      (([.collapseImageCells] ++ (if c.wrapColumns then [.wrapColumns] else []) ++
        [.cleanColspans, .tagLinks] : List Stage).foldl (Stage.run c) t) := by
  have h1 : At source P [] true (Stage.collapseImageCells.run c t) :=
    h.rewriter (r := .collapseImageCells) hb (fun ns h k hk hn => h.styles k hk hn) (by decide)
      (by decide) (by simp) (by simp) (fun _ => ⟨rfl, by decide⟩)
  have h2 : At source P [] true ((if c.wrapColumns then [Stage.wrapColumns] else []).foldl
      (Stage.run c) (Stage.collapseImageCells.run c t)) := by
    split
    · exact h1.wrapColumns (by simp)
    · exact h1
  have h3 : At source P [] true (Stage.cleanColspans.run c _) :=
    h2.rewriter (r := .cleanColspans) hb (fun _ _ _ _ _ => trivial) (by decide) (by decide)
      (by simp) (by simp) (fun _ => ⟨rfl, by decide⟩)
  have h4 : At source P [] false (Stage.tagLinks.run c _) :=
    h3.rewriter (r := .tagLinks) hb
      (fun ns h k hk hn => h.links rfl k hk (List.mem_singleton.1 hn)) (by decide) (by decide)
      (by simp) (by simp) (by simp)
  simpa using h4

end MailMarkup.Run
