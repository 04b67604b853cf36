import MailMarkup.Proofs.Entity.References
import MailMarkup.Proofs.Markup.AttributeReading
import MailMarkup.Proofs.Run.PlainValues

namespace MailMarkup.Run

open Text Markup

theorem isQuiet_of_mem_chosen {names : List Text} {ns : List Node} (hc : IsClean ns) {k : Tag}
    (h : k ∈ chosen names ns) : (Attributes.parse k.attrs).IsQuiet := by
  obtain ⟨n, hn, ht⟩ := List.mem_filterMap.1 (List.mem_filter.1 h).1
  cases n with
  | tag closing name body =>
    obtain rfl := Option.some.inj ht
    exact isQuiet_of_isValid (hc _ hn)
  | _ => simp [Node.tag?] at ht

theorem Rewriter.lower_names (r : Rewriter) : ∀ n ∈ r.names, lower n = n := by
  cases r <;> decide

theorem Rewriter.names_ne_nil (r : Rewriter) : r.names ≠ [] := by
  cases r <;> simp [Rewriter.names]

theorem exists_rewrites_of_apply {r : Rewriter} {c : Config} (hb : '<' ∉ c.imageBase)
    {ns : List Node} (hc : IsClean ns) (hw : ∀ k ∈ chosen r.names ns, r.Wants k) {out : Text}
    (h : r.stage.apply c (sources ns) = .ok out) :
    ∃ es ms, r.edits c (sources ns) = .ok es ∧ out = sources ms ∧
      (es = [] ∧ ms = ns ∨ Rewrites r.names ns es ms) := by
  rw [r.apply_stage] at h
  cases he : r.edits c (sources ns) with
  | error f => simp [he, Except.map] at h
  | ok es =>
    simp only [he, Except.map, Except.ok.injEq] at h
    by_cases hes : es = []
    · subst hes
      exact ⟨[], ns, rfl, by rw [← h, editTags_nil], .inl ⟨rfl, rfl⟩⟩
    · have hf := Rewriter.forall₂_written (P := Attributes.IsQuietOne) he hes fun k hk => by
        have hm : k.toTag ∈ chosen r.names ns := by
          rw [← map_toTag_tokens hc]
          exact List.mem_map_of_mem hk
        have hq := isQuiet_of_mem_chosen hc hm
        exact ⟨hq, Rewriter.suits_plain hb hq (hw _ hm)⟩
      obtain ⟨ms, hr, hm⟩ := exists_editTags hc hf
      exact ⟨es, ms, rfl, by rw [← h, hm], .inr hr⟩

theorem exists_reworked_of_apply {r : Rewriter} {c : Config} (hb : '<' ∉ c.imageBase)
    {ns : List Node} (hc : IsClean ns) (hw : ∀ k ∈ chosen r.names ns, r.Wants k) {out : Text}
    (h : r.stage.apply c (sources ns) = .ok out) :
    ∃ ms, Reworked r.names ns ms ∧ out = sources ms := by
  obtain ⟨es, ms, -, hm, ⟨-, rfl⟩ | hr⟩ := exists_rewrites_of_apply hb hc hw h
  · exact ⟨ms, .refl hc, hm⟩
  · exact ⟨ms, hr.reworked r.lower_names r.names_ne_nil (List.Subset.refl _) hc, hm⟩

end MailMarkup.Run

namespace MailMarkup.Markup

open Text

structure IsFiller (names : List Text) (n : Node) : Prop where
  valid : n.isValid = true
  soft : n.isFirm names = false

theorem Grown.reworked_filler {names : List Text} {P : Node → Prop}
    (hp : ∀ n, P n → IsFiller names n) {ns ms : List Node} (h : Grown P ns ms)
    (hc : IsClean ns) : Reworked names ns ms :=
  h.reworked (fun n hn => ⟨(hp n hn).valid, (hp n hn).soft⟩) hc

theorem isFiller_char {names : List Text} {c : Char} (h : c ≠ '<') :
    IsFiller names (.char c) := ⟨by simpa [Node.isValid] using h, rfl⟩

theorem sources_rendered (name : Text) (as : Attributes) :
    sources [.tag false name as.render] = openTag name as := by
  rw [sources_cons, openTag_eq_tagText]
  exact List.append_nil _

end MailMarkup.Markup

namespace MailMarkup.HiddenText

open Text Markup

def rowNames : List Text := ["tr".toList, "td".toList, "div".toList]

def hiddenCell : Node := .tag false "td".toList " style=\"padding:0;\"".toList

def hiddenBlock : Node := .tag false "div".toList (" style=\"".toList ++ style ++ "\"".toList)

def rowNodes (t : Text) : List Node :=
  [.tag false "tr".toList [], hiddenCell, hiddenBlock] ++ (escapeHtml t).map .char ++
    [.tag true "div".toList [], .tag true "td".toList [], .tag true "tr".toList []]

theorem sources_rowNodes (t : Text) : sources (rowNodes t) = row t := by
  have h1 : sources [.tag false "tr".toList [], hiddenCell, hiddenBlock] = rowOpening := by
    decide +kernel
  have h2 : sources [.tag true "div".toList [], .tag true "td".toList [],
      .tag true "tr".toList []] = rowClosing := by decide
  rw [rowNodes, sources_append, sources_append, sources_map_char, h1, h2, row]

def IsPlainFiller (n : Node) : Prop :=
  IsFiller rowNames n ∧ ∀ k, n.tag? = some k → k.HasPlainStyle

theorem isPlainFiller_tag {n : Node} {k : Tag} (hk : n.tag? = some k) (hv : n.isValid = true)
    (hs : n.isFirm rowNames = false) (hp : k.HasPlainStyle) : IsPlainFiller n :=
  ⟨⟨hv, hs⟩, fun _ hk' => Option.some.inj (hk.symm.trans hk') ▸ hp⟩

theorem isPlainFiller_rowNodes (t : Text) : ∀ n ∈ rowNodes t, IsPlainFiller n := by
  intro n hn
  rw [rowNodes, List.mem_append, List.mem_append] at hn
  rcases hn with (hn | hn) | hn
  · simp only [List.mem_cons, List.not_mem_nil, or_false] at hn
    rcases hn with rfl | rfl | rfl
    all_goals exact isPlainFiller_tag rfl (by decide +kernel) (by decide) (by decide +kernel)
  · obtain ⟨c, hc, rfl⟩ := List.mem_map.1 hn
    refine ⟨isFiller_char ?_, by simp [Node.tag?]⟩
    rintro rfl
    exact not_mem_escapeHtml (by decide) t hc
  · simp only [List.mem_cons, List.not_mem_nil, or_false] at hn
    rcases hn with rfl | rfl | rfl
    all_goals exact isPlainFiller_tag rfl (by decide) (by decide) (by decide)

theorem exists_insertBehind {ns : List Node} (hc : IsClean ns) {names : List Text}
    {place : Option Token} (hp : ∀ k, place = some k → k ∈ tokens names (sources ns))
    (t : Text) :
    ∃ ms, Grown IsPlainFiller ns ms ∧ insertBehind place (sources ns) t = sources ms := by
  cases place with
  | none => exact ⟨ns, .refl _ ns, rfl⟩
  | some k =>
    obtain ⟨ms, hg, hm⟩ := exists_insert (isPlainFiller_rowNodes (trim t))
      (isBoundary_of_mem_tokens hc (hp k rfl)).2
    exact ⟨ms, hg, by rw [insertBehind, ← sources_rowNodes, hm]⟩

theorem exists_injectPreheader {ns : List Node} (hc : IsClean ns) (t : Text) :
    ∃ ms, Grown IsPlainFiller ns ms ∧ injectPreheader (sources ns) t = sources ms := by
  rw [injectPreheader]
  split
  · exact ⟨ns, .refl _ ns, rfl⟩
  · exact exists_insertBehind hc (fun k hk => List.mem_of_find?_eq_some hk) t

theorem exists_injectBalance {ns : List Node} (hc : IsClean ns) (t : Text) :
    ∃ ms, Grown IsPlainFiller ns ms ∧ injectBalance (sources ns) t = sources ms := by
  rw [injectBalance]
  split
  · exact ⟨ns, .refl _ ns, rfl⟩
  · rw [balancePlace?]
    cases hr : findTag? (sources ns) "tr".toList true 0 with
    | some k =>
      exact exists_insertBehind hc (fun k' hk => by
        cases hk
        exact List.mem_of_find?_eq_some hr) t
    | none => exact exists_insertBehind hc (fun k hk => List.mem_of_find?_eq_some hk) t

end MailMarkup.HiddenText

namespace MailMarkup.Table

open Text Markup

def wrapperNames : List Text := ["table".toList, "tr".toList, "td".toList]

def Row.IsPlaced (P : Nat → Prop) (r : Row) : Prop := P r.start ∧ ∀ s, r.stop = some s → P s

namespace Walk

variable {P : Nat → Prop} {w : Walk}

theorem isPlaced_modify {rs : List Row} (h : ∀ r ∈ rs, r.IsPlaced P) {f : Row → Row}
    (hf : ∀ r, r.IsPlaced P → (f r).IsPlaced P) (i : Nat) :
    ∀ r ∈ rs.modify i f, r.IsPlaced P := by
  intro r hr
  obtain ⟨j, hj, rfl⟩ := List.mem_iff_getElem.1 hr
  rw [List.getElem_modify]
  split
  · exact hf _ (h _ (List.getElem_mem _))
  · exact h _ (List.getElem_mem _)

theorem isPlaced_step (h : ∀ r ∈ w.rows, r.IsPlaced P) {t : Token} (hs : P t.start)
    (he : P t.stop) : ∀ r ∈ (w.step t).rows, r.IsPlaced P := by
  unfold step
  split
  · split
    · exact h
    · exact h
  · split
    · split
      · unfold closeRow
        split
        · refine isPlaced_modify h (f := fun r => { r with stop := some t.stop }) ?_ _
          exact fun r hr => ⟨hr.1, fun s hs' => Option.some.inj hs' ▸ he⟩
        · exact h
      · unfold openRow
        split
        · exact h
        · intro r hr
          rcases List.mem_append.1 hr with hr | hr
          · exact h r hr
          · obtain rfl := List.mem_singleton.1 hr
            exact ⟨hs, by simp⟩
    · split
      · exact h
      · unfold openCell
        split
        · refine isPlaced_modify h (fun r hr => ?_) _
          exact ⟨hr.1, hr.2⟩
        · exact h

theorem isPlaced_foldl {ts : List Token} (h : ∀ r ∈ w.rows, r.IsPlaced P)
    (ht : ∀ t ∈ ts, P t.start ∧ P t.stop) : ∀ r ∈ (ts.foldl step w).rows, r.IsPlaced P := by
  induction ts generalizing w with
  | nil => exact h
  | cons t ts ih =>
    have hp := ht t List.mem_cons_self
    exact ih (isPlaced_step h hp.1 hp.2) fun u hu => ht u (List.mem_cons_of_mem _ hu)

end Walk

theorem isPlaced_rows {ns : List Node} (hc : IsClean ns) :
    ∀ r ∈ rows (sources ns), r.IsPlaced (IsBoundary ns) :=
  Walk.isPlaced_foldl (by simp [Walk.start]) fun _ ht => isBoundary_of_mem_tokens hc ht

def paddedCell : Node := .tag false "td".toList " style=\"padding:0;\"".toList

def newAttributes (l : Layout) : Attributes :=
  forcedAttributes l ++ [⟨"style".toList, some (containerStyle l).render⟩]

def openingNodes (l : Layout) : List Node :=
  [.tag false "tr".toList [], paddedCell, .tag false name (newAttributes l).render]

def closingNodes : List Node :=
  [.tag true "table".toList [], .tag true "td".toList [], .tag true "tr".toList []]

theorem isQuiet_newAttributes (l : Layout) : (newAttributes l).IsQuiet :=
  (isQuiet_forcedAttributes l).append (.singleton (isQuietOne_style (isPlain_containerStyle l)))

theorem sources_openingNodes (l : Layout) : sources (openingNodes l) = wrapperOpening l := by
  have h1 : sources [.tag false "tr".toList [], paddedCell] =
      "<tr><td style=\"padding:0;\">".toList := by decide
  have h3 : sources [.tag false name (newAttributes l).render] = newTag l :=
    sources_rendered name (newAttributes l)
  have h2 := sources_append [.tag false "tr".toList [], paddedCell]
      [.tag false name (newAttributes l).render]
  rw [h1, h3] at h2
  exact h2

theorem sources_closingNodes : sources closingNodes = wrapperClosing := by decide

theorem isFiller_openingNodes (l : Layout) : ∀ n ∈ openingNodes l, IsFiller wrapperNames n := by
  intro n hn
  simp only [openingNodes, List.mem_cons, List.not_mem_nil, or_false] at hn
  rcases hn with rfl | rfl | rfl
  · exact ⟨by decide, by decide⟩
  · exact ⟨by decide, by decide⟩
  · exact ⟨isValid_render (by decide) (isQuiet_newAttributes l), rfl⟩

theorem isFiller_closingNodes : ∀ n ∈ closingNodes, IsFiller wrapperNames n := by
  intro n hn
  simp only [closingNodes, List.mem_cons, List.not_mem_nil, or_false] at hn
  rcases hn with rfl | rfl | rfl
  all_goals exact ⟨by decide, by decide⟩

theorem fitting_wrapper {ns : List Node} {l : Layout} {r : Row} (h : r.IsPlaced (IsBoundary ns)) :
    ∀ i ∈ wrapper l r, Fitting (IsFiller wrapperNames) ns i := by
  intro i hi
  simp only [wrapper, List.mem_cons, List.not_mem_nil, or_false] at hi
  rcases hi with rfl | rfl
  · exact ⟨⟨r.start, rfl, h.1⟩, _, isFiller_openingNodes l, (sources_openingNodes l).symm⟩
  · refine ⟨⟨r.stop.getD r.start, rfl, ?_⟩, _, isFiller_closingNodes, sources_closingNodes.symm⟩
    cases hs : r.stop with
    | none => exact h.1
    | some s => exact h.2 s hs

theorem exists_wrapColumns {ns : List Node} (hc : IsClean ns) (l : Layout) :
    ∃ ms, Reworked wrapperNames ns ms ∧ wrapColumns l (sources ns) = sources ms := by
  have hf : ∀ i ∈ (wrappedRows (sources ns)).flatMap (wrapper l),
      Fitting (IsFiller wrapperNames) ns i := by
    intro i hi
    obtain ⟨r, hr, hi⟩ := List.mem_flatMap.1 hi
    exact fitting_wrapper (isPlaced_rows hc r (List.mem_filter.1 hr).1) i hi
  obtain ⟨ms, hg, hm⟩ := exists_splice hf
  exact ⟨ms, hg.reworked_filler (fun _ h => h) hc, hm⟩

end MailMarkup.Table
