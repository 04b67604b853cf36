import MailMarkup.Proofs.Markup.AttributeRevision

namespace MailMarkup.Markup

open Text

namespace Attributes

variable {as bs : Attributes} {dropped : List Text}

theorem parse_styleText_of_dropEmptyStyle (h : as.dropEmptyStyle = .ok bs) :
    Style.parse bs.styleText = Style.parse as.styleText := by
  obtain ⟨s, hs, h⟩ := bind_eq_ok.1 h
  rw [← pure_eq_ok.1 h]
  split
  · rename_i he
    have hnone : styleText (as.remove "style".toList) = [] := by
      rw [styleText, get?_remove_self]
      rfl
    rw [hnone, hs, List.isEmpty_iff.1 he]
    rfl
  · rfl

theorem filter_dropEmptyStyle {p : Attribute → Bool}
    (hp : ∀ a, p a = true → a.key ≠ lower "style".toList) (h : as.dropEmptyStyle = .ok bs) :
    bs.filter p = as.filter p := by
  obtain ⟨s, -, h⟩ := bind_eq_ok.1 h
  rw [← pure_eq_ok.1 h]
  split
  · exact filter_remove hp as
  · rfl

theorem filter_leaving {p : Attribute → Bool}
    (hp : ∀ a, p a = true → ∀ n ∈ dropped, a.key ≠ lower n) (as : Attributes) :
    (leaving dropped as).filter p = as.filter p := by
  rw [leaving, List.filter_filter]
  refine List.filter_congr ?_
  intro a _
  cases ha : p a with
  | false => rfl
  | true => simpa using hp a ha

theorem revise_dropped (as : Attributes) (dropped : List Text) :
    as.revise [] none dropped = (leaving dropped as).dropEmptyStyle := by
  rw [revise, foldl_remove_eq_leaving]
  rfl

end Attributes

end MailMarkup.Markup

namespace MailMarkup.Table

open Text Markup

variable {l : Layout} {as bs : Attributes} {dropped : List Text}

theorem normalStyle_congr {s t : Text} (h : Style.parse s = Style.parse t) :
    normalStyle l s = normalStyle l t := by
  rw [normalStyle, normalStyle, h]

theorem normalAttributes_eq_map (l : Layout) (as : Attributes) :
    normalAttributes l as =
      (normalStyle l as.styleText).map (normalList l (as.filter (keeps ·.key))) := by
  cases hs : normalStyle l as.styleText with
  | error e =>
    rw [normalAttributes, hs]
    rfl
  | ok s => exact normalAttributes_eq l hs

theorem normalTag_render {t : Text} (hl : bs.IsLegal)
    (hkept : bs.filter (keeps ·.key) = (Attributes.parse t).filter (keeps ·.key))
    (hstyle : Style.parse bs.styleText = Style.parse (Attributes.parse t).styleText) :
    normalTag l bs.render = normalTag l t := by
  have hread : normalStyle l (Attributes.styleText (bs.map Attributes.written)) =
      normalStyle l (Attributes.parse t).styleText := by
    refine normalStyle_congr (Eq.trans ?_ hstyle)
    rw [Attributes.styleText_map_written, Style.parse_escapeQuotes]
  have hfilter : List.filter (keeps ·.key) (bs.map Attributes.written) =
      ((Attributes.parse t).filter (keeps ·.key)).map Attributes.written := by
    rw [Attributes.filter_map_written fun _ => rfl, hkept]
  rw [normalTag, normalTag, Attributes.parse_render hl, normalAttributes_eq_map,
    normalAttributes_eq_map, hread, hfilter]
  cases normalStyle l (Attributes.parse t).styleText with
  | error e => rfl
  | ok s =>
    have hrender := render_normalList_map_written l ((Attributes.parse t).filter (keeps ·.key)) s
    exact congrArg (fun r => Except.ok ('<' :: name ++ r ++ ['>'])) hrender

theorem normalTag_revise (h : ∀ n ∈ dropped, keeps (lower n) = false)
    (hs : ∀ n ∈ dropped, lower n ≠ "style".toList) (t : Text) :
    (do normalTag l (← (Attributes.parse t).revise [] none dropped).render) = normalTag l t := by
  have hkeeps : ∀ a : Attribute, keeps a.key = true → ∀ n ∈ dropped, a.key ≠ lower n := by
    intro a ha n hn hk
    rw [hk, h n hn] at ha
    cases ha
  have hnames : ∀ a : Attribute, (a.key == "style".toList) = true →
      ∀ n ∈ dropped, a.key ≠ lower n := by
    intro a ha n hn hk
    exact hs n hn (hk.symm.trans (eq_of_beq ha))
  have hstyle : (Attributes.leaving dropped (.parse t)).styleText =
      (Attributes.parse t).styleText :=
    Attributes.styleText_congr (Attributes.filter_leaving hnames _)
  rw [Attributes.revise_dropped]
  cases hd : (Attributes.leaving dropped (.parse t)).dropEmptyStyle with
  | ok bs =>
    have hl : bs.IsLegal := ((Attributes.isLegal_parse t).filter _).dropEmptyStyle hd
    refine normalTag_render hl ?_ ?_
    · refine (Attributes.filter_dropEmptyStyle ?_ hd).trans (Attributes.filter_leaving hkeeps _)
      intro a ha hk
      rw [hk, keeps_style] at ha
      cases ha
    · rw [Attributes.parse_styleText_of_dropEmptyStyle hd, hstyle]
  | error e =>
    -- the style that stops the one stops the other
    have hparse : Style.parse (Attributes.parse t).styleText = .error e := by
      rcases bind_eq_error.1 hd with he | ⟨s, -, he⟩
      · rw [← hstyle]
        exact he
      · cases he
    rw [normalTag, normalAttributes_eq_map, normalStyle, hparse]
    rfl

/-- A table tag without its height has the normal tag that it had with it, and where the style of
the one cannot be read, neither can that of the other. -/
theorem normalTag_without_height (l : Layout) (t : Text) :
    (do normalTag l (← (Attributes.parse t).revise [] none ["height".toList]).render) =
      normalTag l t := by
  refine normalTag_revise ?_ ?_ t
  · decide
  · decide

end MailMarkup.Table
