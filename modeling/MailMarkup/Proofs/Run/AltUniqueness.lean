import MailMarkup.Proofs.Image.Openings
import MailMarkup.Proofs.Run.Comments

namespace MailMarkup.Run

open Text Markup Spacing Document Image

theorem exists_described {c : Config} (hb : '<' ∉ c.imageBase) {source : List Node}
    (h : IsOrderly source)
    (he : ∃ out, Image.enhance c (earlyText c (sources source)) = .ok out) :
    ∃ ks, lateText c (sources source) = sources ks ∧ IsClean ks ∧
      List.Forall₂ (Respelled Eq Tidied) (skeleton earlyNames source) (skeleton earlyNames ks) ∧
      AreDescribed (∀ k ∈ openingsOf source, HasOneLine k) (openingsOf ks) := by
  obtain ⟨ns, ms, ks, ht, hn, hs, hr⟩ := exists_stages (P := (· = chosen [Image.name] source))
    (Q := fun L => AreDescribed (∀ k ∈ openingsOf source, HasOneLine k) (L.filter (!·.closing)))
    hb h rfl (fun ns es ms hc hp he hr => by
      have := areDescribed_of_edits hc he hr
      rwa [openingsOf, hp] at this) (.inl he)
  refine ⟨ks, ht, hr.clean, respelled_late hn hs hr, ?_⟩
  have hk : openingsOf ks = openingsOf ms := by
    rw [openingsOf, openingsOf, hr.chosen_eq (by decide) (by simp) (by decide)]
  have hm := forall₂_openingsOf hs.firm
  rw [openingsOf_skeleton, openingsOf_skeleton] at hm
  rw [hk]
  exact AreDescribed.respelled keepsLines_tidied hn.images hm

/-- The images of a formatted source are described, and apart if the author's texts are one line
each. -/
theorem image_alts_apart (analyze : Report.Analysis) {c : Config} (hb : '<' ∉ c.imageBase)
    {source : List Node} (h : IsOrderly source)
    (hi : isFull (sources source) = true ∨ areInert source = true)
    (hn : allBlank (sources source) = false) :
    ∃ r, formatBy analyze c (sources source) = .ok r ∧ (.enhanceImages ∈ r.completed →
      (∀ k ∈ openings r.html, ∃ a, alt? k = some a ∧ a ≠ []) ∧
      ((∀ k ∈ openings (sources source), HasOneLine k) →
        ((openings r.html).map fun k => (alt? k).map lower).Nodup)) := by
  obtain ⟨r, hf, hh, -⟩ := format_eq (c := c) hn
  refine ⟨r, hf, fun hm => ?_⟩
  obtain ⟨ks, hk, hc, hr, hd⟩ :=
    exists_described hb h ((enhanceImages_mem_completed_iff hn hf).1 hm)
  have hp := sameParts isSpacing_tidied ⟨by decide, by decide, by decide⟩ hr
  have hi : isFull (sources ks) = true ∨ areInert ks = true := by
    rw [isFull_eq (by decide) (by decide) h.clean hc hr, areInert_eq, hp.comments, ← areInert_eq]
    exact hi
  have hdone : AreDescribed (∀ k ∈ openingsOf source, HasOneLine k) (openings r.html) := by
    rw [hh, hk, Stage.run]
    split
    · rename_i out ho
      exact areDescribed_complete hc hi hd ho
    · rwa [openings_sources hc]
  rw [openings_sources h.clean]
  refine ⟨fun k hk => ?_, hdone.apart⟩
  obtain ⟨a, hne, ha, -⟩ := hdone.shown k hk
  exact ⟨a, alt?_of_shows ha, hne⟩

def likeImages : List Node := [
  .tag false "img".toList " alt=\"Hero\"".toList,
  .tag false "img".toList " src=\"hero.png\"".toList, .tag false "a".toList " href=\"#\"".toList,
  .tag false "img".toList " alt=\" HERO\"".toList,
  .tag false "img".toList " src=\"7.png\" alt=\"email content image 5\"".toList,
  .tag false "img".toList " src=\"8.png\"".toList]

theorem like_image_alts_apart : ∃ r, format plainConfig (sources likeImages) = .ok r ∧
    ((openings r.html).map fun k => (alt? k).map lower).Nodup := by
  have hs : ∀ k ∈ tagsOf likeImages, k.HasPlainStyle := by decide
  have hl : ∀ k ∈ tagsOf likeImages, k.HasPlainLink := by decide
  have ho : IsOrderly likeImages :=
    ⟨by decide, by decide, fun k hk _ => hs k hk, fun k hk _ => hl k hk⟩
  obtain ⟨r, hr, h⟩ := image_alts_apart Report.analyze (c := plainConfig) (by decide) ho
    (.inr (by decide)) (by decide)
  refine ⟨r, hr, (h ((enhanceImages_mem_completed_iff (by decide) hr).2 ?_)).2
    (by decide +kernel)⟩
  have hdone : (Image.enhance plainConfig (earlyText plainConfig (sources likeImages))).isOk =
      true := by decide +kernel
  cases he : Image.enhance plainConfig (earlyText plainConfig (sources likeImages)) with
  | ok out => exact ⟨out, rfl⟩
  | error e =>
    rw [he] at hdone
    cases hdone

def spacedImages : Text := "<img alt=\"a  b\"><img alt=\"a b\">".toList

def meetingImage : Node := .tag false "img".toList
  (" alt=\"a b\" style=\"".toList ++ (baseStyle.render ++ ['"']))

theorem spaced_image_alts_meet :
    ¬ ∀ (analyze : Report.Analysis) (c : Config) (source : Text) (r : Result),
      allBlank source = false → formatBy analyze c source = .ok r → r.completed = Stage.stagesOf c →
        (∀ k ∈ openings r.html, ∃ a, alt? k = some a ∧ a ≠ []) ∧
        ((openings r.html).map fun k => (alt? k).map lower).Nodup := by
  intro h
  have hl : lateText plainConfig spacedImages = sources [meetingImage, meetingImage] := by
    decide +kernel
  have hall : completed (runSteps (Stage.apply plainConfig) (Stage.stagesOf plainConfig)
      spacedImages).2 = Stage.stagesOf plainConfig := by decide +kernel
  obtain ⟨r, hf, hh, hw⟩ := @format_eq Report.analyze plainConfig spacedImages (by decide)
  have hr := (completed_format (by decide) hf).trans hall
  obtain ⟨out, ho⟩ := hw.1 (hr ▸ by decide)
  rw [Stage.run, Stage.apply, ho] at hh
  have hd := (h Report.analyze plainConfig spacedImages r (by decide) hf hr).2
  rw [hl, complete, if_neg (by decide +kernel)] at ho
  obtain ⟨ks, hk, hout⟩ := @exists_openings_wrapped [meetingImage, meetingImage] _
    (by decide +kernel) (by decide) ho
  obtain rfl : ks = [] := List.forall₂_nil_left_iff.1 hk
  rw [hh, hout] at hd
  revert hd
  decide +kernel

end MailMarkup.Run
