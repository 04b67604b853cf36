import MailMarkup.Proofs.Document.Shell
import MailMarkup.Proofs.Markup.TagOrder
import MailMarkup.Proofs.Run.LateStages
import MailMarkup.Run.Examination

namespace MailMarkup.Text

inductive InOrder : List Text → Text → Prop
  | nil (t : Text) : InOrder [] t
  | cons (s c : Text) {cs : List Text} {t : Text} (h : InOrder cs t) :
    InOrder (c :: cs) (s ++ (c ++ t))

namespace InOrder

theorem behind {cs : List Text} {t : Text} (h : InOrder cs t) (s : Text) :
    InOrder cs (s ++ t) := by
  cases h with
  | nil => exact .nil _
  | cons s' c h =>
    rw [← List.append_assoc]
    exact .cons _ c h

theorem next {cs : List Text} {t : Text} (h : InOrder cs t) (d : Char) : InOrder cs (d :: t) :=
  h.behind [d]

theorem append {cs ds : List Text} {t u : Text} (h : InOrder cs t) (h' : InOrder ds u) :
    InOrder (cs ++ ds) (t ++ u) := by
  induction h with
  | nil t => exact h'.behind t
  | cons s c h ih =>
    rw [List.append_assoc, List.append_assoc]
    exact .cons s c ih

theorem before {cs : List Text} {t : Text} (h : InOrder cs t) (u : Text) :
    InOrder cs (t ++ u) := by
  simpa using h.append (.nil u)

end InOrder

end MailMarkup.Text

namespace MailMarkup.Markup

open Text Spacing

end MailMarkup.Markup

namespace MailMarkup.Document

open Text Markup Spacing

end MailMarkup.Document

namespace MailMarkup.Markup

open Text

end MailMarkup.Markup

namespace MailMarkup.Run

open Text Markup Spacing Document

structure IsOrderly (source : List Node) : Prop where
  clean : IsClean source
  guarded : isGuarded source = true
  styles : PlainStyles [Table.name, Image.name, "td".toList] source
  links : PlainLinks source

theorem exists_stages {P Q : List Tag → Prop} {c : Config} (hb : '<' ∉ c.imageBase)
    {source : List Node} (h : IsOrderly source) (hs : P (chosen [Image.name] source))
    (hp : ∀ ns es ms, IsClean ns → P (chosen [Image.name] ns) →
      Image.edits c (sources ns) = .ok es → Rewrites [Image.name] ns es ms →
      Q (chosen [Image.name] ms))
    (hf : (∃ u, Image.enhance c (earlyText c (sources source)) = .ok u) ∨ ∀ ks, P ks → Q ks) :
    ∃ ns ms ks, lateText c (sources source) = sources ks ∧ Between source Q [] false ns ∧
      Spaced Eq Tidied ns ms ∧ Reworked ["td".toList] ms ks := by
  have h1 := at_first hb h.clean hs h.styles h.links
  have h2 : At source Q ["td".toList] true (Stage.enhanceImages.run c _) :=
    h1.enhance hb (by simp) (by simp) (by decide) hp hf
  have h3 := at_second hb h2
  obtain ⟨ns, ms, ks, hn, hs, hr, ht⟩ := exists_late hb h.clean h.guarded h3
  exact ⟨ns, ms, ks, (lateText_eq c _).trans ht, hn, hs, hr⟩

end MailMarkup.Run
