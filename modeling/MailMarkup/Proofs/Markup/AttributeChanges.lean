import MailMarkup.Proofs.Markup.AttributeReading
import MailMarkup.Proofs.Markup.AttributeSpelling

namespace MailMarkup.Markup

open Text

namespace Attributes

inductive Change where
  | set (name : Text) (value : Option Text)
  | remove (name : Text)

def Change.isLegal : Change → Bool
  | set name _ => isLegalName name
  | remove _ => true

def Change.apply (as : Attributes) : Change → Attributes
  | set name value => as.set name value
  | remove name => as.remove name

def changed (t : Text) (cs : List Change) : Attributes := cs.foldl Change.apply (parse t)

theorem IsLegal.apply {as : Attributes} (h : as.IsLegal) {c : Change} (hc : c.isLegal = true) :
    (c.apply as).IsLegal := by
  cases c with
  | set name value => exact All.set h hc
  | remove name => exact All.remove h name

theorem IsLegal.foldl_apply {as : Attributes} (h : as.IsLegal) {cs : List Change}
    (hc : ∀ c ∈ cs, c.isLegal = true) : (cs.foldl Change.apply as).IsLegal := by
  induction cs generalizing as with
  | nil => exact h
  | cons c cs ih =>
    have hstep : (c.apply as).IsLegal := h.apply (hc c List.mem_cons_self)
    exact ih hstep fun d hd => hc d (List.mem_cons_of_mem _ hd)

theorem isLegal_changed (t : Text) {cs : List Change} (hc : ∀ c ∈ cs, c.isLegal = true) :
    (changed t cs).IsLegal :=
  (isLegal_parse t).foldl_apply hc

end Attributes

theorem tokens_openTag {name : Text} (hn : isName name = true) {as : Attributes}
    (h : as.IsLegal) :
    tokens [] (openTag name as) =
      [{ name := name.map Char.toLower, attrs := as.render, closing := false, selfClosing := false,
         start := 0, stop := (openTag name as).length }] := by
  rw [openTag_eq_tagText, tokens_tagText (isTag_render hn h), ofBody_render h]

namespace Attributes

/-- Attributes after any changes are read back from their rendering, with quotes in the values as
references; the cell tag made of them is one token, and its values decode as they did. -/
theorem changed_read_back (t : Text) {cs : List Change} (hc : ∀ c ∈ cs, c.isLegal = true) :
    parse (changed t cs).render =
        (changed t cs).map (fun a => ⟨a.name, a.value.map escapeQuotes⟩) ∧
      tokens [] ("<td".toList ++ (changed t cs).render ++ ['>']) =
        [{ name := "td".toList, attrs := (changed t cs).render, closing := false,
           selfClosing := false, start := 0,
           stop := ("<td".toList ++ (changed t cs).render ++ ['>']).length }] ∧
      ∀ a ∈ changed t cs, ∀ v, a.value = some v →
        Entity.decode (escapeQuotes v) = Entity.decode v := by
  have hl : (changed t cs).IsLegal := isLegal_changed t hc
  refine ⟨parse_render hl, ?_, fun a _ v _ => Entity.decode_escapeQuotes v⟩
  have hname : isName "td".toList = true := by decide
  exact tokens_openTag hname hl

def cellChanges : List Change := [
  .set "Title".toList (some "fish".toList), .remove "B".toList,
  .set "title".toList (some "fish &amp\"chips /".toList), .set "nowrap".toList none]

theorem changed_read_back_beside_half_reference :
    (∀ c ∈ cellChanges, c.isLegal = true) ∧
      parse " a=\"1>2&quot;\" nowrap title=\"fish &amp&quot;chips /\"".toList =
        [⟨"a".toList, some "1>2&quot;".toList⟩, ⟨"nowrap".toList, none⟩,
          ⟨"title".toList, some "fish &amp&quot;chips /".toList⟩] ∧
      (tokens [] "<td a=\"1>2&quot;\" nowrap title=\"fish &amp&quot;chips /\">".toList).map
        (·.stop) = [56] ∧
      Entity.decode "fish &amp&quot;chips /".toList = .ok "fish &\"chips /".toList := by
  have hlegal : ∀ c ∈ cellChanges, c.isLegal = true := by decide
  have hc : changed "a='1>2\"' b nowrap=x".toList cellChanges =
      [⟨"a".toList, some "1>2\"".toList⟩, ⟨"nowrap".toList, none⟩,
        ⟨"title".toList, some "fish &amp\"chips /".toList⟩] := by
    decide
  obtain ⟨hp, ht, hd⟩ := changed_read_back "a='1>2\"' b nowrap=x".toList hlegal
  rw [hc] at hp ht hd
  refine ⟨hlegal, hp, (congrArg (List.map (·.stop)) ht).trans (by decide), ?_⟩
  exact (hd ⟨"title".toList, some "fish &amp\"chips /".toList⟩ (by simp) _ rfl).trans
    (by decide)

end Attributes

end MailMarkup.Markup
