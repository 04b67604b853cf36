import MailMarkup.Proofs.Document.Declarations
import MailMarkup.Proofs.Entity.References
import MailMarkup.Proofs.Run.TagReplacement

namespace MailMarkup.Text

theorem trimEnd_append_cons {c : Char} (h : isBlank c = false) (s t : Text) :
    trimEnd (s ++ c :: t) = s ++ c :: trimEnd t := by
  simp [trimEnd, dropEndWhile, Spacing.dropWhile_append_cons h]

theorem trimEnd_append {s : Text} (hs : s ≠ []) (hb : ∀ c ∈ s, isBlank c = false) (t : Text) :
    trimEnd (s ++ t) = s ++ trimEnd t := by
  have hlast := hb _ (List.getLast_mem hs)
  rw [← List.dropLast_append_getLast hs, List.append_assoc, List.singleton_append,
    trimEnd_append_cons hlast, List.append_assoc, List.singleton_append]

end MailMarkup.Text

namespace MailMarkup.Link

open Text Markup

structure IsSpecial (k : Tag) (href beginning : Text) : Prop where
  opens : k.closing = false
  has : (Attributes.parse k.attrs).get? "href".toList = some href
  skipped : beginning ∈ skippedBeginnings
  begins : ∃ d, Entity.decode href = .ok d ∧ startsFolded beginning (trim d) = true

theorem skippedBeginnings_spec :
    ∀ b ∈ skippedBeginnings, b ≠ [] ∧ ∀ p ∈ b, Spacing.endsWith p = false := by
  have hall : skippedBeginnings.all (fun b => !b.isEmpty && !b.any Spacing.endsWith) = true := by
    decide
  intro b hb
  have := List.all_eq_true.1 hall b hb
  simp only [Bool.and_eq_true, Bool.not_eq_true', List.isEmpty_eq_false_iff] at this
  exact ⟨this.1, forall_eq_false this.2⟩

theorem exists_of_startsFolded {b t : Text} (hb : b ∈ skippedBeginnings)
    (h : startsFolded b t = true) :
    ∃ v r, t = v ++ r ∧ v.length = b.length ∧ (∀ c ∈ v, isBlank c = false) ∧
      ∀ u, startsFolded b (v ++ u) = true := by
  obtain ⟨r, hr⟩ := Option.isSome_iff_exists.1 h
  obtain ⟨v, rfl, hv, hu⟩ := Spacing.dropsName_folded (skippedBeginnings_spec b hb).2 t r hr
  have hlen := Document.length_of_dropFolded? hr
  refine ⟨v, r, rfl, by simpa using hlen, fun c hc => ?_, fun u => by rw [startsFolded, hu]; rfl⟩
  by_contra hblank
  have hends := hv c hc
  rw [Spacing.endsWith_iff.2 (.inl (by simpa using hblank))] at hends
  cases hends

theorem exists_decode_behind {s t d : Text} (hs : '&' ∉ s) (h : Entity.decode (s ++ t) = .ok d) :
    ∃ d', Entity.decode t = .ok d' ∧ d = s ++ d' := by
  rw [Entity.decode_append hs] at h
  cases ht : Entity.decode t with
  | error f => rw [ht] at h; cases h
  | ok d' =>
    rw [ht] at h
    exact ⟨d', rfl, (Except.ok.inj h).symm⟩

theorem startsFolded_trimEnd {b t d : Text} (hb : b ∈ skippedBeginnings)
    (hd : Entity.decode (t.drop b.length) = .ok d)
    (hs : startsFolded b (trimEnd (t.take b.length ++ d)) = true) :
    startsFolded b (trimEnd t) = true := by
  obtain ⟨v, r, hv, hlen, hblank, hu⟩ := exists_of_startsFolded hb hs
  obtain ⟨e, he, -⟩ := exists_trimEnd (t.take b.length ++ d)
  rw [hv, List.append_assoc] at he
  have hl : (t.take b.length).length = v.length := by
    rcases Nat.le_total b.length t.length with hle | hle
    · rw [List.length_take_of_le hle, hlen]
    · rw [List.drop_eq_nil_of_le hle, Entity.decode_nil] at hd
      obtain rfl := Except.ok.inj hd
      have := congrArg List.length he
      simp only [List.length_append, List.length_nil, List.length_take] at this ⊢
      omega
  have htake : t.take b.length = v := (List.append_inj he hl).1
  have hne : v ≠ [] := by
    rintro rfl
    exact (skippedBeginnings_spec b hb).1 (List.eq_nil_of_length_eq_zero hlen.symm)
  rw [← List.take_append_drop b.length t, htake, trimEnd_append hne hblank]
  exact hu _

theorem trimStart_take_append {b t d : Text} (hb : b ∈ skippedBeginnings)
    (hd : Entity.decode ((trimStart t).drop b.length) = .ok d) :
    ((trimStart t).take b.length ++ d).dropWhile isBlank = (trimStart t).take b.length ++ d := by
  obtain ⟨p, b, rfl⟩ := List.exists_cons_of_ne_nil (skippedBeginnings_spec b hb).1
  cases ht : trimStart t with
  | nil =>
    rw [ht, List.drop_nil, Entity.decode_nil] at hd
    rw [← Except.ok.inj hd]
    rfl
  | cons c r =>
    have hc := List.head?_dropWhile_not isBlank t
    rw [← trimStart, ht] at hc
    exact List.dropWhile_cons_of_neg (by simpa using hc)

theorem startsFolded_of_decode {b href d : Text} (hb : b ∈ skippedBeginnings)
    (hd : Entity.decode href = .ok d) (hs : startsFolded b (trim d) = true)
    (hp : '&' ∉ (trimStart href).take b.length) : startsFolded b (trim href) = true := by
  have hblank : ∀ c ∈ href.takeWhile isBlank, isBlank c = true := fun c hc =>
    List.mem_takeWhile_imp hc
  have hamp : '&' ∉ href.takeWhile isBlank := fun hm => absurd (hblank _ hm) (by decide)
  have hsplit : Entity.decode (href.takeWhile isBlank ++ trimStart href) = .ok d :=
    List.takeWhile_append_dropWhile.symm ▸ hd
  obtain ⟨d₁, hd₁, rfl⟩ := exists_decode_behind hamp hsplit
  rw [← List.take_append_drop b.length (trimStart href)] at hd₁
  obtain ⟨d₂, hd₂, rfl⟩ := exists_decode_behind hp hd₁
  refine startsFolded_trimEnd hb hd₂ ?_
  rwa [trim, trimStart, List.dropWhile_append_of_pos hblank, trimStart_take_append hb hd₂] at hs

theorem fits_edits (c : Campaign) (html : Text) : Fits (tokens ["a".toList] html) (edits c html) :=
  Run.forall₂_map fun k hk => Run.written_taggedTag (name_of_mem_tokens (by decide) hk)
    (Attributes.isLegal_parse k.attrs) fun _ _ _ _ => by rfl

theorem tagAll_eq_editTags (c : Campaign) (html : Text) :
    tagAll c html = editTags ["a".toList] html
      (if c.trimmed.isEmpty then [] else edits c.trimmed html) := by
  rw [tagAll]
  split
  · rw [editTags_nil]
  · rfl

theorem taggableHref?_of_startsFolded {k : Tag} {href b : Text}
    (hh : (Attributes.parse k.attrs).get? "href".toList = some href) (hb : b ∈ skippedBeginnings)
    (hs : startsFolded b (trim href) = true) : taggableHref? k = none := by
  have hn : isTaggable href = false := by
    have : skippedBeginnings.any (startsFolded · (trim href)) = true :=
      List.any_eq_true.2 ⟨b, hb, hs⟩
    simp [isTaggable, this]
  rw [taggableHref?, hh]
  split
  · rfl
  · exact Option.filter_eq_none_iff.2 fun h he => by rw [← Option.some.inj he, hn]; simp

theorem taggedTag_eq_of_mem_replacements {c : Campaign} {html : Text} {x : Token × Text}
    (h : x ∈ replacements (tokens ["a".toList] html) (edits c html)) :
    taggedTag c x.1.toTag = some x.2 := by
  have hmap : List.Forall₂ (fun (k : Token) e => taggedTag c k.toTag = e)
      (tokens ["a".toList] html) (edits c html) :=
    Run.forall₂_map (f := taggedTag c) (r := fun k e => taggedTag c k = e) fun _ _ => rfl
  exact (List.forall₂_iff_zip.1 hmap).2 (mem_zip_of_mem_replacements h)

/-- A link with a special address stays as it is if no reference is written in what makes it
special. -/
theorem special_links_kept (c : Campaign) (html : Text) :
    ∃ rs, Replaces ["a".toList] html (tagAll c html) rs ∧
      ∀ k ∈ tokens ["a".toList] html, ∀ href beginning, IsSpecial k.toTag href beginning →
        '&' ∉ (trimStart href).take beginning.length → k ∉ rs.map Prod.fst := by
  rw [tagAll_eq_editTags]
  refine ⟨_, replaces_editTags fun hne => ?_, fun k _ href b hk hp hm => ?_⟩
  · split at hne
    · exact absurd rfl hne
    · rename_i he
      rw [if_neg he]
      exact fits_edits _ _
  · obtain ⟨x, hx, rfl⟩ := List.mem_map.1 hm
    split at hx
    · rw [replacements_nil] at hx
      cases hx
    · obtain ⟨d, hd, hs⟩ := hk.begins
      have hwritten := startsFolded_of_decode hk.skipped hd hs hp
      have hedit := taggedTag_eq_of_mem_replacements hx
      rw [taggedTag, taggableHref?_of_startsFolded hk.has hk.skipped hwritten] at hedit
      cases hedit

def mixedLinks : Text := "<a href=' MailTo:x@y?a&amp;b'><a href=/z><A HREF=#top>".toList

def mailLink : Token :=
  ⟨⟨"a".toList, " href=' MailTo:x@y?a&amp;b'".toList, false, false⟩, 0, 30⟩

theorem special_links_kept_beside_marked_one :
    tagAll ⟨"m".toList, []⟩ mixedLinks =
        "<a href=' MailTo:x@y?a&amp;b'><a href=\"/z?utm_medium=m\"><A HREF=#top>".toList ∧
      mailLink ∈ tokens ["a".toList] mixedLinks ∧
      IsSpecial mailLink.toTag " MailTo:x@y?a&amp;b".toList "mailto:".toList ∧
      '&' ∉ (trimStart " MailTo:x@y?a&amp;b".toList).take 7 ∧
      ∃ rs, Replaces ["a".toList] mixedLinks (tagAll ⟨"m".toList, []⟩ mixedLinks) rs ∧
        mailLink ∉ rs.map Prod.fst := by
  have hm : mailLink ∈ tokens ["a".toList] mixedLinks := by decide +kernel
  have hk : IsSpecial mailLink.toTag " MailTo:x@y?a&amp;b".toList "mailto:".toList :=
    ⟨rfl, by decide, by decide, " MailTo:x@y?a&b".toList, by decide +kernel, by decide +kernel⟩
  have hp : '&' ∉ (trimStart " MailTo:x@y?a&amp;b".toList).take 7 := by decide
  obtain ⟨rs, hr, hkept⟩ := special_links_kept ⟨"m".toList, []⟩ mixedLinks
  exact ⟨by decide +kernel, hm, hk, hp, rs, hr, hkept _ hm _ _ hk hp⟩

theorem special_link_marked_behind_reference :
    ¬ ∀ (c : Campaign) (html : Text), ∃ rs, Replaces ["a".toList] html (tagAll c html) rs ∧
      ∀ k ∈ tokens ["a".toList] html, ∀ href beginning, IsSpecial k.toTag href beginning →
        k ∉ rs.map Prod.fst := by
  intro h
  obtain ⟨rs, hr, hkept⟩ := h ⟨"m".toList, []⟩ "<a href=\"&#35;top\">".toList
  have htokens : tokens ["a".toList] "<a href=\"&#35;top\">".toList =
      [⟨⟨"a".toList, " href=\"&#35;top\"".toList, false, false⟩, 0, 19⟩] := by decide +kernel
  have hk : IsSpecial ⟨"a".toList, " href=\"&#35;top\"".toList, false, false⟩
      "&#35;top".toList "#".toList :=
    ⟨rfl, by decide, by decide, "#top".toList, by decide +kernel, by decide +kernel⟩
  have hnot := hkept _ (htokens ▸ List.mem_singleton_self _) _ _ hk
  have hsub := hr.among
  rw [htokens] at hsub
  rcases List.sublist_singleton.1 hsub with hnil | hone
  · obtain rfl := List.map_eq_nil_iff.1 hnil
    exact absurd hr.after (by decide +kernel)
  · rw [hone] at hnot
    exact hnot (List.mem_singleton_self _)

end MailMarkup.Link
