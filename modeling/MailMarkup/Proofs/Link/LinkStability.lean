import MailMarkup.Proofs.Link.Tagging
import MailMarkup.Proofs.Markup.AttributeRevision
import MailMarkup.Proofs.Spacing.TidyText
import MailMarkup.Proofs.Table.NormalForm
import MailMarkup.Proofs.Table.TableTree

namespace MailMarkup.Text

theorem escapeQuotes_escapeQuotes (t : Text) : escapeQuotes (escapeQuotes t) = escapeQuotes t :=
  escapeQuotes_eq_self (quote_not_mem_escapeQuotes t)

theorem trim_eq_self_iff {t : Text} : trim t = t ↔
    (∀ c ∈ t.head?, isBlank c = false) ∧ ∀ c ∈ t.getLast?, isBlank c = false := by
  constructor
  · intro h
    have hstart : trimStart t = t := by
      refine List.IsSuffix.eq_of_length (List.dropWhile_suffix _) ?_
      have h1 : (trim t).length ≤ (trimStart t).length := by
        rw [trim, trimEnd, dropEndWhile, List.length_reverse,
          ← @List.length_reverse _ (trimStart t)]
        exact (List.dropWhile_sublist _).length_le
      have h2 : (trimStart t).length ≤ t.length := (List.dropWhile_sublist _).length_le
      rw [h] at h1
      omega
    have hend : t.reverse.dropWhile isBlank = t.reverse := by
      rw [trim, hstart, trimEnd, dropEndWhile] at h
      rw [← List.reverse_reverse (t.reverse.dropWhile isBlank), h]
    have hhead := List.head?_dropWhile_not isBlank t
    have hlast := List.head?_dropWhile_not isBlank t.reverse
    rw [trimStart] at hstart
    rw [hstart] at hhead
    rw [hend, List.head?_reverse] at hlast
    refine ⟨fun c hc => ?_, fun c hc => ?_⟩
    · rw [hc] at hhead
      exact hhead
    · rw [hc] at hlast
      exact hlast
  · rintro ⟨hhead, hlast⟩
    have hstart : trimStart t = t := by
      cases t with
      | nil => rfl
      | cons c t => exact List.dropWhile_cons_of_neg (by simp [hhead c rfl])
    rw [trim, hstart]
    cases t using List.reverseRecOn with
    | nil => rfl
    | append_singleton t c => exact Markup.trimEnd_append_of_not_isBlank (hlast c (by simp)) t

theorem mem_trim {c : Char} (hc : isBlank c = false) {t : Text} (h : c ∈ t) : c ∈ trim t := by
  obtain ⟨s, e, ht, hs, he⟩ := exists_trim t
  rw [ht, List.mem_append, List.mem_append] at h
  rcases h with h | h | h
  · rw [List.all_eq_true.1 hs c h] at hc
    cases hc
  · exact h
  · rw [List.all_eq_true.1 he c h] at hc
    cases hc

theorem trim_escapeQuotes {t : Text} (h : trim t = t) : trim (escapeQuotes t) = escapeQuotes t := by
  obtain ⟨hhead, hlast⟩ := trim_eq_self_iff.1 h
  refine trim_eq_self_iff.2 ⟨?_, ?_⟩
  · cases t with
    | nil => rintro d ⟨⟩
    | cons c t =>
      rw [escapeQuotes_cons]
      split
      · rintro d ⟨⟩
        decide
      · rintro d ⟨⟩
        exact hhead c rfl
  · cases t using List.reverseRecOn with
    | nil => rintro d ⟨⟩
    | append_singleton t c =>
      have hone : escapeQuotes [c] = if c = '"' then "&quot;".toList else [c] := by
        rw [escapeQuotes_cons]
        exact List.append_nil _
      rw [escapeQuotes_append, hone]
      split
      · rw [List.getLast?_append_of_ne_nil _ (by decide)]
        rintro d ⟨⟩
        decide
      · rw [List.getLast?_concat]
        rintro d ⟨⟩
        exact hlast c List.getLast?_concat

end MailMarkup.Text

namespace MailMarkup.Markup.Attributes

open Text

variable {as : Attributes} {name other v w : Text}

def HoldsOnce (as : Attributes) (name v : Text) : Prop :=
  ∃ l r : Attributes, as = l ++ ⟨name, some v⟩ :: r ∧ l.has name = false ∧ r.has name = false

theorem replace_append {l r : Attributes} {a : Attribute} (hl : l.has name = false)
    (ha : a.key = lower name) (value : Option Text) :
    replace name value (l ++ a :: r) = l ++ ⟨name, value⟩ :: r.remove name := by
  induction l with
  | nil => exact if_pos ha
  | cons b l ih =>
    rw [has_cons, Bool.or_eq_false_iff, beq_eq_false_iff_ne] at hl
    rw [List.cons_append, replace, if_neg hl.1, ih hl.2]
    rfl

theorem get?_eq_head? (as : Attributes) (name : Text) :
    as.get? name = (as.filter (·.key == lower name)).head?.map (·.value.getD []) := by
  rw [get?, List.head?_filter]

theorem filter_set (h : lower other ≠ lower name) (v : Option Text) (as : Attributes) :
    (as.set other v).filter (·.key == lower name) = as.filter (·.key == lower name) := by
  have hset : as.set other v = as.setAll [⟨other, v⟩] := rfl
  rw [hset, setAll_eq_placed (List.pairwise_singleton _ _), filter_placed]
  intro a ha
  have hkey : lower a.name = lower name := beq_iff_eq.1 ha
  simpa [Attributes.has, Attribute.key, hkey] using h

theorem holdsOnce_set (as : Attributes) (name v : Text) :
    HoldsOnce (as.set name (some v)) name v := by
  by_cases h : as.has name = true
  · rw [set, if_pos h]
    obtain ⟨l, a, r, rfl, hl, ha⟩ :
        ∃ (l : Attributes) (a : Attribute) (r : Attributes), as = l ++ a :: r ∧
          l.has name = false ∧ a.key = lower name := by
      clear v
      induction as with
      | nil => cases h
      | cons a as ih =>
        by_cases ha : a.key = lower name
        · exact ⟨[], a, as, rfl, rfl, ha⟩
        · rw [has_cons, Bool.or_eq_true, beq_iff_eq] at h
          obtain ⟨l, b, r, rfl, hl, hb⟩ := ih (h.resolve_left ha)
          refine ⟨a :: l, b, r, rfl, ?_, hb⟩
          rw [has_cons, hl, Bool.or_false, beq_eq_false_iff_ne]
          exact ha
    rw [replace_append hl ha]
    exact ⟨l, _, rfl, hl, has_remove r name⟩
  · rw [set, if_neg h]
    exact ⟨as, [], rfl, by simpa using h, rfl⟩

namespace HoldsOnce

theorem has (h : HoldsOnce as name v) : as.has name = true := by
  obtain ⟨l, r, rfl, -⟩ := h
  rw [has_append, has_cons]
  simp [Attribute.key]

theorem get? (h : HoldsOnce as name v) : as.get? name = some v := by
  obtain ⟨l, r, rfl, hl, -⟩ := h
  rw [get?_append_of_not_has hl, Attributes.get?, List.find?_cons_of_pos (by simp [Attribute.key])]
  rfl

theorem remove (h : HoldsOnce as name v) (hne : lower name ≠ lower other) :
    HoldsOnce (as.remove other) name v := by
  obtain ⟨l, r, rfl, hl, hr⟩ := h
  have hsub : ∀ {bs : Attributes}, bs.has name = false → (bs.remove other).has name = false := by
    intro bs hb
    rw [Attributes.has, List.any_eq_false] at hb ⊢
    exact fun a ha => hb a (List.mem_filter.1 ha).1
  refine ⟨l.remove other, r.remove other, ?_, hsub hl, hsub hr⟩
  rw [Attributes.remove, List.filter_append, List.filter_cons_of_pos (by simpa [Attribute.key])]
  rfl

theorem iff_filter :
    HoldsOnce as name v ↔ as.filter (·.key == lower name) = [⟨name, some v⟩] := by
  constructor
  · rintro ⟨l, r, rfl, hl, hr⟩
    rw [has_eq_false_iff_filter] at hl hr
    rw [List.filter_append, List.filter_cons_of_pos (by simp [Attribute.key]), hl, hr]
    rfl
  · intro h
    obtain ⟨l, r, rfl, hl, -, hr⟩ := List.filter_eq_cons_iff.1 h
    refine ⟨l, r, rfl, ?_, has_eq_false_iff_filter.2 hr⟩
    exact has_eq_false_iff.2 fun a ha => by simpa using hl a ha

theorem setAll (h : HoldsOnce as name v) {forced : Attributes}
    (hd : forced.Pairwise fun f g => f.key ≠ g.key) (hf : forced.has name = false) :
    HoldsOnce (as.setAll forced) name v := by
  rw [iff_filter, setAll_eq_placed hd, filter_placed, iff_filter.1 h]
  intro a ha
  exact (has_congr (beq_iff_eq.1 ha) forced).trans hf

theorem dropEmptyStyle (h : HoldsOnce as name v) (hne : lower name ≠ lower "style".toList)
    {bs : Attributes} (hb : as.dropEmptyStyle = .ok bs) : HoldsOnce bs name v := by
  obtain ⟨s, -, hb⟩ := bind_eq_ok.1 hb
  rw [← pure_eq_ok.1 hb]
  split
  · exact h.remove hne
  · exact h

theorem map_written (h : HoldsOnce as name v) :
    HoldsOnce (as.map written) name (escapeQuotes v) := by
  obtain ⟨l, r, rfl, hl, hr⟩ := h
  refine ⟨l.map written, r.map written, by simp [written], ?_, ?_⟩
  · rw [Table.has_map_written, hl]
  · rw [Table.has_map_written, hr]

theorem render_set (h : HoldsOnce as name v) (hw : escapeQuotes w = escapeQuotes v) :
    (as.set name (some w)).render = as.render := by
  have hhas := h.has
  obtain ⟨l, r, rfl, hl, hr⟩ := h
  rw [set, if_pos hhas, replace_append hl rfl, remove_eq_self hr, render, render,
    List.flatMap_append, List.flatMap_append, List.flatMap_cons, List.flatMap_cons]
  simp only [renderOne, hw]

end HoldsOnce

end MailMarkup.Markup.Attributes

namespace MailMarkup.Link

open Text Markup Spacing

structure IsSteadyAddress (c : Campaign) (d : Text) : Prop where
  rooted : ∀ u, Url.parse d = .ok u → u.netloc = [] → ¬ "//".toList <+: u.path
  settled : ∀ new, addParameters c d = .ok new →
    IsTidy new ∧ trim new = new ∧ Entity.decode new = .ok new

def HasSteadyLink (c : Campaign) (k : Tag) : Prop :=
  ∀ href d, taggableHref? k = some href → Entity.decode (trim href) = .ok d → IsSteadyAddress c d

theorem toOption_eq_some {ε α : Type} {x : Except ε α} {a : α} :
    x.toOption = some a ↔ x = .ok a := by
  cases x <;> simp [Except.toOption]

instance (c : Campaign) (d : Text) : Decidable (IsSteadyAddress c d) :=
  decidable_of_iff
    ((∀ u ∈ (Url.parse d).toOption, u.netloc = [] → ¬ "//".toList <+: u.path) ∧
      ∀ new ∈ (addParameters c d).toOption,
        IsTidy new ∧ trim new = new ∧ Entity.decode new = .ok new)
    ⟨fun h => ⟨fun u hu => h.1 u (toOption_eq_some.2 hu),
        fun new hn => h.2 new (toOption_eq_some.2 hn)⟩,
      fun h => ⟨fun u hu => h.rooted u (toOption_eq_some.1 hu),
        fun new hn => h.settled new (toOption_eq_some.1 hn)⟩⟩

instance (c : Campaign) (k : Tag) : Decidable (HasSteadyLink c k) :=
  decidable_of_iff (∀ href ∈ taggableHref? k, ∀ d ∈ (Entity.decode (trim href)).toOption,
      IsSteadyAddress c d)
    ⟨fun h href d hh hd => h href hh d (toOption_eq_some.2 hd),
      fun h href hh d hd => h href d hh (toOption_eq_some.1 hd)⟩

theorem mapError_eq_ok {ε ε' α : Type} {f : ε → ε'} {x : Except ε α} {a : α} :
    x.mapError f = .ok a ↔ x = .ok a := by
  cases x <;> simp [Except.mapError]

theorem newAddress_eq_ok {c : Campaign} {href new : Text} : newAddress c href = .ok new ↔
    ∃ d, Entity.decode (trim href) = .ok d ∧ addParameters c d = .ok new := by
  rw [newAddress, bind_eq_ok]
  simp only [mapError_eq_ok]

theorem taggedTag_settled {c : Campaign} (hc : c.isEmpty = false) {k : Tag}
    (h : HasSteadyLink c k) {s name body : Text} (he : taggedTag c k = some s)
    (ht : IsTag name body) (hs : s = tagText false name body) :
    taggedTag c (.ofBody false name body) = none ∨
      taggedTag c (.ofBody false name body) = some s := by
  rw [taggedTag, Option.bind_eq_bind, Option.bind_eq_some_iff] at he
  obtain ⟨href, hh, he⟩ := he
  split at he
  · rename_i new hn
    obtain ⟨d, hd, hn⟩ := newAddress_eq_ok.1 hn
    obtain ⟨hroot, hset⟩ := h href d hh hd
    obtain ⟨-, htrim, hdecode⟩ := hset new hn
    have hagain := addParameters_again hc hn hroot
    have hl : Attributes.IsLegal ((Attributes.parse k.attrs).set "href".toList (some new)) :=
      (Attributes.isLegal_parse k.attrs).set rfl
    have ho := Option.some.inj he
    have htag := ofBody_eq_of_tagText_eq (isTag_render (by decide) hl) ht
      ((openTag_eq_tagText _ _).symm.trans (ho.trans hs))
    have honce :=
      (Attributes.holdsOnce_set (Attributes.parse k.attrs) "href".toList new).map_written
    have hagain' : newAddress c (escapeQuotes new) = .ok new := newAddress_eq_ok.2
      ⟨new, by rw [trim_escapeQuotes htrim, Entity.decode_escapeQuotes, hdecode], hagain⟩
    have hself : openTag "a".toList (Attributes.set (((Attributes.parse k.attrs).set "href".toList
        (some new)).map Attributes.written) "href".toList (some new)) = s := by
      rw [← ho, openTag, openTag, honce.render_set (escapeQuotes_escapeQuotes new).symm,
        Attributes.render_map_written]
    rw [← htag, ofBody_render hl, taggedTag, taggableHref?, Attributes.parse_render hl, honce.get?,
      if_neg Bool.false_ne_true, Option.filter_some]
    split
    · right
      rw [Option.bind_eq_bind, Option.bind_some, hagain']
      exact congrArg some hself
    · exact .inl rfl
  · cases he

end MailMarkup.Link
