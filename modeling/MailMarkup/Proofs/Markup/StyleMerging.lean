import MailMarkup.Proofs.Markup.StyleReading

namespace MailMarkup.Markup

open Text

theorem Declaration.trim_property {w : Text} {d : Declaration} (h : ofChunk? w = some d) :
    trim d.property = d.property := by
  obtain ⟨p, v, -, -, rfl, -⟩ := exists_of_ofChunk? h
  exact trim_trim p

namespace Style

variable {t : Text} {s : Style}

theorem exists_chunk_of_parse (h : Style.parse t = .ok s) {d : Declaration} (hd : d ∈ s) :
    ∃ u w, Entity.decode t = .ok u ∧ w ∈ declarationChunks u ∧ Declaration.ofChunk? w = some d := by
  rw [Style.parse] at h
  split at h
  · obtain rfl := Except.ok.inj h
    cases hd
  · obtain ⟨u, hu, h⟩ := bind_eq_ok.1 h
    obtain rfl := pure_eq_ok.1 h
    obtain ⟨w, hw, hd⟩ := List.mem_filterMap.1 hd
    exact ⟨u, w, hu, hw, hd⟩

def ClosesAll (t : Text) : Prop := ∀ u, Entity.decode t = .ok u → u.foldl Nesting.next .top = .top

instance (t : Text) : Decidable (ClosesAll t) :=
  match h : Entity.decode t with
  | .ok u => decidable_of_iff (u.foldl Nesting.next .top = .top) (by simp [ClosesAll, h])
  | .error _ => .isTrue (by simp [ClosesAll, h])

theorem ClosesAll.readsBack (ht : ClosesAll t) (h : Style.parse t = .ok s) : s.ReadsBack := by
  intro d hd
  obtain ⟨u, w, hu, hw, hd⟩ := exists_chunk_of_parse h hd
  exact ⟨Declaration.ofChunk?_text hd,
    (Declaration.isWhole_text hd).trans (isWhole_of_mem_chunks (ht u hu) hw)⟩

theorem declares_of_parse (h : Style.parse t = .ok s) :
    ∀ d ∈ s, s.declares d.property = true := by
  intro d hd
  obtain ⟨u, w, -, -, hw⟩ := exists_chunk_of_parse h hd
  exact List.any_eq_true.2 ⟨d, hd, by rw [Declaration.trim_property hw]; exact beq_self_eq_true _⟩

theorem ReadsBack.mergedAhead {b : Style} (hs : s.ReadsBack) (hb : b.ReadsBack) :
    (s.mergedAhead b).ReadsBack := by
  intro d hd
  rcases List.mem_append.1 hd with hd | hd
  · exact hb d hd
  · exact hs d (List.mem_filter.1 hd).1

theorem ReadsBack.parse_render (h : s.ReadsBack)
    (hm : Entity.decode s.render = .ok s.render) : Style.parse s.render = .ok s := by
  cases s with
  | nil => rfl
  | cons d s =>
    rw [parse, allBlank_render_cons, hm]
    exact congrArg Except.ok h.filterMap_chunks

end Style

/-- A block that is merged again into its own result leaves it as it is. -/
theorem mergeStyle_again {existing block : Text} (he : Style.ClosesAll existing)
    (hb : Style.ClosesAll block)
    (hm : ∀ m, mergeStyle existing (.text block) = .ok m → Entity.decode m = .ok m) :
    (do mergeStyle (← mergeStyle existing (.text block)) (.text block)) =
      mergeStyle existing (.text block) := by
  cases h : mergeStyle existing (.text block) with
  | error e => rfl
  | ok m =>
    have hdecode := hm m h
    obtain ⟨s, hs, h⟩ := bind_eq_ok.1 h
    obtain ⟨b, hbs, h⟩ := bind_eq_ok.1 h
    obtain rfl := pure_eq_ok.1 h
    have hbs : Style.parse block = .ok b := hbs
    have hread : (s.mergedAhead b).ReadsBack := (he.readsBack hs).mergedAhead (hb.readsBack hbs)
    have hagain : (s.mergedAhead b).mergedAhead b = s.mergedAhead b :=
      Style.mergedAhead_again (Style.declares_of_parse hbs) s []
    have hblock : (StyleBlock.text block).toStyle = .ok b := hbs
    change mergeStyle (s.mergedAhead b).render (.text block) = _
    rw [mergeStyle, hread.parse_render hdecode, hblock]
    exact congrArg (Except.ok ∘ Style.render) hagain

def fontStack : Text :=
  "font-family:&#34;Salt & Co&#34;, Arial;COLOR:red;background:url(data:a;b);color:blue".toList

def linkBlock : Text := "padding:0; Color :#000".toList

theorem mergeStyle_again_on_font_stack :
    Style.ClosesAll fontStack ∧ Style.ClosesAll linkBlock ∧
      (∀ m, mergeStyle fontStack (.text linkBlock) = .ok m → Entity.decode m = .ok m) ∧
      (do mergeStyle (← mergeStyle fontStack (.text linkBlock)) (.text linkBlock)) =
        .ok ("padding:0;Color:#000;font-family:\"Salt & Co\", Arial;".toList ++
          "background:url(data:a;b);".toList) := by
  have hmerged : mergeStyle fontStack (.text linkBlock) =
      .ok ("padding:0;Color:#000;font-family:\"Salt & Co\", Arial;".toList ++
        "background:url(data:a;b);".toList) := by decide +kernel
  have he : Style.ClosesAll fontStack := by decide +kernel
  have hb : Style.ClosesAll linkBlock := by decide +kernel
  have hm : ∀ m, mergeStyle fontStack (.text linkBlock) = .ok m → Entity.decode m = .ok m := by
    intro m h
    obtain rfl := Except.ok.inj (hmerged.symm.trans h)
    decide +kernel
  exact ⟨he, hb, hm, (mergeStyle_again he hb hm).trans hmerged⟩

theorem mergeStyle_decodes_again :
    ¬ ∀ (existing block m : Text), mergeStyle existing (.text block) = .ok m →
      mergeStyle m (.text block) = .ok m := by
  intro h
  have h1 : mergeStyle "a:&#38;#38;".toList (.text []) = .ok "a:&#38;".toList := by decide +kernel
  have h2 : mergeStyle "a:&#38;".toList (.text []) = .ok "a:&;".toList := by decide +kernel
  exact absurd (h2.symm.trans (h _ _ _ h1)) (by decide)

example : mergeStyle "a:'b".toList (.text []) = .ok "a:'b;".toList ∧
    mergeStyle "a:'b;".toList (.text []) = .ok "a:'b;;".toList := by decide +kernel

end MailMarkup.Markup
