import MailMarkup.Proofs.Document.Cutting
import MailMarkup.Proofs.Document.HeadLines

namespace MailMarkup.Document

open Text Markup Spacing

theorem isLegal_bodyAttributes {attrs : Text} {as : Attributes}
    (h : bodyAttributes attrs = .ok as) : as.IsLegal := by
  obtain ⟨bs, hb, h⟩ := bind_eq_ok.1 h
  have hl : bs.IsLegal := (Attributes.isLegal_parse attrs).applyStyle hb fun s b _ _ => rfl
  split at h
  · rwa [← pure_eq_ok.1 h]
  · obtain ⟨o, -, h⟩ := bind_eq_ok.1 h
    split at h
    · rwa [← pure_eq_ok.1 h]
    · rw [← pure_eq_ok.1 h]
      exact hl.set rfl

theorem exists_bodyTag {attrs t : Text} (h : bodyTag attrs = .ok t) :
    ∃ body, t = (Node.tag false "body".toList body).source ∧ IsTag "body".toList body := by
  obtain ⟨as, ha, h⟩ := bind_eq_ok.1 h
  refine ⟨as.render, ?_, isTag_render (by decide) (isLegal_bodyAttributes ha)⟩
  rw [← pure_eq_ok.1 h, openTag_eq_tagText]
  rfl

theorem isFirm_of_isBody {n : Node} {closing : Bool} (h : isBody closing n = true) :
    n.isFirm ["body".toList] = false := by
  cases n with
  | tag closing' name body =>
    simp only [isBody, Node.isTagOf, Node.tag?, Option.any_some, Bool.and_eq_true, beq_iff_eq] at h
    have hn : "body".toList = name.map Char.toLower := h.1
    simp [Node.isFirm, ← hn]
  | _ => simp [isBody, Node.isTagOf, Node.tag?] at h

theorem exists_withBodyTag {ns : List Node} (h : IsRead ns) {out : Text}
    (ho : withBodyTag (sources ns) = .ok out) :
    ∃ ms, out = sources ms ∧ IsRead ms ∧
      skeleton ["body".toList] ms = skeleton ["body".toList] ns := by
  have hb := findOpening?_of_isRead h "body".toList rfl
  cases hf : firstSplit (isBody false) ns with
  | none =>
    rw [isBody] at hf
    rw [hf] at hb
    rw [withBodyTag, hb] at ho
    exact ⟨ns, (Except.ok.inj ho).symm, h, rfl⟩
  | some x =>
    obtain ⟨l, n, r⟩ := x
    obtain ⟨rfl, hn, -⟩ := eq_of_firstSplit hf
    obtain ⟨k, hk, -, hks, hke⟩ := token?_of_isTagOf hn l
    rw [isBody] at hf
    rw [hf] at hb
    simp only [Option.bind_some, hk] at hb
    rw [withBodyTag, hb] at ho
    obtain ⟨t, ht, ho⟩ := bind_eq_ok.1 ho
    obtain ⟨body, rfl, hbody⟩ := exists_bodyTag ht
    have h1 : (sources (l ++ n :: r)).take k.start = sources l := by
      rw [hks]
      exact take_sources _ _
    have h2 : (sources (l ++ n :: r)).drop k.stop = sources r := by
      rw [hke, show l ++ n :: r = (l ++ [n]) ++ r by simp]
      exact drop_sources _ _
    rw [h1, h2] at ho
    refine ⟨l ++ .tag false "body".toList body :: r, ?_, ?_, ?_⟩
    · rw [← pure_eq_ok.1 ho]
      simp [sources_append, sources_cons]
    · intro m hm
      rcases List.mem_append.1 hm with hm | hm
      · exact h m (List.mem_append_left _ hm)
      · rcases List.mem_cons.1 hm with rfl | hm
        · exact Node.isTag_iff.2 hbody
        · exact h m (List.mem_append_right _ (List.mem_cons_of_mem _ hm))
    · have hskip : ∀ m : Node, m.isFirm ["body".toList] = false →
          skeleton ["body".toList] (m :: r) = skeleton ["body".toList] r :=
        fun m hm => List.filter_cons_of_neg (Bool.not_eq_true _ ▸ hm)
      rw [skeleton_append, skeleton_append, hskip _ (isFirm_of_isBody hn), hskip _ rfl]

theorem exists_completed {ns : List Node} (h : IsRead ns) {title out : Text}
    (ho : completed (sources ns) title = .ok out) :
    ∃ l r s, out = sources l ++ (s ++ sources r) ∧ (s = [] ∨ s = newHead title) ∧
      IsRead (l ++ r) ∧ skeleton ["body".toList] (l ++ r) = skeleton ["body".toList] ns := by
  obtain ⟨html, hb, ho⟩ := bind_eq_ok.1 ho
  obtain ⟨ms, rfl, hr, hs⟩ := exists_withBodyTag h hb
  split at ho
  · exact ⟨ms, [], [], by rw [← pure_eq_ok.1 ho]; simp [sources], .inl rfl, by simpa using hr,
      by simpa using hs⟩
  · have hroot := findOpening?_of_isRead hr "html".toList rfl
    split at ho
    · cases ho
    · rename_i k hk
      rw [hroot] at hk
      obtain ⟨⟨l, n, r⟩, hx, hn⟩ := Option.bind_eq_some_iff.1 hk
      obtain ⟨rfl, hroot, -⟩ := eq_of_firstSplit hx
      obtain ⟨k', hk', -, -, hke⟩ := token?_of_isTagOf hroot l
      obtain rfl := Option.some.inj (hk'.symm.trans hn)
      have hcut : l ++ n :: r = (l ++ [n]) ++ r := by simp
      rw [hcut] at ho hr hs
      rw [hke, take_sources, drop_sources] at ho
      exact ⟨l ++ [n], r, newHead title, by rw [← pure_eq_ok.1 ho]; simp, .inr rfl, hr, hs⟩

def shellTitle (html title : Text) : Text :=
  let own := ((cutHead html).1.map (·.title)).getD []
  if own.isEmpty then title else own

theorem wrapped_eq (html title : Text) :
    wrapped html title = do
      return shell (shellTitle html title) (((cutHead html).1.map (·.extra)).getD [])
        (← bodyTag (cutBody (cutHead html).2).attrs)
        (trim (withoutShell (cutBody (cutHead html).2).content)) := rfl

theorem exists_wrapped {ns : List Node} (hc : IsClean ns) (hi : areInert ns = true)
    {title out : Text} (ho : wrapped (sources ns) title = .ok out) :
    ∃ body, IsTag "body".toList body ∧ out = shell (shellTitle (sources ns) title)
      (join ['\n'] (filledLines (sources (unsettled (headNodes ns)))))
      (Node.tag false "body".toList body).source (trim (sources (shorn (bodyNodes ns)))) := by
  have hout : withoutHead ns ⊆ ns := outsideOf_subset _ _ _
  have hbody : bodyNodes ns ⊆ ns := List.Subset.trans (upToLast_subset _ _ _) hout
  have hin : insideOf (isHead false) (isHead true) ns ⊆ ns := insideOf_subset _ _ _
  have hcut := cutHead_sources hc.isRead
  have hhead : ((cutHead (sources ns)).1.map (·.extra)).getD [] =
      join ['\n'] (filledLines (sources (unsettled (headNodes ns)))) ∧
        (cutHead (sources ns)).2 = sources (withoutHead ns) := by
    rw [hcut, headNodes, withoutHead]
    cases he : enclosed (isHead false) (isHead true) ns with
    | none =>
      rw [show outsideOf (isHead false) (isHead true) ns = ns by rw [outsideOf, he]; rfl,
        show insideOf (isHead false) (isHead true) ns = [] by rw [insideOf, he]; rfl]
      exact ⟨rfl, rfl⟩
    | some x =>
      obtain ⟨l, m, r⟩ := x
      have hm : insideOf (isHead false) (isHead true) ns = m := by rw [insideOf, he]; rfl
      rw [show outsideOf (isHead false) (isHead true) ns = l ++ r by rw [outsideOf, he]; rfl, hm]
      rw [hm] at hin
      exact ⟨extra_parse (hc.of_subset hin) (areInert_of_subset hi hin), rfl⟩
  have hcontent := cutBody_content (hc.of_subset hout).isRead
  have hshell := withoutShell_sources (hc.of_subset hbody) (areInert_of_subset hi hbody)
  rw [wrapped_eq, hhead.1, hhead.2, hcontent, ← bodyNodes, hshell] at ho
  obtain ⟨tag, ht, ho⟩ := bind_eq_ok.1 ho
  obtain ⟨body, rfl, hb⟩ := exists_bodyTag ht
  exact ⟨body, hb, (pure_eq_ok.1 ho).symm⟩

end MailMarkup.Document
