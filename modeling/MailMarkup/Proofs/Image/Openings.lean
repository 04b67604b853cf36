import MailMarkup.Proofs.Document.Fragments
import MailMarkup.Proofs.Image.AltTexts

namespace MailMarkup.Image

open Text Markup Document Spacing

def openingsIn (ps : Lexemes) : List Tag :=
  ps.filterMap fun
    | .hit (.tag k) _ => if k.isAmong [name] && !k.closing then some k else none
    | _ => none

theorem openingsIn_append (ps qs : Lexemes) :
    openingsIn (ps ++ qs) = openingsIn ps ++ openingsIn qs := List.filterMap_append

theorem openingsIn_map_char (t : Text) : openingsIn (t.map .char) = [] := by
  induction t with
  | nil => rfl
  | cons c t ih => exact ih

theorem openingsIn_tag (k : Tag) (s : Text) (ps : Lexemes) :
    openingsIn (.hit (.tag k) s :: ps) =
      if k.isAmong [name] && !k.closing then k :: openingsIn ps else openingsIn ps := by
  rw [openingsIn, List.filterMap_cons]
  cases h : k.isAmong [name] && !k.closing <;> simp [h, openingsIn]

theorem openings_eq (t : Text) : openings t = openingsIn (lexemes t) := by
  rw [openings, tokens_eq_filter, tokens]
  generalize 0 = start
  induction lexemes t using Lexemes.induction generalizing start with
  | nil => rfl
  | char c ps ih => exact ih _
  | comment s ps ih => exact ih _
  | tag k s ps ih =>
    rw [tokensFrom_among rfl, List.filter_cons, openingsIn_tag, ← ih (start + s.length)]
    by_cases ha : k.isAmong [name] = true
    · rw [if_pos ha, List.map_cons, List.filter_cons, ha, Bool.true_and]
    · rw [if_neg ha, eq_false_of_ne_true ha]
      rfl

theorem openingsIn_pieces (ns : List Node) :
    openingsIn (ns.flatMap Node.pieces) = openingsOf ns := by
  induction ns with
  | nil => rfl
  | cons n ns ih =>
    rw [List.flatMap_cons]
    cases n with
    | comment inner => exact ih.trans (openingsOf_cons_of_none rfl ns).symm
    | tag closing n body =>
      rw [Node.pieces, List.singleton_append, openingsIn_tag, ih, openingsOf_cons_tag]
      rfl
    | _ =>
      rw [Node.pieces, openingsIn_append, ih, openingsIn_map_char, openingsOf_cons_of_none rfl]
      · rfl
      · simp
      · simp

theorem openings_append {ns : List Node} (h : IsRead ns) (r : Text) :
    openings (sources ns ++ r) = openingsOf ns ++ openings r := by
  rw [openings_eq, lexemes_append_of_isRead h, openingsIn_append, openingsIn_pieces, openings_eq]

theorem openings_cons {c : Char} (h : lexeme? (c :: r) = none) :
    openings (c :: r) = openings r := by
  rw [openings_eq, lexemes_char h, openings_eq]
  rfl

theorem openings_blanks {s : Text} (h : s.all isBlank = true) (r : Text) :
    openings (s ++ r) = openings r := by
  induction s with
  | nil => rfl
  | cons c s ih =>
    rw [List.all_cons, Bool.and_eq_true] at h
    have hc : c ≠ '<' := fun he => absurd (he ▸ h.1) (by decide)
    rw [List.cons_append, openings_cons (startsMarkup_lexeme?.angle _ hc), ih h.2]

theorem openings_silent {t : Text} (h : IsSilent name t) (r : Text) :
    openings (t ++ r) = openings r := by
  obtain ⟨ns, hn, rfl⟩ := h.legible
  have hnil : openingsOf ns = [] := by
    rw [← openingsIn_pieces, ← lexemes_of_isRead hn, openingsIn, List.filterMap_eq_nil_iff]
    intro p hp
    have := List.any_eq_false.1 h.opens p hp
    match p with
    | .char c => rfl
    | .hit .comment s => rfl
    | .hit (.tag k) s => simpa [opensPiece] using this
  rw [openings_append hn, hnil]
  rfl

theorem exists_source_of_isFirm {n : Node} (hv : n.isValid = true) (h : n.isFirm [] = true) :
    ∃ s, n.source = s ++ ['>'] := by
  cases n with
  | declaration m inner => exact ⟨'<' :: m :: inner, by simp [Node.source]⟩
  | comment inner =>
    obtain ⟨i, rfl⟩ := exists_of_endsComment hv
    exact ⟨commentText i, by simp [Node.source, commentText]⟩
  | tag closing n body =>
    exact ⟨'<' :: (if closing then '/' :: n else n) ++ body, by simp [Node.source, tagText]⟩
  | _ => simp [Node.isFirm] at h

theorem eq_of_source_append {n : Node} (hv : n.isValid = true) {l w : Text} {b : Char}
    (hb : isBlank b = true) (h : l ++ n.source = w ++ [b]) :
    (n = .char b ∧ l = w) ∨ n = .angle b ∧ l ++ ['<'] = w := by
  cases n with
  | char c =>
    obtain ⟨rfl, hc⟩ := List.append_inj' h rfl
    exact .inl ⟨by rw [(List.cons.inj hc).1], rfl⟩
  | angle c =>
    rw [show l ++ (Node.angle c).source = (l ++ ['<']) ++ [c] by simp [Node.source]] at h
    obtain ⟨rfl, hc⟩ := List.append_inj' h rfl
    exact .inr ⟨by rw [(List.cons.inj hc).1], rfl⟩
  | _ =>
    obtain ⟨s, hs⟩ := exists_source_of_isFirm hv rfl
    rw [hs, ← List.append_assoc] at h
    obtain ⟨-, hc⟩ := List.append_inj' h rfl
    exact absurd hb (by rw [← (List.cons.inj hc).1]; decide)

theorem openings_of_append {ns : List Node} (hc : IsClean ns) {w e u : Text}
    (he : e.all isBlank = true) (hs : sources ns = w ++ e) (hu : lexeme? ('<' :: u) = none) :
    openings (w ++ u) = openingsOf ns ++ openings u := by
  induction e using List.reverseRecOn generalizing ns with
  | nil =>
    rw [List.append_nil] at hs
    rw [← hs, openings_append hc.isRead]
  | append_singleton e b ih =>
    rw [List.all_append, Bool.and_eq_true] at he
    rcases List.eq_nil_or_concat' ns with rfl | ⟨ns, n, rfl⟩
    · simp [sources] at hs
    · have hb : isBlank b = true := by simpa using he.2
      have hlast : ∀ m : Node, m.tag? = none → openingsOf (ns ++ [m]) = openingsOf ns := by
        intro m hm
        rw [openingsOf_append, openingsOf_cons_of_none hm]
        exact List.append_nil _
      rw [sources_append, ← List.append_assoc, show sources [n] = n.source by simp [sources]] at hs
      rcases eq_of_source_append (hc n (by simp)) hb hs with ⟨rfl, hw⟩ | ⟨rfl, hw⟩
      · rw [ih hc.left he.1 hw, hlast _ rfl]
      · -- the blank stood behind a `<`, which stays
        obtain rfl : e = [] := by
          rcases List.eq_nil_or_concat' e with rfl | ⟨e, d, rfl⟩
          · rfl
          · rw [← List.append_assoc] at hw
            obtain ⟨-, hd⟩ := List.append_inj' hw rfl
            rw [← (List.cons.inj hd).1] at he
            simp [show isBlank '<' = false by decide] at he
        rw [List.append_nil] at hw
        rw [← hw, List.append_assoc, openings_append hc.left.isRead, hlast _ rfl,
          List.singleton_append, openings_cons hu]

theorem openings_trim {x : Text} (hx : IsTail x) {ns : List Node} (hc : IsClean ns) {u : Text}
    (hu : lexeme? ('<' :: u) = none) :
    openings (trim (x ++ sources ns) ++ u) = openingsOf ns ++ openings u := by
  obtain ⟨s, e, ht, hs, he⟩ := exists_trim (x ++ sources ns)
  rw [← openings_blanks hs, ← List.append_assoc]
  rw [← List.append_assoc] at ht
  generalize s ++ trim (x ++ sources ns) = w at ht ⊢
  cases hx with
  | nil => exact openings_of_append hc he ht hu
  | @harmless t hh =>
    -- the blanks at the end stand behind the `>`
    obtain ⟨v, rfl, hv⟩ : ∃ v, w = t ++ '>' :: v ∧ sources ns = v ++ e := by
      rcases List.append_eq_append_iff.1 ht with ⟨v, rfl, hv⟩ | ⟨v, hv, rfl⟩
      · exact ⟨v, by simp, hv⟩
      · rcases List.eq_nil_or_concat' v with rfl | ⟨v, d, rfl⟩
        · exact ⟨[], by simpa using hv.symm, rfl⟩
        · rw [← List.append_assoc] at hv
          obtain ⟨-, hd⟩ := List.append_inj' hv rfl
          rw [← (List.cons.inj hd).1] at he
          simp [show isBlank '>' = false by decide] at he
    have hp := scan_harmless startsMarkup_lexeme? hh (d := '>') (by decide) (by decide) (v ++ u)
    rw [List.append_assoc, List.cons_append, openings_eq, lexemes, hp, openingsIn_append,
      openingsIn_map_char, List.nil_append, ← lexemes, ← openings_eq]
    exact openings_of_append hc he hv hu

theorem lexeme?_before_break (r : Text) : lexeme? ('<' :: '\n' :: r) = none :=
  startsMarkup_lexeme?.start r (by decide)

theorem lexeme?_before_angle (r : Text) : lexeme? ('<' :: '<' :: r) = none :=
  startsMarkup_lexeme?.start r (by decide)

def HasOpenings (t : Text) (ks : List Tag) : Prop :=
  ∀ u, lexeme? ('<' :: u) = none → openings (t ++ u) = ks ++ openings u

theorem not_mem_frontNames : lower name ∉ frontNames := by decide

theorem openings_shell {title extra content body : Text} {ts cs : List Tag} {ms : List Node}
    (ht : HasOpenings title ts) (hm : IsRead ms)
    (he : '\n' :: (if extra = [] then [] else extra ++ ['\n']) = sources ms)
    (hb : IsTag "body".toList body) (hc : HasOpenings content cs) :
    openings (shell title extra (tagText false "body".toList body) content) =
      ts ++ (openingsOf ms ++ cs) := by
  have hn := not_mem_frontNames
  have hbreak (r : Text) : openings ('\n' :: r) = openings r :=
    openings_blanks (s := ['\n']) (by decide) r
  have hbody : IsSilent name (tagText false "body".toList body) := by
    refine ⟨isLegible_tagText hb, ?_⟩
    have hbody : (lower name == (Tag.ofBody false "body".toList body).name) = false :=
      show (lower name == "body".toList.map Char.toLower) = false by decide
    rw [opens, ← List.append_nil (tagText _ _ _), lexemes_tagText hb, List.any_cons, opensPiece_tag,
      hbody]
    rfl
  have htitle (r : Text) : lexeme? ('<' :: ("</title>".toList ++ r)) = none :=
    lexeme?_before_angle _
  have hclose : lexeme? ('<' :: "\n</body>\n</html>\n".toList) = none := lexeme?_before_break _
  obtain ⟨hhead, hheadEnd, htitleTag, htitleEnd⟩ := bareTags_forall fun _ => isSilent_bareTag hn
  rw [shell_eq_parts, openings_silent (isSilent_doctype hn), hbreak,
    openings_silent (isSilent_htmlOpening hn), hbreak, openings_silent hhead,
    hbreak, openings_silent (isSilent_headMeta hn), hbreak,
    openings_silent htitleTag, ht _ (htitle _),
    openings_silent htitleEnd, hbreak, openings_silent (isSilent_settingsBlock hn),
    hbreak, openings_silent (isSilent_stylesheet hn), ← List.cons_append, he, openings_append hm,
    openings_silent hheadEnd, hbreak, openings_silent hbody, hbreak,
    hc _ hclose]
  have hend : openings "\n</body>\n</html>\n".toList = [] := by decide
  rw [hend, List.append_nil]

theorem openingsOf_sublist {ns ms : List Node} (h : ns.Sublist ms) :
    (openingsOf ns).Sublist (openingsOf ms) := ((h.filterMap _).filter _).filter _

theorem openingsOf_subperm {ns ms : List Node} (h : ns.Subperm ms) :
    (openingsOf ns).Subperm (openingsOf ms) := by
  obtain ⟨ls, hp, hs⟩ := h
  exact ⟨openingsOf ls, ((hp.filterMap _).filter _).filter _, openingsOf_sublist hs⟩

theorem subperm_parts (ns : List Node) :
    (titleNodes ns ++ (unsettled (headNodes ns) ++ shorn (bodyNodes ns))).Subperm ns := by
  have hhead : (unsettled (headNodes ns)).Sublist (headNodes ns) :=
    List.filter_sublist.trans List.filter_sublist
  have hbody : (shorn (bodyNodes ns)).Sublist (bodyNodes ns) :=
    List.filter_sublist.trans (List.filter_sublist.trans List.filter_sublist)
  have hin : (titleNodes ns ++ headNodes ns).Subperm (insideOf (isHead false) (isHead true) ns) :=
    subperm_insideOf_append_outsideOf _ _ _
  have hout : (bodyNodes ns).Subperm (withoutHead ns) := (upToLast_sublist _ _ _).subperm
  refine .trans ?_ (subperm_insideOf_append_outsideOf (isHead false) (isHead true) ns)
  refine .trans ?_ (hin.append hout)
  rw [List.append_assoc]
  exact ((List.Sublist.refl _).append (hhead.append hbody)).subperm

theorem hasOpenings_shellTitle {ns : List Node} (hc : IsClean ns) (hi : areInert ns = true) :
    HasOpenings (shellTitle (sources ns) []) (openingsOf (titleNodes ns)) := by
  intro u hu
  have hnil : ∀ t : Text, (if t.isEmpty then [] else t) = t := by
    intro t
    cases t <;> rfl
  rw [shellTitle, hnil, cutHead_sources hc.isRead, titleNodes]
  cases he : enclosed (isHead false) (isHead true) ns with
  | none =>
    rw [show insideOf (isHead false) (isHead true) ns = [] by rw [insideOf, he]; rfl]
    rfl
  | some x =>
    obtain ⟨l, m, r⟩ := x
    have hm : insideOf (isHead false) (isHead true) ns = m := by rw [insideOf, he]; rfl
    have hin := insideOf_subset (isHead false) (isHead true) ns
    rw [hm] at hin ⊢
    change openings ((Head.parse (sources m)).title ++ u) = _
    rcases findHit_title (hc.of_subset hin) (areInert_of_subset hi hin) with
      ⟨ht, hf⟩ | ⟨l', m', r', x, ht, hx, hf⟩
    · rw [show insideOf opensTitle closesTitle m = [] by rw [insideOf, ht]; rfl, Head.parse, hf]
      rfl
    · have hm' : insideOf opensTitle closesTitle m = m' := by rw [insideOf, ht]; rfl
      have hin' := insideOf_subset opensTitle closesTitle m
      rw [hm'] at hin' ⊢
      rw [Head.parse, hf]
      exact openings_trim hx ((hc.of_subset hin).of_subset hin') hu

theorem isSilent_newHead {title : Text} (h : '<' ∉ title) : IsSilent name (newHead title) := by
  have hn := not_mem_frontNames
  have hbreak {t : Text} (ht : IsSilent name t) : IsSilent name ('\n' :: t) :=
    (isSilent_of_not_mem (t := ['\n']) (by decide) name).append ht
  obtain ⟨hhead, hheadEnd, htitleTag, htitleEnd⟩ := bareTags_forall fun _ => isSilent_bareTag hn
  rw [newHead_eq_append]
  exact hbreak <| hhead.append <| hbreak <| (isSilent_headMeta hn).append <|
    hbreak <| htitleTag.append <| (isSilent_of_not_mem h _).append <|
    htitleEnd.append <| hbreak hheadEnd

theorem exists_openings_wrapped {ns : List Node} {out : Text} (hc : IsClean ns)
    (hi : areInert ns = true) (ho : wrapped (sources ns) [] = .ok out) :
    ∃ ks, List.Forall₂ (RespelledTag Relined) (openingsOf (unsettled (headNodes ns))) ks ∧
      openings out = openingsOf (titleNodes ns) ++ (ks ++ openingsOf (shorn (bodyNodes ns))) := by
  obtain ⟨body, hb, he⟩ := exists_wrapped hc hi ho
  have hparts := (subperm_parts ns).subset
  have hext : IsClean (unsettled (headNodes ns)) := hc.of_subset fun n hn =>
    hparts (List.mem_append_right _ (List.mem_append_left _ hn))
  have hcon : IsClean (shorn (bodyNodes ns)) := hc.of_subset fun n hn =>
    hparts (List.mem_append_right _ (List.mem_append_right _ hn))
  obtain ⟨ms, hs, hm⟩ := exists_spaced_filledLines hext
  have hmid := forall₂_openingsOf hs.firm
  rw [openingsOf_skeleton, openingsOf_skeleton] at hmid
  have hcontent : HasOpenings (trim (sources (shorn (bodyNodes ns)))) _ :=
    fun u hu => openings_trim .nil hcon hu
  refine ⟨_, hmid, ?_⟩
  rw [he]
  exact openings_shell (hasOpenings_shellTitle hc hi) hs.clean.isRead hm.symm hb hcontent

theorem areDescribed_wrapped {q : Prop} {ns : List Node} {out : Text} (hc : IsClean ns)
    (hi : areInert ns = true) (h : AreDescribed q (openingsOf ns))
    (ho : wrapped (sources ns) [] = .ok out) : AreDescribed q (openings out) := by
  obtain ⟨ks, hk, hout⟩ := exists_openings_wrapped hc hi ho
  have hself := forall₂_respelledTag_self isSpacing_relined
  have hparts := h.subperm (openingsOf_subperm (subperm_parts ns))
  rw [openingsOf_append, openingsOf_append] at hparts
  rw [hout]
  exact hparts.respelled keepsLines_relined
    (List.rel_append (hself _) (List.rel_append hk (hself _)))

theorem areDescribed_complete {q : Prop} {ns : List Node} {out : Text} (hc : IsClean ns)
    (hi : isFull (sources ns) = true ∨ areInert ns = true) (h : AreDescribed q (openingsOf ns))
    (ho : complete (sources ns) [] = .ok out) : AreDescribed q (openings out) := by
  rw [complete] at ho
  split at ho
  · obtain ⟨l, r, s, rfl, hs, hr, hk⟩ := exists_completed hc.isRead ho
    have hsilent : openings (s ++ sources r) = openings (sources r) := by
      rcases hs with rfl | rfl
      · rfl
      · exact openings_silent (isSilent_newHead List.not_mem_nil) _
    have hrest := openings_append (List.forall_mem_append.1 hr).2 []
    have hkeep : chosen [name] (l ++ r) = chosen [name] ns := by
      have hd : ∀ n ∈ [name], n ∉ ["body".toList] := by decide
      have hl : ∀ n ∈ [name], lower n = n := by decide
      rw [← chosen_skeleton hl (by simp) hd (l ++ r), hk, chosen_skeleton hl (by simp) hd]
    rw [List.append_nil] at hrest
    rw [openings_append (List.forall_mem_append.1 hr).1, hsilent, hrest,
      show openings [] = [] from rfl, List.append_nil, ← openingsOf_append, openingsOf, hkeep]
    exact h
  · rename_i hf
    exact areDescribed_wrapped hc (hi.resolve_left hf) h ho

end MailMarkup.Image
