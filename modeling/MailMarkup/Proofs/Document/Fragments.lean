import MailMarkup.Proofs.Document.Completeness
import MailMarkup.Proofs.Document.Erasing
import MailMarkup.Proofs.Run.TagReplacement

namespace MailMarkup.Document

open Text Markup

def bodyOpening : Text :=
  ("<body style=\"margin:0;padding:0;width:100% !important;-webkit-text-size-adjust:100%;" ++
    "-ms-text-size-adjust:100%;\">").toList

def baseAttributes : Attributes := [⟨"style".toList, some bodyStyle.render⟩]

theorem bodyAttributes_nil : bodyAttributes [] = .ok baseAttributes := by decide

theorem bodyAttributes_render : bodyAttributes baseAttributes.render = .ok baseAttributes := by
  decide +kernel

theorem openTag_baseAttributes : openTag "body".toList baseAttributes = bodyOpening := by
  rw [show bodyOpening = _ from toList_literals String.toList_ofList String.toList_ofList]
  decide

structure IsSilent (name t : Text) : Prop where
  legible : IsLegible t
  opens : opens name t = false

theorem IsLegible.opens_append {s : Text} (h : IsLegible s) (name t : Text) :
    Document.opens name (s ++ t) = (Document.opens name s || Document.opens name t) := by
  obtain ⟨ns, hn, rfl⟩ := h
  rw [Document.opens, lexemes_append_of_isRead hn, List.any_append, Document.opens,
    lexemes_of_isRead hn, Document.opens]

theorem IsSilent.append {name s t : Text} (hs : IsSilent name s) (ht : IsSilent name t) :
    IsSilent name (s ++ t) where
  legible := hs.legible.append ht.legible
  opens := by rw [hs.legible.opens_append, hs.opens, ht.opens, Bool.or_false]

theorem isSilent_of_not_mem {t : Text} (h : '<' ∉ t) (name : Text) : IsSilent name t where
  legible := isLegible_of_not_mem h
  opens := by
    have hl : lexemes t = t.map .char := by
      have := scan_of_not_mem startsMarkup_lexeme? h []
      rw [List.append_nil] at this
      exact this.trans (List.append_nil _)
    rw [opens, hl, List.any_map, List.any_eq_false]
    exact fun c _ => Bool.false_ne_true

theorem isSilent_lines {name : Text} {ls : List Text} (h : ∀ l ∈ ls, IsSilent name l) :
    IsSilent name (ls.flatMap (· ++ ['\n'])) := by
  induction ls with
  | nil => exact isSilent_of_not_mem (by simp) name
  | cons l ls ih =>
    obtain ⟨hl, hls⟩ := List.forall_mem_cons.1 h
    have hbreak : IsSilent name ['\n'] := isSilent_of_not_mem (by decide) name
    rw [List.flatMap_cons]
    exact (hl.append hbreak).append (ih hls)

theorem join_lines (ls : List Text) {ms : List Text} (h : ms ≠ []) :
    join ['\n'] (ls ++ ms) = ls.flatMap (· ++ ['\n']) ++ join ['\n'] ms := by
  induction ls with
  | nil => rfl
  | cons l ls ih =>
    have hstep := @join_append '\n' [l] (ls ++ ms) (List.cons_ne_nil _ _) (by simp [h])
    rw [show join ['\n'] [l] = l by simp [join]] at hstep
    rw [List.flatMap_cons, List.append_assoc, List.append_assoc, ← ih]
    exact hstep

def openedNames (t : Text) : List Text :=
  (lexemes t).filterMap fun
    | .hit (.tag k) _ => if k.closing then none else some k.name
    | _ => none

theorem mem_openedNames_of_opens {name t : Text} (h : opens name t = true) :
    lower name ∈ openedNames t := by
  obtain ⟨p, hp, ho⟩ := List.any_eq_true.1 h
  match p, ho with
  | .hit (.tag k) s, ho =>
    rw [opensPiece_tag, Bool.and_eq_true, beq_iff_eq, beq_iff_eq] at ho
    exact List.mem_filterMap.2 ⟨_, hp, by simp [ho.1, ho.2]⟩

def frontNames : List Text :=
  ["html".toList, "head".toList, "meta".toList, "title".toList, "style".toList]

section

variable {name : Text}

theorem IsLegible.isSilent {t : Text} (h : IsLegible t) (hn : lower name ∉ frontNames)
    (ht : ∀ n ∈ openedNames t, n ∈ frontNames) : IsSilent name t :=
  ⟨h, Bool.eq_false_iff.2 fun ho => hn (ht _ (mem_openedNames_of_opens ho))⟩

theorem isSilent_doctype (hn : lower name ∉ frontNames) : IsSilent name doctype := by
  refine isLegible_doctype.isSilent hn ?_
  rw [show doctype = _ from toList_literals String.toList_ofList String.toList_ofList]
  decide

theorem isSilent_htmlOpening (hn : lower name ∉ frontNames) : IsSilent name htmlOpening := by
  refine IsLegible.isSilent ?_ hn ?_
  · obtain ⟨body, hb, he⟩ := htmlOpening_eq
    exact he ▸ isLegible_tagText hb
  · rw [show htmlOpening = _ from toList_literals String.toList_ofList String.toList_ofList]
    decide +kernel

theorem isSilent_headMeta (hn : lower name ∉ frontNames) : IsSilent name headMeta := by
  refine isLegible_headMeta.isSilent hn ?_
  rw [show headMeta = _ from toList_literals (toList_literals (toList_literals String.toList_ofList
    String.toList_ofList) String.toList_ofList) String.toList_ofList]
  decide +kernel

theorem isSilent_settingsBlock (hn : lower name ∉ frontNames) : IsSilent name settingsBlock := by
  refine isLegible_settingsBlock.isSilent hn ?_
  rw [show settingsBlock = _ from toList_literals (toList_literals String.toList_ofList
    String.toList_ofList) String.toList_ofList]
  decide +kernel

theorem isSilent_stylesheet (hn : lower name ∉ frontNames) : IsSilent name stylesheet := by
  refine isLegible_stylesheet.isSilent hn ?_
  rw [show stylesheet = _ from toList_literals (toList_literals (toList_literals (toList_literals
    (toList_literals String.toList_ofList String.toList_ofList) String.toList_ofList)
      String.toList_ofList) String.toList_ofList) String.toList_ofList]
  decide +kernel

theorem isSilent_bareTag (hn : lower name ∉ frontNames) {t : Text} (h : t ∈ bareTags) :
    IsSilent name t := by
  have hopened : ∀ t ∈ bareTags, ∀ n ∈ openedNames t, n ∈ frontNames := by decide
  exact (isLegible_bareTag h).isSilent hn (hopened t h)

theorem isSilent_titleTag (hn : lower name ∉ frontNames) {title : Text} (h : '<' ∉ title) :
    IsSilent name (titleTag title) := by
  obtain ⟨-, -, htitleTag, htitleEnd⟩ := bareTags_forall fun _ => isSilent_bareTag hn
  exact (htitleTag.append (isSilent_of_not_mem h _)).append htitleEnd

end

def frontLines (title : Text) : List Text :=
  [doctype, htmlOpening, "<head>".toList, headMeta, titleTag title, settingsBlock, stylesheet,
    "</head>".toList]

theorem isSilent_frontLines {name : Text} (hn : lower name ∉ frontNames) {title : Text}
    (h : '<' ∉ title) : ∀ l ∈ frontLines title, IsSilent name l := by
  simp only [frontLines, List.forall_mem_cons, List.not_mem_nil, false_imp_iff, implies_true,
    and_true]
  obtain ⟨hhead, hheadEnd, -, -⟩ := bareTags_forall fun _ => isSilent_bareTag hn
  exact ⟨isSilent_doctype hn, isSilent_htmlOpening hn, hhead, isSilent_headMeta hn,
    isSilent_titleTag hn h, isSilent_settingsBlock hn, isSilent_stylesheet hn, hheadEnd⟩

theorem findOpening?_eq_none {html name : Text} (hn : lower name = name)
    (h : ∀ k ∈ tokens [] html, k.closing = false → k.name ≠ name) :
    findOpening? html name = none := by
  refine List.find?_eq_none.2 fun k hk => ?_
  rw [tokens_eq_filter] at hk
  obtain ⟨hk, hname⟩ := List.mem_filter.1 hk
  have hkey : lower name = k.name := by simpa [Tag.isAmong] using hname
  simpa using fun hc => h k hk hc (hkey.symm.trans hn)

def IsShorn (html content : Text) : Prop :=
  ∃ a b, Without (IsDeclaration "<!doctype".toList []) html a ∧
    Without (IsDeclaration "<?xml".toList ['?']) a b ∧
    content = trim (substituted b 0 ((tokens documentNames b).map fun k => (k, [])))

theorem isShorn_iff {html content : Text} :
    IsShorn html content ↔ content = trim (withoutShell html) := by
  have hrs (ks : List Token) :
      replacements ks (ks.map fun _ => some []) = ks.map fun k => (k, []) := by
    induction ks with
    | nil => rfl
    | cons k ks ih => exact congrArg ((k, []) :: ·) ih
  rw [withoutShell, editTags_eq_substituted, hrs]
  constructor
  · rintro ⟨a, b, ha, hb, rfl⟩
    rw [without_iff recognises_doctype?] at ha
    rw [without_iff recognises_xmlDeclaration?] at hb
    rw [hb, ha]
  · rintro rfl
    exact ⟨_, _, without_eraseHits recognises_doctype? html,
      without_eraseHits recognises_xmlDeclaration? _, rfl⟩

theorem wrapped_fragment {html : Text} (hhead : findOpening? html "head".toList = none)
    (hbody : findOpening? html "body".toList = none) (title : Text) :
    wrapped html title = .ok (shell title [] bodyOpening (trim (withoutShell html))) := by
  have hcut : cutHead html = (none, html) := by rw [cutHead, hhead]
  have hcontent : cutBody html = ⟨[], html⟩ := by rw [cutBody, hbody]
  have htag : bodyTag [] = .ok bodyOpening := by
    rw [bodyTag, bodyAttributes_nil, ← openTag_baseAttributes]
    rfl
  rw [wrapped_eq, hcut, hcontent, htag, shellTitle, hcut]
  rfl

theorem shell_eq_lines (title tag content : Text) : ∃ rest, shell title [] tag content =
    (frontLines title).flatMap (· ++ ['\n']) ++ (tag ++ rest) := by
  have hlines : shell title [] tag content = join ['\n'] ((frontLines title ++ [tag]) ++
      [content, "</body>".toList, "</html>".toList]) ++ ['\n'] := rfl
  have hne : [content, "</body>".toList, "</html>".toList] ≠ [] := List.cons_ne_nil _ _
  rw [hlines]
  generalize [content, "</body>".toList, "</html>".toList] = ls at hne ⊢
  refine ⟨'\n' :: (join ['\n'] ls ++ ['\n']), ?_⟩
  rw [join_lines _ hne, List.flatMap_append]
  simp only [List.flatMap_cons, List.flatMap_nil, List.append_nil, List.append_assoc,
    List.nil_append, List.cons_append]

theorem withBodyTag_eq_self {front rest : Text} (h : IsSilent "body".toList front) :
    withBodyTag (front ++ (bodyOpening ++ rest)) = .ok (front ++ (bodyOpening ++ rest)) := by
  have hname : isName "body".toList = true := by decide
  have hlegal : baseAttributes.IsLegal := .singleton rfl
  obtain ⟨ns, hn, hs⟩ := h.legible
  have hl : lexemes (front ++ (bodyOpening ++ rest)) = lexemes front ++
      .hit (.tag ⟨"body".toList, baseAttributes.render, false, false⟩) bodyOpening ::
        lexemes rest := by
    rw [← hs, lexemes_append_of_isRead hn, lexemes_of_isRead hn, ← openTag_baseAttributes,
      openTag_eq_tagText, lexemes_tagText (isTag_render hname hlegal), ofBody_render hlegal]
    rfl
  have hfound := findOpening?_of_lexemes hl
    (fun p hp => Bool.eq_false_iff.2 (List.any_eq_false.1 h.opens p hp)) (by decide)
  have hfront : source (lexemes front) = front := source_lexemes front
  have htag : bodyTag baseAttributes.render = .ok bodyOpening := by
    rw [bodyTag, bodyAttributes_render, ← openTag_baseAttributes]
    rfl
  have hdrop :
      (front ++ (bodyOpening ++ rest)).drop (front.length + bodyOpening.length) = rest := by
    rw [← List.append_assoc, ← List.length_append, List.drop_left]
  rw [withBodyTag, hfound, hfront]
  change (bodyTag baseAttributes.render >>= fun t =>
    pure ((front ++ (bodyOpening ++ rest)).take front.length ++ t ++
      (front ++ (bodyOpening ++ rest)).drop (front.length + bodyOpening.length))) = _
  rw [htag, hdrop, List.take_left, ← List.append_assoc]
  rfl

theorem findHit_isSome_of_front {α : Type} {f : Recogniser α} {t : Text} (hne : t ≠ [])
    (h : (f t).isSome = true) : (findHit f t).isSome = true := by
  obtain ⟨⟨a, n⟩, ha⟩ := Option.isSome_iff_exists.1 h
  cases t with
  | nil => exact absurd rfl hne
  | cons c t =>
    rw [findHit, ha]
    rfl

theorem doctype?_doctype : (doctype? doctype).isSome = true := by
  rw [show doctype = _ from toList_literals String.toList_ofList String.toList_ofList]
  decide

theorem isFull_shell {title tag content : Text}
    (h : IsComplete (shell title [] tag content)) : isFull (shell title [] tag content) = true := by
  obtain ⟨r, hr⟩ := shell_eq_append title [] tag content
  have hdoctype : (findHit doctype? (shell title [] tag content)).isSome = true := by
    have hd := doctype?_append_right doctype?_doctype
    rw [hr]
    exact findHit_isSome_of_front (List.ne_nil_of_length_pos
      (Nat.zero_lt_of_lt (length_of_doctype? (hd _)))) (hd _)
  rw [isFull, hdoctype, h.root, h.body]
  rfl

theorem complete_eq_self {html : Text} (hfull : isFull html = true)
    (hbody : withBodyTag html = .ok html) (hhead : lacksHead html = false) (title : Text) :
    complete html title = .ok html := by
  rw [complete, hfull, if_pos rfl, completed, hbody]
  change (if !lacksHead html then pure html else _) = _
  rw [hhead]
  rfl

theorem complete_shell {title : Text} (h : '<' ∉ title) (content title' : Text) :
    complete (shell title [] bodyOpening content) title' =
      .ok (shell title [] bodyOpening content) := by
  have hcomplete : IsComplete (shell title [] bodyOpening content) := by
    refine isComplete_shell (isWhole_of_not_mem h) (isWhole_of_not_mem (by decide)) ?_
    refine ⟨baseAttributes.render, ?_, isTag_render (by decide) (.singleton rfl)⟩
    rw [← openTag_eq_tagText, openTag_baseAttributes]
  have hhead : lacksHead (shell title [] bodyOpening content) = false := by
    rw [lacksHead, ← Option.not_isSome, hcomplete.head]
    rfl
  obtain ⟨rest, hr⟩ := shell_eq_lines title bodyOpening content
  have hbody := @withBodyTag_eq_self _ rest (isSilent_lines (isSilent_frontLines (by decide) h))
  rw [← hr] at hbody
  exact complete_eq_self (isFull_shell hcomplete) hbody hhead title'

/-- A text without an opening tag of a head or a body is put into a new shell as it is, but for what
belongs to a shell; the document then stays as it is with any title. -/
theorem complete_fragment {html : Text} (h : ∀ k ∈ tokens [] html, k.closing = false →
      k.name ≠ "head".toList ∧ k.name ≠ "body".toList) (title : Text) :
    ∃ content out, IsShorn html content ∧ complete html title = .ok out ∧
      out = join ['\n'] (frontLines (escapeHtml (trim title)) ++
        [bodyOpening, content, "</body>".toList, "</html>".toList]) ++ ['\n'] ∧
      ∀ title', complete out title' = .ok out := by
  have hhead := findOpening?_eq_none (by decide) fun k hk hc => (h k hk hc).1
  have hbody := findOpening?_eq_none (by decide) fun k hk hc => (h k hk hc).2
  have hfull : isFull html = false := by
    rw [isFull, hbody]
    exact Bool.and_false _
  refine ⟨trim (withoutShell html), _, isShorn_iff.2 rfl, ?_, rfl, ?_⟩
  · rw [complete, hfull, wrapped_fragment hhead hbody]
    rfl
  · exact complete_shell (not_mem_escapeHtml (by decide) _) _

def strayFragment : Text :=
  "<?x<!Doctype a>ML b?> <p></head><b</HTML x>ody><bo<?xml?>dy title='\"></body><!-- <body>".toList

theorem complete_fragment_of_stray :
    (∀ k ∈ tokens [] strayFragment, k.closing = false →
        k.name ≠ "head".toList ∧ k.name ≠ "body".toList) ∧
      ∃ content out, IsShorn strayFragment content ∧
        complete strayFragment " A & B ".toList = .ok out ∧
        out = join ['\n'] (frontLines (escapeHtml (trim " A & B ".toList)) ++
          [bodyOpening, content, "</body>".toList, "</html>".toList]) ++ ['\n'] ∧
        ∀ title', complete out title' = .ok out := by
  have h : ∀ k ∈ tokens [] strayFragment, k.closing = false →
      k.name ≠ "head".toList ∧ k.name ≠ "body".toList := by decide
  exact ⟨h, complete_fragment h " A & B ".toList⟩

end MailMarkup.Document
