import MailMarkup.Proofs.Document.Assembling
import MailMarkup.Proofs.Document.Doctype
import MailMarkup.Proofs.Document.Shell
import MailMarkup.Proofs.Markup.SteadyPieces

namespace MailMarkup.Document

open Text Markup Spacing

structure IsComplete (html : Text) : Prop where
  doctype : hasDoctype html = true
  root : (findOpening? html "html".toList).isSome = true
  head : (findOpening? html "head".toList).isSome = true
  body : (findOpening? html "body".toList).isSome = true

deriving instance DecidableEq for Piece

def IsWhole (t : Text) : Prop :=
  fallbacks (t ++ ['<']) = [] ∧ (lexemes (t ++ ['<'])).getLast? = some (.char '<')

instance (t : Text) : Decidable (IsWhole t) := inferInstanceAs (Decidable (_ ∧ _))

def opens (name t : Text) : Bool := (lexemes t).any (opensPiece name)

theorem isSome_of_opens {name t : Text} (h : opens name t = true) :
    (findOpening? t name).isSome = true := findOpening?_isSome_iff.trans h

theorem IsWhole.opens {t : Text} (h : IsWhole t) {name r : Text}
    (hr : Document.opens name ('<' :: r) = true) : Document.opens name (t ++ '<' :: r) = true := by
  obtain ⟨hf, hl⟩ := h
  obtain ⟨ps, hp⟩ := List.getLast?_eq_some_iff.1 hl
  have hsrc : source ps = t := by
    have := source_lexemes (t ++ ['<'])
    rw [hp] at this
    exact List.append_inj_left' ((source_append ps _).symm.trans this) rfl
  rw [fallbacks, hp] at hf
  have hs : Steady ps := @steady_of_lexemes _ [] 0 ps _ hp rfl (by simp [hf])
  rw [Document.opens, ← hsrc, hs.lexemes, List.any_append]
  exact Bool.or_eq_true_iff.2 (.inr hr)

theorem isWhole_of_not_mem {t : Text} (h : '<' ∉ t) : IsWhole t := by
  have hl : lexemes (t ++ ['<']) = t.map .char ++ [.char '<'] :=
    scan_of_not_mem startsMarkup_lexeme? h ['<']
  refine ⟨?_, by rw [hl, List.getLast?_concat]⟩
  rw [fallbacks]
  generalize 0 = place
  clear hl
  induction t generalizing place with
  | nil => rfl
  | cons c t ih =>
    rw [List.mem_cons, not_or] at h
    have hc : lexeme? (c :: (t ++ ['<'])) = none := startsMarkup_lexeme?.angle _ (Ne.symm h.1)
    have hs : tagStart? (c :: (t ++ ['<'])) = none := by simp [tagStart?, Ne.symm h.1]
    rw [List.cons_append, lexemes_char hc, fallbacksFrom, ih h.2, List.flatMap_cons, source_lexemes]
    simp [fallsBackAt, Piece.source, hs]

def IsLegible (t : Text) : Prop := ∃ ns, IsRead ns ∧ sources ns = t

theorem IsLegible.opens {t : Text} (h : IsLegible t) {name r : Text}
    (hr : Document.opens name r = true) : Document.opens name (t ++ r) = true := by
  obtain ⟨ns, hn, rfl⟩ := h
  rw [Document.opens, lexemes_append_of_isRead hn, List.any_append]
  exact Bool.or_eq_true_iff.2 (.inr hr)

theorem isLegible_of_not_mem {t : Text} (h : '<' ∉ t) : IsLegible t := by
  refine ⟨t.map .char, fun n hn => ?_, sources_map_char t⟩
  obtain ⟨c, hc, rfl⟩ := List.mem_map.1 hn
  simpa [Node.isRead, Node.isValid] using fun he : c = '<' => h (he ▸ hc)

theorem opens_break {name r : Text} (hr : opens name r = true) : opens name ('\n' :: r) = true :=
  IsLegible.opens (t := ['\n']) (isLegible_of_not_mem (by decide)) hr

theorem opens_tagText {name body : Text} (h : IsTag name body)
    (hn : lower name = name.map Char.toLower) (r : Text) :
    opens name (tagText false name body ++ r) = true := by
  rw [opens, lexemes_tagText h, List.any_cons]
  refine Bool.or_eq_true_iff.2 (.inl ?_)
  simp [opensPiece, Tag.isAmong, Tag.ofBody, hn]

theorem IsLegible.append {s t : Text} (hs : IsLegible s) (ht : IsLegible t) :
    IsLegible (s ++ t) := by
  obtain ⟨ns, hn, rfl⟩ := hs
  obtain ⟨ms, hm, rfl⟩ := ht
  refine ⟨ns ++ ms, fun n h => ?_, sources_append ns ms⟩
  rcases List.mem_append.1 h with h | h
  · exact hn n h
  · exact hm n h

theorem isLegible_of_isRead {n : Node} (h : n.isRead = true) : IsLegible n.source :=
  ⟨[n], fun _ hm => List.mem_singleton.1 hm ▸ h, List.append_nil _⟩

theorem isLegible_tagText {closing : Bool} {name body : Text} (h : IsTag name body) :
    IsLegible (tagText closing name body) :=
  isLegible_of_isRead (n := .tag closing name body) (Node.isTag_iff.2 h)

theorem IsLegible.cons {c : Char} (hc : c ≠ '<') {t : Text} (h : IsLegible t) :
    IsLegible (c :: t) :=
  (isLegible_of_not_mem (t := [c]) (by simpa using hc.symm)).append h

theorem opens_headOpening (r : Text) : opens "head".toList ("<head>".toList ++ r) = true :=
  @opens_tagText "head".toList [] ⟨by decide, by decide, rfl⟩ (by decide) r

theorem toList_literals {s u : String} {a b : Text} (hs : s.toList = a) (hu : u.toList = b) :
    (s ++ u).toList = a ++ b := by
  rw [String.toList_append, hs, hu]

theorem isLegible_of_node {n : Node} {t : Text} (h : n.isRead = true ∧ n.source = t) :
    IsLegible t := h.2 ▸ isLegible_of_isRead h.1

theorem isLegible_declaration {t : Text}
    (h : (Node.declaration '!' (t.drop 2).dropLast).isRead = true ∧
      (Node.declaration '!' (t.drop 2).dropLast).source = t) : IsLegible t := isLegible_of_node h

theorem isLegible_comment {t : Text} (h : (Node.comment (t.drop 4)).isRead = true ∧
    (Node.comment (t.drop 4)).source = t) : IsLegible t := isLegible_of_node h

def tagNode (n : Nat) (t : Text) : Node := .tag false ((t.drop 1).take n) (t.drop (n + 1)).dropLast

theorem isLegible_tag {t : Text} (n : Nat)
    (h : (tagNode n t).isRead = true ∧ (tagNode n t).source = t) : IsLegible t :=
  isLegible_of_node h

theorem isLegible_doctype : IsLegible doctype := by
  rw [show doctype = _ from toList_literals String.toList_ofList String.toList_ofList]
  exact isLegible_declaration (by decide)

theorem hasDoctype_doctype : hasDoctype doctype = true := by
  rw [show doctype = _ from toList_literals String.toList_ofList String.toList_ofList]
  decide +kernel

theorem isLegible_settingsBlock : IsLegible settingsBlock := by
  rw [show settingsBlock = _ from
    toList_literals (toList_literals String.toList_ofList String.toList_ofList)
      String.toList_ofList]
  exact isLegible_comment (by decide +kernel)

theorem isLegible_line {t : Text} (n : Nat) (hl : t.dropLast ++ ['\n'] = t)
    (h : (tagNode n t.dropLast).isRead = true ∧ (tagNode n t.dropLast).source = t.dropLast) :
    IsLegible t := by
  rw [← hl]
  exact (isLegible_tag n h).append (isLegible_of_not_mem (by decide))

theorem isLegible_headMeta : IsLegible headMeta := by
  rw [show headMeta = _ from toList_literals (toList_literals (toList_literals String.toList_ofList
    String.toList_ofList) String.toList_ofList) String.toList_ofList]
  exact (((isLegible_line 4 rfl (by decide)).append
    (isLegible_line 4 rfl (by decide))).append
    (isLegible_line 4 rfl (by decide))).append (isLegible_tag 4 (by decide))

def bareTags : List Text :=
  ["<head>".toList, "</head>".toList, "<title>".toList, "</title>".toList]

theorem bareTags_forall {p : Text → Prop} (h : ∀ t ∈ bareTags, p t) :
    p "<head>".toList ∧ p "</head>".toList ∧ p "<title>".toList ∧ p "</title>".toList := by
  simpa [bareTags] using h

theorem isLegible_bareTag {t : Text} (h : t ∈ bareTags) : IsLegible t := by
  have hall : ∀ t ∈ bareTags, ∃ closing, ∃ name ∈ ["head".toList, "title".toList],
      Node.isTag name [] = true ∧ tagText closing name [] = t := by decide
  obtain ⟨closing, name, -, hname, rfl⟩ := hall t h
  exact isLegible_tagText (Node.isTag_iff.1 hname)

theorem isLegible_literal {t : Text} (n : Nat) (h : IsLegible (t.take n))
    (h' : IsLegible (t.drop n)) : IsLegible (String.ofList t).toList := by
  rw [String.toList_ofList, ← List.take_append_drop n t]
  exact h.append h'

theorem isLegible_plain {t : Text} (h : t.contains '<' = false) : IsLegible t :=
  isLegible_of_not_mem (by simpa using h)

theorem isLegible_literals {s u : String} (hs : IsLegible s.toList) (hu : IsLegible u.toList) :
    IsLegible (s ++ u).toList := by
  rw [String.toList_append]
  exact hs.append hu

theorem isLegible_plainLiteral {t : Text} (h : t.contains '<' = false) :
    IsLegible (String.ofList t).toList := by
  rw [String.toList_ofList]
  exact isLegible_plain h

theorem isLegible_stylesheet : IsLegible stylesheet :=
  have h2 := isLegible_literals
    (isLegible_literal 23 (isLegible_tag 5 (by decide))
      (isLegible_plain (by decide)))
    (isLegible_plainLiteral (by decide))
  have h3 := isLegible_literals h2 (isLegible_plainLiteral (by decide))
  have h4 := isLegible_literals h3 (isLegible_plainLiteral (by decide))
  have h5 := isLegible_literals h4 (isLegible_plainLiteral (by decide))
  isLegible_literals h5 (isLegible_literal 34 (isLegible_plain (by decide))
    (isLegible_of_node (n := .tag true "style".toList []) (by decide)))

theorem htmlOpening_eq : ∃ body, IsTag "html".toList body ∧
    htmlOpening = tagText false "html".toList body := by
  rw [show htmlOpening = _ from toList_literals String.toList_ofList String.toList_ofList]
  have h (t : Text) (ht : Node.isTag "html".toList ((t.drop 5).dropLast) = true ∧
      tagText false "html".toList ((t.drop 5).dropLast) = t) :
      ∃ body, IsTag "html".toList body ∧ t = tagText false "html".toList body :=
    ⟨_, Node.isTag_iff.1 ht.1, ht.2.symm⟩
  exact h _ (by decide)

theorem opens_extra {extra : Text} (h : IsWhole (extra ++ ['\n'])) {name r : Text}
    (hr : opens name ('<' :: r) = true) :
    opens name ((if extra = [] then [] else extra ++ ['\n']) ++ '<' :: r) = true := by
  split
  · exact hr
  · exact h.opens hr

theorem shell_eq_append (title extra tag content : Text) : ∃ r, shell title extra tag content =
    doctype ++ '\n' :: (htmlOpening ++ '\n' :: ("<head>".toList ++ '\n' :: (headMeta ++ '\n' ::
      ("<title>".toList ++ (title ++ ("</title>".toList ++ '\n' :: (settingsBlock ++ '\n' ::
        (stylesheet ++ '\n' :: ((if extra = [] then [] else extra ++ ['\n']) ++
          ("</head>".toList ++ '\n' :: (tag ++ r))))))))))) :=
  ⟨_, shell_eq_parts title extra tag content⟩

theorem isComplete_shell {title extra tag content : Text} (ht : IsWhole title)
    (he : IsWhole (extra ++ ['\n']))
    (htag : ∃ body, tag = tagText false "body".toList body ∧ IsTag "body".toList body) :
    IsComplete (shell title extra tag content) := by
  obtain ⟨body, rfl, hbody⟩ := htag
  obtain ⟨root, hroot, hopening⟩ := htmlOpening_eq
  obtain ⟨r, hshell⟩ := shell_eq_append title extra (tagText false "body".toList body) content
  have hopen : IsLegible htmlOpening := hopening ▸ isLegible_tagText hroot
  have hr := opens_tagText hbody (by decide) r
  rw [hshell]
  constructor
  · exact hasDoctype_append hasDoctype_doctype _
  · rw [hopening]
    exact isSome_of_opens <| isLegible_doctype.opens <| opens_break <|
      opens_tagText hroot (by decide) _
  · exact isSome_of_opens <| isLegible_doctype.opens <| opens_break <| hopen.opens <|
      opens_break <| @opens_tagText "head".toList [] ⟨by decide, by decide, rfl⟩ (by decide) _
  · obtain ⟨hhead, hheadEnd, htitleTag, htitleEnd⟩ := bareTags_forall fun _ => isLegible_bareTag
    exact isSome_of_opens <| isLegible_doctype.opens <| opens_break <| hopen.opens <|
      opens_break <| hhead.opens <| opens_break <| isLegible_headMeta.opens <|
      opens_break <| htitleTag.opens <| ht.opens <| htitleEnd.opens <|
      opens_break <| isLegible_settingsBlock.opens <| opens_break <| isLegible_stylesheet.opens <|
      opens_break <| opens_extra he <| hheadEnd.opens <| opens_break hr

theorem exists_withBodyPiece {html tag : Text} {b : Token}
    (hb : findOpening? html "body".toList = some b) (ht : bodyTag b.attrs = .ok tag)
    (hf : ∀ i ∈ fallbacks html, b.start ≤ i) :
    ∃ ps p q qs, lexemes html = ps ++ p :: qs ∧ opensPiece "body".toList p = true ∧
      b.start = (source ps).length ∧ Steady ps ∧ IsTagPiece q ∧
      (∀ name, opensPiece name q = opensPiece name p) ∧
      withBodyTag html = .ok (source (ps ++ q :: qs)) := by
  obtain ⟨ps, s, qs, hl, -, hk, hstart, hstop⟩ := exists_of_findOpening? hb
  obtain ⟨-, -, -, r, hr⟩ := exists_source_tag (lexemes_source_of_eq hl)
  obtain ⟨body, rfl, hbody⟩ := exists_bodyTag ht
  have hsteady : Steady ps := by
    refine @steady_of_lexemes html r 0 ps _ hl hr fun i hi => ?_
    rw [← hl] at hi
    have := hf i hi
    omega
  have hname : lower "body".toList = b.name ∧ b.closing = false := by
    rw [opensPiece_tag, Bool.and_eq_true, beq_iff_eq, beq_iff_eq] at hk
    exact hk
  refine ⟨ps, _, .hit (.tag (.ofBody false "body".toList body)) (tagText false "body".toList body),
    qs, hl, hk, hstart, hsteady, ⟨_, _, _, hbody, rfl⟩, fun name => ?_, ?_⟩
  · rw [opensPiece_tag, opensPiece_tag, ← hname.1, hname.2]
    rfl
  · have hhtml : html = source ps ++ (s ++ source qs) := by
      rw [← source_lexemes html, hl]
      exact source_append ps _
    have htake : html.take b.start = source ps := by
      rw [hhtml, hstart, List.take_left]
    have hdrop : html.drop b.stop = source qs := by
      rw [hhtml, hstop, ← List.append_assoc, ← List.length_append, List.drop_left]
    rw [withBodyTag, hb]
    change (bodyTag b.attrs >>= fun t => pure (html.take b.start ++ t ++ html.drop b.stop)) = _
    rw [ht, htake, hdrop, source_append, source_cons]
    exact congrArg Except.ok (List.append_assoc ..)

theorem not_opensPiece_both {p : Piece Lexeme} (hroot : opensPiece "html".toList p = true)
    (hbody : opensPiece "body".toList p = true) : False := by
  match p with
  | .hit (.tag k) s =>
    rw [opensPiece_tag, Bool.and_eq_true, beq_iff_eq] at hroot hbody
    exact absurd (hroot.1.trans hbody.1.symm) (by decide)

theorem steady_root {html : Text} {root : Token} {ps qs us vs : Lexemes} {p q r : Piece Lexeme}
    (hl : lexemes html = ps ++ p :: qs) (hbody : opensPiece "body".toList p = true)
    (hps : Steady ps) (hq : IsTagPiece q)
    (hpq : ∀ name, opensPiece name q = opensPiece name p)
    (hroot : findOpening? html "html".toList = some root)
    (hf : ∀ i ∈ fallbacks html, root.start < i)
    (hus : ps ++ q :: qs = us ++ r :: vs)
    (hnone : ∀ x ∈ us, opensPiece "html".toList x = false)
    (hr : opensPiece "html".toList r = true) :
    Steady us ∧ IsTagPiece r ∧
      html.take (min root.start (source ps).length) <+: source us := by
  match p, r, hbody, hr with
  | .hit (.tag kp) sp, .hit (.tag kr) sr, hbody, hr =>
    rcases List.append_eq_append_iff.1 hus with ⟨ws, rfl, hws⟩ | ⟨ws, rfl, hws⟩
    -- the root stands behind the body: the body tag in front of it is another one now
    · cases ws with
      | nil =>
        obtain ⟨rfl, rfl⟩ := List.cons.inj hws
        exact (not_opensPiece_both ((hpq _).symm.trans hr) hbody).elim
      | cons x ws =>
        obtain ⟨rfl, rfl⟩ := List.cons.inj hws
        have hl' : lexemes html = (ps ++ .hit (.tag kp) sp :: ws) ++ .hit (.tag kr) sr :: vs := by
          rw [hl, List.append_assoc]
          rfl
        have hnone' : ∀ x ∈ ps ++ .hit (.tag kp) sp :: ws, opensPiece "html".toList x = false := by
          intro x hx
          rcases List.mem_append.1 hx with hx | hx
          · exact hnone x (List.mem_append_left _ hx)
          · rcases List.mem_cons.1 hx with rfl | hx
            · rw [← hpq]
              exact hnone _ (List.mem_append_right _ List.mem_cons_self)
            · exact hnone x (List.mem_append_right _ (List.mem_cons_of_mem _ hx))
        rw [findOpening?_of_lexemes hl' hnone' hr, Option.some.injEq] at hroot
        subst hroot
        obtain ⟨hsteady, htag⟩ := steady_tag_of_lexemes hl' hf
        have hp := hsteady.isTagPiece (List.mem_append_right _ List.mem_cons_self)
        refine ⟨hps.append_tag hq (hsteady.of_append_tag hp).2, htag, ?_⟩
        rw [source_append ps (q :: ws)]
        exact (take_source hl (Nat.min_le_right ..)).trans (List.prefix_append ..)
    -- the root stands in front of the body
    · cases ws with
      | nil =>
        obtain ⟨rfl, rfl⟩ := List.cons.inj hws
        exact (not_opensPiece_both ((hpq _).symm.trans hr) hbody).elim
      | cons x ws =>
        obtain ⟨rfl, rfl⟩ := List.cons.inj hws
        have hl' : lexemes html = us ++ .hit (.tag kr) sr :: (ws ++ .hit (.tag kp) sp :: qs) := by
          rw [hl, List.append_assoc]
          rfl
        rw [findOpening?_of_lexemes hl' hnone hr, Option.some.injEq] at hroot
        subst hroot
        have htag := hps.isTagPiece (List.mem_append_right _ List.mem_cons_self)
        exact ⟨(hps.of_append_tag htag).1, htag, take_source hl' (Nat.min_le_left ..)⟩

theorem newHead_eq_append (title : Text) : newHead title =
    '\n' :: ("<head>".toList ++ '\n' :: (headMeta ++ '\n' :: ("<title>".toList ++ (title ++
      ("</title>".toList ++ '\n' :: "</head>".toList))))) := by
  have hs (a b c d e : Text) :
      '\n' :: (a ++ ['\n']) ++ b ++ '\n' :: (c ++ title ++ d) ++ '\n' :: e =
      '\n' :: (a ++ '\n' :: (b ++ '\n' :: (c ++ (title ++ (d ++ '\n' :: e))))) := by
    simp
  exact hs "<head>".toList headMeta "<title>".toList "</title>".toList "</head>".toList

theorem isLegible_newHead {title : Text} (h : '<' ∉ title) : IsLegible (newHead title) := by
  have hend {t : Text} (ht : IsLegible t) : IsLegible ('\n' :: t) := ht.cons (by decide)
  obtain ⟨hhead, hheadEnd, htitleTag, htitleEnd⟩ := bareTags_forall fun _ => isLegible_bareTag
  rw [newHead_eq_append]
  exact hend <| hhead.append <| hend <| isLegible_headMeta.append <| hend <|
    htitleTag.append <| (isLegible_of_not_mem h).append <|
    htitleEnd.append <| hend hheadEnd

theorem opens_newHead (title r : Text) : opens "head".toList (newHead title ++ r) = true := by
  obtain ⟨u, hu⟩ : ∃ u, newHead title = '\n' :: ("<head>".toList ++ u) :=
    ⟨_, newHead_eq_append title⟩
  rw [hu, List.cons_append, List.append_assoc]
  exact opens_break (opens_headOpening _)

structure IsFramed (html : Text) (root body : Token) : Prop where
  root_found : findOpening? html "html".toList = some root
  body_found : findOpening? html "body".toList = some body
  doctype : hasDoctype (html.take (min root.start body.start)) = true
  steady : ∀ i ∈ fallbacks html, root.start < i ∧ body.start ≤ i

theorem isComplete_inserted {title : Text} (hm : '<' ∉ title) {us vs : Lexemes} {r : Piece Lexeme}
    (hus : Steady us) (htag : IsTagPiece r) (hvs : lexemes (source vs) = vs)
    (hdoctype : hasDoctype (source us) = true) (hroot : opensPiece "html".toList r = true)
    (hbody : (us ++ r :: vs).any (opensPiece "body".toList) = true) :
    IsComplete (source us ++ (r.source ++ (newHead title ++ source vs))) := by
  have hl : lexemes (source us ++ (r.source ++ (newHead title ++ source vs))) =
      us ++ r :: lexemes (newHead title ++ source vs) := hus.lexemes_tag htag _
  refine ⟨hasDoctype_append hdoctype _, isSome_of_opens ?_, isSome_of_opens ?_, isSome_of_opens ?_⟩
  · rw [opens, hl, List.any_append, List.any_cons, hroot, Bool.true_or, Bool.or_true]
  · have := opens_newHead title (source vs)
    rw [opens] at this ⊢
    rw [hl, List.any_append, List.any_cons, this, Bool.or_true, Bool.or_true]
  · obtain ⟨ns, hn, hs⟩ := isLegible_newHead hm
    rw [opens, hl, ← hs, lexemes_append_of_isRead hn, hvs]
    simp only [List.any_append, List.any_cons, Bool.or_eq_true] at hbody ⊢
    rcases hbody with h | h | h
    · exact .inl h
    · exact .inr (.inl h)
    · exact .inr (.inr (.inr h))

theorem isComplete_completed {html title tag : Text} {root body : Token}
    (h : IsFramed html root body) (ht : bodyTag body.attrs = .ok tag) (hm : '<' ∉ title) :
    ∃ out, completed html title = .ok out ∧ IsComplete out := by
  obtain ⟨ps, p, q, qs, hl, hbody, hstart, hps, hq, hpq, ho⟩ :=
    exists_withBodyPiece h.body_found ht fun i hi => (h.steady i hi).2
  have hl1 : lexemes (source (ps ++ q :: qs)) = ps ++ q :: qs := by
    rw [source_append, source_cons, hps.lexemes_tag hq, lexemes_source_tail hl]
  have hopens (name : Text) : opens name (source (ps ++ q :: qs)) = opens name html := by
    rw [opens, opens, hl1, hl, List.any_append, List.any_append, List.any_cons, List.any_cons, hpq]
  have hroot : opens "html".toList (source (ps ++ q :: qs)) = true := by
    rw [hopens, opens, ← findOpening?_isSome_iff, h.root_found]
    rfl
  have hbodyKept : opens "body".toList (source (ps ++ q :: qs)) = true := by
    rw [hopens, opens, ← findOpening?_isSome_iff, h.body_found]
    rfl
  have hdoctype := h.doctype
  rw [hstart] at hdoctype
  rw [completed, ho]
  change ∃ out, (if !lacksHead (source (ps ++ q :: qs)) then pure (source (ps ++ q :: qs)) else _) =
    _ ∧ _
  by_cases hlack : lacksHead (source (ps ++ q :: qs)) = true
  · obtain ⟨root', hroot'⟩ := Option.isSome_iff_exists.1 (isSome_of_opens hroot)
    obtain ⟨us, s, vs, hl', hnone, hk, -, hstop⟩ := exists_of_findOpening? hroot'
    obtain ⟨hus, htag, hpre⟩ := steady_root hl hbody hps hq hpq h.root_found
      (fun i hi => (h.steady i hi).1) (hl1.symm.trans hl') hnone hk
    have hcut := eq_source_append hl'
    have htake : (source (ps ++ q :: qs)).take root'.stop = source us ++ s := by
      rw [hcut, hstop, source_cons, ← List.append_assoc, ← List.length_append]
      exact List.take_left
    have hdrop : (source (ps ++ q :: qs)).drop root'.stop = source vs := by
      rw [hcut, hstop, source_cons, ← List.append_assoc, ← List.length_append]
      exact List.drop_left
    rw [if_neg (by simp [hlack]), hroot']
    refine ⟨_, rfl, ?_⟩
    rw [htake, hdrop, List.append_assoc, List.append_assoc]
    refine isComplete_inserted hm hus htag (lexemes_source_tail hl') ?_ hk ?_
    · obtain ⟨r, hr⟩ := hpre
      rw [← hr]
      exact hasDoctype_append hdoctype r
    · rw [← hl']
      exact hbodyKept
  · rw [if_pos (by simpa using hlack)]
    refine ⟨_, rfl, ?_, isSome_of_opens hroot, ?_, isSome_of_opens hbodyKept⟩
    · obtain ⟨r, hr⟩ := take_source hl (Nat.min_le_right root.start _)
      rw [source_append, ← hr, List.append_assoc]
      exact hasDoctype_append hdoctype _
    · rwa [lacksHead, ← Option.not_isSome, Bool.not_eq_true', Bool.not_eq_false] at hlack

def bodyAttrs (html : Text) : Text :=
  (cutBody (if isFull html then html else (cutHead html).2)).attrs

structure Head.IsWhole (head : Head) : Prop where
  title : Document.IsWhole head.title
  extra : Document.IsWhole (head.extra ++ ['\n'])

theorem isComplete_wrapped {html title tag : Text}
    (ht : bodyTag (cutBody (cutHead html).2).attrs = .ok tag) (hm : '<' ∉ title)
    (hhead : ∀ head, (cutHead html).1 = some head → head.IsWhole) :
    ∃ out, wrapped html title = .ok out ∧ IsComplete out := by
  obtain ⟨body, rfl, hbody⟩ := exists_bodyTag ht
  have hwhole : IsWhole (shellTitle html title) ∧
      IsWhole (((cutHead html).1.map (·.extra)).getD [] ++ ['\n']) := by
    rw [shellTitle]
    cases hh : (cutHead html).1 with
    | none => exact ⟨isWhole_of_not_mem hm, isWhole_of_not_mem (by decide)⟩
    | some head =>
      have h := hhead head hh
      refine ⟨?_, h.extra⟩
      change IsWhole (if head.title.isEmpty then title else head.title)
      split
      · exact isWhole_of_not_mem hm
      · exact h.title
  rw [wrapped_eq, ht]
  exact ⟨_, rfl, isComplete_shell hwhole.1 hwhole.2 ⟨body, rfl, hbody⟩⟩

/-- A document is made complete, with its title or the given one, if its body tag can be written:
a full document if its doctype stands in front of its root and its body, and the scanner does not
fall back there, and anything else if what the new shell takes over from a head does not stay
open. -/
theorem isComplete_complete {html title : Text} (ht : (bodyTag (bodyAttrs html)).isOk = true)
    (hfull : isFull html = true → ∃ root body, IsFramed html root body)
    (hhead : isFull html = false → ∀ head, (cutHead html).1 = some head → head.IsWhole) :
    ∃ out, complete html title = .ok out ∧ IsComplete out := by
  have hm : '<' ∉ escapeHtml (trim title) := not_mem_escapeHtml (by decide) _
  cases ht' : bodyTag (bodyAttrs html) with
  | error e =>
    rw [ht'] at ht
    cases ht
  | ok tag =>
    rw [complete]
    rw [bodyAttrs] at ht'
    cases hf : isFull html with
    | true =>
      obtain ⟨root, body, h⟩ := hfull hf
      rw [hf, if_pos rfl, cutBody, h.body_found] at ht'
      exact isComplete_completed h ht' hm
    | false =>
      rw [hf, if_neg Bool.false_ne_true] at ht'
      exact isComplete_wrapped ht' hm (hhead hf)

def bareDocument : Text := "<!DOCTYPE html><html><body>a</body></html>".toList

def titledFragment : Text :=
  "<head><title>A</title><style>a</style><!--b--></head><p>c</p>".toList

theorem isComplete_bareDocument_and_titledFragment :
    (∃ out, complete bareDocument [] = .ok out ∧ IsComplete out) ∧
      ∃ out, complete titledFragment [] = .ok out ∧ IsComplete out := by
  constructor
  · refine isComplete_complete (by decide) (fun _ => ?_) fun h =>
      absurd h (by decide)
    exact ⟨⟨⟨"html".toList, [], false, false⟩, 15, 21⟩, ⟨⟨"body".toList, [], false, false⟩, 21, 27⟩,
      by decide, by decide, by decide, by decide⟩
  · refine isComplete_complete (by decide) (fun h => absurd h (by decide))
      fun _ head hh => ?_
    have hcut : (cutHead titledFragment).1 =
        some ⟨"A".toList, "<style>a</style><!--b-->".toList⟩ := by decide
    obtain rfl := Option.some.inj (hcut.symm.trans hh)
    exact ⟨by decide, by decide⟩

def hiddenDoctype : Text :=
  "<!--<!DOCTYPE html>--><html><head></head><body></body></html>".toList

theorem not_isComplete_hiddenDoctype :
    ¬ ∀ html title, ∃ out, complete html title = .ok out ∧ IsComplete out := by
  intro h
  obtain ⟨out, ho, hc⟩ := h hiddenDoctype []
  have hn : (complete hiddenDoctype []).toOption.map hasDoctype = some false := by decide +kernel
  rw [ho] at hn
  exact absurd (hc.doctype.symm.trans (Option.some.inj hn)) (by decide)

end MailMarkup.Document
