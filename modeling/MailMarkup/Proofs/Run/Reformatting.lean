import MailMarkup.Proofs.Document.Fragments
import MailMarkup.Proofs.Run.StageStability
import MailMarkup.Run.Examination

namespace MailMarkup.Document

open Text Markup Spacing

def leadNodes : List Node := [
  .declaration '!' ("DOCTYPE html PUBLIC \"-//W3C//DTD XHTML 1.0 Transitional//EN\" ".toList ++
    "\"http://www.w3.org/TR/xhtml1/DTD/xhtml1-transitional.dtd\"".toList), .char '\n',
  .tag false "html".toList (" xmlns=\"http://www.w3.org/1999/xhtml\"".toList ++
    " xmlns:v=\"urn:schemas-microsoft-com:vml\"".toList ++
    " xmlns:o=\"urn:schemas-microsoft-com:office:office\"".toList), .char '\n',
  .tag false "head".toList [], .char '\n',
  .tag false "meta".toList
    " http-equiv=\"Content-Type\" content=\"text/html; charset=UTF-8\"".toList, .char '\n',
  .tag false "meta".toList
    " name=\"viewport\" content=\"width=device-width, initial-scale=1.0\"".toList, .char '\n',
  .tag false "meta".toList " http-equiv=\"X-UA-Compatible\" content=\"IE=edge\"".toList, .char '\n',
  .tag false "meta".toList " name=\"x-apple-disable-message-reformatting\"".toList, .char '\n',
  .tag false "title".toList [], .tag true "title".toList [], .char '\n',
  .comment ("[if mso]>\n<noscript><xml>\n<o:OfficeDocumentSettings>\n<o:AllowPNG/>\n".toList ++
    "<o:PixelsPerInch>96</o:PixelsPerInch>\n</o:OfficeDocumentSettings>\n".toList ++
    "</xml></noscript>\n<![endif]-->".toList), .char '\n',
  .tag false "style".toList " type=\"text/css\"".toList] ++
  ("\nbody\x7bmargin:0;padding:0;\x7d\n".toList ++
    "table,td\x7bborder-collapse:collapse;mso-table-lspace:0pt;".toList ++
    "mso-table-rspace:0pt;\x7d\n".toList ++
    "img\x7bborder:0;height:auto;line-height:100%;outline:none;text-decoration:none;".toList ++
    "-ms-interpolation-mode:bicubic;\x7d\n".toList ++
    "a[x-apple-data-detectors]\x7bcolor:inherit !important;".toList ++
    "text-decoration:none !important;\x7d\n".toList).map .char ++
  [.tag true "style".toList [], .char '\n', .tag true "head".toList [], .char '\n']

theorem sources_leadNodes : sources leadNodes =
    doctype ++ '\n' :: (htmlOpening ++ '\n' :: ("<head>".toList ++ '\n' :: (headMeta ++ '\n' ::
      ("<title>".toList ++ ("</title>".toList ++ '\n' :: (settingsBlock ++ '\n' ::
        (stylesheet ++ '\n' :: ("</head>".toList ++ ['\n'])))))))) := by
  rw [show doctype = _ from toList_literals String.toList_ofList String.toList_ofList,
    show htmlOpening = _ from toList_literals String.toList_ofList String.toList_ofList,
    show headMeta = _ from toList_literals (toList_literals (toList_literals String.toList_ofList
      String.toList_ofList) String.toList_ofList) String.toList_ofList,
    show settingsBlock = _ from toList_literals (toList_literals String.toList_ofList
      String.toList_ofList) String.toList_ofList,
    show stylesheet = _ from toList_literals (toList_literals (toList_literals (toList_literals
      (toList_literals String.toList_ofList String.toList_ofList) String.toList_ofList)
        String.toList_ofList) String.toList_ofList) String.toList_ofList, leadNodes]
  repeat rw [String.toList_ofList]
  decide +kernel

theorem holds_eq_false {α : Type} {f : Recogniser α} (hf : ReadsDeclarations f) {n : Node}
    (hv : n.isValid = true) (hi : isInner n = true)
    (hn : ∀ inner, n = .comment inner → holds f n = false) : holds f n = false := by
  cases n with
  | char c =>
    simp only [Node.isValid, bne_iff_ne, ne_eq] at hv
    rw [holds, hits, Node.source, scan_cons_of_ne hf.startsMarkup hv]
    rfl
  | angle c =>
    simp only [Node.isValid, Bool.and_eq_true, bne_iff_ne, ne_eq, Bool.not_eq_true'] at hv
    rw [holds, hits, Node.source, scan_angle hf.startsMarkup hv.1 hv.2]
    rfl
  | declaration => cases hi
  | comment inner => exact hn inner rfl
  | tag closing name body =>
    rw [holds, hf.hits_tag hv]
    rfl

variable {ns : List Node}

theorem name_not_mem_of_isInner (hi : ∀ n ∈ ns, isInner n = true) {k : Tag} (hk : k ∈ tagsOf ns) :
    k.name ∉ documentNames := by
  obtain ⟨n, hn, ht⟩ := List.mem_filterMap.1 hk
  have hn := hi n hn
  cases n with
  | tag closing name body =>
    obtain rfl := Option.some.inj ht
    simpa [isInner, Tag.ofBody] using hn
  | _ => simp [Node.tag?] at ht

theorem withoutShell_of_isInner (hc : IsClean ns) (hi : ∀ n ∈ ns, isInner n = true) :
    withoutShell (sources ns) = sources ns := by
  have hinert : areInert ns = true := areInert_iff.2 fun inner hm => hi _ hm
  have hcomment : ∀ inner, .comment inner ∈ ns → endsComment inner = true ∧ isInert inner = true :=
    fun inner hm => ⟨hc _ hm, hi _ hm⟩
  rw [withoutShell_sources hc hinert, shorn, List.filter_filter, List.filter_filter,
    List.filter_eq_self.2 fun n hn => ?_]
  have hdoctype := holds_eq_false readsDeclarations_doctype? (hc n hn) (hi n hn) fun inner he =>
    he ▸ holds_doctype?_of_isInert (hcomment inner (he ▸ hn)).1 (hcomment inner (he ▸ hn)).2
  have hxml := holds_eq_false readsDeclarations_xmlDeclaration? (hc n hn) (hi n hn) fun inner he =>
    he ▸ holds_xmlDeclaration?_of_isInert (hcomment inner (he ▸ hn)).1 (hcomment inner (he ▸ hn)).2
  have htag : n.tag?.any (·.isAmong documentNames) = false := by
    cases ht : n.tag? with
    | none => rfl
    | some k =>
      rw [Option.any_some, Bool.eq_false_iff, Ne, isAmong_iff (by decide) (by decide)]
      exact name_not_mem_of_isInner hi (List.mem_filterMap.2 ⟨n, hn, ht⟩)
  rw [hdoctype, hxml, htag]
  rfl

theorem complete_of_isInner (hc : IsClean ns) (hi : ∀ n ∈ ns, isInner n = true) (title : Text) :
    complete (sources ns) title =
      .ok (shell (escapeHtml (trim title)) [] bodyOpening (trim (sources ns))) := by
  have hnone : ∀ name ∈ documentNames, findOpening? (sources ns) name = none := fun name hn =>
    findOpening?_eq_none (by revert name; decide) fun k hk _ he => by
      have hk : k.toTag ∈ tagsOf ns := by
        have := List.mem_map_of_mem (f := Token.toTag) hk
        rw [map_toTag_tokens hc] at this
        exact (List.mem_filter.1 this).1
      exact name_not_mem_of_isInner hi hk (he ▸ hn)
  have hfull : isFull (sources ns) = false := by
    rw [isFull, hnone "body".toList (by decide)]
    exact Bool.and_false _
  rw [complete, hfull, wrapped_fragment (hnone _ (by decide)) (hnone _ (by decide)),
    withoutShell_of_isInner hc hi]
  rfl

def frontNodes : List Node :=
  leadNodes ++ [.tag false "body".toList baseAttributes.render, .char '\n']

def endNodes : List Node :=
  [.char '\n', .tag true "body".toList [], .char '\n', .tag true "html".toList [], .char '\n']

theorem parts_eq (d h m s t b u e : Text) :
    d ++ '\n' :: (h ++ '\n' :: ("<head>".toList ++ '\n' :: (m ++ '\n' ::
      ("<title>".toList ++ ("</title>".toList ++ '\n' :: (s ++ '\n' ::
        (t ++ '\n' :: ("</head>".toList ++ ['\n'])))))))) ++ (b ++ ['\n']) ++ (u ++ e) =
    d ++ '\n' :: (h ++ '\n' :: ("<head>".toList ++ '\n' :: (m ++ '\n' ::
      ("<title>".toList ++ ([] ++ ("</title>".toList ++ '\n' :: (s ++ '\n' ::
        (t ++ '\n' :: ((if ([] : Text) = [] then [] else [] ++ ['\n']) ++
          ("</head>".toList ++ '\n' :: (b ++ '\n' :: (u ++ e)))))))))))) := by
  simp only [List.append_assoc, List.cons_append, List.nil_append, if_true]

theorem sources_shell (ns : List Node) :
    sources (frontNodes ++ (ns ++ endNodes)) = shell [] [] bodyOpening (sources ns) := by
  have hbody (t : Text) : sources [.tag false "body".toList t, .char '\n'] =
      tagText false "body".toList t ++ ['\n'] := by
    simp [sources, Node.source]
  have hend : sources endNodes = "\n</body>\n</html>\n".toList := by decide
  rw [sources_append, frontNodes, sources_append, sources_append, hbody, ← openTag_eq_tagText,
    openTag_baseAttributes, hend, sources_leadNodes, shell_eq_parts]
  exact parts_eq doctype htmlOpening headMeta settingsBlock stylesheet bodyOpening (sources ns) _

end MailMarkup.Document

namespace MailMarkup.Run

open Text Markup Spacing Document

variable {c : Config} {ns ms : List Node}

def watchedNames : List Text := "a".toList :: Image.name :: Table.structureNames

structure IsFrame (ns : List Node) : Prop where
  clean : IsClean ns
  neat : ∀ n ∈ ns, IsNeat n
  apart : ∀ n ∈ ns, ∀ k ∈ n.tag?, k.name ∉ watchedNames

theorem IsFrame.append (h : IsFrame ns) (h' : IsFrame ms) : IsFrame (ns ++ ms) where
  clean := h.clean.append h'.clean
  neat := List.forall_mem_append.2 ⟨h.neat, h'.neat⟩
  apart := List.forall_mem_append.2 ⟨h.apart, h'.apart⟩

theorem IsFrame.onTags (h : IsFrame ns) {name : Text} (hn : name ∈ watchedNames)
    (P : Tag → Text → Prop) : OnTags name P ns :=
  fun n hm k hk he => absurd (he ▸ hn) (h.apart n hm k hk)

theorem IsFrame.filterMap_markOf? (h : IsFrame ns) : ns.filterMap Table.markOf? = [] := by
  refine List.filterMap_eq_nil_iff.2 fun n hn => ?_
  rw [Table.markOf?, Option.map_eq_none_iff, Option.filter_eq_none_iff]
  intro k hk ha
  rw [isAmong_iff (by decide) (by decide)] at ha
  exact h.apart n hn k hk (List.mem_cons_of_mem _ (List.mem_cons_of_mem _ ha))

theorem IsFrame.showing (h : IsFrame ns) : Image.Showing c ns [] := by
  refine .of_not_among fun n hn k hk => ?_
  rw [Bool.eq_false_iff, Ne, isAmong_singleton (by decide)]
  exact fun he => h.apart n hn k hk (he ▸ by decide)

theorem IsStanding.of_thinned (h : IsStanding c ns) (ht : Thinned ns ms) (hm : HasTidyText ms) :
    IsStanding c ms := by
  have hsub : ms ⊆ ns := ht.sublist.subset
  obtain ⟨alts, hs, hd⟩ := h.images
  exact {
    clean := fun n hn => h.clean n (hsub hn)
    tables := h.tables.of_subset hsub
    images := ⟨alts, hs.of_thinned ht, hd⟩
    cells := h.cells.of_thinned ht
    rows := fun hw => (h.rows hw).of_marks h.clean (fun n hn => h.clean n (hsub hn))
      (Table.filterMap_markOf?_of_thinned ht)
    spans := fun name hn => (h.spans name hn).of_subset hsub
    links := fun he => (h.links he).of_subset hsub
    neat := fun n hn => h.neat n (hsub hn)
    text := hm
    colors := h.colors.of_subset hsub }

theorem IsStanding.framed (h : IsStanding c ns) {front back : List Node} (hf : IsFrame front)
    (hb : IsFrame back) (hs : Table.Alike [] back)
    (ht : HasTidyText (front ++ (ns ++ back))) : IsStanding c (front ++ (ns ++ back)) := by
  have hon : ∀ {name : Text} {P : Tag → Text → Prop}, name ∈ watchedNames → OnTags name P ns →
      OnTags name P (front ++ (ns ++ back)) := fun hn hP =>
    (hf.onTags hn _).append (hP.append (hb.onTags hn _))
  have hclean : IsClean (front ++ (ns ++ back)) := hf.clean.append (h.clean.append hb.clean)
  obtain ⟨alts, hshow, hd⟩ := h.images
  have hcell : ∀ {ls : List Node}, IsFrame ls →
      ∀ n ∈ ls, ∀ k ∈ n.tag?, k.name ≠ Table.cellName := fun hl n hn k hk he =>
    hl.apart n hn k hk (he ▸ by decide)
  have hback : Table.CellsPadless back := by
    have hnil : Table.CellsPadless [] := trivial
    rw [← List.append_nil back]
    exact hnil.behind (hcell hb)
  exact {
    clean := hclean
    tables := hon (by decide) h.tables
    images := ⟨alts, by simpa using hf.showing.append (hshow.append (hb.showing)), hd⟩
    cells := (h.cells.append hback hs).behind (hcell hf)
    rows := fun hw => (h.rows hw).of_marks h.clean hclean (by
      rw [List.filterMap_append, List.filterMap_append, hf.filterMap_markOf?,
        hb.filterMap_markOf?, List.append_nil]
      rfl)
    spans := fun name hn => hon (by revert name; decide) (h.spans name hn)
    links := fun he => hon (by decide) (h.links he)
    neat := List.forall_mem_append.2 ⟨hf.neat, List.forall_mem_append.2 ⟨h.neat, hb.neat⟩⟩
    text := ht
    colors := hon (by decide) h.colors }

theorem isFrame_leadNodes : IsFrame leadNodes ∧ IsTidy (leadNodes.map glyph) := by
  refine ⟨⟨?_, ?_, ?_⟩, ?_⟩
  all_goals
    rw [leadNodes]
    repeat rw [String.toList_ofList]
    decide +kernel

theorem isFrame_frontNodes : IsFrame frontNodes :=
  isFrame_leadNodes.1.append ⟨by decide +kernel, by decide +kernel, by decide +kernel⟩

theorem isFrame_endNodes : IsFrame endNodes := ⟨by decide, by decide, by decide⟩

theorem alike_endNodes : Table.Alike [] endNodes := by
  have h : Table.Alike [] (.tag true "body".toList [] ::
      ([.char '\n', .tag true "html".toList [], .char '\n'] ++ [])) :=
    .put (by decide) _ .nil
  exact .space (by decide) h

theorem hasTidyText_shell (h : HasTidyText ns)
    (hl : ∀ c ∈ (ns.map glyph).getLast?, isBlank c = false) :
    HasTidyText (frontNodes ++ (ns ++ endNodes)) := by
  rw [hasTidyText_iff] at h ⊢
  have hlines : (frontNodes ++ (ns ++ endNodes)).map glyph = leadNodes.map glyph ++
      '<' :: ('\n' :: (ns.map glyph ++ ['\n']) ++ '<' :: ['\n', '<', '\n']) := by
    simp [frontNodes, endNodes, glyph]
  rw [hlines]
  exact isFrame_leadNodes.2.around ((h.line hl).around (by decide) (by decide)) (by decide)

theorem isBlank_getLast?_glyph (ht : trim (sources ns) = sources ns) :
    ∀ c ∈ (ns.map glyph).getLast?, isBlank c = false := by
  cases ns using List.reverseRecOn with
  | nil => rintro c ⟨⟩
  | append_singleton ns n =>
    rw [List.map_append, List.map_singleton, List.getLast?_concat]
    rintro c hc
    obtain rfl := Option.some.inj hc
    cases n with
    | char d =>
      refine (trim_eq_self_iff.1 ht).2 d ?_
      rw [sources_append]
      simp [sources, Node.source]
    | _ => rfl

theorem thinned_blanks {s : Text} (h : s.all isBlank = true) : Thinned (s.map .char) [] := by
  induction s with
  | nil => exact .nil
  | cons c s ih =>
    rw [List.all_cons, Bool.and_eq_true] at h
    exact .drop h.1 (ih h.2)

theorem IsStanding.exists_shell (h : IsStanding c ns) (ho : ∀ n ∈ ns, IsOrdinary n) :
    ∃ ms, complete (sources ns) [] = .ok (sources (frontNodes ++ (ms ++ endNodes))) ∧
      IsStanding c (frontNodes ++ (ms ++ endNodes)) := by
  obtain ⟨s, e, ms, hm, hs, he, hns⟩ := exists_trimmed h.clean h.neat
  have hthin : Thinned ns ms := by
    have := (thinned_blanks hs).append ((Thinned.refl ms).append (thinned_blanks he))
    rwa [← hns, List.nil_append, List.append_nil] at this
  have htext : HasTidyText ms := fun t ht => h.text t (ht.trans ⟨s.map .char, e.map .char, by
    rw [hns, List.append_assoc]⟩)
  have htrim : trim (sources ms) = sources ms := by rw [← hm, trim_trim]
  refine ⟨ms, ?_, (h.of_thinned hthin htext).framed isFrame_frontNodes isFrame_endNodes
    alike_endNodes (hasTidyText_shell htext (isBlank_getLast?_glyph htrim))⟩
  rw [complete_of_isInner h.clean fun n hn => (ho n hn).inner, hm, sources_shell]
  rfl

theorem applyAll_self {ss : List Stage} {t : Text} (h : ∀ s ∈ ss, s.apply c t = .ok t) :
    applyAll c ss t = .ok t := by
  induction ss with
  | nil => rfl
  | cons s ss ih =>
    obtain ⟨hs, hss⟩ := List.forall_mem_cons.1 h
    exact applyAll_cons hs (ih hss)

theorem runSteps_of_applyAll {ss : List Stage} {t u : Text} (h : applyAll c ss t = .ok u) :
    (runSteps (Stage.apply c) ss t).1 = u ∧ completed (runSteps (Stage.apply c) ss t).2 = ss := by
  induction ss generalizing t with
  | nil => exact ⟨Except.ok.inj h, rfl⟩
  | cons s ss ih =>
    rw [applyAll, List.foldlM_cons] at h
    obtain ⟨v, hv, h⟩ := bind_eq_ok.1 h
    obtain ⟨h1, h2⟩ := ih h
    rw [runSteps, hv]
    exact ⟨h1, congrArg (s :: ·) h2⟩

theorem exists_format (analyze : Report.Analysis) {t u : Text} (ht : allBlank t = false)
    (h : applyAll c (Stage.stagesOf c) t = .ok u) :
    ∃ r, formatBy analyze c t = .ok r ∧ r.completed = Stage.stagesOf c ∧ r.html = u := by
  obtain ⟨h1, h2⟩ := runSteps_of_applyAll h
  exact ⟨_, format_eq_resultOf ht, h2, h1⟩

/-- Every stage can be run on a formattable text, and a second run gives the result of the first one
back. -/
theorem format_again (analyze : Report.Analysis) (h : IsFormattable c ns)
    (ht : allBlank (sources ns) = false)
    (hp : allBlank c.preheader = true) (hb : allBlank c.balance = true)
    (hbase : Image.IsSteadyBase c.imageBase) :
    ∃ r, formatBy analyze c (sources ns) = .ok r ∧ r.completed = Stage.stagesOf c ∧
      ∃ r', formatBy analyze c r.html = .ok r' ∧ r'.completed = Stage.stagesOf c ∧
        r'.html = r.html := by
  obtain ⟨ks, hk, hstand, ho⟩ := h.exists_standing hp hb hbase
  obtain ⟨ms, hm, hshell⟩ := hstand.exists_shell ho
  have hfirst : applyAll c (Stage.stagesOf c) (sources ns) =
      .ok (sources (frontNodes ++ (ms ++ endNodes))) := by
    rw [stagesOf_eq_inner, applyAll_append hk]
    exact applyAll_cons hm rfl
  have hagain : applyAll c (Stage.stagesOf c) (sources (frontNodes ++ (ms ++ endNodes))) =
      .ok (sources (frontNodes ++ (ms ++ endNodes))) := by
    refine applyAll_self fun s hs => ?_
    by_cases hd : s = .wrapDocument
    · have hshell := @complete_shell [] List.not_mem_nil (sources ms) []
      rw [← sources_shell] at hshell
      exact hd ▸ hshell
    · exact hshell.apply hp hb hs hd
  have hangle : '<' ∈ sources (frontNodes ++ (ms ++ endNodes)) :=
    List.mem_flatMap.2 ⟨.tag true "body".toList [], by simp [endNodes], by decide⟩
  have hfilled : allBlank (sources (frontNodes ++ (ms ++ endNodes))) = false :=
    List.all_eq_false.2 ⟨'<', hangle, by decide⟩
  obtain ⟨r, hr, hcomplete, hhtml⟩ := exists_format analyze ht hfirst
  refine ⟨r, hr, hcomplete, ?_⟩
  rw [hhtml]
  exact exists_format analyze hfilled hagain

def columnConfig : Config :=
  ⟨"https://a.b/".toList, [], [], ⟨"mail".toList, "tea".toList⟩, ⟨true, ⟨.px600, false⟩⟩, true⟩

def columnNodes : List Node := [
  .tag false "table".toList " height=9 style=\"width:9px\"".toList, .char '\n',
  .tag false "tr".toList [],
  .tag false "td".toList " style='padding:9px;background-color:red'".toList,
  .tag false "img".toList " src=a.png alt=Tea".toList, .tag true "td".toList [], .char ' ',
  .char ' ', .tag false "td".toList [], .tag false "a".toList " href=\"https://c.d\"".toList,
  .char 'e', .tag true "a".toList [], .tag true "td".toList [], .tag true "tr".toList [],
  .tag true "table".toList []]

theorem format_again_in_columns :
    IsFormattable columnConfig columnNodes ∧ allBlank (sources columnNodes) = false ∧
      allBlank columnConfig.preheader = true ∧ allBlank columnConfig.balance = true ∧
      Image.IsSteadyBase columnConfig.imageBase ∧
      ∃ r, format columnConfig (sources columnNodes) = .ok r ∧
        r.completed = Stage.stagesOf columnConfig ∧
        ∃ r', format columnConfig r.html = .ok r' ∧
          r'.completed = Stage.stagesOf columnConfig ∧ r'.html = r.html := by
  have h : IsFormattable columnConfig columnNodes :=
    ⟨by decide +kernel, by decide +kernel, by decide +kernel, fun _ => by decide +kernel,
      fun _ => by decide +kernel⟩
  have ht : allBlank (sources columnNodes) = false := by decide
  have hbase : Image.IsSteadyBase columnConfig.imageBase := by decide +kernel
  exact ⟨h, ht, rfl, rfl, hbase, format_again Report.analyze h ht rfl rfl hbase⟩

def referenceSource : Text :=
  ("<!DOCTYPE html><html><head></head><body>".toList ++
    "<table style=\"a:&amp;amp;b\"></table></body></html>".toList)

theorem format_changes_reference_again :
    ¬ ∀ (analyze : Report.Analysis) (c : Config) (source : Text) (r r' : Result),
      allBlank source = false → allBlank c.preheader = true → allBlank c.balance = true →
      Image.IsSteadyBase c.imageBase →
      formatBy analyze c source = .ok r → formatBy analyze c r.html = .ok r' →
        r'.html = r.html := by
  intro h
  have hd : (do
      let r ← (format plainConfig referenceSource).toOption
      let r' ← (format plainConfig r.html).toOption
      return decide (r'.html = r.html)) = some false := by decide +kernel
  simp only [Option.bind_eq_bind, Option.bind_eq_some_iff, Option.pure_def, Option.some.injEq,
    decide_eq_false_iff_not, Link.toOption_eq_some] at hd
  obtain ⟨r, hr, r', hr', hne⟩ := hd
  exact hne (h Report.analyze plainConfig referenceSource r r' (by decide) rfl rfl
    (by decide +kernel) hr hr')

end MailMarkup.Run
