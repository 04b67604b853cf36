import MailMarkup.Proofs.Run.StageRenewal

namespace MailMarkup.Table

open Text Markup Spacing

structure IsPadless (k : Tag) (s : Text) : Prop where
  opens : k.closing = false ∧ k.selfClosing = false
  text : s = openTag cellName (.parse k.attrs)
  style : ∃ v t, Attributes.HoldsOnce (.parse k.attrs) "style".toList v ∧ Style.parse v = .ok t ∧
    t ≠ [] ∧ t.mergedAhead imageCellStyle = t ∧ escapeQuotes t.render = escapeQuotes v

theorem IsPadless.collapsedTag {k : Token} {s : Text} (h : IsPadless k.toTag s) :
    collapsedTag (k, true) = .ok (some s) := by
  obtain ⟨v, t, honce, hparse, hne, hmerged, hv⟩ := h.style
  have hstyle : (Attributes.parse k.attrs).styleText = v := by
    rw [Attributes.styleText, honce.get?]
    rfl
  have happly : (Attributes.parse k.attrs).revise [] (some (.style imageCellStyle)) [] =
      .ok ((Attributes.parse k.attrs).set "style".toList (some t.render)) := by
    change Attributes.applyStyle (Attributes.parse k.attrs) (.style imageCellStyle) [] = _
    rw [Attributes.applyStyle, hstyle, hparse]
    change Except.ok (if (t.mergedAhead imageCellStyle).isEmpty then _ else
      Attributes.set _ _ (some (t.mergedAhead imageCellStyle).render)) = _
    rw [hmerged, if_neg (by simpa using hne)]
  rw [Table.collapsedTag]
  change (Attributes.revise _ [] _ [] >>= fun as => pure (some (openTag cellName as))) = _
  rw [happly, h.text, openTag, ← honce.render_set hv]
  rfl

theorem isPadless_rendered {as : Attributes} (hl : as.IsLegal) {v : Text} {t : Style}
    (honce : as.HoldsOnce "style".toList v) (hparse : Style.parse v = .ok t) (hne : t ≠ [])
    (hmerged : t.mergedAhead imageCellStyle = t) (hv : escapeQuotes t.render = escapeQuotes v) :
    IsPadless (.ofBody false cellName as.render) (openTag cellName as) := by
  rw [ofBody_render hl]
  refine ⟨⟨rfl, rfl⟩, ?_, escapeQuotes v, t, ?_, ?_, hne, hmerged, ?_⟩
  · rw [Attributes.parse_render hl, openTag, openTag, Attributes.render_map_written]
  · rw [Attributes.parse_render hl]
    exact honce.map_written
  · rw [Style.parse_escapeQuotes, hparse]
  · rw [hv, escapeQuotes_escapeQuotes]

inductive Alike : List Node → List Node → Prop
  | nil : Alike [] []
  | keep (n : Node) {ns ms : List Node} (h : Alike ns ms) : Alike (n :: ns) (n :: ms)
  | renew {name body name' body' : Text} (same : name'.map Char.toLower = name.map Char.toLower)
    {ns ms : List Node} (h : Alike ns ms) :
    Alike (.tag false name body :: ns) (.tag false name' body' :: ms)
  | drop {c : Char} (hc : isBlank c = true) {ns ms : List Node} (h : Alike ns ms) :
    Alike (.char c :: ns) ms
  | space {c : Char} (hc : isBlank c = true) {ns ms : List Node} (h : Alike ns ms) :
    Alike ns (.char c :: ms)
  | put {closing : Bool} {name body : Text}
    (apart : opens "img".toList (.ofBody closing name body) = false ∧
      closes cellName (.ofBody closing name body) = false)
    (ls : List Node) {ns ms : List Node} (h : Alike ns ms) :
    Alike ns (.tag closing name body :: (ls ++ ms))

def piecesOf (ns : List Node) : Lexemes := ns.flatMap Node.pieces

variable {ns ms : List Node}

theorem piecesOf_cons (n : Node) (ns : List Node) : piecesOf (n :: ns) = n.pieces ++ piecesOf ns :=
  List.flatMap_cons

theorem nextTag?_char (c : Char) (ps : Lexemes) :
    nextTag? ((Node.char c).pieces ++ ps) = if isBlank c then nextTag? ps else none := rfl

theorem nextTag?_tag (closing : Bool) (name body : Text) (ps : Lexemes) :
    nextTag? ((Node.tag closing name body).pieces ++ ps) =
      some (.ofBody closing name body, ps) := rfl

theorem nextTag?_angle (r : Text) (ps : Lexemes) :
    nextTag? (('<' :: r).map .char ++ ps) = none := if_neg (by decide)

theorem alike_of_thinned (h : Thinned ns ms) : Alike ns ms := by
  induction h with
  | nil => exact .nil
  | keep n _ ih => exact .keep n ih
  | drop hc _ ih => exact .drop hc ih

theorem alike_of_renewed {names : List Text} (h : List.Forall₂ (Renewed names) ns ms) :
    Alike ns ms := by
  induction h with
  | nil => exact .nil
  | cons hr _ ih =>
    cases hr with
    | keep => exact .keep _ ih
    | renew _ same => exact .renew same ih

theorem Alike.nextTag? (h : Alike ns ms) {k' : Tag} {rest' : Lexemes}
    (hk : nextTag? (piecesOf ms) = some (k', rest'))
    (hk' : opens "img".toList k' = true ∨ closes cellName k' = true) :
    ∃ k rs rs', nextTag? (piecesOf ns) = some (k, piecesOf rs) ∧ rest' = piecesOf rs' ∧
      Alike rs rs' ∧ k.name = k'.name ∧ k.closing = k'.closing := by
  induction h with
  | nil => cases hk
  | @keep n ns ms h ih =>
    rw [piecesOf_cons] at hk
    rw [piecesOf_cons]
    cases n with
    | char c =>
      rw [nextTag?_char] at hk ⊢
      split at hk
      · rename_i hc
        rw [if_pos hc]
        exact ih hk
      · cases hk
    | angle c =>
      rw [Node.pieces, Node.source, nextTag?_angle] at hk
      · cases hk
      · simp
      · simp
    | declaration m inner =>
      rw [Node.pieces, Node.source, nextTag?_angle] at hk
      · cases hk
      · simp
      · simp
    | comment inner => cases hk
    | tag closing name body =>
      rw [nextTag?_tag] at hk
      obtain ⟨rfl, rfl⟩ := Prod.mk.inj (Option.some.inj hk)
      exact ⟨_, ns, ms, rfl, rfl, h, rfl, rfl⟩
  | @renew name body name' body' same ns ms h ih =>
    rw [piecesOf_cons, nextTag?_tag] at hk
    obtain ⟨rfl, rfl⟩ := Prod.mk.inj (Option.some.inj hk)
    exact ⟨_, ns, ms, rfl, rfl, h, same.symm, rfl⟩
  | @drop c hc ns ms h ih =>
    rw [piecesOf_cons, nextTag?_char, if_pos hc]
    exact ih hk
  | space hc h ih =>
    rw [piecesOf_cons, nextTag?_char, if_pos hc] at hk
    exact ih hk
  | put apart ls h ih =>
    rw [piecesOf_cons, nextTag?_tag] at hk
    obtain ⟨rfl, rfl⟩ := Prod.mk.inj (Option.some.inj hk)
    rw [apart.1, apart.2] at hk'
    exact (hk'.elim Bool.false_ne_true Bool.false_ne_true).elim

theorem Alike.holdsImage (h : Alike ns ms) (hm : holdsImage (piecesOf ms) = true) :
    holdsImage (piecesOf ns) = true := by
  simp only [Table.holdsImage, Option.any_eq_true, Bool.and_eq_true, Prod.exists] at hm ⊢
  obtain ⟨image', rest', hi, hio, close', last', hc, hcc⟩ := hm
  obtain ⟨image, rs, rs', hi', rfl, hrs, hname, hclosing⟩ := h.nextTag? hi (.inl hio)
  obtain ⟨close, ls, ls', hc', -, -, hname', hclosing'⟩ := hrs.nextTag? hc (.inr hcc)
  rw [opens_iff] at hio
  rw [closes_iff] at hcc
  exact ⟨image, _, hi', opens_iff.2 ⟨hname.trans hio.1, hclosing.trans hio.2⟩, close, _, hc',
    closes_iff.2 ⟨hname'.trans hcc.1, hclosing'.trans hcc.2⟩⟩

def CellsPadless : List Node → Prop
  | [] => True
  | n :: ns => (∀ k, n.tag? = some k → opens cellName k = true →
      holdsImage (piecesOf ns) = true → IsPadless k n.source) ∧ CellsPadless ns

theorem markedCellsFrom_map_char (start : Nat) (t : Text) (ps : Lexemes) :
    markedCellsFrom start (t.map .char ++ ps) = markedCellsFrom (start + t.length) ps := by
  induction t generalizing start with
  | nil => rfl
  | cons c t ih =>
    rw [List.length_cons, Nat.add_comm t.length 1, ← Nat.add_assoc, ← ih]
    rfl

theorem isAmong_cellName {k : Tag} : k.isAmong [cellName] = true ↔ k.name = cellName :=
  isAmong_singleton (by decide)

theorem markedCellsFrom_pass {n : Node} (h : ∀ t, n.tag? = some t → t.isAmong [cellName] = false)
    (start : Nat) (ps : Lexemes) :
    markedCellsFrom start (n.pieces ++ ps) = markedCellsFrom (start + n.source.length) ps := by
  cases n with
  | tag closing name body =>
    have hne : (Tag.ofBody closing name body).name ≠ cellName := fun he => by
      have := h _ rfl
      rw [isAmong_cellName.2 he] at this
      cases this
    exact if_neg hne
  | comment inner => rfl
  | _ => exact markedCellsFrom_map_char start _ ps

theorem markedCellsFrom_cell {n : Node} {t : Tag} (hn : n.tag? = some t)
    (ht : t.isAmong [cellName] = true) (start : Nat) (ps : Lexemes) :
    ∃ k : Token, k.toTag = t ∧ markedCellsFrom start (n.pieces ++ ps) =
      (k, !t.closing && holdsImage ps) :: markedCellsFrom (start + n.source.length) ps := by
  cases n with
  | tag closing name body =>
    obtain rfl := Option.some.inj hn
    exact ⟨⟨.ofBody closing name body, _, _⟩, rfl, if_pos (isAmong_cellName.1 ht)⟩
  | _ => simp [Node.tag?] at hn

theorem collapsedTag_unmarked (k : Token) : collapsedTag (k, false) = .ok none := rfl

theorem exists_edits_of_padless (h : CellsPadless ns) (start : Nat) :
    ∃ es, (markedCellsFrom start (piecesOf ns)).mapM collapsedTag = .ok es ∧
      (piecesOf ns).edited [cellName] es = sources ns := by
  induction ns generalizing start with
  | nil => exact ⟨[], rfl, rfl⟩
  | cons n ns ih =>
    obtain ⟨es, he, hs⟩ := ih h.2 (start + n.source.length)
    rw [piecesOf_cons, sources_cons]
    by_cases hp : ∀ t, n.tag? = some t → t.isAmong [cellName] = false
    · refine ⟨es, (markedCellsFrom_pass hp start _).symm ▸ he, ?_⟩
      rw [edited_pieces_of_not_among hp, hs]
    · simp only [not_forall, Bool.not_eq_false] at hp
      obtain ⟨t, hn, ht⟩ := hp
      obtain ⟨k, rfl, hm⟩ := markedCellsFrom_cell hn ht start (piecesOf ns)
      rw [hm, List.mapM_cons, he]
      by_cases hi : (!k.closing && Table.holdsImage (piecesOf ns)) = true
      · rw [Bool.and_eq_true, Bool.not_eq_true'] at hi
        have hpad := h.1 k.toTag hn (opens_iff.2 ⟨isAmong_cellName.1 ht, hi.1⟩) hi.2
        rw [hi.1, hi.2, Bool.not_false, Bool.true_and, hpad.collapsedTag]
        refine ⟨some n.source :: es, rfl, ?_⟩
        rw [edited_pieces_of_among hn ht, List.tail_cons, hs]
        rfl
      · rw [Bool.not_eq_true] at hi
        rw [hi, collapsedTag_unmarked]
        refine ⟨none :: es, rfl, ?_⟩
        rw [edited_pieces_of_among hn ht, List.tail_cons, hs]
        rfl

theorem CellsPadless.collapseImageCells (h : CellsPadless ns) (hc : IsClean ns) :
    collapseImageCells (sources ns) = .ok (sources ns) := by
  obtain ⟨es, he, hs⟩ := exists_edits_of_padless h 0
  have hl : lexemes (sources ns) = piecesOf ns := lexemes_sources hc
  rw [Table.collapseImageCells, markedCells, hl, he]
  change Except.ok (editTags [cellName] (sources ns) es) = _
  rw [editTags, hl, hs]

theorem Alike.append_right (hs : Alike [] ms) (ns : List Node) : Alike ns (ns ++ ms) := by
  induction ns with
  | nil => exact hs
  | cons n ns ih => exact .keep n ih

theorem CellsPadless.append (h : CellsPadless ns) (hm : CellsPadless ms) (hs : Alike [] ms) :
    CellsPadless (ns ++ ms) := by
  induction ns with
  | nil => exact hm
  | cons n ns ih =>
    exact ⟨fun k hk ho hi => h.1 k hk ho ((hs.append_right ns).holdsImage hi), ih h.2⟩

theorem CellsPadless.behind (h : CellsPadless ms)
    (hn : ∀ n ∈ ns, ∀ k ∈ n.tag?, k.name ≠ cellName) : CellsPadless (ns ++ ms) := by
  induction ns with
  | nil => exact h
  | cons n ns ih =>
    obtain ⟨hn, hns⟩ := List.forall_mem_cons.1 hn
    exact ⟨fun k hk ho => absurd (opens_iff.1 ho).1 (hn k hk), ih hns⟩

theorem CellsPadless.of_thinned (h : CellsPadless ns) (ht : Thinned ns ms) : CellsPadless ms := by
  induction ht with
  | nil => trivial
  | keep n ht ih =>
    exact ⟨fun k hk ho hm => h.1 k hk ho ((alike_of_thinned ht).holdsImage hm), ih h.2⟩
  | drop _ _ ih => exact ih h.2

theorem CellsPadless.of_renewal {names : List Text} {R : Tag → Option Text → Prop}
    (h : CellsPadless ns) (hr : List.Forall₂ (Renewal names R) ns ms)
    (hf : ∀ (k : Tag) (s name body : Text), k.isAmong names = true → k.name = cellName →
      IsPadless k s → R k (some (tagText false name body)) → IsTag name body →
      IsPadless (.ofBody false name body) (tagText false name body)) : CellsPadless ms := by
  induction hr with
  | nil => trivial
  | @cons n m ns ms hn hr ih =>
    refine ⟨fun k hk ho hm => ?_, ih h.2⟩
    have hi := (alike_of_renewed (renewed_of_renewal hr)).holdsImage hm
    cases hn with
    | pass => exact h.1 k hk ho hi
    | keep => exact h.1 k hk ho hi
    | renew ht same valid he =>
      obtain rfl := Option.some.inj hk
      have hname := same.symm.trans (opens_iff.1 ho).1
      exact hf _ _ _ _ ht hname (h.1 _ rfl (opens_iff.2 ⟨hname, rfl⟩) hi) he (isValid_tag.1 valid).1

theorem exists_collapsed {k : Token} {name body : Text} (ht : IsTag name body)
    (he : collapsedTag (k, true) = .ok (some (tagText false name body))) :
    ∃ s as, Style.parse (Attributes.parse k.attrs).styleText = .ok s ∧
      (Attributes.parse k.attrs).set "style".toList
        (some (s.mergedAhead imageCellStyle).render) = as ∧
      as.IsLegal ∧ openTag cellName as = tagText false name body ∧
      Tag.ofBody false cellName as.render = .ofBody false name body := by
  obtain ⟨as, has, he⟩ := bind_eq_ok.1 he
  have ho := Option.some.inj (pure_eq_ok.1 he)
  change Attributes.applyStyle (Attributes.parse k.attrs) (.style imageCellStyle) [] = _ at has
  obtain ⟨s, hs, has⟩ := bind_eq_ok.1 has
  have hset : (Attributes.parse k.attrs).set "style".toList
      (some (s.mergedAhead imageCellStyle).render) = as := Except.ok.inj has
  have hl : as.IsLegal := hset ▸ (Attributes.isLegal_parse k.attrs).set rfl
  exact ⟨s, as, hs, hset, hl, ho, ofBody_eq_of_tagText_eq (isTag_render (by decide) hl) ht
    ((openTag_eq_tagText _ _).symm.trans ho)⟩

theorem isPadless_of_collapsedTag {k : Token} {name body : Text}
    (hs : IsSteadyStyle (Attributes.parse k.attrs).styleText) (ht : IsTag name body)
    (he : collapsedTag (k, true) = .ok (some (tagText false name body))) :
    IsPadless (.ofBody false name body) (tagText false name body) := by
  obtain ⟨s, as, hparse, rfl, hl, htext, htag⟩ := exists_collapsed ht he
  obtain ⟨s', hs', hsteady⟩ := hs
  obtain rfl := Except.ok.inj (hs'.symm.trans hparse)
  have hmerged : (s'.mergedAhead imageCellStyle).IsSteady :=
    hsteady.mergedAhead (by decide)
  have hne : s'.mergedAhead imageCellStyle ≠ [] := by
    rw [Style.mergedAhead]
    exact List.append_ne_nil_of_left_ne_nil (by decide) _
  have hagain : (s'.mergedAhead imageCellStyle).mergedAhead imageCellStyle =
      s'.mergedAhead imageCellStyle := Style.mergedAhead_again (by decide) s' []
  have hread : Style.parse (s'.mergedAhead imageCellStyle).render =
      .ok (s'.mergedAhead imageCellStyle) := by
    rw [← Style.parse_escapeQuotes]
    exact hmerged.isRegular.parse_render
  rw [← htag, ← htext]
  exact isPadless_rendered hl (Attributes.holdsOnce_set _ _ _) hread hne hagain rfl

theorem cellsPadless_of_rewrites {es : List (Option Text)} (hr : Rewrites [cellName] ns es ms)
    (hs : ∀ n ∈ ns, ∀ k, n.tag? = some k → k.name = cellName →
      IsSteadyStyle (Attributes.parse k.attrs).styleText) {start : Nat}
    (he : (markedCellsFrom start (piecesOf ns)).mapM collapsedTag = .ok es) : CellsPadless ms := by
  induction hr generalizing start with
  | nil => trivial
  | @pass n ns ms es h hr ih =>
    rw [piecesOf_cons, markedCellsFrom_pass h] at he
    refine ⟨fun k hk ho => ?_, ih (List.forall_mem_cons.1 hs).2 he⟩
    have := h k hk
    rw [isAmong_cellName.2 (opens_iff.1 ho).1] at this
    cases this
  | @keep n t ns ms es hn ht hr ih =>
    obtain ⟨k, rfl, hm⟩ := markedCellsFrom_cell hn ht start (piecesOf ns)
    rw [piecesOf_cons, hm, List.mapM_cons] at he
    obtain ⟨e, hf, he⟩ := bind_eq_ok.1 he
    obtain ⟨es', hes, he⟩ := bind_eq_ok.1 he
    obtain ⟨rfl, rfl⟩ := List.cons.inj (pure_eq_ok.1 he)
    refine ⟨fun k' hk' ho hi => ?_, ih (List.forall_mem_cons.1 hs).2 hes⟩
    obtain rfl := Option.some.inj (hn.symm.trans hk')
    rw [(opens_iff.1 ho).2, (alike_of_renewed hr.forall₂).holdsImage hi] at hf
    obtain ⟨as, -, hf⟩ := bind_eq_ok.1 hf
    cases pure_eq_ok.1 hf
  | @renew name body name' body' ns ms es ht same valid hr ih =>
    obtain ⟨k, hk, hm⟩ :=
      markedCellsFrom_cell (n := .tag false name body) rfl ht start (piecesOf ns)
    rw [piecesOf_cons, hm, List.mapM_cons] at he
    obtain ⟨e, hf, he⟩ := bind_eq_ok.1 he
    obtain ⟨es', hes, he⟩ := bind_eq_ok.1 he
    obtain ⟨rfl, rfl⟩ := List.cons.inj (pure_eq_ok.1 he)
    refine ⟨fun k' hk' ho hi => ?_, ih (List.forall_mem_cons.1 hs).2 hes⟩
    obtain rfl := Option.some.inj hk'
    rw [(alike_of_renewed hr.forall₂).holdsImage hi] at hf
    refine isPadless_of_collapsedTag ?_ (isValid_tag.1 valid).1 hf
    rw [hk]
    exact (List.forall_mem_cons.1 hs).1 _ rfl (isAmong_cellName.1 ht)

theorem IsPadless.of_unspannedTag {k : Tag} {s name body : Text} (h : IsPadless k s)
    (hk : k.name = cellName) (ht : IsTag name body)
    (he : unspannedTag k = some (tagText false name body)) :
    IsPadless (.ofBody false name body) (tagText false name body) := by
  obtain ⟨v, t, honce, hparse, hne, hmerged, hv⟩ := h.style
  rw [unspannedTag] at he
  split at he
  · have ho := Option.some.inj he
    rw [if_neg (by simp [h.opens.2]), hk] at ho
    have hl : Attributes.IsLegal ((Attributes.parse k.attrs).remove colspan) :=
      Attributes.All.remove (Attributes.isLegal_parse k.attrs) _
    rw [← ofBody_eq_of_tagText_eq (isTag_render (by decide) hl) ht
      ((openTag_eq_tagText _ _).symm.trans ho), ← ho]
    exact isPadless_rendered hl (honce.remove (by decide)) hparse hne hmerged hv
  · cases he

theorem IsPadless.of_coloredTag {k : Tag} {s name body : Text} (h : IsPadless k s)
    (ht : IsTag name body) (he : Background.coloredTag k = .ok (some (tagText false name body))) :
    IsPadless (.ofBody false name body) (tagText false name body) := by
  obtain ⟨v, t, honce, hparse, hne, hmerged, hv⟩ := h.style
  obtain ⟨color, as, has, hl, htext, htag⟩ := Background.exists_colored ht he
  have hset : Attributes.HoldsOnce ((Attributes.parse k.attrs).set Background.bgcolor (some color))
      "style".toList v :=
    honce.setAll (List.pairwise_singleton _ (Attribute.mk Background.bgcolor (some color))) rfl
  have hstays : (Attributes.parse k.attrs).set Background.bgcolor (some color) = as := by
    obtain ⟨t', ht', has⟩ := bind_eq_ok.1 has
    rw [Attributes.styleText, hset.get?, Option.getD_some, hparse] at ht'
    obtain rfl := Except.ok.inj ht'
    rw [← pure_eq_ok.1 has, if_neg (by simpa using hne)]
  rw [htext, htag]
  exact isPadless_rendered hl (hstays ▸ hset) hparse hne hmerged hv

theorem isUnspanned_of_collapsedTag {k : Token} {b : Bool} {s s' name body : Text}
    (h : IsUnspanned k.toTag s) (hopen : k.closing = false) (ht : IsTag name body)
    (he : collapsedTag (k, b) = .ok (some (tagText false name body))) :
    IsUnspanned (.ofBody false name body) s' := by
  cases b with
  | false => cases (collapsedTag_unmarked k).symm.trans he
  | true =>
    obtain ⟨_, as, -, rfl, hl, -, htag⟩ := exists_collapsed ht he
    rw [← htag, ofBody_render hl]
    refine isUnspanned_rendered h hopen hl ?_
    rw [Attributes.get?_eq_head?, Attributes.filter_set (by decide), Attributes.get?_eq_head?]

def IsCollapsed (k : Tag) (e : Option Text) : Prop :=
  ∃ (t : Token) (b : Bool), t.toTag = k ∧ collapsedTag (t, b) = .ok e

theorem exists_collapseImageCells {c : Config} (hb : '<' ∉ c.imageBase) (hc : IsClean ns)
    (ho : ∀ n ∈ ns, IsOrdinary n) : ∃ ms, collapseImageCells (sources ns) = .ok (sources ms) ∧
      IsClean ms ∧ (∀ m ∈ ms, IsOrdinary m) ∧
      List.Forall₂ (Renewal [cellName] IsCollapsed) ns ms ∧ CellsPadless ms := by
  have hname : ∀ k ∈ Markup.chosen [cellName] ns, k.name = cellName ∧
      Attributes.All (IsSuited k.name) (Attributes.parse k.attrs) := fun k hk => by
    obtain ⟨n, hn, hk, hname⟩ := exists_of_mem_chosen .collapseImageCells hk
    exact ⟨List.mem_singleton.1 hname, (ho n hn).suited hk⟩
  have hchosen : Markup.chosen [cellName] ns = (markedCells (sources ns)).map (·.1.toTag) := by
    rw [← map_toTag_tokens hc, ← Run.map_fst_markedCells, List.map_map]
    rfl
  have hmarked : ∀ x ∈ markedCells (sources ns), x.1.toTag ∈ Markup.chosen [cellName] ns :=
    fun x hx => hchosen ▸ List.mem_map_of_mem hx
  have hstyle : ∀ x ∈ markedCells (sources ns),
      IsSteadyStyle (Attributes.parse x.1.attrs).styleText := fun x hx => by
    obtain ⟨hn, hs⟩ := hname _ (hmarked x hx)
    exact exists_style (hn ▸ by decide) hs
  obtain ⟨es, he⟩ : ∃ es, (markedCells (sources ns)).mapM collapsedTag = .ok es :=
    exists_mapM_iff.2 fun x hx => exists_collapsedTag_iff.2 fun _ => by
      obtain ⟨s, hs, -⟩ := hstyle x hx
      exact ⟨s, hs⟩
  have hw : List.Forall₂ (fun k e => Written (IsSuited k.name) k e)
      (Markup.chosen [cellName] ns) es := by
    rw [hchosen, List.forall₂_map_left_iff]
    refine Run.forall₂_imp_of_mem (forall₂_of_mapM he) fun x hx e he => ?_
    obtain ⟨hn, hs⟩ := hname _ (hmarked x hx)
    refine Run.written_collapsedTag hn (Run.not_closing_of_marked hx) hs (fun s hs => ?_) he
    obtain ⟨s', hs', hsteady⟩ := hstyle x hx
    obtain rfl := Except.ok.inj (hs'.symm.trans hs)
    exact (hsteady.mergedAhead (by decide)).isSuited _
  obtain ⟨ms, ha, hm, hom, hr⟩ := exists_ordinary_rewrites (r := .collapseImageCells) hb hc ho
    (by decide) (fun k hk => hasPlainStyle_of_suited ((hname k hk).1 ▸ by decide) (hname k hk).2) he
    hw
  refine ⟨ms, ha, hm, hom, hr.renewal ?_, @cellsPadless_of_rewrites _ _ _ hr
    (fun n hn k hk hcell => ?_) 0 ?_⟩
  · change List.Forall₂ IsCollapsed (Markup.chosen [cellName] ns) es
    rw [hchosen, List.forall₂_map_left_iff]
    exact (forall₂_of_mapM he).imp fun x e he => ⟨x.1, x.2, rfl, he⟩
  · exact exists_style (hcell ▸ by decide) ((ho n hn).suited hk)
  · rwa [markedCells, lexemes_sources hc] at he

end MailMarkup.Table
