import MailMarkup.Proofs.Markup.Rendering
import MailMarkup.Run.Stage

namespace MailMarkup.Run

open Text Markup

inductive Rewriter where
  | stripHeights
  | normalizeTables
  | enhanceImages
  | collapseImageCells
  | cleanColspans
  | tagLinks
  | propagateBackgrounds
  deriving DecidableEq, Repr

namespace Rewriter

def stage : Rewriter → Stage
  | stripHeights => .stripHeights
  | normalizeTables => .normalizeTables
  | enhanceImages => .enhanceImages
  | collapseImageCells => .collapseImageCells
  | cleanColspans => .cleanColspans
  | tagLinks => .tagLinks
  | propagateBackgrounds => .propagateBackgrounds

def names : Rewriter → List Text
  | stripHeights => [Table.name]
  | normalizeTables => [Table.name]
  | enhanceImages => [Image.name]
  | collapseImageCells => [Table.cellName]
  | cleanColspans => [Table.cellName, Table.headerCellName]
  | tagLinks => ["a".toList]
  | propagateBackgrounds => ["td".toList]

def edits (c : Config) (html : Text) : Rewriter → Except Fault (List (Option Text))
  | stripHeights => Table.heightEdits html
  | normalizeTables => Table.normalEdits c.layout html
  | enhanceImages => Image.edits c html
  | collapseImageCells => (Table.markedCells html).mapM Table.collapsedTag
  | cleanColspans => .ok (Table.spanEdits html)
  | tagLinks =>
    .ok (if c.campaign.trimmed.isEmpty then [] else Link.edits c.campaign.trimmed html)
  | propagateBackgrounds => Background.edits html

end Rewriter

end MailMarkup.Run

namespace MailMarkup.Markup

open Text

theorem edited_nil (names : List Text) (ps : Lexemes) :
    ps.edited names [] = ps.flatMap Piece.source := by
  induction ps using Lexemes.induction with
  | nil => rfl
  | char c ps ih => simp [Lexemes.edited, ih, Piece.source]
  | comment s ps ih => simp [Lexemes.edited, ih, Piece.source]
  | tag k s ps ih =>
    simp only [Lexemes.edited, List.head?_nil, List.tail_nil, List.flatMap_cons, ih]
    split <;> rfl

theorem editTags_nil (names : List Text) (html : Text) : editTags names html [] = html := by
  rw [editTags, edited_nil, source_lexemes]

def Written (P : Attribute → Prop) (k : Tag) (e : Option Text) : Prop :=
  ∀ t, e = some t → k.closing = false ∧ isName k.name = true ∧
    k.name.map Char.toLower = k.name ∧
    ∃ as, Attributes.All P as ∧ (t = openTag k.name as ∨ t = closedTag k.name as)

theorem Written.none {P : Attribute → Prop} (k : Tag) : Written P k none := by
  intro t h
  cases h

theorem Written.openTag {P : Attribute → Prop} {k : Tag} {n : Text} {as : Attributes}
    (hc : k.closing = false) (hk : k.name = n) (hn : isName n = true)
    (hl : n.map Char.toLower = n) (h : Attributes.All P as) :
    Written P k (some (Markup.openTag n as)) := by
  subst hk
  intro t ht
  cases ht
  exact ⟨hc, hn, hl, as, h, .inl rfl⟩

theorem Written.closedTag {P : Attribute → Prop} {k : Tag} {n : Text} {as : Attributes}
    (hc : k.closing = false) (hk : k.name = n) (hn : isName n = true)
    (hl : n.map Char.toLower = n) (h : Attributes.All P as) :
    Written P k (some (Markup.closedTag n as)) := by
  subst hk
  intro t ht
  cases ht
  exact ⟨hc, hn, hl, as, h, .inr rfl⟩

theorem mem_of_mem_tokens {names : List Text} {html : Text} {k : Token}
    (h : k ∈ tokens names html) : k.toTag.isAmong names = true := by
  rw [tokens_eq_filter] at h
  exact (List.mem_filter.1 h).2

theorem name_of_mem_tokens {n html : Text} (hn : lower n = n) {k : Token}
    (h : k ∈ tokens [n] html) : k.name = n := by
  have := mem_of_mem_tokens h
  simp only [Tag.isAmong, List.isEmpty_cons, Bool.false_or, List.any_cons, List.any_nil,
    Bool.or_false, beq_iff_eq, hn] at this
  exact this.symm

end MailMarkup.Markup

namespace MailMarkup.Run

open Text Markup

theorem forall₂_imp_of_mem {α β : Type} {r p : α → β → Prop} {as : List α} {bs : List β}
    (h : List.Forall₂ r as bs) (hp : ∀ a ∈ as, ∀ b, r a b → p a b) : List.Forall₂ p as bs := by
  induction h with
  | nil => exact .nil
  | cons he _ ih =>
    exact .cons (hp _ List.mem_cons_self _ he) (ih fun x hx => hp x (List.mem_cons_of_mem _ hx))

theorem forall₂_map {ks : List Token} {f : Tag → Option Text} {r : Tag → Option Text → Prop}
    (h : ∀ k ∈ ks, r k.toTag (f k.toTag)) :
    List.Forall₂ (fun (k : Token) e => r k.toTag e) ks (ks.map (f ·.toTag)) := by
  induction ks with
  | nil => exact .nil
  | cons k ks ih =>
    exact .cons (h k List.mem_cons_self) (ih fun x hx => h x (List.mem_cons_of_mem _ hx))

section

variable {P : Attribute → Prop}

theorem written_strippedTag {k : Tag} {e : Option Text} (hn : k.name = Table.name)
    (hp : Attributes.All P (.parse k.attrs)) (h : Table.strippedTag k = .ok e) :
    Written P k e := by
  simp only [Table.strippedTag] at h
  split at h
  · obtain rfl := pure_eq_ok.1 h
    exact .none k
  · rename_i hc
    simp only [Bool.or_eq_true, not_or, Bool.not_eq_true] at hc
    obtain ⟨as, ha, h⟩ := bind_eq_ok.1 h
    obtain rfl := pure_eq_ok.1 h
    exact .openTag hc.1 hn (by decide) (by decide) ((hp.remove _).dropEmptyStyle ha)

theorem written_normalizedTag {l : Layout} {k : Tag} {e : Option Text}
    (hn : k.name = Table.name) (hp : Attributes.All P (.parse k.attrs))
    (hf : Attributes.All P (Table.forcedAttributes l))
    (hs : ∀ s, Table.normalStyle l (Attributes.parse k.attrs).styleText = .ok s →
      P ⟨"style".toList, some s.render⟩)
    (h : Table.normalizedTag l k = .ok e) : Written P k e := by
  simp only [Table.normalizedTag] at h
  split at h
  · obtain rfl := pure_eq_ok.1 h
    exact .none k
  · rename_i hc
    obtain ⟨t, ht, h⟩ := bind_eq_ok.1 h
    obtain rfl := pure_eq_ok.1 h
    obtain ⟨as, ha, ht⟩ := bind_eq_ok.1 ht
    obtain rfl := pure_eq_ok.1 ht
    obtain ⟨s, hst, ha⟩ := bind_eq_ok.1 ha
    obtain rfl := pure_eq_ok.1 ha
    exact .openTag (by simpa using hc) hn (by decide) (by decide)
      (((hp.filter _).setAll hf).set (hs s hst))

theorem all_rebuilt {c : Config} {as bs : Attributes} {alt : Text} (hp : Attributes.All P as)
    (hsrc : P ⟨"src".toList, some (Image.newSource c (Image.source as))⟩)
    (halt : P ⟨"alt".toList, some (escapeHtml alt)⟩)
    (hs : ∀ s, mergeStyle as.styleText (.style Image.baseStyle) = .ok s →
      P ⟨"style".toList, some s⟩)
    (hb : Image.rebuilt c as alt = .ok bs) : Attributes.All P bs := by
  obtain ⟨s, hst, hb⟩ := bind_eq_ok.1 hb
  obtain rfl := pure_eq_ok.1 hb
  refine .append (.append ?_ (.append (.singleton halt) (.singleton (hs s hst)))) (hp.filter _)
  split
  · exact .singleton hsrc
  · exact .nil

theorem written_writtenTag {k : Tag} {as : Attributes} (hc : k.closing = false)
    (hn : k.name = Image.name) (h : Attributes.All P as) :
    Written P k (some (Image.writtenTag k as)) := by
  rw [Image.writtenTag]
  split
  · exact .closedTag hc hn (by decide) (by decide) h
  · exact .openTag hc hn (by decide) (by decide) h

structure SuitsImage (P : Attribute → Prop) (c : Config) (k : Tag) : Prop where
  source : P ⟨"src".toList, some (Image.newSource c (Image.source (.parse k.attrs)))⟩
  alt : ∀ alt, P ⟨"alt".toList, some (escapeHtml alt)⟩
  style : ∀ s, mergeStyle (Attributes.parse k.attrs).styleText (.style Image.baseStyle) = .ok s →
    P ⟨"style".toList, some s⟩

theorem forall₂_written_editsFrom {c : Config} {index : Nat} {used : Image.Registry}
    {ks : List Tag} {es : List (Option Text)} (hk : ∀ k ∈ ks, k.name = Image.name)
    (hp : ∀ k ∈ ks, Attributes.All P (.parse k.attrs) ∧ SuitsImage P c k)
    (h : Image.editsFrom c index used ks = .ok es) : List.Forall₂ (Written P) ks es := by
  induction ks generalizing index used es with
  | nil =>
    cases h
    exact .nil
  | cons k ks ih =>
    have hks : ∀ x ∈ ks, x.name = Image.name := fun x hx => hk x (List.mem_cons_of_mem _ hx)
    have hps : ∀ x ∈ ks, Attributes.All P (.parse x.attrs) ∧ SuitsImage P c x :=
      fun x hx => hp x (List.mem_cons_of_mem _ hx)
    simp only [Image.editsFrom] at h
    split at h
    · obtain ⟨es', he, h⟩ := bind_eq_ok.1 h
      obtain rfl := pure_eq_ok.1 h
      exact .cons (.none k) (ih hks hps he)
    · rename_i hc
      obtain ⟨p, -, h⟩ := bind_eq_ok.1 h
      obtain ⟨as, ha, h⟩ := bind_eq_ok.1 h
      obtain ⟨es', he, h⟩ := bind_eq_ok.1 h
      obtain rfl := pure_eq_ok.1 h
      obtain ⟨hq, hs⟩ := hp k List.mem_cons_self
      have hw := written_writtenTag (by simpa using hc) (hk k List.mem_cons_self)
        (all_rebuilt hq hs.source (hs.alt _) hs.style ha)
      exact .cons hw (ih hks hps he)

theorem map_fst_markedCellsFrom (start : Nat) (ps : Lexemes) :
    (Table.markedCellsFrom start ps).map (·.1) = tokensFrom [Table.cellName] start ps := by
  induction ps using Lexemes.induction generalizing start with
  | nil => rfl
  | char c ps ih => simpa [Table.markedCellsFrom, tokensFrom] using ih _
  | comment s ps ih => simpa [Table.markedCellsFrom, tokensFrom] using ih _
  | tag k s ps ih =>
    have hn : lower Table.cellName = Table.cellName := by decide
    by_cases hk : k.name = Table.cellName
    · simp [Table.markedCellsFrom, tokensFrom, Tag.isAmong, hk, hn, ih]
    · simp [Table.markedCellsFrom, tokensFrom, Tag.isAmong, hk, hn, ih, Ne.symm hk]

theorem map_fst_markedCells (html : Text) :
    (Table.markedCells html).map (·.1) = tokens [Table.cellName] html :=
  map_fst_markedCellsFrom 0 (lexemes html)

theorem not_closing_of_marked {start : Nat} {ps : Lexemes} {x : Token × Bool}
    (hx : x ∈ Table.markedCellsFrom start ps) (hm : x.2 = true) : x.1.closing = false := by
  induction ps using Lexemes.induction generalizing start with
  | nil => simp [Table.markedCellsFrom] at hx
  | char c ps ih => exact ih hx
  | comment s ps ih => exact ih hx
  | tag k s ps ih =>
    simp only [Table.markedCellsFrom] at hx
    split at hx
    · rcases List.mem_cons.1 hx with rfl | hx
      · simp only [Bool.and_eq_true, Bool.not_eq_true'] at hm
        exact hm.1
      · exact ih hx
    · exact ih hx

theorem written_collapsedTag {x : Token × Bool} {e : Option Text}
    (hn : x.1.name = Table.cellName) (hc : x.2 = true → x.1.closing = false)
    (hp : Attributes.All P (.parse x.1.attrs))
    (hs : ∀ s, Style.parse (Attributes.parse x.1.attrs).styleText = .ok s →
      P ⟨"style".toList, some (s.mergedAhead Table.imageCellStyle).render⟩)
    (h : Table.collapsedTag x = .ok e) : Written P x.1.toTag e := by
  simp only [Table.collapsedTag] at h
  split at h
  · obtain rfl := pure_eq_ok.1 h
    exact .none _
  · rename_i hx
    obtain ⟨as, ha, h⟩ := bind_eq_ok.1 h
    obtain rfl := pure_eq_ok.1 h
    refine .openTag (hc (by simpa using hx)) hn (by decide) (by decide) (hp.applyStyle ha ?_)
    rintro s b hst ⟨⟩
    exact hs s hst

theorem written_unspannedTag {k : Tag}
    (hn : k.name = Table.cellName ∨ k.name = Table.headerCellName)
    (hp : Attributes.All P (.parse k.attrs)) : Written P k (Table.unspannedTag k) := by
  have hname : isName k.name = true ∧ k.name.map Char.toLower = k.name := by
    rcases hn with hn | hn <;> rw [hn] <;> decide
  simp only [Table.unspannedTag]
  split
  · rename_i hc
    simp only [Bool.and_eq_true, Bool.not_eq_true'] at hc
    split
    · exact .closedTag hc.1 rfl hname.1 hname.2 (hp.remove _)
    · exact .openTag hc.1 rfl hname.1 hname.2 (hp.remove _)
  · exact .none k

theorem written_taggedTag {p : Link.Campaign} {k : Tag} (hn : k.name = "a".toList)
    (hp : Attributes.All P (.parse k.attrs))
    (hh : ∀ href new, Link.taggableHref? k = some href → Link.newAddress p href = .ok new →
      P ⟨"href".toList, some new⟩) : Written P k (Link.taggedTag p k) := by
  cases hr : Link.taggableHref? k with
  | none =>
    simp only [Link.taggedTag, hr]
    exact .none k
  | some href =>
    have hc : k.closing = false := by
      by_contra hc
      simp [Link.taggableHref?, hc] at hr
    simp only [Link.taggedTag, hr, Option.bind_eq_bind, Option.bind_some]
    split
    · rename_i new he
      exact .openTag hc hn (by decide) (by decide) (hp.set (hh href new hr he))
    · exact .none k

theorem written_coloredTag {k : Tag} {e : Option Text} (hn : k.name = "td".toList)
    (hp : Attributes.All P (.parse k.attrs))
    (hb : ∀ color, Background.resolve? (Attributes.parse k.attrs).styleText = .ok (some color) →
      P ⟨Background.bgcolor, some color⟩)
    (h : Background.coloredTag k = .ok e) : Written P k e := by
  simp only [Background.coloredTag] at h
  split at h
  · obtain rfl := pure_eq_ok.1 h
    exact .none k
  · rename_i hc
    simp only [Bool.or_eq_true, not_or, Bool.not_eq_true] at hc
    obtain ⟨o, ho, h⟩ := bind_eq_ok.1 h
    cases o with
    | none =>
      obtain rfl := pure_eq_ok.1 h
      exact .none k
    | some color =>
      obtain ⟨as, ha, h⟩ := bind_eq_ok.1 h
      obtain rfl := pure_eq_ok.1 h
      exact .openTag hc.1 hn (by decide) (by decide)
        ((hp.setAll (.singleton (hb color ho))).dropEmptyStyle ha)

namespace Rewriter

def Suits (P : Attribute → Prop) (c : Config) (k : Tag) : Rewriter → Prop
  | stripHeights => True
  | normalizeTables => Attributes.All P (Table.forcedAttributes c.layout) ∧
    ∀ s, Table.normalStyle c.layout (Attributes.parse k.attrs).styleText = .ok s →
      P ⟨"style".toList, some s.render⟩
  | enhanceImages => SuitsImage P c k
  | collapseImageCells =>
    ∀ s, Style.parse (Attributes.parse k.attrs).styleText = .ok s →
      P ⟨"style".toList, some (s.mergedAhead Table.imageCellStyle).render⟩
  | cleanColspans => True
  | tagLinks =>
    ∀ href new, Link.taggableHref? k = some href →
      Link.newAddress c.campaign.trimmed href = .ok new → P ⟨"href".toList, some new⟩
  | propagateBackgrounds =>
    ∀ color, Background.resolve? (Attributes.parse k.attrs).styleText = .ok (some color) →
      P ⟨Background.bgcolor, some color⟩

theorem forall₂_written {r : Rewriter} {c : Config} {html : Text} {es : List (Option Text)}
    (h : r.edits c html = .ok es) (hne : es ≠ [])
    (hp : ∀ k ∈ tokens r.names html, Attributes.All P (.parse k.attrs) ∧ r.Suits P c k.toTag) :
    List.Forall₂ (fun (k : Token) e => Written P k.toTag e) (tokens r.names html) es := by
  cases r with
  | stripHeights =>
    refine forall₂_imp_of_mem (forall₂_of_mapM h) fun k hk e he => ?_
    exact written_strippedTag (name_of_mem_tokens (by decide) hk) (hp k hk).1 he
  | normalizeTables =>
    refine forall₂_imp_of_mem (forall₂_of_mapM h) fun k hk e he => ?_
    obtain ⟨hq, hf, hs⟩ := hp k hk
    exact written_normalizedTag (name_of_mem_tokens (by decide) hk) hq hf hs he
  | enhanceImages =>
    refine List.forall₂_map_left_iff.1 (forall₂_written_editsFrom ?_ ?_ h)
    · intro k hk
      obtain ⟨x, hx, rfl⟩ := List.mem_map.1 hk
      exact name_of_mem_tokens (by decide) hx
    · intro k hk
      obtain ⟨x, hx, rfl⟩ := List.mem_map.1 hk
      exact hp x hx
  | collapseImageCells =>
    have hm := forall₂_of_mapM h
    rw [names, ← map_fst_markedCells, List.forall₂_map_left_iff]
    refine forall₂_imp_of_mem hm fun x hx e he => ?_
    have hx' : x.1 ∈ tokens [Table.cellName] html :=
      map_fst_markedCells html ▸ List.mem_map_of_mem hx
    obtain ⟨hq, hs⟩ := hp x.1 hx'
    exact written_collapsedTag (name_of_mem_tokens (by decide) hx') (not_closing_of_marked hx)
      hq hs he
  | cleanColspans =>
    obtain rfl := Except.ok.inj h
    refine forall₂_map fun k hk => written_unspannedTag ?_ (hp k hk).1
    have hm := mem_of_mem_tokens hk
    have h1 : lower Table.cellName = Table.cellName := by decide
    have h2 : lower Table.headerCellName = Table.headerCellName := by decide
    simp only [names, Tag.isAmong, List.isEmpty_cons, Bool.false_or, List.any_cons,
      List.any_nil, Bool.or_false, Bool.or_eq_true, beq_iff_eq, h1, h2] at hm
    exact hm.imp Eq.symm Eq.symm
  | tagLinks =>
    obtain rfl := Except.ok.inj h
    split at hne
    · exact absurd rfl hne
    · rename_i he
      rw [if_neg he]
      refine forall₂_map fun k hk => ?_
      obtain ⟨hq, hs⟩ := hp k hk
      exact written_taggedTag (name_of_mem_tokens (by decide) hk) hq hs
  | propagateBackgrounds =>
    refine forall₂_imp_of_mem (forall₂_of_mapM h) fun k hk e he => ?_
    obtain ⟨hq, hs⟩ := hp k hk
    exact written_coloredTag (name_of_mem_tokens (by decide) hk) hq hs he

theorem apply_stage (r : Rewriter) (c : Config) (html : Text) :
    r.stage.apply c html = (r.edits c html).map (editTags r.names html) := by
  cases r with
  | cleanColspans => rfl
  | tagLinks =>
    simp only [stage, Stage.apply, edits, names, Link.tagAll, Except.map]
    split
    · rw [editTags_nil]
    · rfl
  | stripHeights =>
    simp only [stage, Stage.apply, Table.stripHeights, edits, names]
    cases Table.heightEdits html <;> rfl
  | normalizeTables =>
    simp only [stage, Stage.apply, Table.normalize, edits, names]
    cases Table.normalEdits c.layout html <;> rfl
  | enhanceImages =>
    simp only [stage, Stage.apply, Image.enhance, edits, names]
    cases Image.edits c html <;> rfl
  | collapseImageCells =>
    simp only [stage, Stage.apply, Table.collapseImageCells, edits, names]
    cases (Table.markedCells html).mapM Table.collapsedTag <;> rfl
  | propagateBackgrounds =>
    simp only [stage, Stage.apply, Background.propagate, edits, names]
    cases Background.edits html <;> rfl

end Rewriter

end

end MailMarkup.Run
