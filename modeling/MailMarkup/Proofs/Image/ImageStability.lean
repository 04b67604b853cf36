import MailMarkup.Proofs.Spacing.OrdinaryNodes

namespace MailMarkup.Text

theorem trim_of_not_any {t : Text} (h : t.any isBlank = false) : trim t = t := by
  have hc : ∀ c ∈ t, isBlank c = false := by simpa using h
  exact trim_eq_self_iff.2 ⟨fun c hm => hc c (List.mem_of_head? hm),
    fun c hm => hc c (List.mem_of_getLast? hm)⟩

theorem trim_between {s t : Text} (hs : trim s = s) (ht : trim t = t) (hsn : s ≠ []) (htn : t ≠ [])
    (u : Text) : trim (s ++ (u ++ t)) = s ++ (u ++ t) := by
  refine trim_eq_self_iff.2 ⟨?_, ?_⟩
  · rw [List.head?_append_of_ne_nil _ hsn]
    exact (trim_eq_self_iff.1 hs).1
  · rw [← List.append_assoc, List.getLast?_append_of_ne_nil _ htn]
    exact (trim_eq_self_iff.1 ht).2

theorem IsWords.trim {t : Text} (h : IsWords t) : Text.trim t = t := by
  obtain ⟨ws, hw, rfl⟩ := h
  induction ws with
  | nil => rfl
  | cons w ws ih =>
    obtain ⟨hw, hws⟩ := List.forall_mem_cons.1 hw
    have hone : join [' '] [w] = w := by simp [join]
    by_cases hn : ws = []
    · rw [hn, hone]
      exact trim_of_not_any hw.2
    · have hsplit : join [' '] ([w] ++ ws) = join [' '] [w] ++ ' ' :: join [' '] ws :=
        join_append (by simp) hn
      rw [hone, List.singleton_append] at hsplit
      rw [hsplit]
      refine trim_between (trim_of_not_any hw.2) (ih hws) hw.1 ?_ [' ']
      rwa [Ne, join_eq_nil fun t ht => (hws t ht).1]

theorem startsFolded_escapeQuotes {w t : Text} (hw : '"' ∉ w) (h : startsFolded w t = true) :
    startsFolded w (escapeQuotes t) = true := by
  obtain ⟨r, hr⟩ := Option.isSome_iff_exists.1 h
  obtain ⟨p, rfl, rfl⟩ := dropFolded?_eq_some_iff.1 hr
  have hp : '"' ∉ p := fun hm => hw (List.mem_map.2 ⟨'"', hm, by decide⟩)
  rw [escapeQuotes_append, escapeQuotes_eq_self hp, startsFolded, dropFolded?_map]
  rfl

theorem startsFolded_append {w t : Text} (h : startsFolded w t = true) (r : Text) :
    startsFolded w (t ++ r) = true := by
  obtain ⟨z, hz⟩ := Option.isSome_iff_exists.1 h
  rw [startsFolded, dropFolded?_append_right hz]
  rfl

end MailMarkup.Text

namespace MailMarkup.Image

open Text Markup Spacing

variable {c : Config} {as bs : Attributes} {alt : Text}

theorem quote_not_mem_absoluteBeginnings : ∀ w ∈ absoluteBeginnings, '"' ∉ w := by decide

structure IsSteadyBase (base : Text) : Prop where
  plain : '<' ∉ base
  tidy : IsTidy base
  trimmed : trim base = base
  absolute : base = [] ∨ absoluteBeginnings.any (startsFolded · (withoutEndSlashes base)) = true

instance (base : Text) : Decidable (IsSteadyBase base) :=
  decidable_of_iff ('<' ∉ base ∧ IsTidy base ∧ trim base = base ∧ (base = [] ∨
      absoluteBeginnings.any (startsFolded · (withoutEndSlashes base)) = true))
    ⟨fun h => ⟨h.1, h.2.1, h.2.2.1, h.2.2.2⟩, fun h => ⟨h.plain, h.tidy, h.trimmed, h.absolute⟩⟩

theorem isRelative_escapeQuotes {src : Text} (ht : trim src = src) (h : isRelative src = false) :
    isRelative (escapeQuotes src) = false := by
  simp only [isRelative, ht, trim_escapeQuotes ht, Bool.and_eq_false_iff, Bool.not_eq_false',
    List.isEmpty_iff, List.any_eq_true] at h ⊢
  refine h.imp (fun hn => ?_) fun hany => ?_
  · rw [hn]
    rfl
  · obtain ⟨w, hw, hs⟩ := hany
    exact ⟨w, hw, startsFolded_escapeQuotes (quote_not_mem_absoluteBeginnings w hw) hs⟩

theorem withoutEndSlashes_isPrefix {base : Text} (h : trim base = base) :
    withoutEndSlashes base <+: base := by
  have hn : base.getLast? ≠ some '\n' := fun hl =>
    absurd ((trim_eq_self_iff.1 h).2 '\n' hl) (by decide)
  rw [withoutEndSlashes, if_neg hn, dropEndWhile]
  have := List.dropWhile_suffix (l := base.reverse) isSlash
  rwa [← List.reverse_prefix, List.reverse_reverse] at this

section

variable {base src : Text} (hb : IsSteadyBase base)
  (ha : absoluteBeginnings.any (startsFolded · (withoutEndSlashes base)) = true)
  (hs : trim src = src)

theorem isTidy_joined (hb : IsSteadyBase base) (ht : IsTidy src) : IsTidy (joined base src) := by
  refine IsTidy.around ?_ ?_ (by decide)
  · exact hb.tidy.of_isInfix (withoutEndSlashes_isPrefix hb.trimmed).isInfix
  · exact ht.of_isInfix (List.dropWhile_suffix _).isInfix

include hb ha hs

theorem trim_joined : trim (joined base src) = joined base src := by
  have hne : withoutEndSlashes base ≠ [] := by
    intro hn
    rw [hn] at ha
    exact absurd ha (by decide)
  refine trim_eq_self_iff.2 ⟨fun d hd => ?_, fun d hd => ?_⟩
  · obtain ⟨r, hr⟩ := withoutEndSlashes_isPrefix hb.trimmed
    refine (trim_eq_self_iff.1 hb.trimmed).1 d ?_
    rw [joined, List.head?_append_of_ne_nil _ hne] at hd
    rwa [← hr, List.head?_append_of_ne_nil _ hne]
  · rw [joined, List.getLast?_append_of_ne_nil _ (List.cons_ne_nil _ _)] at hd
    by_cases hn : src.dropWhile isSlash = []
    · rw [hn] at hd
      obtain rfl := Option.some.inj hd
      decide
    · obtain ⟨p, hp⟩ := List.dropWhile_suffix (l := src) isSlash
      refine (trim_eq_self_iff.1 hs).2 d ?_
      rw [← hp, List.getLast?_append_of_ne_nil _ hn]
      rwa [← List.singleton_append, List.getLast?_append_of_ne_nil _ hn] at hd

theorem isRelative_joined : isRelative (joined base src) = false := by
  obtain ⟨w, hw, h⟩ := List.any_eq_true.1 ha
  simp only [isRelative, trim_joined hb ha hs, Bool.and_eq_false_iff, Bool.not_eq_false']
  exact .inr (List.any_eq_true.2 ⟨w, hw, startsFolded_append h _⟩)

end

theorem source_trimmed (as : Attributes) : trim (source as) = source as := trim_trim _

theorem newSource_settled (hb : IsSteadyBase c.imageBase) {src : Text} (hs : trim src = src) :
    trim (newSource c src) = newSource c src ∧
      newSource c (escapeQuotes (newSource c src)) = escapeQuotes (newSource c src) := by
  have hkept : ∀ {t : Text}, trim t = t → isRebased c t = false →
      newSource c (escapeQuotes t) = escapeQuotes t := by
    intro t ht hr
    have : isRebased c (escapeQuotes t) = false := by
      rw [isRebased, Bool.and_eq_false_iff] at hr ⊢
      exact hr.imp_right (isRelative_escapeQuotes ht)
    rw [newSource, if_neg (by rw [this]; exact Bool.false_ne_true)]
  by_cases hr : isRebased c src = true
  · have hne : c.imageBase ≠ [] := by
      rintro hn
      simp [isRebased, hn] at hr
    have ha := hb.absolute.resolve_left hne
    rw [newSource, if_pos hr]
    refine ⟨trim_joined hb ha hs, hkept (trim_joined hb ha hs) ?_⟩
    rw [isRebased, isRelative_joined hb ha hs, Bool.and_false]
  · rw [newSource, if_neg hr]
    exact ⟨hs, hkept hs (by simpa using hr)⟩

theorem isTidy_newSource (hb : IsSteadyBase c.imageBase) {src : Text} (ht : IsTidy src) :
    IsTidy (newSource c src) := by
  rw [newSource]
  split
  · exact isTidy_joined hb ht
  · exact ht

theorem written_written (a : Attribute) :
    Attributes.written (Attributes.written a) = Attributes.written a := by
  cases h : a.value with
  | none => simp [Attributes.written, h]
  | some v => simp [Attributes.written, h, escapeQuotes_escapeQuotes]

theorem has_src_readAs (c : Config) (as : Attributes) (alt style : Text) :
    (readAs c as alt style).has "src".toList = as.has "src".toList := by
  have hothers : Attributes.has ((as.filter (!rebuiltKeys.contains ·.key)).map Attributes.written)
      "src".toList = false := by
    rw [Table.has_map_written]
    exact Attributes.has_filter_eq_false (p := fun k => !rebuiltKeys.contains k) (by decide)
  rw [readAs, Attributes.has_append, Attributes.has_append, hothers]
  cases as.has "src".toList <;> rfl

theorem readAs_readAs (hb : IsSteadyBase c.imageBase) (as : Attributes) (alt style : Text) :
    readAs c (readAs c as alt style) alt style = readAs c as alt style := by
  obtain ⟨htrim, hagain⟩ := newSource_settled hb (source_trimmed as)
  have hothers : (readAs c as alt style).filter (!rebuiltKeys.contains ·.key) =
      (as.filter (!rebuiltKeys.contains ·.key)).map Attributes.written := by
    have hfront : (if as.has "src".toList then
        [⟨"src".toList, some (escapeQuotes (newSource c (source as)))⟩]
        else ([] : Attributes)).filter
          (!rebuiltKeys.contains ·.key) = [] := by
      split <;> rfl
    rw [readAs, List.filter_append, List.filter_append, hfront,
      Attributes.filter_map_written fun _ => rfl, List.filter_filter]
    simp only [Bool.and_self]
    rfl
  have hmap : ((as.filter (!rebuiltKeys.contains ·.key)).map Attributes.written).map
      Attributes.written = (as.filter (!rebuiltKeys.contains ·.key)).map Attributes.written := by
    rw [List.map_map]
    exact List.map_congr_left fun a _ => written_written a
  rw [readAs, has_src_readAs, hothers, hmap]
  cases hsrc : as.has "src".toList with
  | false =>
    rw [readAs, hsrc]
    rfl
  | true =>
    have hs : source (readAs c as alt style) = escapeQuotes (newSource c (source as)) := by
      have hget : (readAs c as alt style).get? "src".toList =
          some (escapeQuotes (newSource c (source as))) := by
        rw [readAs, hsrc]
        rfl
      rw [source, hget, Option.getD_some, trim_escapeQuotes htrim]
    rw [hs, hagain, escapeQuotes_escapeQuotes, readAs, hsrc]

structure IsShowing (c : Config) (k : Tag) (s alt : Text) : Prop where
  opens : k.closing = false
  proposes : ∀ src i, propose c ((Attributes.parse k.attrs).get? "alt".toList) src i =
    .ok ⟨alt, true⟩
  rebuilds : ∃ bs, rebuilt c (.parse k.attrs) alt = .ok bs ∧ writtenTag k bs = s

theorem mergeStyle_baseStyle_eq_ok {existing style : Text} :
    mergeStyle existing (.style baseStyle) = .ok style ↔
      ∃ s, Style.parse existing = .ok s ∧ (s.mergedAhead baseStyle).render = style := by
  rw [mergeStyle, bind_eq_ok]
  exact exists_congr fun s => and_congr_right fun _ => pure_eq_ok

theorem mergeStyle_baseStyle_again {existing style : Text} (hs : IsSteadyStyle existing)
    (h : mergeStyle existing (.style baseStyle) = .ok style) :
    mergeStyle (escapeQuotes style) (.style baseStyle) = .ok style := by
  obtain ⟨s, hp, hsteady⟩ := hs
  obtain ⟨s', hp', rfl⟩ := mergeStyle_baseStyle_eq_ok.1 h
  obtain rfl := Except.ok.inj (hp.symm.trans hp')
  have hm : (s.mergedAhead baseStyle).IsSteady := hsteady.mergedAhead (by decide)
  have hagain : (s.mergedAhead baseStyle).mergedAhead baseStyle = s.mergedAhead baseStyle :=
    Style.mergedAhead_again (by decide) s []
  exact mergeStyle_baseStyle_eq_ok.2 ⟨_, hm.isRegular.parse_render, by rw [hagain]⟩

theorem parse_attrs_writtenTag {k : Tag} (hl : Attributes.IsLegal bs) {name' body : Text}
    (ht : IsTag name' body) (he : writtenTag k bs = tagText false name' body) :
    Attributes.parse (Tag.ofBody false name' body).attrs = bs.map Attributes.written ∧
      (Tag.ofBody false name' body).selfClosing = k.selfClosing := by
  rw [writtenTag] at he
  split at he
  · rename_i hself
    rw [closedTag_eq_tagText] at he
    rw [← ofBody_eq_of_tagText_eq (isTag_render_slash (by decide) hl) ht he,
      parse_attrs_render hl false (.inr rfl), ofBody_render_slash, hself]
    exact ⟨rfl, rfl⟩
  · rename_i hself
    rw [openTag_eq_tagText] at he
    rw [← ofBody_eq_of_tagText_eq (isTag_render (by decide) hl) ht he,
      parse_attrs_render hl false (.inl rfl), ofBody_render hl, eq_false_of_ne_true hself]
    exact ⟨rfl, rfl⟩

theorem isShowing_writtenTag (hb : IsSteadyBase c.imageBase) {k : Tag} {name' body : Text}
    (hs : IsSteadyStyle (Attributes.parse k.attrs).styleText) (hne : alt ≠ [])
    (htrim : trim alt = alt) (h : rebuilt c (.parse k.attrs) alt = .ok bs) (ht : IsTag name' body)
    (he : writtenTag k bs = tagText false name' body) :
    IsShowing c (.ofBody false name' body) (tagText false name' body) alt := by
  have hl := isLegal_rebuilt (Attributes.isLegal_parse k.attrs) h
  obtain ⟨style, hstyle, hread⟩ := map_written_rebuilt h
  obtain ⟨hattrs, hself⟩ := parse_attrs_writtenTag hl ht he
  rw [hread] at hattrs
  refine ⟨rfl, fun src i => ?_, ?_⟩
  · rw [hattrs, get?_alt_readAs, propose, Option.getD_some, Entity.decode_escapeHtml]
    change Except.ok (if (trim alt).isEmpty then Proposal.mk (madeUp c src i) false else
      ⟨trim alt, true⟩) = _
    rw [htrim, if_neg (by simpa using hne)]
  · have hagain : ∃ bs', rebuilt c (readAs c (.parse k.attrs) alt style) alt = .ok bs' := by
      rw [rebuilt, styleText_readAs, mergeStyle_baseStyle_again hs hstyle]
      exact ⟨_, rfl⟩
    obtain ⟨bs', hbs'⟩ := hagain
    obtain ⟨style', hstyle', hread'⟩ := map_written_rebuilt hbs'
    rw [styleText_readAs, mergeStyle_baseStyle_again hs hstyle] at hstyle'
    obtain rfl := Except.ok.inj hstyle'
    have hrender : bs'.render = bs.render := by
      rw [← Attributes.render_map_written, hread', readAs_readAs hb, ← hread,
        Attributes.render_map_written]
    refine ⟨bs', hattrs ▸ hbs', ?_⟩
    rw [← he, writtenTag, writtenTag, hself, openTag, openTag, closedTag, closedTag, hrender]

def HasReadableAlt (k : Tag) : Prop :=
  ∃ t, Entity.decode (((Attributes.parse k.attrs).get? "alt".toList).getD []) = .ok t ∧
    IsOneLine (trim t)

instance (k : Tag) : Decidable (HasReadableAlt k) :=
  match h : Entity.decode (((Attributes.parse k.attrs).get? "alt".toList).getD []) with
  | .ok t => decidable_of_iff (IsOneLine (trim t))
      ⟨fun ht => ⟨t, h, ht⟩, fun ⟨_, h', ht⟩ => Except.ok.inj (h'.symm.trans h) ▸ ht⟩
  | .error _ => .isFalse fun ⟨_, h', _⟩ => nomatch h.symm.trans h'

theorem HasReadableAlt.hasOneLine {k : Tag} (h : HasReadableAlt k) : HasOneLine k := by
  obtain ⟨t, ht, h⟩ := h
  intro t' ht'
  obtain rfl := Except.ok.inj (ht.symm.trans ht')
  exact h

theorem trim_of_propose {existing : Option Text} {src : Text} {index : Nat} {p : Proposal}
    (h : propose c existing src index = .ok p) : trim p.alt = p.alt := by
  obtain ⟨t, -, h⟩ := bind_eq_ok.1 h
  rw [← pure_eq_ok.1 h]
  split
  · exact (isWords_madeUp c src index).trim
  · exact trim_trim t

theorem Registry.Answers.trim {r : Registry} {q : Request} {a : Text} (h : r.Answers q a)
    (hne : q.alt ≠ []) (hq : Text.trim q.alt = q.alt) : Text.trim a = a := by
  cases h with
  | itself => exact hq
  | @numbered k _ _ =>
    rw [Registry.numbered, List.append_assoc]
    exact trim_between hq (isWords_ofInt k).trim hne (ofInt_ne_nil k) _

structure IsGiven (k : Tag) (used : Registry) (alt : Text) : Prop where
  ne_nil : alt ≠ []
  trimmed : trim alt = alt
  free : lower alt ∉ used.used
  line : HasOneLine k → IsOneLine alt

theorem isGiven_choose {k : Tag} {used : Registry} {src : Text} {index : Nat} {p : Proposal}
    (hp : propose c ((Attributes.parse k.attrs).get? "alt".toList) src index = .ok p) :
    IsGiven k used (used.choose p.alt p.written index) := by
  have ha := used.answers_choose ⟨p.alt, p.written, index⟩
  have hne := alt_ne_nil_of_propose hp
  exact ⟨ha.ne_nil hne, ha.trim hne (trim_of_propose hp), Registry.not_mem_used_of_answers ha,
    fun hk => ha.isOneLine hne (isOneLine_of_propose hk hp)⟩

theorem editsFrom_cons_of_opens {k : Tag} {ks : List Tag} {index : Nat} {used : Registry}
    (hk : k.closing = false) {p : Proposal} {es : List (Option Text)}
    (hp : propose c ((Attributes.parse k.attrs).get? "alt".toList) (source (.parse k.attrs)) index =
      .ok p)
    (hb : rebuilt c (.parse k.attrs) (used.choose p.alt p.written index) = .ok bs)
    (he : editsFrom c (index + 1) (used.claim p.alt p.written index).2 ks = .ok es) :
    editsFrom c index used (k :: ks) = .ok (some (writtenTag k bs) :: es) := by
  rw [editsFrom, if_neg (by simp [hk])]
  exact bind_eq_ok.2 ⟨p, hp, bind_eq_ok.2 ⟨bs, hb, bind_eq_ok.2 ⟨es, he, rfl⟩⟩⟩

inductive Showing (c : Config) : List Node → List Text → Prop
  | nil : Showing c [] []
  | pass {n : Node} (h : ∀ k, n.tag? = some k → k.isAmong [name] = true → k.closing = true)
    {ns : List Node} {as : List Text} (hs : Showing c ns as) : Showing c (n :: ns) as
  | shown {n : Node} {k : Tag} {alt : Text} (hn : n.tag? = some k) (hk : k.isAmong [name] = true)
    (h : IsShowing c k n.source alt) {ns : List Node} {as : List Text} (hs : Showing c ns as) :
    Showing c (n :: ns) (alt :: as)

theorem Showing.exists_edits {ns : List Node} {as : List Text} (h : Showing c ns as)
    {used : Registry} (hfree : ∀ a ∈ as, lower a ∉ used.used) (hd : (as.map lower).Nodup)
    (index : Nat) : ∃ es, editsFrom c index used (chosen [name] ns) = .ok es ∧
      Lexemes.edited [name] (ns.flatMap Node.pieces) es = sources ns := by
  induction h generalizing used index with
  | nil => exact ⟨[], rfl, rfl⟩
  | @pass n h ns as hs ih =>
    obtain ⟨es, he, hm⟩ := ih hfree hd index
    rw [List.flatMap_cons, sources_cons]
    by_cases hp : ∀ t, n.tag? = some t → t.isAmong [name] = false
    · exact ⟨es, chosen_cons_not_among hp ns ▸ he, by rw [edited_pieces_of_not_among hp, hm]⟩
    · simp only [not_forall, Bool.not_eq_false] at hp
      obtain ⟨t, hn, ht⟩ := hp
      refine ⟨none :: es, ?_, by rw [edited_pieces_of_among hn ht, List.tail_cons, hm]; rfl⟩
      rw [chosen_cons_among hn ht, editsFrom, if_pos (h t hn ht), he]
      rfl
  | @shown n k alt hn hk h ns as hs ih =>
    obtain ⟨halt, has⟩ := List.forall_mem_cons.1 hfree
    rw [List.map_cons, List.nodup_cons] at hd
    have hchoose : used.choose alt true index = alt := by
      have : used.has alt = false := by simpa [Registry.has] using halt
      rw [Registry.choose, this]
      rfl
    obtain ⟨es, he, hm⟩ := @ih ⟨lower alt :: used.used⟩ (fun a ha => by
      rw [List.mem_cons, not_or]
      exact ⟨fun heq => hd.1 (heq ▸ List.mem_map_of_mem ha), has a ha⟩) hd.2 (index + 1)
    obtain ⟨bs, hbs, hw⟩ := h.rebuilds
    refine ⟨some n.source :: es, ?_, ?_⟩
    · rw [chosen_cons_among hn hk, ← hw]
      refine editsFrom_cons_of_opens h.opens (h.proposes _ _) (hchoose.symm ▸ hbs) ?_
      rwa [Registry.claim, hchoose]
    · rw [List.flatMap_cons, sources_cons, edited_pieces_of_among hn hk, List.tail_cons, hm]
      rfl

theorem exists_showing (hb : IsSteadyBase c.imageBase) {ns ms : List Node}
    {es : List (Option Text)} (hr : Rewrites [name] ns es ms)
    (hs : ∀ k ∈ chosen [name] ns, IsSteadyStyle (Attributes.parse k.attrs).styleText) {index : Nat}
    {used : Registry} (he : editsFrom c index used (chosen [name] ns) = .ok es) :
    ∃ as, Showing c ms as ∧ (∀ a ∈ as, lower a ∉ used.used) ∧ (as.map lower).Nodup := by
  induction hr generalizing index used with
  | nil => exact ⟨[], .nil, by simp, by simp⟩
  | @pass n ns ms es h hr ih =>
    rw [chosen_cons_not_among h] at he hs
    obtain ⟨as, hshow, hrest⟩ := ih hs he
    refine ⟨as, .pass (fun k hk ha => ?_) hshow, hrest⟩
    rw [h k hk] at ha
    cases ha
  | @keep n t ns ms es hn ht hr ih =>
    rw [chosen_cons_among hn ht] at hs
    rw [chosen_cons_among hn ht, editsFrom] at he
    split at he
    · rename_i hclosing
      obtain ⟨es', he', he⟩ := bind_eq_ok.1 he
      obtain ⟨-, rfl⟩ := List.cons.inj (pure_eq_ok.1 he)
      obtain ⟨as, hshow, hrest⟩ := ih (List.forall_mem_cons.1 hs).2 he'
      refine ⟨as, .pass (fun k hk _ => ?_) hshow, hrest⟩
      obtain rfl := Option.some.inj (hn.symm.trans hk)
      exact hclosing
    · obtain ⟨p, -, he⟩ := bind_eq_ok.1 he
      obtain ⟨bs, -, he⟩ := bind_eq_ok.1 he
      obtain ⟨es', -, he⟩ := bind_eq_ok.1 he
      cases pure_eq_ok.1 he
  | @renew n body n' body' ns ms es ht same valid hr ih =>
    rw [chosen_cons_among (n := .tag false n body) rfl ht] at hs
    rw [chosen_cons_among (n := .tag false n body) rfl ht, editsFrom,
      if_neg (by simp [Tag.ofBody])] at he
    obtain ⟨p, hp, he⟩ := bind_eq_ok.1 he
    obtain ⟨bs, hbs, he⟩ := bind_eq_ok.1 he
    obtain ⟨es', he', he⟩ := bind_eq_ok.1 he
    obtain ⟨hw, rfl⟩ := List.cons.inj (pure_eq_ok.1 he)
    obtain ⟨as, hshow, hfree, hd⟩ := ih (List.forall_mem_cons.1 hs).2 he'
    have hgiven : IsGiven _ used (used.choose p.alt p.written index) := isGiven_choose hp
    have ht' : (Tag.ofBody false n' body').isAmong [name] = true := by
      rwa [Tag.isAmong, show (Tag.ofBody false n' body').name = (Tag.ofBody false n body).name
        from same]
    refine ⟨used.choose p.alt p.written index :: as, .shown rfl ht' ?_ hshow, ?_, ?_⟩
    · exact isShowing_writtenTag hb (List.forall_mem_cons.1 hs).1 hgiven.ne_nil hgiven.trimmed hbs
        (isValid_tag.1 valid).1 (Option.some.inj hw)
    · refine List.forall_mem_cons.2 ⟨hgiven.free, fun a ha hm => ?_⟩
      exact hfree a ha (List.mem_cons_of_mem _ hm)
    · refine List.nodup_cons.2 ⟨fun hm => ?_, hd⟩
      obtain ⟨a, ha, heq⟩ := List.mem_map.1 hm
      exact hfree a ha (heq ▸ List.mem_cons_self)

theorem isSuited_rebuilt (hb : IsSteadyBase c.imageBase) {k : Tag} (hk : k.name = name)
    (hs : Attributes.All (IsSuited k.name) (Attributes.parse k.attrs)) (hl : IsOneLine alt) :
    ∃ bs, rebuilt c (.parse k.attrs) alt = .ok bs ∧ Attributes.All (IsSuited k.name) bs := by
  obtain ⟨s, hst, hsteady⟩ := exists_style (hk ▸ by decide) hs
  have hmerge := mergeStyle_baseStyle_eq_ok.2 ⟨s, hst, rfl⟩
  obtain ⟨bs, hbs⟩ : ∃ bs, rebuilt c (.parse k.attrs) alt = .ok bs := by
    rw [rebuilt, hmerge]
    exact ⟨_, rfl⟩
  have hsource : IsTidy (source (.parse k.attrs)) := by
    refine IsTidy.of_isInfix ?_ (trim_isInfix _)
    cases hv : (Attributes.parse k.attrs).get? "src".toList with
    | none => exact .nil
    | some v => exact Attributes.isTidy_get? (fun a ha => (hs a ha).tidy) hv
  refine ⟨bs, hbs, Run.all_rebuilt hs ?_ ?_ (fun style h => ?_) hbs⟩
  · exact isSuited_value (by decide) (by decide) (isTidy_newSource hb hsource)
  · exact isSuited_value (by decide) (by decide) (isTidy_of_isChain
      (any_isLineBreak_escapeHtml hl.unbroken) (isChain_escapeHtml hl.single))
  · obtain rfl := Except.ok.inj (hmerge.symm.trans h)
    exact (hsteady.mergedAhead (by decide)).isSuited _

theorem exists_editsFrom (hb : IsSteadyBase c.imageBase) {ks : List Tag}
    (h : ∀ k ∈ ks, k.name = name ∧ Attributes.All (IsSuited k.name) (Attributes.parse k.attrs) ∧
      HasReadableAlt k) (index : Nat) (used : Registry) :
    ∃ es, editsFrom c index used ks = .ok es ∧
      List.Forall₂ (fun k e => Written (IsSuited k.name) k e) ks es := by
  induction ks generalizing index used with
  | nil => exact ⟨[], rfl, .nil⟩
  | cons k ks ih =>
    obtain ⟨⟨hk, hs, halt⟩, hks⟩ := List.forall_mem_cons.1 h
    by_cases hclosing : k.closing = true
    · obtain ⟨es, he, hw⟩ := ih hks index used
      rw [editsFrom, if_pos hclosing, he]
      exact ⟨none :: es, rfl, .cons (.none k) hw⟩
    · obtain ⟨p, hp⟩ : ∃ p, propose c ((Attributes.parse k.attrs).get? "alt".toList)
          (source (.parse k.attrs)) index = .ok p := by
        obtain ⟨t, ht, -⟩ := halt
        rw [propose, ht]
        exact ⟨_, rfl⟩
      have hgiven : IsGiven k used (used.choose p.alt p.written index) := isGiven_choose hp
      obtain ⟨bs, hbs, hsuited⟩ := isSuited_rebuilt hb hk hs (hgiven.line halt.hasOneLine)
      obtain ⟨es, he, hw⟩ := ih hks (index + 1) (used.claim p.alt p.written index).2
      rw [Bool.not_eq_true] at hclosing
      exact ⟨_, editsFrom_cons_of_opens hclosing hp hbs he,
        .cons (Run.written_writtenTag hclosing hk hsuited) hw⟩

theorem exists_enhance (hb : IsSteadyBase c.imageBase) {ns : List Node} (hc : IsClean ns)
    (ho : ∀ n ∈ ns, IsOrdinary n) (ha : OnTags name (fun k _ => HasReadableAlt k) ns) :
    ∃ ms as, enhance c (sources ns) = .ok (sources ms) ∧ IsClean ms ∧ (∀ m ∈ ms, IsOrdinary m) ∧
      List.Forall₂ (Renewed [name]) ns ms ∧ Showing c ms as ∧ (as.map lower).Nodup := by
  have hk : ∀ k ∈ chosen [name] ns, k.name = name ∧
      Attributes.All (IsSuited k.name) (Attributes.parse k.attrs) ∧ HasReadableAlt k := by
    intro k hk
    obtain ⟨n, hn, hk, hname⟩ := exists_of_mem_chosen .enhanceImages hk
    have hname := List.mem_singleton.1 hname
    exact ⟨hname, (ho n hn).suited hk, ha n hn k hk hname⟩
  obtain ⟨es, he, hw⟩ := exists_editsFrom hb hk 0 .empty
  have hedits : Run.Rewriter.enhanceImages.edits c (sources ns) = .ok es := by
    rw [Run.Rewriter.edits, edits, map_toTag_tokens hc]
    exact he
  have hstyled : ∀ k ∈ chosen [name] ns, k.name ∈ styledNames := fun k hm => (hk k hm).1 ▸ by decide
  obtain ⟨ms, happ, hm, hom, hr⟩ := exists_ordinary_rewrites (r := .enhanceImages) hb.plain hc ho
    (by decide) (fun k hm => hasPlainStyle_of_suited (hstyled k hm) (hk k hm).2.1) hedits hw
  obtain ⟨as, hs, -, hd⟩ := exists_showing hb hr
    (fun k hm => exists_style (hstyled k hm) (hk k hm).2.1) he
  exact ⟨ms, as, happ, hm, hom, hr.forall₂, hs, hd⟩

namespace Showing

variable {ns ms : List Node} {alts : List Text}

theorem enhance (h : Showing c ns alts) (hd : (alts.map lower).Nodup) (hc : IsClean ns) :
    Image.enhance c (sources ns) = .ok (sources ns) := by
  obtain ⟨es, he, hm⟩ := @exists_edits _ _ _ h .empty (by simp [Registry.empty]) hd 0
  rw [Image.enhance, edits, map_toTag_tokens hc, he]
  change Except.ok (editTags [name] (sources ns) es) = _
  rw [editTags, lexemes_sources hc, hm]

theorem of_renewed (h : Showing c ns alts) (r : Run.Rewriter)
    (hr : List.Forall₂ (Renewed r.names) ns ms) (hn : name ∉ r.names) : Showing c ms alts := by
  have hother : ∀ k : Tag, k.isAmong r.names = true → k.isAmong [name] = true → False := by
    intro k h1 h2
    rw [isAmong_iff r.lower_names r.names_ne_nil] at h1
    rw [isAmong_singleton (by decide)] at h2
    exact hn (h2 ▸ h1)
  induction hr generalizing alts with
  | nil => exact h
  | @cons n m ns ms hn hr ih =>
    cases hn with
    | keep =>
      cases h with
      | pass h hs => exact .pass h (ih hs)
      | shown hn hk h hs => exact .shown hn hk h (ih hs)
    | @renew old body name' body' ht same valid =>
      cases h with
      | pass h hs =>
        refine .pass (fun k hk ha => ?_) (ih hs)
        obtain rfl := Option.some.inj hk
        refine (hother (.ofBody false old body) ht ?_).elim
        rwa [Tag.isAmong, show (Tag.ofBody false old body).name =
          (Tag.ofBody false name' body').name from same.symm]
      | shown hn hk h hs =>
        obtain rfl := Option.some.inj hn
        exact (hother _ ht hk).elim

theorem of_thinned (h : Showing c ns alts) (ht : Thinned ns ms) : Showing c ms alts := by
  induction ht generalizing alts with
  | nil => exact h
  | keep n _ ih =>
    cases h with
    | pass h hs => exact .pass h (ih hs)
    | shown hn hk h hs => exact .shown hn hk h (ih hs)
  | drop _ _ ih =>
    cases h with
    | pass h hs => exact ih hs
    | shown hn => simp [Node.tag?] at hn

theorem append (h : Showing c ns alts) {alts' : List Text} (h' : Showing c ms alts') :
    Showing c (ns ++ ms) (alts ++ alts') := by
  induction h with
  | nil => exact h'
  | pass h _ ih => exact .pass h ih
  | shown hn hk h _ ih => exact .shown hn hk h ih

theorem of_not_among (h : ∀ n ∈ ns, ∀ k, n.tag? = some k → k.isAmong [name] = false) :
    Showing c ns [] := by
  induction ns with
  | nil => exact .nil
  | cons n ns ih =>
    obtain ⟨hn, hns⟩ := List.forall_mem_cons.1 h
    refine .pass (fun k hk ha => ?_) (ih hns)
    rw [hn k hk] at ha
    cases ha

end Showing

end MailMarkup.Image
