import MailMarkup.Proofs.Document.Cutting
import MailMarkup.Proofs.Image.AltTexts
import MailMarkup.Proofs.Link.LinkStability
import MailMarkup.Proofs.Markup.TagStability
import MailMarkup.Proofs.Spacing.Thinning

namespace MailMarkup.Spacing

open Text Markup

theorem opensKept_eq_false {names : List Text} (hf : AreFree names) {name body : Text}
    (ht : IsTag name body) (hn : name.map Char.toLower ∈ names) : opensKept name body = false := by
  have hk := hf.not_isKeptName hn
  have hx : (body ++ ['>']).head?.any endsWith = true := head?_ends ht []
  by_contra ho
  simp only [opensKept, Bool.not_eq_false, Bool.or_eq_true, List.any_eq_true] at ho
  rcases ho with ho | ⟨w, hw, ho⟩
  · obtain ⟨u, hu⟩ := Option.isSome_iff_exists.1 ho
    exact hk (isKeptName_of_officeName? (name_ne_nil ht) hx hu)
  · obtain ⟨u, hu⟩ := Option.isSome_iff_exists.1 ho
    exact hk (isKeptName_of_dropFolded? (name_ne_nil ht) hw (Option.filter_eq_some_iff.1 hu).1)

end MailMarkup.Spacing

namespace MailMarkup.Markup

open Text Spacing

def writtenNames : List Text :=
  [Table.name, Image.name, Table.cellName, Table.headerCellName, "a".toList]

def styledNames : List Text := [Table.name, Image.name, Table.cellName]

def IsSteadyStyle (t : Text) : Prop := ∃ s, Style.parse t = .ok s ∧ s.IsSteady

instance (t : Text) : Decidable (IsSteadyStyle t) :=
  match h : Style.parse t with
  | .ok s => decidable_of_iff s.IsSteady (by simp [IsSteadyStyle, h])
  | .error _ => .isFalse (by simp [IsSteadyStyle, h])

def Attribute.IsSteady (a : Attribute) : Prop :=
  a.key = "style".toList → IsSteadyStyle (a.value.getD [])

instance (a : Attribute) : Decidable a.IsSteady :=
  inferInstanceAs (Decidable (a.key = "style".toList → IsSteadyStyle (a.value.getD [])))

structure IsSuited (name : Text) (a : Attribute) : Prop where
  tidy : Attributes.IsTidyOne a
  steady : name ∈ styledNames → a.IsSteady

theorem isSuited_of_ne {name : Text} {a : Attribute} (h : Attributes.IsTidyOne a)
    (hn : a.key ≠ "style".toList) : IsSuited name a := ⟨h, fun _ he => absurd he hn⟩

theorem Style.IsSteady.isSuited {s : Style} (h : s.IsSteady) (name : Text) :
    IsSuited name ⟨"style".toList, some s.render⟩ where
  tidy := ⟨rfl, fun v hv => Option.some.inj hv ▸ h.isTidy_render⟩
  steady _ _ := ⟨s, by rw [← Style.parse_escapeQuotes]; exact h.isRegular.parse_render, h⟩

theorem exists_style {name : Text} (hn : name ∈ styledNames) {as : Attributes}
    (h : Attributes.All (IsSuited name) as) : IsSteadyStyle as.styleText := by
  rw [Attributes.styleText, Attributes.get?]
  cases hf : as.find? (·.key == lower "style".toList) with
  | none => exact ⟨[], rfl, by simp [Style.IsSteady]⟩
  | some a =>
    have hk : a.key = lower "style".toList := by simpa using List.find?_some hf
    exact (h a (List.mem_of_find?_eq_some hf)).steady hn (hk.trans (by decide))

def isInner : Node → Bool
  | .declaration .. => false
  | .comment inner => Document.isInert inner
  | .tag _ name _ => !Document.documentNames.contains (name.map Char.toLower)
  | _ => true

structure IsOrdinary (n : Node) : Prop where
  neat : IsNeat n
  inner : isInner n = true
  steady : ∀ k, n.tag? = some k → k.name ∈ styledNames →
    ∀ a ∈ Attributes.parse k.attrs, a.IsSteady

instance (n : Node) : Decidable (IsOrdinary n) :=
  decidable_of_iff (IsNeat n ∧ isInner n = true ∧ ∀ k ∈ n.tag?, k.name ∈ styledNames →
      ∀ a ∈ Attributes.parse k.attrs, a.IsSteady)
    ⟨fun h => ⟨h.1, h.2.1, h.2.2⟩, fun h => ⟨h.neat, h.inner, h.steady⟩⟩

theorem IsOrdinary.suited {n : Node} (h : IsOrdinary n) {k : Tag} (hk : n.tag? = some k) :
    Attributes.All (IsSuited k.name) (Attributes.parse k.attrs) := by
  intro a ha
  refine ⟨?_, fun hn => h.steady k hk hn a ha⟩
  cases n with
  | tag closing name body =>
    obtain rfl := Option.some.inj hk
    have hsub : (Tag.ofBody closing name body).attrs <:+: body := by
      obtain ⟨r, hr, -⟩ := Image.exists_attrs_append closing name body
      exact ⟨[], r, by simpa using hr.symm⟩
    exact Attributes.isTidy_parse (h.neat.2.of_isInfix hsub) a ha
  | _ => simp [Node.tag?] at hk

theorem eq_of_tagText_eq {name body name' body' : Text} (h : IsTag name body)
    (h' : IsTag name' body') (he : tagText false name body = tagText false name' body') :
    name = name' ∧ body = body' := by
  have hsplit : name ++ (body ++ ['>']) = name' ++ (body' ++ ['>']) := by
    simpa [tagText] using he
  obtain ⟨hn, hb⟩ := eq_of_append_eq (not_endsWith_of_isName h.name_ok)
    (not_endsWith_of_isName h'.name_ok) (head?_ends h []) (head?_ends h' []) hsplit
  exact ⟨hn, List.append_cancel_right hb⟩

theorem exists_rendered {k : Tag} {P : Attribute → Prop} {name body : Text}
    (hp : ∀ a, P a → Attributes.isLegalName a.name = true) (ht : IsTag name body)
    (h : Written P k (some (tagText false name body))) :
    name = k.name ∧ name.map Char.toLower = name ∧ ∃ as, Attributes.All P as ∧
      (body = as.render ∨ body = as.render ++ " /".toList) := by
  obtain ⟨-, hname, hlower, as, has, he⟩ := h _ rfl
  have hl : as.IsLegal := fun a ha => hp a (has a ha)
  rcases he with he | he
  · rw [openTag_eq_tagText] at he
    obtain ⟨rfl, hb⟩ := eq_of_tagText_eq ht (isTag_render hname hl) he
    exact ⟨rfl, hlower, as, has, .inl hb⟩
  · rw [closedTag_eq_tagText] at he
    obtain ⟨rfl, hb⟩ := eq_of_tagText_eq ht (isTag_render_slash hname hl) he
    exact ⟨rfl, hlower, as, has, .inr hb⟩

theorem isOrdinary_of_written {k : Tag} {name body : Text} (hk : k.name ∈ writtenNames)
    (hv : (Node.tag false name body).isValid = true)
    (h : Written (IsSuited k.name) k (some (tagText false name body))) :
    IsOrdinary (.tag false name body) := by
  have ht := (isValid_tag.1 hv).1
  obtain ⟨rfl, hlower, as, has, hb⟩ := exists_rendered (fun a ha => ha.tidy.legal) ht h
  have hl : as.IsLegal := fun a ha => (has a ha).tidy.legal
  have htidy : Attributes.All Attributes.IsTidyOne as := fun a ha => (has a ha).tidy
  refine ⟨⟨fun _ => ?_, ?_⟩, ?_, ?_⟩
  · refine @opensKept_eq_false writtenNames (by decide) _ _ ht ?_
    rwa [hlower]
  · rcases hb with rfl | rfl
    · exact Attributes.isTidy_render htidy
    · exact Attributes.isTidy_render_append htidy (by decide)
  · rw [isInner, hlower]
    exact (by decide : ∀ n ∈ writtenNames, (!Document.documentNames.contains n) = true) _ hk
  · rintro k' hk' hn a ha
    obtain rfl := Option.some.inj hk'
    rw [parse_attrs_render hl false hb] at ha
    obtain ⟨b, hm, rfl⟩ := List.mem_map.1 ha
    intro hkey
    have hname : (Tag.ofBody false k.name body).name = k.name := hlower
    obtain ⟨s, hs, hsteady⟩ := (has b hm).steady (hname ▸ hn) hkey
    refine ⟨s, ?_, hsteady⟩
    rw [← hs]
    cases hv : b.value with
    | none => simp [Attributes.written, hv]
    | some v => simp [Attributes.written, hv, Style.parse_escapeQuotes]

theorem isSuited_value {name n v : Text} (hn : Attributes.isLegalName n = true)
    (hk : lower n ≠ "style".toList) (hv : IsTidy v) : IsSuited name ⟨n, some v⟩ :=
  isSuited_of_ne ⟨hn, fun _ h => Option.some.inj h ▸ hv⟩ hk

theorem hasPlainStyle_of_suited {k : Tag} (hn : k.name ∈ styledNames)
    (h : Attributes.All (IsSuited k.name) (Attributes.parse k.attrs)) : k.HasPlainStyle := by
  obtain ⟨s, hs, hsteady⟩ := exists_style hn h
  intro s' hs'
  obtain rfl := Except.ok.inj (hs.symm.trans hs')
  exact hsteady.isPlain

variable {names : List Text} {f : Tag → Except Fault (Option Text)} {R : Tag → Option Text → Prop}
  {ns ms : List Node}

theorem isOrdinary_of_rewrites (hl : ∀ n ∈ names, lower n = n) (hne : names ≠ [])
    (hn : names ⊆ writtenNames) {es : List (Option Text)} (hr : Rewrites names ns es ms)
    (hw : List.Forall₂ (fun k e => Written (IsSuited k.name) k e) (chosen names ns) es)
    (ho : ∀ n ∈ ns, IsOrdinary n) : ∀ m ∈ ms, IsOrdinary m := by
  induction hr with
  | nil => simp
  | pass h hr ih =>
    rw [chosen_cons_not_among h] at hw
    rw [List.forall_mem_cons] at ho ⊢
    exact ⟨ho.1, ih hw ho.2⟩
  | keep hnt ht hr ih =>
    rw [chosen_cons_among hnt ht, List.forall₂_cons] at hw
    rw [List.forall_mem_cons] at ho ⊢
    exact ⟨ho.1, ih hw.2 ho.2⟩
  | @renew name body name' body' ns ms es ht same valid hr ih =>
    rw [chosen_cons_among (n := .tag false name body) rfl ht, List.forall₂_cons] at hw
    rw [List.forall_mem_cons] at ho ⊢
    exact ⟨isOrdinary_of_written (hn ((isAmong_iff hl hne).1 ht)) valid hw.1, ih hw.2 ho.2⟩

theorem exists_before (r : Run.Rewriter) (h : List.Forall₂ (Renewal r.names R) ns ms) {m : Node}
    (hm : m ∈ ms) {k : Tag} (hk : m.tag? = some k) (hn : k.name ∈ r.names) :
    (m ∈ ns ∧ R k none) ∨ ∃ n, n ∈ ns ∧ ∃ old name body, n.tag? = some old ∧
      old.name = k.name ∧ m = .tag false name body ∧ IsTag name body ∧
      k = .ofBody false name body ∧ R old (some (tagText false name body)) := by
  obtain ⟨n, hnm, hr⟩ := Run.exists_of_forall₂ h hm
  cases hr with
  | pass h =>
    have := h k hk
    rw [(isAmong_iff r.lower_names r.names_ne_nil).2 hn] at this
    cases this
  | keep hnt _ hf =>
    obtain rfl := Option.some.inj (hnt.symm.trans hk)
    exact .inl ⟨hnm, hf⟩
  | renew ht same valid he =>
    obtain rfl := Option.some.inj hk
    exact .inr ⟨_, hnm, _, _, _, rfl, same.symm, rfl, (isValid_tag.1 valid).1, rfl, he⟩

theorem exists_ordinary_rewrites {r : Run.Rewriter} {c : Config} (hb : '<' ∉ c.imageBase)
    (hc : IsClean ns) (ho : ∀ n ∈ ns, IsOrdinary n) (hn : r.names ⊆ writtenNames)
    (hwant : ∀ k ∈ chosen r.names ns, r.Wants k) {es : List (Option Text)}
    (he : r.edits c (sources ns) = .ok es)
    (hw : List.Forall₂ (fun k e => Written (IsSuited k.name) k e) (chosen r.names ns) es) :
    ∃ ms, r.stage.apply c (sources ns) = .ok (sources ms) ∧ IsClean ms ∧
      (∀ m ∈ ms, IsOrdinary m) ∧ Rewrites r.names ns es ms := by
  have happly : r.stage.apply c (sources ns) = .ok (editTags r.names (sources ns) es) := by
    rw [r.apply_stage, he]
    rfl
  obtain ⟨es', ms, he', hm, hr⟩ := Run.exists_rewrites_of_apply hb hc hwant happly
  obtain rfl := Except.ok.inj (he'.symm.trans he)
  have hr : Rewrites r.names ns es' ms := by
    rcases hr with ⟨rfl, rfl⟩ | hr
    · exact Run.rewrites_nil (List.forall₂_nil_right_iff.1 hw)
    · exact hr
  exact ⟨ms, hm ▸ happly, hr.isClean hc,
    isOrdinary_of_rewrites r.lower_names r.names_ne_nil hn hr hw ho, hr⟩

theorem exists_of_mem_chosen (r : Run.Rewriter) {k : Tag} (h : k ∈ chosen r.names ns) :
    ∃ n ∈ ns, n.tag? = some k ∧ k.name ∈ r.names := by
  obtain ⟨hk, hname⟩ := (Run.mem_chosen_iff r.lower_names r.names_ne_nil).1 h
  obtain ⟨n, hn, hk⟩ := List.mem_filterMap.1 hk
  exact ⟨n, hn, hk, hname⟩

theorem exists_ordinary {r : Run.Rewriter} {c : Config} (hb : '<' ∉ c.imageBase) (hc : IsClean ns)
    (ho : ∀ n ∈ ns, IsOrdinary n)
    (hf : r.edits c (sources ns) = (tokens r.names (sources ns)).mapM (f ·.toTag))
    (hn : r.names ⊆ writtenNames)
    (hw : ∀ n ∈ ns, ∀ k, n.tag? = some k → k.name ∈ r.names → r.Wants k)
    (hok : ∀ n ∈ ns, ∀ k, n.tag? = some k → k.name ∈ r.names →
      ∃ e, f k = .ok e ∧ Written (IsSuited k.name) k e) :
    ∃ ms, r.stage.apply c (sources ns) = .ok (sources ms) ∧ IsClean ms ∧
      (∀ m ∈ ms, IsOrdinary m) ∧ List.Forall₂ (Renewal r.names fun k e => f k = .ok e) ns ms := by
  have hchosen : ∀ k ∈ chosen r.names ns, ∃ n ∈ ns, n.tag? = some k ∧ k.name ∈ r.names :=
    fun k => exists_of_mem_chosen r
  obtain ⟨es, hes⟩ : ∃ es, (chosen r.names ns).mapM f = .ok es := exists_mapM_iff.2 fun k hk => by
    obtain ⟨n, hn, hk, hname⟩ := hchosen k hk
    obtain ⟨e, he, -⟩ := hok n hn k hk hname
    exact ⟨e, he⟩
  have he : r.edits c (sources ns) = .ok es := by
    rw [hf, ← hes, ← map_toTag_tokens hc, List.mapM_map]
    rfl
  obtain ⟨ms, ha, hm, hom, hr⟩ := exists_ordinary_rewrites hb hc ho hn
    (fun k hk => by
      obtain ⟨n, hn, hk, hname⟩ := hchosen k hk
      exact hw n hn k hk hname) he
    (Run.forall₂_imp_of_mem (forall₂_of_mapM hes) fun k hk e he => by
      obtain ⟨n, hn, hk, hname⟩ := hchosen k hk
      obtain ⟨e', he', hw⟩ := hok n hn k hk hname
      obtain rfl := Except.ok.inj (he'.symm.trans he)
      exact hw)
  exact ⟨ms, ha, hm, hom, hr.renewal (forall₂_of_mapM hes)⟩

def OnTags (name : Text) (R : Tag → Text → Prop) (ns : List Node) : Prop :=
  ∀ n ∈ ns, ∀ k, n.tag? = some k → k.name = name → R k n.source

instance (name : Text) (R : Tag → Text → Prop) [∀ k s, Decidable (R k s)] (ns : List Node) :
    Decidable (OnTags name R ns) :=
  inferInstanceAs (Decidable (∀ n ∈ ns, ∀ k ∈ n.tag?, k.name = name → R k n.source))

namespace OnTags

variable {name : Text} {P : Tag → Text → Prop}

theorem append (h : OnTags name P ns) (h' : OnTags name P ms) : OnTags name P (ns ++ ms) :=
  List.forall_mem_append.2 ⟨h, h'⟩

theorem of_subset (h : OnTags name P ns) (hs : ms ⊆ ns) : OnTags name P ms :=
  fun n hn => h n (hs hn)

theorem of_renewal (h : OnTags name P ns) (hr : List.Forall₂ (Renewal names R) ns ms)
    (hP : ∀ (k : Tag) (s name' body : Text), k.closing = false → P k s →
      R k (some (tagText false name' body)) → IsTag name' body →
      P (.ofBody false name' body) (tagText false name' body)) : OnTags name P ms := by
  intro m hm k hk hname
  obtain ⟨n, hnm, hr⟩ := Run.exists_of_forall₂ hr hm
  cases hr with
  | pass => exact h _ hnm k hk hname
  | keep => exact h _ hnm k hk hname
  | renew _ same valid hR =>
    obtain rfl := Option.some.inj hk
    exact hP _ _ _ _ rfl (h _ hnm _ rfl (same.symm.trans hname)) hR (isValid_tag.1 valid).1

theorem of_renewed (h : OnTags name P ns) (r : Run.Rewriter)
    (hr : List.Forall₂ (Renewed r.names) ns ms) (hn : name ∉ r.names) : OnTags name P ms := by
  intro m hm k hk hname
  obtain ⟨n, hnm, hr⟩ := Run.exists_of_forall₂ hr hm
  cases hr with
  | keep => exact h _ hnm k hk hname
  | renew ht same valid =>
    obtain rfl := Option.some.inj hk
    have hold := (isAmong_iff r.lower_names r.names_ne_nil).1 ht
    rw [show (Tag.ofBody false _ _).name = _ from same.symm] at hold
    exact absurd (hname ▸ hold) hn

end OnTags

end MailMarkup.Markup
