import MailMarkup.Proofs.Markup.Skeleton

namespace MailMarkup.Text

theorem toNat_toLower (c : Char) : c.toLower.toNat =
    if 65 ≤ c.toNat ∧ c.toNat ≤ 90 then c.toNat + 32 else c.toNat := by
  have hc : c.toNat = c.val.toNat := rfl
  unfold Char.toLower
  split
  · rename_i h
    simp only [ge_iff_le, UInt32.le_iff_toNat_le] at h
    have h1 : 65 ≤ c.toNat ∧ c.toNat ≤ 90 := h
    rw [if_pos h1]
    show (c.val + ('a'.val - 'A'.val)).toNat = _
    rw [UInt32.toNat_add]
    have : ('a'.val - 'A'.val).toNat = 32 := by decide
    omega
  · rename_i h
    simp only [ge_iff_le, UInt32.le_iff_toNat_le] at h
    have h1 : ¬ (65 ≤ c.toNat ∧ c.toNat ≤ 90) := h
    rw [if_neg h1]

theorem eq_of_toLower_eq {c d : Char} (h : c.toLower = d) (hd : d.toNat < 97) : c = d := by
  have ht := toNat_toLower c
  rw [h] at ht
  refine Char.ext (UInt32.toNat_inj.1 ?_)
  have h1 : c.val.toNat = c.toNat := rfl
  have h2 : d.val.toNat = d.toNat := rfl
  split at ht <;> omega

end MailMarkup.Text

namespace MailMarkup.Markup

open Text

theorem mem_of_mem_dropEndWhile {p : Char → Bool} {c : Char} {t : Text}
    (h : c ∈ dropEndWhile p t) : c ∈ t :=
  (List.rdropWhile_prefix p t).subset h

namespace Style

def IsPlain (s : Style) : Prop := ∀ d ∈ s, '<' ∉ d.property ∧ '<' ∉ d.value

instance (s : Style) : Decidable s.IsPlain :=
  inferInstanceAs (Decidable (∀ d ∈ s, '<' ∉ d.property ∧ '<' ∉ d.value))

theorem IsPlain.remove {s : Style} (h : s.IsPlain) (property : Text) :
    (s.remove property).IsPlain :=
  fun d hd => h d (List.mem_filter.1 hd).1

theorem IsPlain.foldl_remove {s : Style} (h : s.IsPlain) (properties : List Text) :
    IsPlain (properties.foldl Style.remove s) := by
  induction properties generalizing s with
  | nil => exact h
  | cons p ps ih => exact ih (h.remove p)

theorem IsPlain.mergedAhead {s block : Style} (h : s.IsPlain) (hb : block.IsPlain) :
    (s.mergedAhead block).IsPlain := by
  intro d hd
  rcases List.mem_append.1 hd with hd | hd
  · exact hb d hd
  · exact h d (List.mem_filter.1 hd).1

theorem IsPlain.not_mem_render {s : Style} (h : s.IsPlain) : '<' ∉ s.render := by
  intro hm
  obtain ⟨d, hd, hr⟩ := List.mem_flatMap.1 hm
  obtain ⟨hp, hv⟩ := h d hd
  simp [Style.renderOne, hp, hv] at hr

end Style

def Tag.HasPlainStyle (k : Tag) : Prop :=
  ∀ s, Style.parse (Attributes.parse k.attrs).styleText = .ok s → s.IsPlain

def Tag.HasPlainLink (k : Tag) : Prop :=
  ∀ v d, (Attributes.parse k.attrs).get? "href".toList = some v →
    Entity.decode (trim v) = .ok d → '<' ∉ d

instance decidableForallOk {ε α : Type} (x : Except ε α) (P : α → Prop) [DecidablePred P] :
    Decidable (∀ a, x = .ok a → P a) :=
  match x with
  | .ok a => decidable_of_iff (P a) (by simp)
  | .error _ => .isTrue (by simp)

instance decidableForallSome {α : Type} (x : Option α) (P : α → Prop) [DecidablePred P] :
    Decidable (∀ a, x = some a → P a) :=
  match x with
  | some a => decidable_of_iff (P a) (by simp)
  | none => .isTrue (by simp)

instance (k : Tag) : Decidable k.HasPlainStyle :=
  decidableForallOk (Style.parse (Attributes.parse k.attrs).styleText) Style.IsPlain

instance (k : Tag) : Decidable k.HasPlainLink :=
  decidable_of_iff (∀ v, (Attributes.parse k.attrs).get? "href".toList = some v →
    ∀ d, Entity.decode (trim v) = .ok d → '<' ∉ d)
    ⟨fun h v d hv hd => h v hv d hd, fun h v hv d hd => h v d hv hd⟩

theorem Attributes.IsQuietOne.of_not_mem {name v : Text} (hn : isLegalName name = true)
    (hh : isHarmless name = true) (hv : '<' ∉ v) : IsQuietOne ⟨name, some v⟩ :=
  ⟨hn, hh, fun _ hw => Option.some.inj hw ▸ isHarmless_of_not_mem hv⟩

theorem isQuietOne_style {s : Style} (h : s.IsPlain) :
    Attributes.IsQuietOne ⟨"style".toList, some s.render⟩ :=
  .of_not_mem (by decide) (by decide) h.not_mem_render

theorem isHarmless_get? {as : Attributes} (h : as.IsQuiet) {name v : Text}
    (hv : as.get? name = some v) : isHarmless v = true := by
  obtain ⟨a, ha, rfl⟩ := Option.map_eq_some_iff.1 hv
  cases hval : a.value with
  | none => rfl
  | some w => exact (h a (List.mem_of_find?_eq_some ha)).value w hval

end MailMarkup.Markup

namespace MailMarkup.Table

open Text Markup

theorem isPlain_containerStyle (l : Layout) : (containerStyle l).IsPlain := by
  obtain ⟨r, w, p⟩ := l
  cases r <;> cases w <;> cases p <;> decide

theorem isPlain_normalStyle {l : Layout} {existing : Text} {s : Style}
    (h : ∀ s, Style.parse existing = .ok s → s.IsPlain)
    (hs : normalStyle l existing = .ok s) : s.IsPlain := by
  obtain ⟨s', hp, hs⟩ := bind_eq_ok.1 hs
  obtain rfl := pure_eq_ok.1 hs
  exact ((h s' hp).foldl_remove _).mergedAhead (isPlain_containerStyle l)

theorem isQuiet_forcedAttributes (l : Layout) : (forcedAttributes l).IsQuiet := by
  have hw : '<' ∉ widthText l := by
    obtain ⟨r, w, p⟩ := l
    cases r <;> cases w <;> cases p <;> decide
  intro a ha
  simp only [forcedAttributes, List.mem_cons, List.not_mem_nil, or_false] at ha
  rcases ha with rfl | rfl | rfl | rfl | rfl | rfl
  · exact .of_not_mem (by decide) (by decide) (by decide)
  · exact .of_not_mem (by decide) (by decide) (by decide)
  · exact .of_not_mem (by decide) (by decide) hw
  · exact .of_not_mem (by decide) (by decide) (by decide)
  · exact .of_not_mem (by decide) (by decide) (by decide)
  · exact .of_not_mem (by decide) (by decide) (by decide)

end MailMarkup.Table

namespace MailMarkup.Image

open Text Markup

theorem mem_of_mem_withoutEndSlashes {c : Char} {t : Text} (h : c ∈ withoutEndSlashes t) :
    c ∈ t := by
  rw [withoutEndSlashes] at h
  split at h
  · rename_i hl
    rcases List.mem_append.1 h with h | h
    · exact (List.dropLast_prefix t).subset (mem_of_mem_dropEndWhile h)
    · obtain rfl := List.mem_singleton.1 h
      exact List.mem_of_getLast? hl
  · exact mem_of_mem_dropEndWhile h

theorem isHarmless_newSource {c : Config} (hc : '<' ∉ c.imageBase) {src : Text}
    (h : isHarmless src = true) : isHarmless (newSource c src) = true := by
  rw [newSource]
  split
  · have hp : isHarmless (src.dropWhile isSlash) = true :=
      isHarmless_of_isInfix (dropWhile_isInfix _ src) h
    exact isHarmless_append_of_not_mem (fun hm => hc (mem_of_mem_withoutEndSlashes hm))
      (by simpa [isHarmless] using hp)
  · exact h

theorem isHarmless_source {as : Attributes} (h : as.IsQuiet) : isHarmless (source as) = true := by
  refine isHarmless_of_isInfix (trim_isInfix _) ?_
  cases hv : as.get? "src".toList with
  | none => rfl
  | some v => exact isHarmless_get? h hv

theorem suitsImage {c : Config} (hc : '<' ∉ c.imageBase) {k : Tag}
    (hq : (Attributes.parse k.attrs).IsQuiet) (hk : k.HasPlainStyle) :
    Run.SuitsImage Attributes.IsQuietOne c k where
  source := by
    refine ⟨by rfl, by rfl, fun v hv => ?_⟩
    obtain rfl := Option.some.inj hv
    exact isHarmless_newSource hc (isHarmless_source hq)
  alt alt := .of_not_mem (by decide) (by decide) (not_mem_escapeHtml (by decide) alt)
  style := by
    intro t ht
    obtain ⟨s, hs, ht⟩ := bind_eq_ok.1 ht
    obtain ⟨b, hb, ht⟩ := bind_eq_ok.1 ht
    obtain rfl := pure_eq_ok.1 ht
    cases hb
    exact isQuietOne_style ((hk s hs).mergedAhead (by decide))

end MailMarkup.Image

namespace MailMarkup.Url

open Text

variable {x : Char}

theorem not_mem_cleaned {t : Text} (h : x ∉ t) : x ∉ cleaned t :=
  fun hm => h ((List.dropWhile_suffix _).subset (List.mem_filter.1 hm).1)

theorem not_mem_behindScheme {t : Text} (h : x ∉ t) : x ∉ (splitScheme t).2 := by
  unfold splitScheme
  split
  · rename_i s r hb
    have hr := (not_mem_breakAt ':' h).2
    rw [hb] at hr
    split
    · exact hr
    · exact h
  · exact h

theorem not_mem_scheme {t : Text} (h : '<' ∉ t) : '<' ∉ (splitScheme t).1 := by
  unfold splitScheme
  split
  · rename_i s r hb
    have hs := (not_mem_breakAt ':' h).1
    rw [hb] at hs
    split
    · intro hm
      obtain ⟨c, hc, he⟩ := List.mem_map.1 hm
      exact hs (eq_of_toLower_eq he (by decide) ▸ hc)
    · simp
  · simp

theorem not_mem_splitNetloc {t : Text} (h : x ∉ t) :
    x ∉ (splitNetloc t).1 ∧ x ∉ (splitNetloc t).2 := by
  unfold splitNetloc
  split
  · rename_i r
    have hr : x ∉ r := fun hm => h (List.mem_cons_of_mem _ (List.mem_cons_of_mem _ hm))
    exact ⟨fun hm => hr ((List.takeWhile_prefix _).subset hm),
      fun hm => hr ((List.dropWhile_suffix _).subset hm)⟩
  · exact ⟨by simp, h⟩

structure IsPlain (u : Url) : Prop where
  scheme : '<' ∉ u.scheme
  netloc : '<' ∉ u.netloc
  path : '<' ∉ u.path
  fragment : '<' ∉ u.fragment

theorem isPlain_parse {t : Text} {u : Url} (h : '<' ∉ t) (hu : parse t = .ok u) : u.IsPlain := by
  have h1 := not_mem_cleaned h
  have h2 := not_mem_splitNetloc (not_mem_behindScheme h1)
  obtain ⟨-, -, hu⟩ := bind_eq_ok.1 hu
  obtain ⟨-, -, hu⟩ := bind_eq_ok.1 hu
  obtain rfl := pure_eq_ok.1 hu
  have h3 := not_mem_breakAt '#' h2.2
  have h4 := not_mem_breakAt '?' h3.1
  exact ⟨not_mem_scheme h1, h2.1, h4.1, h3.2⟩

theorem not_mem_render {u : Url} (h : u.IsPlain) (hq : '<' ∉ u.query) : '<' ∉ u.render := by
  intro hm
  rcases mem_render hm with hm | hm | hm | hm | hm | hm
  · exact absurd hm (by decide)
  · exact h.scheme hm
  · exact h.netloc hm
  · exact h.path hm
  · exact hq hm
  · exact h.fragment hm

theorem not_mem_query (q : Query) : '<' ∉ q.render :=
  fun hm => absurd (Query.mem_render hm) (by decide)

end MailMarkup.Url

namespace MailMarkup.Link

open Text Markup

theorem not_mem_newAddress {c : Campaign} {href new d : Text}
    (hd : Entity.decode (trim href) = .ok d) (h : '<' ∉ d) (hn : newAddress c href = .ok new) :
    '<' ∉ new := by
  obtain ⟨d', hd', hn⟩ := bind_eq_ok.1 hn
  rw [hd] at hd'
  obtain rfl : d = d' := by simpa [Except.mapError] using hd'
  cases ha : addParameters c d with
  | error f => simp [ha, Except.mapError] at hn
  | ok n =>
    obtain rfl : n = new := by simpa [ha, Except.mapError] using hn
    obtain ⟨u, hu, ha⟩ := bind_eq_ok.1 ha
    obtain ⟨-, -, ha⟩ := bind_eq_ok.1 ha
    obtain rfl := pure_eq_ok.1 ha
    have hp := Url.isPlain_parse h hu
    refine Url.not_mem_render ⟨hp.scheme, hp.netloc, ?_, hp.fragment⟩ (Url.not_mem_query _)
    simp only
    split
    · decide
    · exact hp.path

end MailMarkup.Link

namespace MailMarkup.Background

open Text Markup

theorem lt_of_isFoldedLetter {c : Char} (h : isFoldedLetter c = true) :
    c.toNat < 128 ∨ c = 'ſ' ∨ c = '\u212A' ∨ c = 'İ' ∨ c = 'ı' := by
  unfold isFoldedLetter foldLetter at h
  split at h
  · exact .inr (.inl ‹_›)
  · split at h
    · exact .inr (.inr (.inl ‹_›))
    · split at h
      · exact .inr (.inr (.inr ‹_›))
      · refine .inl ?_
        have hl : c.toLower.toNat ≤ 122 := (isLower_iff.1 h).2
        rw [toNat_toLower] at hl
        split at hl <;> omega

def colorless : List Char := ['<', ' ', '\t', '\n', '\r']

variable {x : Char}

theorem not_mem_of_colorless {t : Text} (h : colorless.all (!t.contains ·) = true)
    (hx : x ∈ colorless) : x ∉ t := by
  simpa using List.all_eq_true.1 h x hx

theorem isColorless (hx : x ∈ colorless) :
    x.toNat < 97 ∧ isFoldedLetter x = false ∧ Entity.isHexDigit x = false ∧ x ≠ '#' := by
  simp only [colorless, List.mem_cons, List.not_mem_nil, or_false] at hx
  rcases hx with rfl | rfl | rfl | rfl | rfl <;> decide

theorem not_mem_lowerChar (hx : x ∈ colorless) {c : Char} (h : isFoldedLetter c = true) (b : Bool)
    (r : Text) : x ∉ lowerChar b c r := by
  rcases lt_of_isFoldedLetter h with hc | rfl | rfl | rfl | rfl
  · rw [lowerChar, if_pos hc, List.mem_singleton]
    intro he
    obtain rfl := eq_of_toLower_eq he.symm (isColorless hx).1
    rw [(isColorless hx).2.1] at h
    cases h
  · rw [lowerChar, if_neg (by decide), if_neg (by decide), if_neg (by decide)]
    exact not_mem_of_colorless (by decide) hx
  · rw [lowerChar, if_neg (by decide), if_neg (by decide), if_neg (by decide)]
    exact not_mem_of_colorless (by decide) hx
  · rw [lowerChar, if_neg (by decide), if_neg (by decide), if_pos rfl]
    exact not_mem_of_colorless (by decide) hx
  · rw [lowerChar, if_neg (by decide), if_neg (by decide), if_neg (by decide)]
    exact not_mem_of_colorless (by decide) hx

theorem not_mem_lowerFrom (hx : x ∈ colorless) {t : Text} (h : t.all isFoldedLetter = true)
    (b : Bool) : x ∉ lowerFrom b t := by
  induction t generalizing b with
  | nil => simp [lowerFrom]
  | cons c t ih =>
    rw [List.all_cons, Bool.and_eq_true] at h
    simp [lowerFrom, not_mem_lowerChar hx h.1, ih h.2]

theorem not_mem_rgb (hx : x ∈ colorless) (c : Rgb) : x ∉ c.text := by
  have hd : ∀ n < 256, colorless.all (!(twoHexDigits n).contains ·) = true := by decide +kernel
  have hm (n : Nat) : x ∉ twoHexDigits (min 255 n) := not_mem_of_colorless (hd _ (by omega)) hx
  simp [Rgb.text, hm, (isColorless hx).2.2.2]

theorem not_mem_hex (hx : x ∈ colorless) {t u : Text} (h : hex? t = some u) : x ∉ u := by
  unfold hex? at h
  split at h
  · rename_i r
    have hmark := (isColorless hx).2.2.2
    have hd : x ∉ (r.takeWhile Entity.isHexDigit).map Char.toLower := by
      intro hm
      obtain ⟨c, hc, he⟩ := List.mem_map.1 hm
      obtain rfl := eq_of_toLower_eq he (isColorless hx).1
      have hdigit := List.mem_takeWhile_imp hc
      rw [(isColorless hx).2.2.1] at hdigit
      cases hdigit
    simp only at h
    split at h
    · simp at h
    · split at h
      · obtain rfl := Option.some.inj h
        simpa [hmark] using hd
      · split at h
        · obtain rfl := Option.some.inj h
          simp only [List.mem_cons, not_or]
          exact ⟨hmark, fun hm => hd (List.mem_of_mem_take hm)⟩
        · simp at h
  · simp at h

theorem exists_of_first? {f : Text → Option α} {t : Text} {a : α} (h : first? f t = some a) :
    ∃ u, f u = some a := by
  induction t with
  | nil => simp [first?] at h
  | cons c r ih =>
    rcases Option.or_eq_some_iff.1 h with h | ⟨-, h⟩
    · exact ⟨_, h⟩
    · exact ih h

theorem not_mem_named (hx : x ∈ colorless) {t u : Text} (h : named? t = some u) : x ∉ u := by
  simp only [named?] at h
  split at h
  · rename_i hn
    simp only [Bool.and_eq_true] at hn
    obtain rfl := Option.some.inj h
    exact not_mem_lowerFrom hx hn.1.1 false
  · simp at h

theorem not_mem_colorOf (hx : x ∈ colorless) {v color : Text} {names : Bool}
    (h : colorOf? v names = some color) : x ∉ color := by
  rcases Option.or_eq_some_iff.1 h with h | ⟨-, h⟩
  · obtain ⟨c, -, rfl⟩ := Option.map_eq_some_iff.1 h
    exact not_mem_rgb hx c
  · rcases Option.or_eq_some_iff.1 h with h | ⟨-, h⟩
    · obtain ⟨u, hu⟩ := exists_of_first? h
      exact not_mem_hex hx hu
    · split at h
      · exact not_mem_named hx h
      · simp at h

theorem not_mem_resolve (hx : x ∈ colorless) {style color : Text}
    (h : resolve? style = .ok (some color)) : x ∉ color := by
  obtain ⟨s, -, h⟩ := bind_eq_ok.1 h
  rw [pure_eq_ok] at h
  obtain ⟨d, -, hd⟩ := List.mem_filterMap.1 (List.mem_of_getLast? h)
  unfold declaredColor? at hd
  split at hd
  · exact not_mem_colorOf hx hd
  · split at hd
    · exact not_mem_colorOf hx hd
    · simp at hd

end MailMarkup.Background

namespace MailMarkup.Run

open Text Markup

def Rewriter.Wants (k : Tag) : Rewriter → Prop
  | stripHeights => True
  | normalizeTables => k.HasPlainStyle
  | enhanceImages => k.HasPlainStyle
  | collapseImageCells => k.HasPlainStyle
  | cleanColspans => True
  | tagLinks => k.HasPlainLink
  | propagateBackgrounds => True

theorem Rewriter.suits_plain {r : Rewriter} {c : Config} (hc : '<' ∉ c.imageBase) {k : Tag}
    (hq : (Attributes.parse k.attrs).IsQuiet) (hk : r.Wants k) :
    r.Suits Attributes.IsQuietOne c k := by
  cases r with
  | stripHeights => trivial
  | normalizeTables =>
    exact ⟨Table.isQuiet_forcedAttributes c.layout, fun s hs =>
      isQuietOne_style (Table.isPlain_normalStyle hk hs)⟩
  | enhanceImages => exact Image.suitsImage hc hq hk
  | collapseImageCells =>
    exact fun s hs => isQuietOne_style ((hk s hs).mergedAhead (by decide))
  | cleanColspans => trivial
  | tagLinks =>
    intro href new hh hn
    obtain ⟨d, hd⟩ : ∃ d, Entity.decode (trim href) = .ok d := by
      cases hd : Entity.decode (trim href) with
      | ok d => exact ⟨d, rfl⟩
      | error f => simp [Link.newAddress, hd, Except.mapError, bind, Except.bind] at hn
    have hg : (Attributes.parse k.attrs).get? "href".toList = some href := by
      simp only [Link.taggableHref?] at hh
      split at hh
      · simp at hh
      · exact (Option.filter_eq_some_iff.1 hh).1
    exact .of_not_mem (by decide) (by decide) (Link.not_mem_newAddress hd (hk href d hg hd) hn)
  | propagateBackgrounds =>
    exact fun color hr => .of_not_mem (by decide) (by decide)
      (Background.not_mem_resolve (by decide) hr)

end MailMarkup.Run
