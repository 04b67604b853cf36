import MailMarkup.Proofs.Image.AltWords
import MailMarkup.Proofs.Image.Rebuilding
import MailMarkup.Proofs.Run.EarlyStages
import MailMarkup.Proofs.Spacing.OneLine
import MailMarkup.Proofs.Text.Excerpts

namespace MailMarkup.Image

open Text Markup Spacing

def alt? (k : Tag) : Option Text :=
  ((Attributes.parse k.attrs).get? "alt".toList).bind fun v => (Entity.decode v).toOption

def IsFront (s : Text) : Prop := s = [] ∨ ∃ u, '"' ∉ u ∧ s = " src=\"".toList ++ (u ++ ['"'])

def Shows (attrs alt : Text) : Prop :=
  ∃ s r, IsFront s ∧ attrs = s ++ (" alt=\"".toList ++ (escapeHtml alt ++ '"' :: r))

theorem parse_quoted {name v : Text} (hn : Attributes.isLegalName name = true) (hv : '"' ∉ v)
    (t : Text) : Attributes.parse (' ' :: (name ++ '=' :: '"' :: (v ++ '"' :: t))) =
      ⟨name, some v⟩ :: Attributes.parse t := by
  have hs : name ++ '=' :: '"' :: (v ++ '"' :: t) = (name ++ '=' :: '"' :: (v ++ ['"'])) ++ t := by
    simp
  have ha := Attributes.attribute?_quoted hn hv t
  have hb : Attributes.attribute? (' ' :: (name ++ '=' :: '"' :: (v ++ '"' :: t))) = none := rfl
  have hl : (name ++ '=' :: '"' :: (v ++ ['"'])).length - 1 = name.length + v.length + 2 := by
    simp only [List.length_append, List.length_cons, List.length_nil]
    omega
  rw [Attributes.parse, hits, scan_cons_none hb]
  rw [hs, ← hl] at ha
  rw [hs, scan_append (by simp) ha]
  rfl

theorem alt?_of_shows {k : Tag} {a : Text} (h : Shows k.attrs a) : alt? k = some a := by
  obtain ⟨s, r, hs, he⟩ := h
  have halt := @parse_quoted "alt".toList _ (by decide)
    (not_mem_escapeHtml (d := '"') (by decide) a) r
  have hget : (Attributes.parse k.attrs).get? "alt".toList = some (escapeHtml a) := by
    rcases hs with rfl | ⟨u, hu, rfl⟩
    · rw [he]
      exact congrArg (Attributes.get? · "alt".toList) halt
    · have hsrc := @parse_quoted "src".toList _ (by decide) hu
        (" alt=\"".toList ++ (escapeHtml a ++ '"' :: r))
      have hcut : k.attrs = ' ' :: ("src".toList ++ '=' :: '"' ::
          (u ++ '"' :: (" alt=\"".toList ++ (escapeHtml a ++ '"' :: r)))) := by
        rw [he]
        simp
      rw [hcut, hsrc]
      exact congrArg (fun as => Attributes.get? (⟨_, _⟩ :: as) "alt".toList) halt
  rw [alt?, hget, Option.bind_some, Entity.decode_escapeHtml]
  rfl

structure KeepsLines (R : Text → Text → Prop) : Prop extends IsSpacing R where
  line : ∀ {t u : Text}, IsOneLine t → R (escapeHtml t) u → u = escapeHtml t

theorem keepsLines_tidied : KeepsLines Tidied :=
  ⟨isSpacing_tidied, fun ht h => h.eq_of_isTidy
    (isTidy_of_isChain (any_isLineBreak_escapeHtml ht.unbroken) (isChain_escapeHtml ht.single))⟩

theorem keepsLines_relined : KeepsLines Relined :=
  ⟨isSpacing_relined, fun ht h => h.eq_of_not_any (any_isLineBreak_escapeHtml ht.unbroken)⟩

variable {C R : Text → Text → Prop}

theorem Shows.respaced (hR : KeepsLines R) {s t a : Text} (h : Shows s a) (hr : R s t) :
    ∃ b, Shows t b ∧ Respaced a b ∧ (IsOneLine a → b = a) := by
  obtain ⟨f, r, hf, rfl⟩ := h
  -- the text in its quotes, behind what stands in front of it
  have halt : ∀ u, R (" alt=\"".toList ++ (escapeHtml a ++ '"' :: r)) u →
      ∃ b r', u = " alt=\"".toList ++ (escapeHtml b ++ '"' :: r') ∧ Respaced a b ∧
        (IsOneLine a → b = a) := by
    intro u hu
    obtain ⟨x, u, rfl, h1, h2⟩ := hR.split (a := [' ']) hu (by decide)
    obtain rfl := hR.space h1
    obtain ⟨u, rfl, h3⟩ := hR.behind (p := "lt=\"".toList) h2 (forall_eq_false (by decide))
    obtain ⟨v, r', rfl, h4, -⟩ := hR.split h3 (by decide)
    obtain ⟨b, rfl, hb⟩ := exists_of_respaced_escapeHtml (hR.respaced h4)
    refine ⟨b, r', rfl, hb, fun ha => ?_⟩
    have he := congrArg Entity.decode (hR.line ha h4)
    rw [Entity.decode_escapeHtml, Entity.decode_escapeHtml] at he
    exact Except.ok.inj he
  rcases hf with rfl | ⟨u, hu, rfl⟩
  · obtain ⟨b, r', rfl, hb⟩ := halt _ hr
    exact ⟨b, ⟨[], r', .inl rfl, rfl⟩, hb⟩
  · have hcut : " src=\"".toList ++ (u ++ ['"']) ++ (" alt=\"".toList ++
      (escapeHtml a ++ '"' :: r)) =
        [' '] ++ 's' :: ("rc=\"".toList ++ (u ++ '"' :: (" alt=\"".toList ++
          (escapeHtml a ++ '"' :: r)))) := by
      simp
    rw [hcut] at hr
    obtain ⟨x, t, rfl, h1, h2⟩ := hR.split hr (by decide)
    obtain rfl := hR.space h1
    obtain ⟨t, rfl, h3⟩ := hR.behind h2 (forall_eq_false (by decide))
    obtain ⟨v, t, rfl, h4, h5⟩ := hR.split h3 (by decide)
    obtain ⟨b, r', rfl, hb⟩ := halt _ h5
    refine ⟨b, ⟨" src=\"".toList ++ (v ++ ['"']), r', .inr ⟨v, ?_, rfl⟩, by simp⟩, hb⟩
    rwa [← (hR.respaced h4).mem_iff (by decide)]

theorem Shows.of_isPrefix {s t a : Text} (h : Shows s a) (hp : s <+: t) : Shows t a := by
  obtain ⟨f, r, hf, rfl⟩ := h
  obtain ⟨x, rfl⟩ := hp
  exact ⟨f, r ++ x, hf, by simp⟩

theorem exists_attrs_append (closing : Bool) (name body : Text) :
    ∃ x, body = (Tag.ofBody closing name body).attrs ++ x ∧ '"' ∉ x := by
  simp only [Tag.ofBody]
  split
  · rename_i hs
    obtain ⟨u, hu⟩ := List.getLast?_eq_some_iff.1 (eq_of_beq hs)
    have hsplit := congrArg List.reverse
      (List.takeWhile_append_dropWhile (p := isBlank) (l := body.reverse))
    rw [List.reverse_append, List.reverse_reverse] at hsplit
    have htrim : trimEnd body = (body.reverse.dropWhile isBlank).reverse := rfl
    refine ⟨'/' :: (body.reverse.takeWhile isBlank).reverse, ?_, ?_⟩
    · rw [← htrim, hu] at hsplit
      rw [hu, List.dropLast_concat]
      simpa using hsplit.symm
    · simp only [List.mem_cons, List.mem_reverse, not_or]
      exact ⟨by decide, fun hm => absurd (List.mem_takeWhile_imp hm) (by decide)⟩
  · exact ⟨[], by simp, by simp⟩

theorem shows_attrs_iff {closing : Bool} {name body a : Text} :
    Shows (Tag.ofBody closing name body).attrs a ↔ Shows body a := by
  refine ⟨fun h => h.of_isPrefix (ofBody_attrs_isPrefix closing name body), fun h => ?_⟩
  obtain ⟨f, r, hf, he⟩ := h
  obtain ⟨x, hx, hq⟩ := exists_attrs_append closing name body
  rw [hx, ← List.append_assoc, ← List.append_assoc] at he
  rcases List.append_eq_append_iff.1 he with ⟨y, -, rfl⟩ | ⟨y, hy, hr⟩
  · exact absurd (by simp) hq
  · cases y with
    | nil =>
      rw [List.nil_append] at hr
      exact absurd (hr ▸ List.mem_cons_self) hq
    | cons d y =>
      obtain ⟨rfl, -⟩ := List.cons.inj hr
      exact ⟨f, y, hf, by rw [hy]; simp⟩

def openingsOf (ns : List Node) : List Tag := (chosen [name] ns).filter (!·.closing)

theorem openings_sources {ns : List Node} (h : IsClean ns) :
    openings (sources ns) = openingsOf ns := by
  rw [openings, map_toTag_tokens h]
  rfl

theorem openingsOf_cons_tag (closing : Bool) (n body : Text) (ns : List Node) :
    openingsOf (.tag closing n body :: ns) =
      if (Tag.ofBody closing n body).isAmong [name] && !closing then
        .ofBody closing n body :: openingsOf ns else openingsOf ns := by
  by_cases h : (Tag.ofBody closing n body).isAmong [name] = true
  · rw [openingsOf, chosen_cons_among rfl h, List.filter_cons, h]
    rfl
  · rw [openingsOf, chosen_cons_not_among (by rintro t ⟨⟩; simpa using h)]
    simp [h, openingsOf]

theorem openingsOf_cons_of_none {n : Node} (h : n.tag? = none) (ns : List Node) :
    openingsOf (n :: ns) = openingsOf ns := by
  rw [openingsOf, chosen_cons_not_among (by simp [h])]
  rfl

theorem openingsOf_append (ns ms : List Node) :
    openingsOf (ns ++ ms) = openingsOf ns ++ openingsOf ms := by
  rw [openingsOf, chosen, tagsOf, List.filterMap_append, List.filter_append, List.filter_append]
  rfl

theorem openingsOf_skeleton (ns : List Node) : openingsOf (skeleton [] ns) = openingsOf ns := by
  rw [openingsOf, chosen_skeleton (by decide) (by simp) (by simp), openingsOf]

def RespelledTag (R : Text → Text → Prop) (k l : Tag) : Prop :=
  ∃ n body body', k = .ofBody false n body ∧ l = .ofBody false n body' ∧ R body body'

theorem forall₂_openingsOf {ns ms : List Node} (h : List.Forall₂ (Respelled C R) ns ms) :
    List.Forall₂ (RespelledTag R) (openingsOf ns) (openingsOf ms) := by
  induction h with
  | nil => exact .nil
  | cons hn _ ih =>
    cases hn with
    | declaration m hi => rwa [openingsOf_cons_of_none rfl, openingsOf_cons_of_none rfl]
    | comment hi => rwa [openingsOf_cons_of_none rfl, openingsOf_cons_of_none rfl]
    | @tag closing n body body' hb =>
      rw [openingsOf_cons_tag, openingsOf_cons_tag,
        show (Tag.ofBody closing n body').isAmong [name] =
          (Tag.ofBody closing n body).isAmong [name] from rfl]
      split
      · rename_i ho
        obtain rfl : closing = false := by simpa using (Bool.and_eq_true_iff.1 ho).2
        exact .cons ⟨n, body, body', rfl, rfl, hb⟩ ih
      · exact ih

theorem forall₂_respelledTag_self (hR : IsSpacing R) (ns : List Node) :
    List.Forall₂ (RespelledTag R) (openingsOf ns) (openingsOf ns) := by
  have hs : List.Forall₂ (Respelled R R) (skeleton [] ns) (skeleton [] ns) :=
    List.forall₂_same.2 fun n hn => by
      cases n with
      | declaration m i => exact .declaration m (hR.refl i)
      | comment i => exact .comment (hR.refl i)
      | tag closing name body => exact .tag closing name (hR.refl body)
      | _ => simp [skeleton, Node.isFirm] at hn
  have h := forall₂_openingsOf hs
  rwa [openingsOf_skeleton] at h

structure AreDescribed (q : Prop) (ks : List Tag) : Prop where
  shown : ∀ k ∈ ks, ∃ a, a ≠ [] ∧ Shows k.attrs a ∧ (q → IsOneLine a)
  apart : q → (ks.map fun k => (alt? k).map lower).Nodup

variable {q : Prop}

theorem AreDescribed.subperm {ks ls : List Tag} (h : AreDescribed q ks) (hs : List.Subperm ls ks) :
    AreDescribed q ls where
  shown k hk := h.shown k (hs.subset hk)
  apart hq := by
    obtain ⟨ms, hp, hs⟩ := hs
    exact (hp.map _).nodup_iff.1 ((h.apart hq).sublist (hs.map _))

theorem AreDescribed.respelled (hR : KeepsLines R) {ks ls : List Tag} (h : AreDescribed q ks)
    (hr : List.Forall₂ (RespelledTag R) ks ls) : AreDescribed q ls := by
  have hone : ∀ k l, RespelledTag R k l → ∀ a, Shows k.attrs a →
      ∃ b, Shows l.attrs b ∧ Respaced a b ∧ (IsOneLine a → b = a) := by
    rintro k l ⟨n, body, body', rfl, rfl, hb⟩ a ha
    obtain ⟨b, hs, hab⟩ := (shows_attrs_iff.1 ha).respaced hR hb
    exact ⟨b, shows_attrs_iff.2 hs, hab⟩
  constructor
  · intro l hl
    obtain ⟨k, hk, hkl⟩ := Run.exists_of_forall₂ hr hl
    obtain ⟨a, hne, ha, hq⟩ := h.shown k hk
    obtain ⟨b, hb, hab, heq⟩ := hone k l hkl a ha
    refine ⟨b, fun hn => hne (hab.eq_nil_iff.2 hn), hb, fun hq' => ?_⟩
    rw [heq (hq hq')]
    exact hq hq'
  · intro hq
    have hmap : ks.map (fun k => (alt? k).map lower) = ls.map fun k => (alt? k).map lower := by
      have hs := h.shown
      clear h
      induction hr with
      | nil => rfl
      | cons hkl _ ih =>
        obtain ⟨a, -, ha, hl⟩ := hs _ List.mem_cons_self
        obtain ⟨b, hb, -, heq⟩ := hone _ _ hkl a ha
        rw [List.map_cons, List.map_cons, ih fun k hk => hs k (List.mem_cons_of_mem _ hk),
          alt?_of_shows ha, alt?_of_shows hb, heq (hl hq)]
    exact hmap ▸ h.apart hq

theorem IsPhrase.isWords {t : Text} (h : IsPhrase t) : IsWords t := by
  obtain ⟨ws, -, hw, rfl⟩ := h
  refine ⟨ws, fun w hm => ⟨(hw w hm).1, ?_⟩, rfl⟩
  exact List.any_eq_false.2 fun c hc => by simp [((hw w hm).2 c hc).1]

theorem any_isBlank_of_mem_words {t w : Text} (h : w ∈ words t) : w.any isBlank = false :=
  List.any_eq_false.2 fun c hc => by simp [(not_sep_of_mem_fields h).2 c hc]

theorem isWords_excerpt {maxWords maxChars : Int} (hw : 1 ≤ maxWords) (hc : 1 ≤ maxChars)
    (t : Text) : IsWords (excerpt t maxWords maxChars) := by
  rcases exists_long_or t maxChars with ⟨w, hm, hl⟩ | hfits
  · rw [excerpt_eq_take hw hc hm hl]
    refine isWords_of_not_any (List.any_eq_false.2 fun c hc' => ?_)
    exact List.any_eq_false.1 (any_isBlank_of_mem_words (List.mem_of_head? hm)) c
      (List.mem_of_mem_take hc')
  · obtain ⟨k, -, he, -⟩ := excerpt_eq_firstWords hw hc hfits
    refine ⟨_, fun w hm => ?_, he⟩
    have hm := List.mem_of_mem_take hm
    exact ⟨ne_nil_of_mem_words hm, any_isBlank_of_mem_words hm⟩

theorem isWords_ofInt (n : Int) : IsWords (ofInt n) := by
  refine isWords_of_not_any (List.any_eq_false.2 fun c hc => ?_)
  rcases mem_ofInt hc with rfl | hd
  · decide
  · have hrange := isDigit_iff.1 hd
    simp only [isBlank, inRanges, blankRanges, List.any_cons, List.any_nil, Bool.or_eq_true,
      Bool.and_eq_true, decide_eq_true_eq, Bool.or_false]
    omega

theorem isWords_ofNat (n : Nat) : IsWords (ofNat n) := by
  have h := isWords_ofInt n
  rwa [ofInt, if_neg (Int.not_lt.2 (Int.natCast_nonneg n)), Int.natAbs_natCast] at h

theorem ofInt_ne_nil (n : Int) : ofInt n ≠ [] := by
  rw [ofInt]
  split
  · exact List.cons_ne_nil _ _
  · exact Nat.toDigits_ne_nil

theorem isWords_madeUp (c : Config) (src : Text) (index : Nat) :
    IsWords (madeUp c src index) := by
  have hn := isWords_ofNat (index + 1)
  rw [madeUp]
  generalize (if c.balance.isEmpty then c.preheader else c.balance) = hidden
  split_ifs with hname hwords
  · exact ((altFromFileName_eq_nil_or_isPhrase src).resolve_left (by simpa using hname)).isWords
  · exact (isWords_excerpt (by decide) (by decide) _).append hn (by simpa using hwords)
      Nat.toDigits_ne_nil
  · have he : IsWords "Email content image".toList :=
      ⟨["Email".toList, "content".toList, "image".toList], by decide, by decide⟩
    have hs : "Email content image ".toList = "Email content image".toList ++ [' '] := by decide
    rw [hs, List.append_assoc]
    exact he.append hn (by decide) Nat.toDigits_ne_nil

def HasOneLine (k : Tag) : Prop :=
  ∀ t, Entity.decode (((Attributes.parse k.attrs).get? "alt".toList).getD []) = .ok t →
    IsOneLine (trim t)

instance (k : Tag) : Decidable (HasOneLine k) :=
  match h : Entity.decode (((Attributes.parse k.attrs).get? "alt".toList).getD []) with
  | .ok t => decidable_of_iff (IsOneLine (trim t))
      ⟨fun ht _ he => Except.ok.inj (h.symm.trans he) ▸ ht, fun hk => hk t h⟩
  | .error _ => .isTrue fun _ he => nomatch h.symm.trans he

theorem isOneLine_of_propose {c : Config} {k : Tag} {src : Text} {index : Nat} {p : Proposal}
    (hk : HasOneLine k)
    (h : propose c ((Attributes.parse k.attrs).get? "alt".toList) src index = .ok p) :
    IsOneLine p.alt := by
  obtain ⟨t, ht, h⟩ := bind_eq_ok.1 h
  rw [← pure_eq_ok.1 h]
  split
  · exact (isWords_madeUp c src index).isOneLine
  · exact hk t ht

theorem Registry.Answers.isOneLine {r : Registry} {q : Request} {a : Text} (h : r.Answers q a)
    (hne : q.alt ≠ []) (hq : IsOneLine q.alt) : IsOneLine a := by
  cases h with
  | itself => exact hq
  | @numbered k _ _ =>
    have hk := (isWords_ofInt k).isOneLine
    rw [Registry.numbered, Request.joint]
    split
    · simpa using hq.append hk hne (ofInt_ne_nil k)
    · have hv : IsOneLine "variant".toList := by decide
      have := (hq.append hv hne (by decide)).append hk (by simp) (ofInt_ne_nil k)
      simpa using this

theorem render_cons_value (n v : Text) (as : Attributes) :
    Attributes.render (⟨n, some v⟩ :: as) =
      ' ' :: (n ++ '=' :: '"' :: (escapeQuotes v ++ '"' :: as.render)) := by
  simp [Attributes.render, Attributes.renderOne]

theorem shows_render {c : Config} {as bs : Attributes} {a : Text} (h : rebuilt c as a = .ok bs) :
    Shows bs.render a := by
  obtain ⟨style, -, h⟩ := bind_eq_ok.1 h
  have hq : escapeQuotes (escapeHtml a) = escapeHtml a :=
    escapeQuotes_eq_self (not_mem_escapeHtml (by decide) a)
  have halt (bs : Attributes) : Attributes.render (⟨"alt".toList, some (escapeHtml a)⟩ :: bs) =
      " alt=\"".toList ++ (escapeHtml a ++ '"' :: bs.render) := by
    rw [render_cons_value, hq]
    rfl
  rw [← pure_eq_ok.1 h]
  split
  · have hu := quote_not_mem_escapeQuotes (newSource c (source as))
    rw [List.append_assoc, List.singleton_append, render_cons_value, List.cons_append, halt]
    exact ⟨" src=\"".toList ++ (escapeQuotes (newSource c (source as)) ++ ['"']), _,
      .inr ⟨_, hu, rfl⟩, by simp; rfl⟩
  · exact ⟨[], _, .inl rfl, halt _⟩

theorem shows_attrs_of_writtenTag {c : Config} {k : Tag} {as bs : Attributes} {a n body : Text}
    (has : as.IsLegal) (h : rebuilt c as a = .ok bs) (ht : IsTag n body)
    (he : writtenTag k bs = tagText false n body) : Shows (Tag.ofBody false n body).attrs a := by
  have hl := isLegal_rebuilt has h
  have hname : isName name = true := by decide
  rw [writtenTag] at he
  split at he
  · rw [closedTag_eq_tagText] at he
    rw [← ofBody_eq_of_tagText_eq (isTag_render_slash hname hl) ht he, shows_attrs_iff]
    exact (shows_render h).of_isPrefix (List.prefix_append _ _)
  · rw [openTag_eq_tagText] at he
    rw [← ofBody_eq_of_tagText_eq (isTag_render hname hl) ht he, shows_attrs_iff]
    exact shows_render h

theorem exists_claimed {c : Config} {ns ms : List Node} {es : List (Option Text)}
    (hr : Rewrites [name] ns es ms) {index : Nat} {used : Registry}
    (he : editsFrom c index used (chosen [name] ns) = .ok es) :
    ∃ qs, List.Forall₂ (fun (k : Tag) a => Shows k.attrs a) (openingsOf ms)
        (used.claimAll qs).1 ∧
      ∀ q ∈ qs, ∃ k ∈ openingsOf ns, ∃ i p,
        propose c ((Attributes.parse k.attrs).get? "alt".toList) (source (.parse k.attrs)) i =
          .ok p ∧ q.alt = p.alt := by
  induction hr generalizing index used with
  | nil => exact ⟨[], .nil, by simp⟩
  | @pass n ns ms es h hr ih =>
    have hskip (ns : List Node) : openingsOf (n :: ns) = openingsOf ns := by
      rw [openingsOf, chosen_cons_not_among h, openingsOf]
    rw [chosen_cons_not_among h] at he
    rw [hskip, hskip]
    exact ih he
  | @keep n t ns ms es hn ht hr ih =>
    rw [chosen_cons_among hn ht, editsFrom] at he
    split at he
    · rename_i hclosing
      have hskip (ns : List Node) : openingsOf (n :: ns) = openingsOf ns := by
        rw [openingsOf, chosen_cons_among hn ht, List.filter_cons_of_neg (by simp [hclosing]),
          openingsOf]
      obtain ⟨es', he', he⟩ := bind_eq_ok.1 he
      obtain ⟨-, rfl⟩ := List.cons.inj (pure_eq_ok.1 he)
      rw [hskip, hskip]
      exact ih he'
    · obtain ⟨p, -, he⟩ := bind_eq_ok.1 he
      obtain ⟨bs, -, he⟩ := bind_eq_ok.1 he
      obtain ⟨es', -, he⟩ := bind_eq_ok.1 he
      cases pure_eq_ok.1 he
  | @renew n body n' body' ns ms es ht same valid hr ih =>
    rw [chosen_cons_among rfl ht, editsFrom, if_neg (by simp [Tag.ofBody])] at he
    obtain ⟨p, hp, he⟩ := bind_eq_ok.1 he
    obtain ⟨bs, hb, he⟩ := bind_eq_ok.1 he
    obtain ⟨es', he', he⟩ := bind_eq_ok.1 he
    obtain ⟨hw, rfl⟩ := List.cons.inj (pure_eq_ok.1 he)
    obtain ⟨qs, hs, hqs⟩ := ih he'
    have ht' : (Tag.ofBody false n' body').isAmong [name] = true := by
      rwa [Tag.isAmong, show (Tag.ofBody false n' body').name = (Tag.ofBody false n body).name
        from same]
    refine ⟨⟨p.alt, p.written, index⟩ :: qs, ?_, ?_⟩
    · rw [openingsOf_cons_tag, ht', Registry.claimAll_cons]
      exact .cons (shows_attrs_of_writtenTag (Attributes.isLegal_parse _) hb
        (isValid_tag.1 valid).1 (Option.some.inj hw)) hs
    · rw [openingsOf_cons_tag, ht]
      intro q hq
      rcases List.mem_cons.1 hq with rfl | hq
      · exact ⟨_, List.mem_cons_self, index, p, hp, rfl⟩
      · obtain ⟨k, hk, h⟩ := hqs q hq
        exact ⟨k, List.mem_cons_of_mem _ hk, h⟩

theorem forall_of_claimAll {P : Text → Prop} {r : Registry} {qs : List Request}
    (h : ∀ q ∈ qs, ∀ (r : Registry) a, r.Answers q a → P a) : ∀ a ∈ (r.claimAll qs).1, P a := by
  induction qs generalizing r with
  | nil => simp [Registry.claimAll]
  | cons q qs ih =>
    rw [Registry.claimAll_cons, List.forall_mem_cons]
    exact ⟨h q List.mem_cons_self r _ (r.answers_choose q),
      ih fun q hq => h q (List.mem_cons_of_mem _ hq)⟩

theorem map_alt?_of_shows {ks : List Tag} {as : List Text}
    (h : List.Forall₂ (fun (k : Tag) a => Shows k.attrs a) ks as) : ks.map alt? = as.map some := by
  induction h with
  | nil => rfl
  | cons hk _ ih => rw [List.map_cons, List.map_cons, alt?_of_shows hk, ih]

theorem areDescribed_of_edits {c : Config} {ns ms : List Node} {es : List (Option Text)}
    (hc : IsClean ns) (he : edits c (sources ns) = .ok es) (hr : Rewrites [name] ns es ms) :
    AreDescribed (∀ k ∈ openingsOf ns, HasOneLine k) (openingsOf ms) := by
  rw [edits, map_toTag_tokens hc] at he
  obtain ⟨qs, hs, hqs⟩ := exists_claimed hr he
  have hne : ∀ a ∈ (Registry.empty.claimAll qs).1, a ≠ [] := by
    refine forall_of_claimAll fun q hq r a ha => ?_
    obtain ⟨k, -, i, p, hp, halt⟩ := hqs q hq
    exact ha.ne_nil (halt ▸ alt_ne_nil_of_propose hp)
  have hone : (∀ k ∈ openingsOf ns, HasOneLine k) →
      ∀ a ∈ (Registry.empty.claimAll qs).1, IsOneLine a := by
    intro hk
    refine forall_of_claimAll fun q hq r a ha => ?_
    obtain ⟨k, hm, i, p, hp, halt⟩ := hqs q hq
    exact ha.isOneLine (halt ▸ alt_ne_nil_of_propose hp)
      (halt ▸ isOneLine_of_propose (hk k hm) hp)
  constructor
  · intro k hk
    obtain ⟨a, ha, hsa⟩ := Run.exists_of_forall₂ hs.flip hk
    exact ⟨a, hne a ha, hsa, fun hq => hone hq a ha⟩
  · intro hq
    have hmap : (openingsOf ms).map (fun k => (alt? k).map lower) =
        ((Registry.empty.claimAll qs).1.map lower).map some := by
      have := congrArg (List.map (Option.map lower)) (map_alt?_of_shows hs)
      rw [List.map_map, List.map_map] at this
      rw [List.map_map]
      exact this
    rw [hmap]
    exact (Registry.nodup_map_lower_claimAll qs).map (Option.some_injective _)

end MailMarkup.Image
