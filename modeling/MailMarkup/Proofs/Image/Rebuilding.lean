import MailMarkup.Proofs.Image.AltClaims
import MailMarkup.Proofs.Markup.AttributeChanges
import MailMarkup.Proofs.Run.TagReplacement

namespace MailMarkup.Image

open Text Markup

variable {c : Config} {as bs : Attributes} {alt : Text}

theorem madeUp_ne_nil (c : Config) (src : Text) (index : Nat) : madeUp c src index ≠ [] := by
  rw [madeUp]
  generalize excerpt _ 6 40 = words
  split_ifs with hname hwords
  · simpa using hname
  · exact List.append_ne_nil_of_right_ne_nil words (List.cons_ne_nil ' ' _)
  · exact List.append_ne_nil_of_left_ne_nil (List.cons_ne_nil 'E' _) _

theorem alt_ne_nil_of_propose {existing : Option Text} {src : Text} {index : Nat} {p : Proposal}
    (h : propose c existing src index = .ok p) : p.alt ≠ [] := by
  obtain ⟨t, -, h⟩ := bind_eq_ok.1 h
  rw [← pure_eq_ok.1 h]
  split
  · exact madeUp_ne_nil c src index
  · rename_i hwritten
    simpa using hwritten

theorem Registry.Answers.ne_nil {r : Registry} {q : Request} {a : Text} (h : r.Answers q a)
    (hq : q.alt ≠ []) : a ≠ [] := by
  cases h with
  | itself => exact hq
  | numbered => simp [Registry.numbered, hq]

def readAs (c : Config) (as : Attributes) (alt style : Text) : Attributes :=
  (if as.has "src".toList then
      [⟨"src".toList, some (escapeQuotes (newSource c (source as)))⟩] else []) ++
    [⟨"alt".toList, some (escapeHtml alt)⟩, ⟨"style".toList, some (escapeQuotes style)⟩] ++
    (as.filter (!rebuiltKeys.contains ·.key)).map Attributes.written

theorem map_written_rebuilt (h : rebuilt c as alt = .ok bs) : ∃ style,
    mergeStyle as.styleText (.style baseStyle) = .ok style ∧
      bs.map Attributes.written = readAs c as alt style := by
  obtain ⟨style, hs, h⟩ := bind_eq_ok.1 h
  refine ⟨style, hs, ?_⟩
  have halt : escapeQuotes (escapeHtml alt) = escapeHtml alt :=
    escapeQuotes_eq_self (not_mem_escapeHtml (by decide) alt)
  rw [← pure_eq_ok.1 h, readAs, List.map_append, List.map_append]
  congr 2
  · split <;> rfl
  · simp [Attributes.written, halt]

theorem isLegal_rebuilt (has : as.IsLegal) (h : rebuilt c as alt = .ok bs) : bs.IsLegal :=
  Run.all_rebuilt has rfl rfl (fun _ _ => rfl) h

theorem tokens_writtenTag (old : Tag) (h : as.IsLegal) :
    ∃ new : Token, tokens [] (writtenTag old as) = [new] ∧ new.start = 0 ∧
      new.stop = (writtenTag old as).length ∧ new.name = name ∧ new.closing = false ∧
      new.selfClosing = old.selfClosing ∧
      Attributes.parse new.attrs = as.map Attributes.written := by
  have hname : isName name = true := by decide
  rw [writtenTag]
  split
  · rename_i hs
    rw [closedTag_eq_tagText, tokens_tagText (isTag_render_slash hname h)]
    refine ⟨_, rfl, rfl, rfl, rfl, rfl, ?_, parse_attrs_render h false (.inr rfl)⟩
    rw [ofBody_render_slash, hs]
  · rename_i hs
    rw [openTag_eq_tagText, tokens_tagText (isTag_render hname h)]
    refine ⟨_, rfl, rfl, rfl, rfl, rfl, ?_, parse_attrs_render h false (.inl rfl)⟩
    rw [ofBody_render h, eq_false_of_ne_true hs]

theorem render_prefix_of_mergeStyle {existing style : Text}
    (h : mergeStyle existing (.style baseStyle) = .ok style) :
    baseStyle.render <+: escapeQuotes style := by
  have hplain : escapeQuotes baseStyle.render = baseStyle.render :=
    escapeQuotes_eq_self (by decide)
  obtain ⟨s, -, h⟩ := bind_eq_ok.1 h
  obtain rfl := pure_eq_ok.1 h
  have happ (b r : Style) : Style.render (b ++ r) = b.render ++ r.render := List.flatMap_append
  rw [Style.mergedAhead, happ, escapeQuotes_append, hplain]
  exact List.prefix_append _ _

example : baseStyle.render =
    "display:block;line-height:0;font-size:0;height:auto;max-width:100%;border:0;".toList ++
      "outline:none;text-decoration:none;-ms-interpolation-mode:bicubic;".toList := by
  decide +kernel

section

variable (c as alt) (style : Text)

theorem get?_alt_readAs :
    (readAs c as alt style).get? "alt".toList = some (escapeHtml alt) := by
  rw [readAs]
  split <;> rfl

theorem styleText_readAs : (readAs c as alt style).styleText = escapeQuotes style := by
  rw [readAs]
  split <;> rfl

theorem countP_readAs {key : Text} (hkey : key ∈ rebuiltKeys) :
    (readAs c as alt style).countP (·.key == key) =
      if key = "src".toList ∧ as.has "src".toList = false then 0 else 1 := by
  have hothers : (as.filter (!rebuiltKeys.contains ·.key)).countP (·.key == key) = 0 :=
    Attributes.countP_key_filter (p := fun k => !rebuiltKeys.contains k) (by simp [hkey]) as
  rw [readAs, List.countP_append, List.countP_append, Attributes.countP_key_map_written, hothers]
  simp only [rebuiltKeys, List.mem_cons, List.not_mem_nil, or_false] at hkey
  cases as.has "src".toList <;> rcases hkey with rfl | rfl | rfl <;> rfl

end

structure Rebuilding where
  old : Token
  request : Request
  alt : Text
  text : Text
  new : Token
  deriving DecidableEq

namespace Rebuilding

def before (x : Rebuilding) : Attributes := .parse x.old.attrs

def after (x : Rebuilding) : Attributes := .parse x.new.attrs

structure IsFaithful (c : Config) (x : Rebuilding) (place : Nat) : Prop where
  proposed : ∃ p, propose c (x.before.get? "alt".toList) (source x.before) place = .ok p ∧
    x.request = ⟨p.alt, p.written, place⟩
  alone : tokens [] x.text = [x.new]
  whole : x.new.start = 0 ∧ x.new.stop = x.text.length
  opens : x.new.name = name ∧ x.new.closing = false
  selfClosing : x.new.selfClosing = x.old.selfClosing
  attributes : ∃ style, mergeStyle x.before.styleText (.style baseStyle) = .ok style ∧
    x.after = readAs c x.before x.alt style
  once : ∀ key ∈ rebuiltKeys, x.after.countP (·.key == key) =
    if key = "src".toList ∧ x.before.has "src".toList = false then 0 else 1
  decoded : ∃ v, x.after.get? "alt".toList = some v ∧ Entity.decode v = .ok x.alt
  alt_ne_nil : x.alt ≠ []
  styled : baseStyle.render <+: x.after.styleText

end Rebuilding

theorem exists_rebuilding {old : Token} {used : Registry} {index : Nat} {p : Proposal}
    (hp : propose c ((Attributes.parse old.attrs).get? "alt".toList)
      (source (Attributes.parse old.attrs)) index = .ok p)
    (hb : rebuilt c (.parse old.attrs) (used.choose p.alt p.written index) = .ok bs) :
    ∃ x : Rebuilding, x.old = old ∧ x.request = ⟨p.alt, p.written, index⟩ ∧
      x.alt = used.choose p.alt p.written index ∧ x.text = writtenTag old.toTag bs ∧
      x.IsFaithful c index := by
  obtain ⟨new, halone, hstart, hstop, hname, hclosing, hself, hattrs⟩ :=
    tokens_writtenTag old.toTag (isLegal_rebuilt (Attributes.isLegal_parse old.attrs) hb)
  obtain ⟨style, hstyle, hread⟩ := map_written_rebuilt hb
  rw [hread] at hattrs
  have hanswer := used.answers_choose ⟨p.alt, p.written, index⟩
  refine ⟨⟨old, ⟨p.alt, p.written, index⟩, _, _, new⟩, rfl, rfl, rfl, rfl, ?_⟩
  exact {
    proposed := ⟨p, hp, rfl⟩
    alone := halone
    whole := ⟨hstart, hstop⟩
    opens := ⟨hname, hclosing⟩
    selfClosing := hself
    attributes := ⟨style, hstyle, hattrs⟩
    once := fun key hkey => by
      rw [Rebuilding.after, hattrs]
      exact countP_readAs c _ _ style hkey
    decoded := ⟨_, by rw [Rebuilding.after, hattrs]; exact get?_alt_readAs c _ _ style,
      Entity.decode_escapeHtml _⟩
    alt_ne_nil := hanswer.ne_nil (alt_ne_nil_of_propose hp)
    styled := by
      rw [Rebuilding.after, hattrs, styleText_readAs]
      exact render_prefix_of_mergeStyle hstyle }

theorem exists_rebuildings {index : Nat} {used : Registry} {ks : List Token}
    {es : List (Option Text)} (h : editsFrom c index used (ks.map (·.toTag)) = .ok es) :
    ∃ xs : List Rebuilding, xs.map (·.old) = ks.filter (!·.closing) ∧
      replacements ks es = xs.map (fun x => (x.old, x.text)) ∧
      xs.map (·.alt) = (used.claimAll (xs.map (·.request))).1 ∧
      ∀ x ∈ xs.zipIdx index, x.1.IsFaithful c x.2 := by
  induction ks generalizing index used es with
  | nil =>
    cases h
    exact ⟨[], rfl, rfl, rfl, by simp⟩
  | cons k ks ih =>
    rw [List.map_cons, editsFrom] at h
    split at h
    · rename_i hclosing
      obtain ⟨es', he, h⟩ := bind_eq_ok.1 h
      obtain rfl := pure_eq_ok.1 h
      obtain ⟨xs, hold, hrs, hrest⟩ := ih he
      exact ⟨xs, by rw [hold, List.filter_cons_of_neg (by simpa using hclosing)],
        by rw [replacements_none, hrs], hrest⟩
    · rename_i hclosing
      obtain ⟨p, hp, h⟩ := bind_eq_ok.1 h
      obtain ⟨bs, hb, h⟩ := bind_eq_ok.1 h
      obtain ⟨es', he, h⟩ := bind_eq_ok.1 h
      obtain rfl := pure_eq_ok.1 h
      obtain ⟨x, rfl, hrequest, halt, htext, hx⟩ := exists_rebuilding hp hb
      obtain ⟨xs, hold, hrs, halts, hxs⟩ := ih he
      refine ⟨x :: xs, ?_, ?_, ?_, ?_⟩
      · rw [List.filter_cons_of_pos (by simpa using hclosing), List.map_cons, hold]
      · rw [replacements_some, hrs, List.map_cons, htext]
      · rw [List.map_cons, List.map_cons, Registry.claimAll_cons, hrequest, halt, halts]
        rfl
      · rw [List.zipIdx_cons]
        exact List.forall_mem_cons.2 ⟨hx, hxs⟩

/-- Each opening tag of an image is written anew at its place, with a text that the registry gave
to what its author or its file proposed; nothing else of the document changes. -/
theorem images_rebuilt {html out : Text} (h : enhance c html = .ok out) :
    ∃ xs : List Rebuilding, xs.map (·.old) = (tokens [name] html).filter (!·.closing) ∧
      out = substituted html 0 (xs.map fun x => (x.old, x.text)) ∧
      xs.map (·.alt) = (Registry.empty.claimAll (xs.map (·.request))).1 ∧
      ∀ x ∈ xs.zipIdx, x.1.IsFaithful c x.2 := by
  obtain ⟨es, he, h⟩ := bind_eq_ok.1 h
  obtain ⟨xs, hold, hrs, hxs⟩ := exists_rebuildings he
  refine ⟨xs, hold, ?_, hxs⟩
  rw [← pure_eq_ok.1 h, editTags_eq_substituted, hrs]

def hostedConfig : Config := { Run.plainConfig with imageBase := "https://x.com/".toList }

def scatteredImages : Text :=
  "<!--<img>--><IMG Alt=\"A &amp; B\" ALT=x SRC=' a.png ' Width=3 STYLE=color:red SRC=b/>".toList ++
    "<p></img><img alt=\"a & b\" data-x='\"'>".toList

def rebuiltImages : Text :=
  "<!--<img>--><img src=\"https://x.com/a.png\" alt=\"A &amp; B\" style=\"".toList ++
    baseStyle.render ++ "color:red;\" Width=\"3\" />".toList ++
    "<p></img><img alt=\"a &amp; b 2\" style=\"".toList ++ baseStyle.render ++
    "\" data-x=\"&quot;\">".toList

theorem images_rebuilt_of_scattered :
    enhance hostedConfig scatteredImages = .ok rebuiltImages ∧
      ∃ xs : List Rebuilding,
        xs.map (·.old) = (tokens [name] scatteredImages).filter (!·.closing) ∧
        rebuiltImages = substituted scatteredImages 0 (xs.map fun x => (x.old, x.text)) ∧
        xs.map (·.alt) = (Registry.empty.claimAll (xs.map (·.request))).1 ∧
        ∀ x ∈ xs.zipIdx, x.1.IsFaithful hostedConfig x.2 := by
  have h : enhance hostedConfig scatteredImages = .ok rebuiltImages := by decide +kernel
  exact ⟨h, images_rebuilt h⟩

end MailMarkup.Image
