import Mathlib.Data.List.DropRight
import MailMarkup.Proofs.Document.HeadLines
import MailMarkup.Proofs.Markup.AttributeReading

namespace MailMarkup.Text

theorem trim_trim (t : Text) : trim (trim t) = trim t := by
  have hp : trim t <+: trimStart t := List.rdropWhile_prefix isBlank (trimStart t)
  have hs : trimStart (trim t) = trim t := by
    cases ht : trim t with
    | nil => rfl
    | cons c r =>
      obtain ⟨e, he⟩ := ht ▸ hp
      have hc : (trimStart t).head? = some c := by rw [← he]; rfl
      have hb : isBlank c = false := by
        have := List.head?_dropWhile_not isBlank t
        rw [trimStart] at hc
        simpa [hc] using this
      rw [trimStart, List.dropWhile_cons_of_neg (by simp [hb])]
  rw [trim, hs, trim, trimEnd, dropEndWhile, trimEnd, dropEndWhile, List.reverse_reverse,
    List.dropWhile_idempotent]

end MailMarkup.Text

namespace MailMarkup.Markup

open Text

def Nesting.IsSound (s : Nesting) : Prop := s.quote.all isQuote = true

theorem Nesting.IsSound.next {s : Nesting} (h : s.IsSound) (c : Char) : (s.next c).IsSound := by
  unfold Nesting.next
  split
  · split
    · rfl
    · exact h
  · rename_i hq
    split
    · rename_i hc
      exact hc
    · have hnone : ∀ n, IsSound { s with depth := n } := fun n => by simp [IsSound, hq]
      split
      · exact hnone _
      · split
        · exact hnone _
        · exact h

theorem Nesting.next_blank {s : Nesting} (h : s.IsSound) {c : Char} (hc : isBlank c = true) :
    s.next c = s := by
  have hne : ∀ d, isBlank d = false → c ≠ d := by
    rintro d hd rfl
    exact absurd (hc.symm.trans hd) (by decide)
  have hq : isQuote c = false := by
    simp [isQuote, hne '"' (by decide), hne '\'' (by decide)]
  unfold Nesting.next
  split
  · rename_i q hs
    have : isQuote q = true := by simpa [IsSound, hs] using h
    rw [if_neg]
    rintro rfl
    exact absurd (this.symm.trans hq) (by decide)
  · simp [hq, hne '(' (by decide), hne ')' (by decide)]

def isWhole (s : Nesting) : Text → Bool
  | [] => s = .top
  | c :: r => !(c = ';' ∧ s = .top) && isWhole (s.next c) r

theorem isWhole_blanks {s : Nesting} (h : s.IsSound) {b : Text} (hb : b.all isBlank = true)
    (t : Text) : isWhole s (b ++ t) = isWhole s t := by
  induction b with
  | nil => rfl
  | cons c b ih =>
    simp only [List.all_cons, Bool.and_eq_true] at hb
    have hc : c ≠ ';' := by
      rintro rfl
      exact absurd hb.1 (by decide)
    rw [List.cons_append, isWhole, s.next_blank h hb.1, ih hb.2]
    simp [hc]

theorem isWhole_append_blanks {s : Nesting} (h : s.IsSound) (u : Text) {b : Text}
    (hb : b.all isBlank = true) (t : Text) : isWhole s (u ++ (b ++ t)) = isWhole s (u ++ t) := by
  induction u generalizing s with
  | nil => exact isWhole_blanks h hb t
  | cons c u ih => rw [List.cons_append, List.cons_append, isWhole, isWhole, ih (h.next c)]

theorem isWhole_trimmed (p v : Text) :
    isWhole .top (p ++ ':' :: v) = isWhole .top (trim p ++ ':' :: trim v) := by
  obtain ⟨s, e, hp, hs, he⟩ := exists_trim p
  obtain ⟨s', e', hv, hs', he'⟩ := exists_trim v
  have hsound : Nesting.top.IsSound := rfl
  have hsplit : p ++ ':' :: v =
      s ++ (trim p ++ (e ++ (':' :: (s' ++ (trim v ++ e'))))) := by
    conv_lhs => rw [hp, hv]
    simp
  calc isWhole .top (p ++ ':' :: v)
    _ = isWhole .top (trim p ++ (':' :: (s' ++ (trim v ++ e')))) := by
      rw [hsplit, isWhole_blanks hsound hs, isWhole_append_blanks hsound _ he]
    _ = isWhole .top ((trim p ++ [':']) ++ (s' ++ (trim v ++ e'))) := by simp
    _ = isWhole .top ((trim p ++ [':']) ++ (trim v ++ e')) :=
      isWhole_append_blanks hsound _ hs' _
    _ = isWhole .top ((trim p ++ ':' :: trim v) ++ (e' ++ [])) := by simp
    _ = isWhole .top (trim p ++ ':' :: trim v) := by
      rw [isWhole_append_blanks hsound _ he', List.append_nil]

theorem chunksFrom_of_isWhole {s : Nesting} {w : Text} (h : isWhole s w = true) (r : Text) :
    chunksFrom s (w ++ ';' :: r) = w :: declarationChunks r := by
  induction w generalizing s with
  | nil =>
    have hs : s = .top := by simpa [isWhole] using h
    simp [chunksFrom, hs, declarationChunks]
  | cons c w ih =>
    simp only [isWhole, Bool.and_eq_true, Bool.not_eq_true', decide_eq_false_iff_not] at h
    rw [List.cons_append, chunksFrom, if_neg h.1, ih h.2]

theorem exists_chunks_isWhole {s : Nesting} {t : Text} (h : t.foldl Nesting.next s = .top) :
    ∃ w ws, chunksFrom s t = w :: ws ∧ isWhole s w = true ∧ ∀ x ∈ ws, isWhole .top x = true := by
  induction t generalizing s with
  | nil => exact ⟨[], [], rfl, by simpa [isWhole] using h, by simp⟩
  | cons c t ih =>
    rw [List.foldl_cons] at h
    rw [chunksFrom]
    split
    · rename_i hc
      obtain ⟨rfl, rfl⟩ := hc
      obtain ⟨w, ws, hw, h1, h2⟩ := ih h
      have hn : Nesting.top.next ';' = .top := rfl
      rw [hn] at hw h1
      exact ⟨[], _, rfl, rfl, hw ▸ List.forall_mem_cons.2 ⟨h1, h2⟩⟩
    · rename_i hc
      obtain ⟨w, ws, hw, h1, h2⟩ := ih h
      refine ⟨c :: w, ws, by rw [hw], ?_, h2⟩
      simp [isWhole, hc, h1]

theorem mem_of_mem_chunksFrom {s : Nesting} {t w : Text} {c : Char} (hw : w ∈ chunksFrom s t)
    (hc : c ∈ w) : c ∈ t := by
  induction t generalizing s w with
  | nil =>
    rw [chunksFrom, List.mem_singleton] at hw
    exact absurd (hw ▸ hc) List.not_mem_nil
  | cons d t ih =>
    rw [chunksFrom] at hw
    split at hw
    · rcases List.mem_cons.1 hw with rfl | hw
      · cases hc
      · exact List.mem_cons_of_mem _ (ih hw hc)
    · split at hw
      · rw [List.mem_singleton] at hw
        exact List.mem_singleton.1 (hw ▸ hc) ▸ List.mem_cons_self
      · rename_i x xs hx
        rcases List.mem_cons.1 hw with rfl | hw
        · rcases List.mem_cons.1 hc with rfl | hc
          · exact List.mem_cons_self
          · exact List.mem_cons_of_mem _ (ih (hx ▸ List.mem_cons_self) hc)
        · exact List.mem_cons_of_mem _ (ih (hx ▸ List.mem_cons_of_mem _ hw) hc)

def Declaration.text (d : Declaration) : Text := d.property ++ ':' :: d.value

structure Declaration.IsRegular (d : Declaration) : Prop where
  reads : Declaration.ofChunk? d.text = some d
  whole : isWhole .top d.text = true
  decoded : '&' ∉ d.text

instance (d : Declaration) : Decidable d.IsRegular :=
  decidable_of_iff
    (Declaration.ofChunk? d.text = some d ∧ isWhole .top d.text = true ∧ '&' ∉ d.text)
    ⟨fun ⟨h1, h2, h3⟩ => ⟨h1, h2, h3⟩, fun ⟨h1, h2, h3⟩ => ⟨h1, h2, h3⟩⟩

theorem Declaration.exists_of_ofChunk? {w : Text} {d : Declaration} (h : ofChunk? w = some d) :
    ∃ p v, w = p ++ ':' :: v ∧ ':' ∉ p ∧ d = .ofTexts p v ∧ d.property ≠ [] ∧ d.value ≠ [] := by
  unfold ofChunk? at h
  split at h
  · rename_i p v hb
    obtain ⟨hw, hp⟩ := breakAt_eq_some hb
    dsimp only at h
    split at h
    · cases h
    · rename_i hne
      obtain rfl := Option.some.inj h
      simp only [Bool.or_eq_true, List.isEmpty_iff, not_or] at hne
      exact ⟨p, v, hw, hp, rfl, hne.1, hne.2⟩
  · cases h

theorem Declaration.ofChunk?_text {w : Text} {d : Declaration} (h : ofChunk? w = some d) :
    ofChunk? d.text = some d := by
  obtain ⟨p, v, rfl, hp, rfl, h1, h2⟩ := exists_of_ofChunk? h
  have hp' : ':' ∉ trim p := fun hm => hp ((trim_isInfix p).subset hm)
  have hne : ((ofTexts p v).property.isEmpty || (ofTexts p v).value.isEmpty) = false := by
    simp [h1, h2]
  have htrim : ofTexts (trim p) (trim v) = ofTexts p v := by
    simp [ofTexts, trim_trim]
  rw [text, ofTexts, ofChunk?, breakAt_append hp']
  simp only [htrim, hne]
  rfl

theorem Declaration.isWhole_text {w : Text} {d : Declaration} (h : ofChunk? w = some d) :
    isWhole .top d.text = isWhole .top w := by
  obtain ⟨p, v, rfl, -, rfl, -⟩ := exists_of_ofChunk? h
  exact (isWhole_trimmed p v).symm

theorem Declaration.isRegular_of_ofChunk? {w : Text} {d : Declaration}
    (h : ofChunk? w = some d) (hw : isWhole .top w = true) (ha : '&' ∉ w) : d.IsRegular := by
  refine ⟨ofChunk?_text h, (isWhole_text h).trans hw, ?_⟩
  obtain ⟨p, v, rfl, -, rfl, -⟩ := exists_of_ofChunk? h
  rw [List.mem_append, List.mem_cons, not_or, not_or] at ha
  rw [text, List.mem_append, List.mem_cons, not_or, not_or]
  exact ⟨fun hm => ha.1 ((trim_isInfix p).subset hm), ha.2.1,
    fun hm => ha.2.2 ((trim_isInfix v).subset hm)⟩

namespace Style

def IsRegular (s : Style) : Prop := ∀ d ∈ s, d.IsRegular

instance (s : Style) : Decidable s.IsRegular :=
  inferInstanceAs (Decidable (∀ d ∈ s, d.IsRegular))

theorem IsRegular.filter {s : Style} (h : s.IsRegular) (p : Declaration → Bool) :
    IsRegular (List.filter p s) := fun d hd => h d (List.mem_filter.1 hd).1

theorem IsRegular.append {s t : Style} (hs : s.IsRegular) (ht : t.IsRegular) :
    IsRegular (s ++ t) := by
  intro d hd
  rcases List.mem_append.1 hd with hd | hd
  · exact hs d hd
  · exact ht d hd

theorem isWhole_of_mem_chunks {t w : Text} (hn : t.foldl Nesting.next .top = .top)
    (hw : w ∈ declarationChunks t) : isWhole .top w = true := by
  obtain ⟨x, xs, hx, h1, h2⟩ := exists_chunks_isWhole hn
  rw [declarationChunks, hx] at hw
  rcases List.mem_cons.1 hw with rfl | hw
  · exact h1
  · exact h2 w hw

theorem isRegular_of_chunks {t : Text} (ha : '&' ∉ t) (hn : t.foldl Nesting.next .top = .top) :
    IsRegular ((declarationChunks t).filterMap Declaration.ofChunk?) := by
  intro d hd
  obtain ⟨w, hw, hd⟩ := List.mem_filterMap.1 hd
  exact d.isRegular_of_ofChunk? hd (isWhole_of_mem_chunks hn hw)
    fun hm => ha (mem_of_mem_chunksFrom hw hm)

theorem renderOne_eq (d : Declaration) : renderOne d = d.text ++ [';'] := by
  simp [renderOne, Declaration.text]

theorem render_cons (d : Declaration) (s : Style) :
    Style.render (d :: s) = d.text ++ ';' :: s.render := by
  simp [render, renderOne_eq]

def ReadsBack (s : Style) : Prop :=
  ∀ d ∈ s, Declaration.ofChunk? d.text = some d ∧ isWhole .top d.text = true

theorem IsRegular.readsBack {s : Style} (h : s.IsRegular) : s.ReadsBack :=
  fun d hd => ⟨(h d hd).reads, (h d hd).whole⟩

theorem ReadsBack.filterMap_chunks {s : Style} (h : s.ReadsBack) :
    (declarationChunks s.render).filterMap Declaration.ofChunk? = s := by
  induction s with
  | nil => rfl
  | cons d s ih =>
    obtain ⟨⟨hd, hw⟩, hs⟩ := List.forall_mem_cons.1 h
    rw [render_cons, declarationChunks, chunksFrom_of_isWhole hw, List.filterMap_cons, hd, ih hs]

theorem IsRegular.not_mem_render {s : Style} (h : s.IsRegular) : '&' ∉ s.render := by
  induction s with
  | nil => exact List.not_mem_nil
  | cons d s ih =>
    obtain ⟨hd, hs⟩ := List.forall_mem_cons.1 h
    rw [render_cons]
    simp [hd.decoded, ih hs]

theorem allBlank_render_cons (d : Declaration) (s : Style) :
    allBlank (Style.render (d :: s)) = false := by
  rw [render_cons, allBlank, List.all_append, List.all_cons]
  simp [show isBlank ';' = false from rfl]

theorem IsRegular.parse_render {s : Style} (h : s.IsRegular) :
    Style.parse (escapeQuotes s.render) = .ok s := by
  rw [parse_escapeQuotes]
  cases s with
  | nil => rfl
  | cons d s =>
    rw [parse, allBlank_render_cons, Entity.decode_eq_self h.not_mem_render]
    exact congrArg Except.ok h.readsBack.filterMap_chunks

theorem foldl_remove_eq_filter (s : Style) (ps : List Text) :
    ps.foldl remove s = s.filter fun d => ps.all fun p => d.key != lower (trim p) := by
  induction ps generalizing s with
  | nil => exact (List.filter_eq_self.2 fun _ _ => rfl).symm
  | cons p ps ih =>
    rw [List.foldl_cons, ih, remove, List.filter_filter]
    exact List.filter_congr fun d _ => Bool.and_comm _ _

theorem mergedAhead_again {block : Style} (hb : ∀ d ∈ block, block.declares d.property = true)
    (s : Style) (ps : List Text) :
    (ps.foldl remove ((ps.foldl remove s).mergedAhead block)).mergedAhead block =
      (ps.foldl remove s).mergedAhead block := by
  have hblock : ∀ p : Declaration → Bool,
      (block.filter p).filter (fun d => !block.declares d.property) = [] := by
    refine fun p => List.filter_eq_nil_iff.2 fun d hd => ?_
    simp [hb d (List.mem_filter.1 hd).1]
  simp only [foldl_remove_eq_filter, mergedAhead, List.filter_append, hblock, List.nil_append,
    List.filter_filter]
  congr 1
  refine List.filter_congr fun d _ => ?_
  cases block.declares d.property <;> simp

end Style

def Tag.HasClosedStyle (k : Tag) : Prop :=
  ∃ d, Entity.decode (Attributes.parse k.attrs).styleText = .ok d ∧ '&' ∉ d ∧
    d.foldl Nesting.next .top = .top

instance (k : Tag) : Decidable k.HasClosedStyle :=
  match h : Entity.decode (Attributes.parse k.attrs).styleText with
  | .ok d => decidable_of_iff ('&' ∉ d ∧ d.foldl Nesting.next .top = .top)
      (by simp [Tag.HasClosedStyle, h])
  | .error _ => .isFalse (by simp [Tag.HasClosedStyle, h])

theorem Tag.HasClosedStyle.parse {k : Tag} (h : k.HasClosedStyle) :
    ∃ s, Style.parse (Attributes.parse k.attrs).styleText = .ok s ∧ s.IsRegular := by
  obtain ⟨d, hd, ha, hn⟩ := h
  rw [Style.parse]
  split
  · exact ⟨[], rfl, by simp [Style.IsRegular]⟩
  · exact ⟨_, by rw [hd]; rfl, Style.isRegular_of_chunks ha hn⟩

end MailMarkup.Markup
