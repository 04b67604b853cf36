import MailMarkup.Proofs.Document.HeadLines
import MailMarkup.Proofs.Link.SpecialLinks
import MailMarkup.Proofs.Markup.AttributeChanges
import MailMarkup.Proofs.Markup.AttributeRevision
import MailMarkup.Proofs.Run.TagReplacement

namespace MailMarkup.Text

theorem trim_around_iff {c d : Char} (hc : isBlank c = false) (hd : isBlank d = false)
    (a t b : Text) :
    trim (a ++ (c :: (t ++ [d]) ++ b)) = c :: (t ++ [d]) ↔
      a.all isBlank = true ∧ b.all isBlank = true := by
  have htrim : trim (a ++ (c :: (t ++ [d]) ++ b)) =
      trimStart a ++ c :: (t ++ d :: trimEnd b) := by
    rw [trim, trimStart, List.cons_append, Spacing.dropWhile_append_cons hc, List.append_assoc,
      List.singleton_append, ← List.cons_append, ← List.append_assoc, trimEnd_append_cons hd,
      List.append_assoc, List.cons_append]
    rfl
  have hstart : trimStart a = [] ↔ a.all isBlank = true := by simp [trimStart]
  have hend : trimEnd b = [] ↔ b.all isBlank = true := by simp [trimEnd, dropEndWhile]
  rw [htrim, ← hstart, ← hend]
  constructor
  · intro h
    have hlen := congrArg List.length h
    simp only [List.length_append, List.length_cons, List.length_nil] at hlen
    exact ⟨List.eq_nil_of_length_eq_zero (by omega), List.eq_nil_of_length_eq_zero (by omega)⟩
  · rintro ⟨ha, hb⟩
    rw [ha, hb, List.nil_append]

theorem drop_take_of_append {t a b c : Text} (h : t = a ++ b ++ c) :
    (t.take (a ++ b).length).drop a.length = b := by
  rw [h, List.take_left, List.drop_left]

theorem exists_mapM_iff {ε α β : Type} {f : α → Except ε β} {as : List α} :
    (∃ bs, as.mapM f = .ok bs) ↔ ∀ a ∈ as, ∃ b, f a = .ok b := by
  induction as with
  | nil => simp [pure, Except.pure]
  | cons a as ih =>
    rw [List.forall_mem_cons, ← ih, List.mapM_cons]
    constructor
    · rintro ⟨bs, h⟩
      obtain ⟨b, hb, h⟩ := bind_eq_ok.1 h
      obtain ⟨bs', hbs, -⟩ := bind_eq_ok.1 h
      exact ⟨⟨b, hb⟩, bs', hbs⟩
    · rintro ⟨⟨b, hb⟩, bs, hbs⟩
      exact ⟨b :: bs, by rw [hb, hbs]; rfl⟩

end MailMarkup.Text

namespace MailMarkup.Entity

open Text

theorem decode_longReference {ds : Text} (hd : ds.all Char.isDigit = true)
    (hn : digitLimit < ds.length) :
    decode ('&' :: '#' :: ds) = .error (.longNumeral ds.length) := by
  have htake : ds.takeWhile Char.isDigit = ds :=
    List.takeWhile_eq_self_iff.2 (List.all_eq_true.1 hd)
  have hne : ds.isEmpty = false :=
    List.isEmpty_eq_false_iff.2 (List.ne_nil_of_length_pos (by omega))
  have href : reference? ('&' :: '#' :: ds) =
      some (.decimal ds, 1 + ds.length + semicolon (ds.drop ds.length)) := by
    simp only [reference?, htake, hne, Bool.not_false, if_true]
  rw [decode_cons_some href, Reference.decode, if_pos hn]
  rfl

end MailMarkup.Entity

namespace MailMarkup.Markup

open Text

variable {html : Text}

theorem exists_of_mem_tokensFrom_places {start : Nat} {ps : Lexemes} {k : Token}
    (h : k ∈ tokensFrom [] start ps) : ∃ us s vs, ps = us ++ .hit (.tag k.toTag) s :: vs ∧
      k.start = start + (source us).length ∧ k.stop = k.start + s.length := by
  rw [tokensFrom_eq_filterMap] at h
  obtain ⟨f, hf, hk⟩ := List.mem_filterMap.1 h
  obtain rfl := Found.token?_eq_some.1 hk
  obtain ⟨x, hx, hf⟩ := List.mem_filterMap.1 hf
  obtain ⟨s, rfl, hs⟩ := found?_eq_some.1 hf
  obtain ⟨us, vs, hps, hstart⟩ := exists_append_of_mem_placed hx
  exact ⟨us, s, vs, hps, hstart, hs⟩

theorem mem_tokens_of_place {us vs : Lexemes} {k : Token} {s : Text}
    (h : lexemes html = us ++ .hit (.tag k.toTag) s :: vs) (hstart : k.start = (source us).length)
    (hstop : k.stop = k.start + s.length) : k ∈ tokens [] html := by
  rw [tokens, h, tokensFrom_append, Nat.zero_add, ← hstart]
  refine List.mem_append_right _ ?_
  rw [tokensFrom_among rfl, ← hstop]
  exact List.mem_cons_self

theorem mem_tokensFrom_rest {start : Nat} {us vs : Lexemes} {k : Tag} {s : Text} {l : Token}
    (hs : s ≠ []) (hl : l ∈ tokensFrom [] start (us ++ .hit (.tag k) s :: vs))
    (h : start + (source us).length + s.length ≤ l.start) :
    l ∈ tokensFrom [] (start + (source us).length + s.length) vs := by
  have hpos := List.length_pos_of_ne_nil hs
  rw [tokensFrom_append] at hl
  rcases List.mem_append.1 hl with hl | hl
  · obtain ⟨us', r, vs', rfl, hstart, -⟩ := exists_of_mem_tokensFrom_places hl
    rw [source_append, source_cons, List.length_append, List.length_append] at h
    omega
  · rcases List.mem_cons.1 hl with rfl | hl
    · exact absurd h (by simp only; omega)
    · exact hl

theorem eq_map_char_of_blank {t : Text} {ps qs : Lexemes} (h : lexemes t = ps ++ qs)
    (hb : (source ps).all isBlank = true) : ps = (source ps).map .char := by
  induction ps generalizing t with
  | nil => rfl
  | cons p ps ih =>
    have hrest : lexemes (source (ps ++ qs)) = ps ++ qs :=
      @lexemes_source_of_eq t [p] (ps ++ qs) h
    rw [source_cons, List.all_append, Bool.and_eq_true] at hb
    cases p with
    | char c =>
      rw [source_cons]
      exact congrArg (.char c :: ·) (ih hrest hb.2)
    | hit x s =>
      obtain ⟨n, hn, rfl⟩ := lexeme?_of_hit h
      cases t with
      | nil => cases hn
      | cons c t =>
        obtain rfl := exists_angle_of_lexeme? hn
        cases hb.1

theorem eq_nil_of_length_source {t : Text} {us ws vs : Lexemes} (h : lexemes t = us ++ ws ++ vs)
    (hw : (source ws).length = 0) : ws = [] := by
  cases ws with
  | nil => rfl
  | cons w ws =>
    have hmem : w ∈ lexemes t := by simp [h]
    have hpos := List.length_pos_of_ne_nil (source_ne_nil_of_mem_scan hmem)
    rw [source_cons, List.length_append] at hw
    omega

theorem eq_of_same_place {t : Text} {us us' vs vs' : Lexemes} {p p' : Piece Lexeme}
    (h : lexemes t = us ++ p :: vs) (h' : lexemes t = us' ++ p' :: vs')
    (hlen : (source us).length = (source us').length) : p = p' ∧ vs = vs' := by
  -- the pieces by which one of the lists in front is longer have no text, so there are none
  rcases List.append_eq_append_iff.1 (h.symm.trans h') with ⟨ws, rfl, hw⟩ | ⟨ws, rfl, hw⟩
  · rw [source_append, List.length_append] at hlen
    obtain rfl := eq_nil_of_length_source h' (by omega)
    exact List.cons.inj hw
  · rw [source_append, List.length_append] at hlen
    obtain rfl := eq_nil_of_length_source h (by omega)
    obtain ⟨hp, hv⟩ := List.cons.inj hw
    exact ⟨hp.symm, hv.symm⟩

theorem exists_angles_textIn {k : Token} (h : k ∈ tokens [] html) :
    ∃ m, k.textIn html = '<' :: (m ++ ['>']) := by
  obtain ⟨-, -, name, blanks, hw⟩ := exists_isWritten h
  exact ⟨_, hw.text⟩

section

variable {us as bs rest : Lexemes} {first middle last : Token} {s m r : Text}

theorem textIn_eq_trim_iff (hmem : middle ∈ tokens [] html)
    (h : lexemes html = us ++ .hit (.tag first.toTag) s ::
      (as ++ .hit (.tag middle.toTag) m :: (bs ++ .hit (.tag last.toTag) r :: rest)))
    (hfirst : first.stop = (source us).length + s.length)
    (hstart : middle.start = first.stop + (source as).length)
    (hstop : middle.stop = middle.start + m.length)
    (hlast : last.start = middle.stop + (source bs).length) :
    middle.textIn html = trim ((html.take last.start).drop first.stop) ↔
      (source as).all isBlank = true ∧ (source bs).all isBlank = true := by
  have hsource : html = source us ++ s ++ (source as ++ m ++ source bs) ++ (r ++ source rest) := by
    have := eq_source_append h
    simpa only [source_cons, source_append, Piece.source, List.append_assoc] using this
  have hbetween : (html.take last.start).drop first.stop = source as ++ m ++ source bs := by
    have := drop_take_of_append hsource
    have hl : last.start = (source us ++ s ++ (source as ++ m ++ source bs)).length := by
      simp only [List.length_append]
      omega
    rwa [← hl, List.length_append, ← hfirst] at this
  have htext : middle.textIn html = m := by
    have hsplit : html = source us ++ s ++ source as ++ m ++
        (source bs ++ (r ++ source rest)) := by
      simpa only [List.append_assoc] using hsource
    have := drop_take_of_append hsplit
    have hl : middle.stop = (source us ++ s ++ source as ++ m).length := by
      simp only [List.length_append]
      omega
    have hf : middle.start = (source us ++ s ++ source as).length := by
      simp only [List.length_append]
      omega
    rwa [← hl, ← hf] at this
  obtain ⟨n, hn⟩ := exists_angles_textIn hmem
  rw [hbetween, eq_comm, List.append_assoc, ← htext, hn]
  exact @trim_around_iff '<' '>' (by decide) (by decide) (source as) n (source bs)

end

end MailMarkup.Markup

namespace MailMarkup.Table

open Text Markup

variable {html : Text}

theorem nextTag?_blanks {b : Text} (hb : b.all isBlank = true) (ps : Lexemes) :
    nextTag? (b.map .char ++ ps) = nextTag? ps := by
  induction b with
  | nil => rfl
  | cons c b ih =>
    rw [List.all_cons, Bool.and_eq_true] at hb
    exact (if_pos hb.1).trans (ih hb.2)

theorem nextTag?_eq_some {ps rest : Lexemes} {k : Tag} : nextTag? ps = some (k, rest) ↔
    ∃ (b s : Text), b.all isBlank = true ∧ ps = b.map .char ++ .hit (.tag k) s :: rest := by
  constructor
  · intro h
    induction ps using Lexemes.induction with
    | nil => cases h
    | char c ps ih =>
      rw [nextTag?] at h
      split at h
      · rename_i hc
        obtain ⟨b, s, hb, rfl⟩ := ih h
        exact ⟨c :: b, s, by rw [List.all_cons, hc, hb]; rfl, rfl⟩
      · cases h
    | comment s ps ih => cases h
    | tag k' s ps ih =>
      obtain ⟨rfl, rfl⟩ := Prod.mk.inj (Option.some.inj h)
      exact ⟨[], s, rfl, rfl⟩
  · rintro ⟨b, s, hb, rfl⟩
    exact nextTag?_blanks hb _

theorem holdsImage_iff {ps : Lexemes} : holdsImage ps = true ↔
    ∃ (a : Text) (image : Tag) (s b : Text) (close : Tag) (r : Text) (rest : Lexemes),
      a.all isBlank = true ∧ b.all isBlank = true ∧
      opens "img".toList image = true ∧ closes cellName close = true ∧
      ps = a.map .char ++ .hit (.tag image) s :: (b.map .char ++ .hit (.tag close) r :: rest) := by
  simp only [holdsImage, Option.any_eq_true, Bool.and_eq_true, Prod.exists, nextTag?_eq_some]
  constructor
  · rintro ⟨image, -, ⟨a, s, ha, rfl⟩, ho, close, rest, ⟨b, r, hb, rfl⟩, hc⟩
    exact ⟨a, image, s, b, close, r, rest, ha, hb, ho, hc, rfl⟩
  · rintro ⟨a, image, s, b, close, r, rest, ha, hb, ho, hc, rfl⟩
    exact ⟨image, _, ⟨a, s, ha, rfl⟩, ho, close, rest, ⟨b, r, hb, rfl⟩, hc⟩

def ImageCellAt (start i : Nat) (ps : Lexemes) : Prop :=
  ∃ us k s vs, ps = us ++ .hit (.tag k) s :: vs ∧ i = start + (source us).length ∧
    opens cellName k = true ∧ holdsImage vs = true

theorem imageCellAt_cons {start i : Nat} {p : Piece Lexeme} {ps : Lexemes} :
    ImageCellAt start i (p :: ps) ↔
      (∃ k s, p = .hit (.tag k) s ∧ i = start ∧ opens cellName k = true ∧ holdsImage ps = true) ∨
        ImageCellAt (start + p.source.length) i ps := by
  constructor
  · rintro ⟨us, k, s, vs, hps, hi, hk, hv⟩
    cases us with
    | nil =>
      obtain ⟨rfl, rfl⟩ := List.cons.inj hps
      exact .inl ⟨k, s, rfl, hi, hk, hv⟩
    | cons q us =>
      obtain ⟨rfl, rfl⟩ := List.cons.inj hps
      refine .inr ⟨us, k, s, vs, rfl, ?_, hk, hv⟩
      rw [hi, source_cons, List.length_append, Nat.add_assoc]
  · rintro (⟨k, s, rfl, hi, hk, hv⟩ | ⟨us, k, s, vs, rfl, hi, hk, hv⟩)
    · exact ⟨[], k, s, ps, rfl, hi, hk, hv⟩
    · refine ⟨p :: us, k, s, vs, rfl, ?_, hk, hv⟩
      rw [hi, source_cons, List.length_append, Nat.add_assoc]

theorem mem_map_start_iff {start i : Nat} {ps : Lexemes} :
    i ∈ ((markedCellsFrom start ps).filter (·.2)).map (·.1.start) ↔ ImageCellAt start i ps := by
  induction ps generalizing start with
  | nil => simp [markedCellsFrom, ImageCellAt]
  | cons p ps ih =>
    rw [imageCellAt_cons, ← ih]
    cases p with
    | char c => simp [markedCellsFrom, Piece.source]
    | hit x s =>
      cases x with
      | comment => simp [markedCellsFrom, Piece.source]
      | tag k =>
        by_cases hk : k.name = cellName
        · cases hc : k.closing <;> cases hi : holdsImage ps <;>
            simp [markedCellsFrom, Piece.source, hk, opens, hc, hi]
        · simp [markedCellsFrom, Piece.source, hk, opens]

structure Encloses (html : Text) (cell image close : Token) : Prop where
  image_mem : image ∈ tokens [] html
  close_mem : close ∈ tokens [] html
  opens : image.name = "img".toList ∧ image.closing = false
  closes : close.name = cellName ∧ close.closing = true
  inside : cell.stop ≤ image.start ∧ image.stop ≤ close.start
  alone : image.textIn html = trim ((html.take close.start).drop cell.stop)

theorem opens_iff {name : Text} {k : Tag} :
    opens name k = true ↔ k.name = name ∧ k.closing = false := by
  simp [opens]

theorem closes_iff {name : Text} {k : Tag} :
    closes name k = true ↔ k.name = name ∧ k.closing = true := by
  simp [closes]

section

variable {cell : Token} {us vs : Lexemes} {s : Text}
  (h : lexemes html = us ++ .hit (.tag cell.toTag) s :: vs)
  (hstop : cell.stop = (source us).length + s.length)

include h hstop

theorem exists_encloses_of_holdsImage (hi : holdsImage vs = true) :
    ∃ image close, Encloses html cell image close := by
  obtain ⟨a, i, m, b, c, r, rest, ha, hb, ho, hc, rfl⟩ := holdsImage_iff.1 hi
  have hsource (t : Text) : source (t.map .char) = t := by
    induction t with
    | nil => rfl
    | cons c t ih => exact congrArg (c :: ·) ih
  obtain ⟨image, rfl, himage, himage'⟩ : ∃ t : Token, t.toTag = i ∧
      t.start = cell.stop + (source (a.map .char)).length ∧ t.stop = t.start + m.length :=
    ⟨{ i with start := _, stop := _ + m.length }, rfl, rfl, rfl⟩
  obtain ⟨close, rfl, hclose, hclose'⟩ : ∃ t : Token, t.toTag = c ∧
      t.start = image.stop + (source (b.map .char)).length ∧ t.stop = t.start + r.length :=
    ⟨{ c with start := _, stop := _ + r.length }, rfl, rfl, rfl⟩
  have himem : image ∈ tokens [] html := by
    refine @mem_tokens_of_place _ (us ++ .hit (.tag cell.toTag) s :: a.map .char) _ _ _
      (by rw [h, List.append_assoc, List.cons_append]) ?_ himage'
    rw [source_append, source_cons, List.length_append, List.length_append, himage, hstop,
      Nat.add_assoc]
    rfl
  have hcmem : close ∈ tokens [] html := by
    refine @mem_tokens_of_place _ (us ++ .hit (.tag cell.toTag) s ::
      (a.map .char ++ .hit (.tag image.toTag) m :: b.map .char)) rest close r ?_ ?_ hclose'
    · simp only [h, List.append_assoc, List.cons_append]
    · simp only [source_append, source_cons, List.length_append, Piece.source]
      omega
  refine ⟨image, close, himem, hcmem, opens_iff.1 ho, closes_iff.1 hc, by omega, ?_⟩
  rw [textIn_eq_trim_iff himem h hstop himage himage' hclose, hsource, hsource]
  exact ⟨ha, hb⟩

theorem holdsImage_of_encloses {image close : Token} (hs : s ≠ [])
    (he : Encloses html cell image close) : holdsImage vs = true := by
  have hall : tokens [] html = tokensFrom [] 0 (us ++ .hit (.tag cell.toTag) s :: vs) := by
    rw [tokens, h]
  have hrest (l : Token) (hl : l ∈ tokens [] html) (hle : cell.stop ≤ l.start) :
      l ∈ tokensFrom [] cell.stop vs := by
    have := mem_tokensFrom_rest hs (hall ▸ hl) (by omega)
    rwa [Nat.zero_add, ← hstop] at this
  have hlt := (exists_isWritten he.image_mem).1
  have hle := he.inside
  -- the image stands in what is behind the cell's tag, and the closing tag behind the image
  obtain ⟨as, m, ws, rfl, hstart, hstop'⟩ :=
    exists_of_mem_tokensFrom_places (hrest image he.image_mem hle.1)
  have hm : m ≠ [] := List.ne_nil_of_length_pos (by omega)
  have hclose := mem_tokensFrom_rest hm (hrest close he.close_mem (by omega)) (by omega)
  rw [← hstart, ← hstop'] at hclose
  obtain ⟨bs, r, rest, rfl, hlast, -⟩ := exists_of_mem_tokensFrom_places hclose
  obtain ⟨ha, hb⟩ :=
    (textIn_eq_trim_iff he.image_mem h hstop hstart hstop' hlast).1 he.alone
  have has := eq_map_char_of_blank (lexemes_source_tail h) ha
  have hbs := eq_map_char_of_blank
    (lexemes_source_tail (lexemes_source_tail h)) hb
  exact holdsImage_iff.2 ⟨_, image.toTag, m, _, close.toTag, r, rest, ha, hb,
    opens_iff.2 he.opens, closes_iff.2 he.closes, by rw [← has, ← hbs]⟩

end

theorem mem_imageCells_iff {cell : Token} (h : cell ∈ tokens [] html)
    (ho : opens cellName cell.toTag = true) :
    cell.start ∈ imageCells html ↔ ∃ image close, Encloses html cell image close := by
  have hlt := (exists_isWritten h).1
  obtain ⟨us, s, vs, hl, hstart, hstop⟩ := exists_of_mem_tokensFrom_places h
  rw [Nat.zero_add] at hstart
  rw [hstart] at hstop
  have hs : s ≠ [] := List.ne_nil_of_length_pos (by omega)
  rw [imageCells, markedCells, mem_map_start_iff]
  constructor
  · rintro ⟨us', k, s', vs', hl', hplace, -, hi⟩
    obtain ⟨-, rfl⟩ := eq_of_same_place hl hl' (by omega)
    exact exists_encloses_of_holdsImage hl hstop hi
  · rintro ⟨image, close, he⟩
    exact ⟨us, cell.toTag, s, vs, hl, by omega, ho, holdsImage_of_encloses hl hstop hs he⟩

theorem mark_eq {x : Token × Bool} (hx : x ∈ markedCells html) :
    x.2 = (!x.1.closing && (imageCells html).contains x.1.start) := by
  have hmem {y : Token × Bool} (hy : y ∈ markedCells html) : y.1 ∈ tokens [] html :=
    (tokens_sublist _ html).subset (Run.map_fst_markedCells html ▸ List.mem_map_of_mem hy)
  have hpairs : (markedCells html).Pairwise fun x y => x.1.stop ≤ y.1.start := by
    rw [← List.pairwise_map (f := Prod.fst) (R := fun k l : Token => k.stop ≤ l.start),
      Run.map_fst_markedCells]
    exact (pairwise_tokens html).sublist (tokens_sublist _ html)
  rw [Bool.eq_iff_iff, Bool.and_eq_true, Bool.not_eq_true', List.contains_iff_mem]
  constructor
  · intro hm
    exact ⟨Run.not_closing_of_marked hx hm,
      List.mem_map_of_mem (f := fun y : Token × Bool => y.1.start) (List.mem_filter.2 ⟨hx, hm⟩)⟩
  · rintro ⟨-, hi⟩
    obtain ⟨y, hy, hstart⟩ := List.mem_map.1 hi
    obtain ⟨hy, hm⟩ := List.mem_filter.1 hy
    have hltx := (exists_isWritten (hmem hx)).1
    have hlty := (exists_isWritten (hmem hy)).1
    rcases @eq_or_apart _ (·.1.start) (·.1.stop) _ hpairs _ _ hx hy with rfl | h | h
    · exact hm
    · omega
    · omega

structure Collapsing where
  old : Token
  text : Text
  new : Token

namespace Collapsing

def before (x : Collapsing) : Attributes := .parse x.old.attrs

def after (x : Collapsing) : Attributes := .parse x.new.attrs

structure IsFaithful (x : Collapsing) : Prop where
  alone : tokens [] x.text = [x.new]
  whole : x.new.start = 0 ∧ x.new.stop = x.text.length
  opens : x.new.name = cellName ∧ x.new.closing = false
  styled : ∃ style, mergeStyle x.before.styleText
      (.text "padding:0;font-size:0;line-height:0;".toList) = .ok style ∧
    x.after.filter (·.key == "style".toList) = [⟨"style".toList, some (escapeQuotes style)⟩]
  others : x.after.filter (·.key != "style".toList) =
    (x.before.filter (·.key != "style".toList)).map Attributes.written

end Collapsing

theorem mergeStyle_eq_ok {existing style : Text} :
    mergeStyle existing (.text "padding:0;font-size:0;line-height:0;".toList) = .ok style ↔
      ∃ s, Style.parse existing = .ok s ∧ (s.mergedAhead imageCellStyle).render = style := by
  have hblock : StyleBlock.toStyle (.text "padding:0;font-size:0;line-height:0;".toList) =
      .ok imageCellStyle := by decide +kernel
  rw [mergeStyle, hblock, bind_eq_ok]
  exact exists_congr fun s => and_congr_right fun _ => pure_eq_ok

theorem exists_mergeStyle_iff {existing : Text} :
    (∃ style, mergeStyle existing (.text "padding:0;font-size:0;line-height:0;".toList) =
      .ok style) ↔ ∃ s, Style.parse existing = .ok s := by
  simp only [mergeStyle_eq_ok]
  exact ⟨fun ⟨_, s, hs, _⟩ => ⟨s, hs⟩, fun ⟨s, hs⟩ => ⟨_, s, hs, rfl⟩⟩

theorem exists_collapsedTag_iff {x : Token × Bool} : (∃ e, collapsedTag x = .ok e) ↔
    (x.2 = true → ∃ s, Style.parse (Attributes.parse x.1.attrs).styleText = .ok s) := by
  obtain ⟨k, m⟩ := x
  cases m with
  | false => simp [collapsedTag, pure, Except.pure]
  | true =>
    cases hs : Style.parse (Attributes.parse k.attrs).styleText with
    | error f =>
      simp [collapsedTag, Attributes.revise, Attributes.setAll, Attributes.applyStyle, hs, bind,
        Except.bind]
    | ok s =>
      simp [collapsedTag, Attributes.revise, Attributes.setAll, Attributes.applyStyle, hs, bind,
        Except.bind, pure, Except.pure, StyleBlock.toStyle]

theorem exists_collapsing {x : Token × Bool} {e : Option Text} (hm : x.2 = true)
    (h : collapsedTag x = .ok e) :
    ∃ y : Collapsing, y.old = x.1 ∧ e = some y.text ∧ y.IsFaithful := by
  simp only [collapsedTag, hm, Bool.not_true, Bool.false_eq_true, if_false] at h
  obtain ⟨as, ha, h⟩ := bind_eq_ok.1 h
  have hlegal : as.IsLegal := by
    refine (Attributes.isLegal_parse x.1.attrs).applyStyle ha ?_
    rintro s b - ⟨⟩
    rfl
  obtain ⟨author, declared, hauthor, hdeclared, hr⟩ :=
    Attributes.revise_read .nil .nil rfl ha
  obtain rfl : some imageCellStyle = declared := by simpa [StyleBlock.toStyle] using hdeclared
  have hkept : Attributes.leaving [] (Attributes.parse x.1.attrs) = .parse x.1.attrs :=
    List.filter_eq_self.2 fun _ _ => rfl
  rw [hkept] at hauthor
  let new : Token :=
    { name := cellName, attrs := as.render, closing := false, selfClosing := false,
      start := 0, stop := (openTag cellName as).length }
  refine ⟨⟨x.1, openTag cellName as, new⟩, rfl, (pure_eq_ok.1 h).symm, ?_⟩
  exact {
    alone := tokens_openTag (show isName cellName = true by decide) hlegal
    whole := ⟨rfl, rfl⟩
    opens := ⟨rfl, rfl⟩
    styled := ⟨_, mergeStyle_eq_ok.2 ⟨author, hauthor, rfl⟩, hr.styles⟩
    others := hr.others }

theorem exists_collapsings {xs : List (Token × Bool)} {es : List (Option Text)}
    (h : List.Forall₂ (fun x e => collapsedTag x = .ok e) xs es) :
    ∃ ys : List Collapsing, ys.map (·.old) = (xs.filter (·.2)).map Prod.fst ∧
      replacements (xs.map Prod.fst) es = ys.map (fun y => (y.old, y.text)) ∧
      ∀ y ∈ ys, y.IsFaithful := by
  induction h with
  | nil => exact ⟨[], rfl, rfl, by simp⟩
  | @cons x e xs es he _ ih =>
    obtain ⟨ys, hold, hrs, hys⟩ := ih
    rw [List.map_cons]
    cases hm : x.2 with
    | false =>
      simp only [collapsedTag, hm, Bool.not_false, if_true] at he
      obtain rfl := pure_eq_ok.1 he
      refine ⟨ys, ?_, by rw [replacements_none, hrs], hys⟩
      rw [List.filter_cons_of_neg (by simp [hm]), hold]
    | true =>
      obtain ⟨y, hy, rfl, hfaithful⟩ := exists_collapsing hm he
      refine ⟨y :: ys, ?_, ?_, List.forall_mem_cons.2 ⟨hfaithful, hys⟩⟩
      · rw [List.filter_cons_of_pos hm, List.map_cons, List.map_cons, hy, hold]
      · rw [replacements_some, List.map_cons, hrs, hy]

def isImageCell (html : Text) (k : Token) : Bool :=
  !k.closing && (imageCells html).contains k.start

theorem map_fst_filter_markedCells (html : Text) :
    ((markedCells html).filter (·.2)).map Prod.fst =
      (tokens [cellName] html).filter (isImageCell html) := by
  rw [← Run.map_fst_markedCells, List.filter_map]
  exact congrArg (List.map Prod.fst) (List.filter_congr fun x hx => mark_eq hx)

theorem exists_collapseImageCells_iff : (∃ out, collapseImageCells html = .ok out) ↔
    ∀ k ∈ (tokens [cellName] html).filter (isImageCell html),
      ∃ style, mergeStyle (Attributes.parse k.attrs).styleText
        (.text "padding:0;font-size:0;line-height:0;".toList) = .ok style := by
  have hrun : (∃ out, collapseImageCells html = .ok out) ↔
      ∃ es, (markedCells html).mapM collapsedTag = .ok es := by
    constructor
    · rintro ⟨out, h⟩
      obtain ⟨es, he, -⟩ := bind_eq_ok.1 h
      exact ⟨es, he⟩
    · rintro ⟨es, he⟩
      exact ⟨_, bind_eq_ok.2 ⟨es, he, rfl⟩⟩
  simp only [hrun, exists_mapM_iff, exists_collapsedTag_iff, ← map_fst_filter_markedCells,
    List.forall_mem_map, List.mem_filter, and_imp, exists_mergeStyle_iff]

/-- The cells that are found are those whose whole content up to a closing tag is an image tag in
it, with blanks around it. Each of them is written anew at its place, just if their styles can all
be decoded, and nothing else changes. -/
theorem imageCells_exact (html : Text) :
    (∀ cell ∈ tokens [] html, cell.name = cellName → cell.closing = false →
        (cell.start ∈ imageCells html ↔ ∃ image close, Encloses html cell image close)) ∧
      (∀ i ∈ imageCells html, ∃ k ∈ (tokens [cellName] html).filter (isImageCell html),
        k.start = i) ∧
      ((∃ out, collapseImageCells html = .ok out) ↔
        ∀ k ∈ (tokens [cellName] html).filter (isImageCell html),
          ∃ style, mergeStyle (Attributes.parse k.attrs).styleText
            (.text "padding:0;font-size:0;line-height:0;".toList) = .ok style) ∧
      ∀ out, collapseImageCells html = .ok out → ∃ xs : List Collapsing,
        xs.map (·.old) = (tokens [cellName] html).filter (isImageCell html) ∧
        out = substituted html 0 (xs.map fun x => (x.old, x.text)) ∧
        ∀ x ∈ xs, x.IsFaithful := by
  refine ⟨fun cell hc hn ho => mem_imageCells_iff hc (opens_iff.2 ⟨hn, ho⟩), fun i hi => ?_,
    exists_collapseImageCells_iff, fun out h => ?_⟩
  · obtain ⟨x, hx, rfl⟩ := List.mem_map.1 hi
    exact ⟨x.1, map_fst_filter_markedCells html ▸ List.mem_map_of_mem hx, rfl⟩
  · obtain ⟨es, he, h⟩ := bind_eq_ok.1 h
    obtain ⟨xs, hold, hrs, hxs⟩ := exists_collapsings (forall₂_of_mapM he)
    refine ⟨xs, hold.trans (map_fst_filter_markedCells html), ?_, hxs⟩
    rw [← pure_eq_ok.1 h, editTags_eq_substituted, ← Run.map_fst_markedCells, hrs]

def strayImage : Text := "<td><img x=\"=' \" a=\"></td><img x=\"=' \" a=\">'".toList

def longReference : Text := '&' :: '#' :: List.replicate (digitLimit + 1) '1'

def longStyle : Attributes := [⟨"style".toList, some longReference⟩]

theorem not_collapsed_of_longStyle :
    ¬ ∃ out, collapseImageCells (openTag cellName longStyle ++ "<img></td>".toList) = .ok out := by
  have hname : isName cellName = true := by decide
  have hlegal : longStyle.IsLegal := .singleton rfl
  have hquote : '"' ∉ longReference := by
    simp [longReference, List.mem_replicate]
  have hread : (Attributes.parse longStyle.render).styleText = longReference := by
    rw [Attributes.parse_render hlegal]
    exact escapeQuotes_eq_self hquote
  have hl : lexemes (openTag cellName longStyle ++ "<img></td>".toList) =
      .hit (.tag ⟨cellName, longStyle.render, false, false⟩) (openTag cellName longStyle) ::
        lexemes "<img></td>".toList := by
    rw [openTag_eq_tagText, lexemes_tagText (isTag_render hname hlegal), ofBody_render hlegal]
    rfl
  have hi : holdsImage (lexemes "<img></td>".toList) = true := by decide +kernel
  generalize "<img></td>".toList = rest at hl hi ⊢
  intro h
  obtain ⟨style, hs⟩ := exists_collapseImageCells_iff.1 h
    ⟨⟨cellName, longStyle.render, false, false⟩, 0, (openTag cellName longStyle).length⟩ (by
      rw [← map_fst_filter_markedCells, markedCells, hl]
      simp [markedCellsFrom, hi])
  obtain ⟨s, hs⟩ := exists_mergeStyle_iff.1 ⟨style, hs⟩
  have hblank : allBlank longReference ≠ true := by
    rw [longReference, allBlank, List.all_cons, show isBlank '&' = false by decide]
    exact Bool.false_ne_true
  rw [hread, Style.parse, if_neg hblank] at hs
  obtain ⟨t, ht, -⟩ := bind_eq_ok.1 hs
  rw [longReference, Entity.decode_longReference (by simp) (by simp)] at ht
  cases ht

theorem image_apart_of_cell_and_style_unread :
    (¬ ∀ html, ∀ cell ∈ tokens [] html, cell.name = cellName → cell.closing = false →
      (cell.start ∈ imageCells html ↔
        ∃ c ∈ tokens [] html, (c.name = cellName ∧ c.closing = true) ∧ cell.stop ≤ c.start ∧
          ∃ image ∈ tokens [] html, (image.name = "img".toList ∧ image.closing = false) ∧
            image.textIn html = trim ((html.take c.start).drop cell.stop))) ∧
      ¬ ∀ html, ∃ out, collapseImageCells html = .ok out := by
  refine ⟨fun h => ?_, fun h => not_collapsed_of_longStyle (h _)⟩
  let cell : Token := ⟨⟨cellName, [], false, false⟩, 0, 4⟩
  let close : Token := ⟨⟨cellName, [], true, false⟩, 21, 26⟩
  let image : Token := ⟨⟨"img".toList, " x=\"=' \" a=\"".toList, false, false⟩, 26, 43⟩
  have htokens : tokens [] strayImage = [cell, close, image] := by decide +kernel
  have hcell := h strayImage cell (by simp [htokens]) rfl rfl
  have hfound : cell.start ∈ imageCells strayImage :=
    hcell.2 ⟨close, by simp [htokens], ⟨rfl, rfl⟩, by decide, image, by simp [htokens],
      ⟨rfl, rfl⟩, by decide +kernel⟩
  have hnone : imageCells strayImage = [] := by decide +kernel
  rw [hnone] at hfound
  cases hfound

end MailMarkup.Table
