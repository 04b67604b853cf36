import MailMarkup.Proofs.Table.NormalForm

namespace MailMarkup.Markup

open Text

namespace Attributes

variable {as bs forced : Attributes} {f : Attribute} {name : Text}

def renewed (forced : Attributes) : Attributes → Attributes
  | [] => []
  | a :: as =>
    match forced.find? (·.key == a.key) with
    | none => a :: renewed forced as
    | some f => f :: (renewed forced as).remove f.name

def placed (forced as : Attributes) : Attributes :=
  renewed forced as ++ forced.filter (!as.has ·.name)

theorem has_eq_false_iff : as.has name = false ↔ ∀ a ∈ as, a.key ≠ lower name := by
  simp [has]

theorem has_cons (a : Attribute) (as : Attributes) (name : Text) :
    has (a :: as) name = (a.key == lower name || as.has name) := rfl

theorem find?_key_of_not_has (h : as.has name = false) :
    as.find? (·.key == lower name) = none :=
  List.find?_eq_none.2 fun a ha => by simpa using has_eq_false_iff.1 h a ha

theorem remove_cons_self {a : Attribute} (h : a.key = lower name) :
    remove (a :: as) name = as.remove name :=
  List.filter_cons_of_neg (by simp [h])

theorem remove_cons_of_ne {a : Attribute} (h : a.key ≠ lower name) :
    remove (a :: as) name = a :: as.remove name :=
  List.filter_cons_of_pos (by simp [h])

theorem remove_comm (as : Attributes) (m n : Text) :
    (as.remove m).remove n = (as.remove n).remove m := List.filter_comm ..

theorem remove_remove (as : Attributes) (n : Text) : (as.remove n).remove n = as.remove n :=
  remove_eq_self (has_remove as n)

theorem renewed_nil (as : Attributes) : renewed [] as = as := by
  induction as with
  | nil => rfl
  | cons a as ih => exact congrArg (a :: ·) ih

theorem has_eq_false_or_find? (forced : Attributes) (a : Attribute) :
    forced.has a.name = false ∨
      ∃ g ∈ forced, g.key = a.key ∧ forced.find? (·.key == a.key) = some g := by
  cases hg : forced.find? (·.key == a.key) with
  | none =>
    refine .inl (has_eq_false_iff.2 fun g hm => ?_)
    exact beq_eq_false_iff_ne.1 (Bool.eq_false_iff.2 (List.find?_eq_none.1 hg g hm))
  | some g =>
    exact .inr ⟨g, List.mem_of_find?_eq_some hg, by simpa using List.find?_some hg, rfl⟩

theorem renewed_cons_of_not_has {a : Attribute} (h : forced.has a.name = false)
    (as : Attributes) : renewed forced (a :: as) = a :: renewed forced as := by
  have hfind : forced.find? (·.key == a.key) = none := find?_key_of_not_has h
  rw [renewed, hfind]

theorem renewed_cons_of_find? {a g : Attribute} (h : forced.find? (·.key == a.key) = some g)
    (as : Attributes) : renewed forced (a :: as) = g :: (renewed forced as).remove g.name := by
  rw [renewed, h]

theorem renewed_remove (h : forced.has name = false) (as : Attributes) :
    renewed forced (as.remove name) = (renewed forced as).remove name := by
  induction as with
  | nil => rfl
  | cons a as ih =>
    rcases has_eq_false_or_find? forced a with hn | ⟨g, hg, hk, hfind⟩
    · rw [renewed_cons_of_not_has hn]
      by_cases hak : a.key = lower name
      · rw [remove_cons_self hak, remove_cons_self hak, ih]
      · rw [remove_cons_of_ne hak, remove_cons_of_ne hak, renewed_cons_of_not_has hn, ih]
    · have hgk : g.key ≠ lower name := has_eq_false_iff.1 h g hg
      rw [renewed_cons_of_find? hfind, remove_cons_of_ne (hk ▸ hgk), remove_cons_of_ne hgk,
        renewed_cons_of_find? hfind, remove_comm, ih]

theorem find?_cons_of_ne {a g : Attribute} (h : g.key ≠ a.key) (forced : Attributes) :
    (g :: forced).find? (·.key == a.key) = forced.find? (·.key == a.key) :=
  List.find?_cons_of_neg (by simpa using h)

theorem find?_cons_of_eq {a g : Attribute} (h : g.key = a.key) (forced : Attributes) :
    (g :: forced).find? (·.key == a.key) = some g :=
  List.find?_cons_of_pos (by simpa using h)

theorem remove_renewed_cons (hf : forced.has f.name = false) (as : Attributes) :
    (renewed (f :: forced) as).remove f.name = (renewed forced as).remove f.name := by
  induction as with
  | nil => rfl
  | cons a as ih =>
    by_cases hk : f.key = a.key
    · have hn : forced.has a.name = false := by
        have : lower a.name = lower f.name := hk.symm
        rwa [has, this]
      rw [renewed_cons_of_find? (find?_cons_of_eq hk forced), renewed_cons_of_not_has hn,
        remove_cons_self rfl, remove_cons_self hk.symm, remove_remove, ih]
    · rcases has_eq_false_or_find? forced a with hn | ⟨g, hg, hgk, hfind⟩
      · have hn' : has (f :: forced) a.name = false := by
          rw [has_cons, hn, Bool.or_false]
          exact beq_eq_false_iff_ne.2 hk
        rw [renewed_cons_of_not_has hn, renewed_cons_of_not_has hn',
          remove_cons_of_ne (Ne.symm hk), remove_cons_of_ne (Ne.symm hk), ih]
      · have hne : g.key ≠ lower f.name := hgk ▸ Ne.symm hk
        rw [renewed_cons_of_find? hfind,
          renewed_cons_of_find? ((find?_cons_of_ne hk forced).trans hfind),
          remove_cons_of_ne hne, remove_cons_of_ne hne, remove_comm, ih, remove_comm]

theorem renewed_cons_replace (hf : forced.has f.name = false) (has : as.has f.name = true) :
    renewed forced (replace f.name f.value as) = renewed (f :: forced) as := by
  induction as with
  | nil => cases has
  | cons a as ih =>
    by_cases hk : a.key = lower f.name
    · rw [replace, if_pos hk, renewed_cons_of_find? (find?_cons_of_eq hk.symm forced),
        remove_renewed_cons hf, ← renewed_remove hf]
      exact renewed_cons_of_not_has hf _
    · have has : Attributes.has as f.name = true := by
        rwa [has_cons, beq_eq_false_iff_ne.2 hk, Bool.false_or] at has
      rw [replace, if_neg hk]
      rcases has_eq_false_or_find? forced a with hn | ⟨g, hg, hgk, hfind⟩
      · have hn' : Attributes.has (f :: forced) a.name = false := by
          rw [has_cons, hn, Bool.or_false]
          exact beq_eq_false_iff_ne.2 (Ne.symm hk)
        rw [renewed_cons_of_not_has hn, renewed_cons_of_not_has hn', ih has]
      · rw [renewed_cons_of_find? hfind,
          renewed_cons_of_find? ((find?_cons_of_ne (Ne.symm hk) forced).trans hfind), ih has]

theorem renewed_cons_of_absent (h : as.has f.name = false) (forced : Attributes) :
    renewed (f :: forced) as = renewed forced as := by
  induction as with
  | nil => rfl
  | cons a as ih =>
    rw [has_cons, Bool.or_eq_false_iff, beq_eq_false_iff_ne] at h
    rw [renewed, renewed, find?_cons_of_ne (Ne.symm h.1), ih h.2]

theorem renewed_concat (hf : forced.has f.name = false) (as : Attributes) :
    renewed forced (as ++ [f]) = renewed forced as ++ [f] := by
  induction as with
  | nil => exact renewed_cons_of_not_has hf []
  | cons a as ih =>
    rw [List.cons_append]
    rcases has_eq_false_or_find? forced a with hn | ⟨g, hg, -, hfind⟩
    · rw [renewed_cons_of_not_has hn, renewed_cons_of_not_has hn, ih, List.cons_append]
    · have hne : f.key ≠ lower g.name := Ne.symm (has_eq_false_iff.1 hf g hg)
      have hone : remove [f] g.name = [f] := remove_cons_of_ne hne
      rw [renewed_cons_of_find? hfind, renewed_cons_of_find? hfind, ih, remove,
        List.filter_append, List.cons_append]
      exact congrArg (fun r => g :: (_ ++ r)) hone

theorem has_replace {value : Option Text} (m : Text) (h : as.has name = true) :
    (replace name value as).has m = as.has m := by
  induction as with
  | nil => rfl
  | cons a as ih =>
    rw [replace]
    split
    · rename_i hk
      rw [has_cons, has_cons, show (⟨name, value⟩ : Attribute).key = a.key from hk.symm]
      by_cases hm : a.key = lower m
      · simp [hm]
      · rw [beq_eq_false_iff_ne.2 hm, Bool.false_or, Bool.false_or, Bool.eq_iff_iff]
        simp only [Attributes.has, remove, List.any_eq_true, List.mem_filter, beq_iff_eq,
          bne_iff_ne]
        constructor
        · rintro ⟨b, hb, hbm⟩
          exact ⟨b, hb.1, hbm⟩
        · rintro ⟨b, hb, hbm⟩
          refine ⟨b, ⟨hb, ?_⟩, hbm⟩
          rw [hbm, ← hk]
          exact Ne.symm hm
    · rename_i hk
      rw [has_cons, beq_eq_false_iff_ne.2 hk, Bool.false_or] at h
      rw [has_cons, has_cons, ih h]

theorem has_set (as : Attributes) (name : Text) (value : Option Text) (m : Text) :
    (as.set name value).has m = (as.has m || lower name == lower m) := by
  rw [set]
  split
  · rename_i h
    rw [has_replace m h]
    by_cases hm : lower name = lower m
    · have : as.has m = true := by rwa [has, ← hm]
      rw [this, Bool.true_or]
    · rw [beq_eq_false_iff_ne.2 hm, Bool.or_false]
  · rw [has_append]
    exact congrArg (as.has m || ·) (Bool.or_false _)

theorem setAll_eq_placed (hd : forced.Pairwise fun f g => f.key ≠ g.key) (as : Attributes) :
    as.setAll forced = placed forced as := by
  induction forced generalizing as with
  | nil => rw [placed, renewed_nil]; exact (List.append_nil as).symm
  | cons f forced ih =>
    obtain ⟨hne, hd⟩ := List.pairwise_cons.1 hd
    have hf : Attributes.has forced f.name = false :=
      has_eq_false_iff.2 fun g hg => Ne.symm (hne g hg)
    have hrest : forced.filter (fun g => !(as.set f.name f.value).has g.name) =
        forced.filter (!as.has ·.name) := by
      refine List.filter_congr fun g hg => ?_
      have hk : (lower f.name == lower g.name) = false := beq_eq_false_iff_ne.2 (hne g hg)
      rw [has_set, hk, Bool.or_false]
    have hstep : as.setAll (f :: forced) = (as.set f.name f.value).setAll forced := rfl
    rw [hstep, ih hd, placed, hrest, placed]
    cases has : as.has f.name with
    | true =>
      rw [set, if_pos has, renewed_cons_replace hf has, List.filter_cons_of_neg (by simp [has])]
    | false =>
      rw [set_of_not_has has, renewed_concat hf, renewed_cons_of_absent has,
        List.filter_cons_of_pos (by simp [has]), List.append_assoc]
      rfl

theorem has_congr {m n : Text} (h : lower m = lower n) (as : Attributes) : as.has m = as.has n := by
  rw [has, has, h]

theorem has_of_mem (h : f ∈ as) : as.has f.name = true :=
  List.any_eq_true.2 ⟨f, h, beq_self_eq_true _⟩

theorem has_eq_false_iff_filter :
    as.has name = false ↔ as.filter (·.key == lower name) = [] := by
  simp [has]

theorem filter_remove {p : Attribute → Bool} (hp : ∀ a, p a = true → a.key ≠ lower name)
    (as : Attributes) : (as.remove name).filter p = as.filter p := by
  rw [remove, List.filter_filter]
  refine List.filter_congr fun a _ => ?_
  cases ha : p a with
  | false => rfl
  | true => simpa using hp a ha

theorem filter_renewed {p : Attribute → Bool} (hp : ∀ a, p a = true → forced.has a.name = false)
    (as : Attributes) : (renewed forced as).filter p = as.filter p := by
  induction as with
  | nil => rfl
  | cons a as ih =>
    rcases has_eq_false_or_find? forced a with hn | ⟨g, hg, hk, hfind⟩
    · rw [renewed_cons_of_not_has hn, List.filter_cons, List.filter_cons, ih]
    · have hnot : ∀ b : Attribute, b.key = g.key → p b ≠ true := by
        intro b hb hpb
        have := hp b hpb
        rw [has_congr hb, has_of_mem hg] at this
        cases this
      rw [renewed_cons_of_find? hfind, List.filter_cons_of_neg (hnot g rfl),
        List.filter_cons_of_neg (hnot a hk.symm), filter_remove, ih]
      exact fun b hpb hb => hnot b hb hpb

theorem filter_placed {p : Attribute → Bool} (hp : ∀ a, p a = true → forced.has a.name = false)
    (as : Attributes) : (placed forced as).filter p = as.filter p := by
  have hnone : (forced.filter (!as.has ·.name)).filter p = [] := by
    refine List.filter_eq_nil_iff.2 fun g hg hpg => ?_
    have := hp g hpg
    rw [has_of_mem (List.mem_filter.1 hg).1] at this
    cases this
  rw [placed, List.filter_append, filter_renewed hp, hnone, List.append_nil]

theorem filter_key_of_mem (hd : forced.Pairwise fun f g => f.key ≠ g.key) (hf : f ∈ forced) :
    forced.filter (·.key == f.key) = [f] := by
  induction forced with
  | nil => cases hf
  | cons g forced ih =>
    obtain ⟨hne, hd⟩ := List.pairwise_cons.1 hd
    rcases List.mem_cons.1 hf with rfl | hf
    · rw [List.filter_cons_of_pos (by simp), List.filter_eq_nil_iff.2]
      exact fun g hg => by simpa using Ne.symm (hne g hg)
    · rw [List.filter_cons_of_neg (by simpa using hne f hf), ih hd hf]

theorem filter_key_renewed (hd : forced.Pairwise fun f g => f.key ≠ g.key) (hf : f ∈ forced)
    (as : Attributes) :
    (renewed forced as).filter (·.key == f.key) = if as.has f.name = true then [f] else [] := by
  induction as with
  | nil => rfl
  | cons a as ih =>
    rw [has_cons]
    rcases has_eq_false_or_find? forced a with hn | ⟨g, hg, hk, hfind⟩
    · have hak : a.key ≠ f.key := Ne.symm (has_eq_false_iff.1 hn f hf)
      have hak' : (a.key == lower f.name) = false := beq_eq_false_iff_ne.2 hak
      rw [renewed_cons_of_not_has hn, List.filter_cons_of_neg (by simpa using hak), ih, hak',
        Bool.false_or]
    · rw [renewed_cons_of_find? hfind]
      by_cases hgf : g.key = f.key
      · obtain rfl : g = f := by
          have hm : g ∈ forced.filter (·.key == f.key) := List.mem_filter.2 ⟨hg, by simpa using hgf⟩
          rw [filter_key_of_mem hd hf] at hm
          exact List.mem_singleton.1 hm
        have hak : (a.key == lower g.name) = true := beq_iff_eq.2 hk.symm
        rw [List.filter_cons_of_pos (by simp), hak, Bool.true_or, if_pos rfl]
        exact congrArg (g :: ·) (has_eq_false_iff_filter.1 (has_remove _ _))
      · have hak : (a.key == lower f.name) = false := beq_eq_false_iff_ne.2 (hk ▸ hgf)
        rw [List.filter_cons_of_neg (by simpa using hgf), filter_remove, ih, hak, Bool.false_or]
        intro b hb hbg
        exact hgf (hbg.symm.trans (beq_iff_eq.1 hb))

theorem filter_key_placed (hd : forced.Pairwise fun f g => f.key ≠ g.key) (hf : f ∈ forced)
    (as : Attributes) : (placed forced as).filter (·.key == f.key) = [f] := by
  have hrest : (forced.filter (!as.has ·.name)).filter (·.key == f.key) =
      if as.has f.name = true then [] else [f] := by
    rw [List.filter_comm, filter_key_of_mem hd hf, List.filter_singleton]
    cases as.has f.name <;> rfl
  rw [placed, List.filter_append, filter_key_renewed hd hf, hrest]
  split <;> rfl

def leaving (dropped : List Text) (as : Attributes) : Attributes :=
  as.filter fun a => dropped.all (a.key != lower ·)

theorem foldl_remove_eq_leaving (dropped : List Text) (as : Attributes) :
    dropped.foldl remove as = leaving dropped as := by
  induction dropped generalizing as with
  | nil => exact (List.filter_eq_self.2 fun _ _ => rfl).symm
  | cons n ns ih =>
    rw [List.foldl_cons, ih, leaving, remove, List.filter_filter]
    exact List.filter_congr fun a _ => Bool.and_comm _ _

def ofStyle (s : Style) : Attributes :=
  if s.isEmpty then [] else [⟨"style".toList, some s.render⟩]

def asked (forced : Attributes) (author : Style) : Option Style → Attributes
  | none => forced
  | some b => forced ++ ofStyle (author.mergedAhead b)

def kept (as : Attributes) (s : Style) : Attributes :=
  if s.isEmpty then as.remove "style".toList else as

def newStyles (author : Style) (old : Attributes) : Option Style → Attributes
  | none => if author.isEmpty then [] else old
  | some b => ofStyle (author.mergedAhead b)

structure IsRevised (forced : Attributes) (dropped : List Text) (author : Style)
    (declared : Option Style) (old new : Attributes) : Prop where
  inPlace : new = (placed (asked forced author declared)
    (kept (leaving dropped old) (declared.elim author author.mergedAhead))).map written
  once : ∀ f ∈ forced, new.filter (·.key == f.key) = [written f]
  gone : ∀ n ∈ dropped, forced.has n = false → (lower n = "style".toList → declared = none) →
    new.has n = false
  others : new.filter (fun a => !forced.has a.name && a.key != "style".toList) =
    (old.filter fun a => dropped.all (a.key != lower ·) &&
      (!forced.has a.name && a.key != "style".toList)).map written
  styles : new.filter (·.key == "style".toList) =
    (newStyles author ((leaving dropped old).filter (·.key == "style".toList)) declared).map written

section

variable {author : Style} {declared : Option Style} {dropped : List Text} {old new : Attributes}
  {block : Option StyleBlock}

theorem lower_style : lower "style".toList = "style".toList := by decide

theorem has_ofStyle (s : Style) (h : lower name ≠ "style".toList) :
    (ofStyle s).has name = false := by
  rw [ofStyle]
  split
  · rfl
  · exact has_eq_false_iff.2 fun a ha => by
      rw [List.mem_singleton.1 ha]
      exact fun hk => h (hk.symm.trans lower_style)

theorem has_asked (h : lower name = "style".toList → declared = none) :
    (asked forced author declared).has name = forced.has name := by
  cases declared with
  | none => rfl
  | some b =>
    have hne : lower name ≠ "style".toList := fun hk => by cases h hk
    rw [asked, has_append, has_ofStyle _ hne, Bool.or_false]

theorem mem_asked (hf : f ∈ forced) : f ∈ asked forced author declared := by
  cases declared with
  | none => exact hf
  | some b => exact List.mem_append_left _ hf

theorem pairwise_asked (hd : forced.Pairwise fun f g => f.key ≠ g.key)
    (hs : forced.has "style".toList = false) :
    (asked forced author declared).Pairwise fun f g => f.key ≠ g.key := by
  cases declared with
  | none => exact hd
  | some b =>
    rw [asked, ofStyle]
    split
    · rwa [List.append_nil]
    · refine List.pairwise_append.2 ⟨hd, List.pairwise_singleton _ _, fun f hf g hg => ?_⟩
      rw [List.mem_singleton.1 hg]
      exact has_eq_false_iff.1 hs f hf

theorem placed_remove (hf : forced.has name = false) (as : Attributes) :
    (placed forced as).remove name = placed forced (as.remove name) := by
  have hrest : remove (forced.filter (!as.has ·.name)) name =
      forced.filter (!(as.remove name).has ·.name) := by
    rw [remove, List.filter_filter]
    refine List.filter_congr fun g hg => ?_
    have hne : g.key ≠ lower name := has_eq_false_iff.1 hf g hg
    have hsame : (as.remove name).has g.name = as.has g.name := by
      rw [Bool.eq_iff_iff, ← not_iff_not, Bool.not_eq_true, Bool.not_eq_true,
        has_eq_false_iff_filter, has_eq_false_iff_filter, filter_remove]
      exact fun a ha hk => hne ((beq_iff_eq.1 ha).symm.trans hk)
    rw [hsame, bne_iff_ne.2 hne, Bool.true_and]
  rw [placed, placed, renewed_remove hf, ← hrest]
  exact List.filter_append ..

theorem styleText_congr
    (h : as.filter (·.key == "style".toList) = bs.filter (·.key == "style".toList)) :
    as.styleText = bs.styleText := by
  rw [styleText, styleText, get?, get?, lower_style, ← List.head?_filter, ← List.head?_filter, h]

theorem filter_style_setAll (hd : forced.Pairwise fun f g => f.key ≠ g.key)
    (hs : forced.has "style".toList = false) (as : Attributes) :
    (as.setAll forced).filter (·.key == "style".toList) =
      as.filter (·.key == "style".toList) := by
  rw [setAll_eq_placed hd, filter_placed]
  intro a ha
  exact (has_congr ((beq_iff_eq.1 ha).trans lower_style.symm) forced).trans hs

theorem revise_inversion (hd : forced.Pairwise fun f g => f.key ≠ g.key)
    (hs : forced.has "style".toList = false) (h : as.revise forced block dropped = .ok bs) :
    ∃ author declared, Style.parse (leaving dropped as).styleText = .ok author ∧
      block.mapM StyleBlock.toStyle = .ok declared ∧
      bs = placed (asked forced author declared)
        (kept (leaving dropped as) (declared.elim author author.mergedAhead)) := by
  simp only [revise, foldl_remove_eq_leaving] at h
  have hstyle := styleText_congr (filter_style_setAll hd hs (leaving dropped as))
  have hremoved := placed_remove hs (leaving dropped as)
  cases block with
  | none =>
    obtain ⟨author, ha, h⟩ := bind_eq_ok.1 h
    refine ⟨author, none, hstyle ▸ ha, rfl, ?_⟩
    rw [← pure_eq_ok.1 h, setAll_eq_placed hd, hremoved, asked, Option.elim_none, kept]
    split <;> rfl
  | some b =>
    obtain ⟨author, ha, h⟩ := bind_eq_ok.1 h
    obtain ⟨s, hb, h⟩ := bind_eq_ok.1 h
    refine ⟨author, some s, hstyle ▸ ha, by rw [Option.mapM_some, hb]; rfl, ?_⟩
    have hasked : (asked forced author (some s)).Pairwise fun f g => f.key ≠ g.key :=
      pairwise_asked hd hs
    have hall := setAll_eq_placed hasked (leaving dropped as)
    rw [← pure_eq_ok.1 h, Option.elim_some, kept]
    rw [asked, ofStyle] at hall ⊢
    rw [List.foldl_nil]
    split
    · rw [List.append_nil, setAll_eq_placed hd, hremoved]
    · rename_i hne
      rw [if_neg hne] at hall
      rw [← hall, setAll, setAll, List.foldl_append]
      rfl

theorem filter_map_written {p : Attribute → Bool} (hp : ∀ a, p (written a) = p a)
    (as : Attributes) : (as.map written).filter p = (as.filter p).map written := by
  rw [List.filter_map]
  exact congrArg (List.map written) (List.filter_congr fun a _ => hp a)

theorem filter_kept {p : Attribute → Bool} (hp : ∀ a, p a = true → a.key ≠ "style".toList)
    (as : Attributes) (s : Style) : (kept as s).filter p = as.filter p := by
  rw [kept]
  split
  · exact filter_remove (fun a ha => lower_style ▸ hp a ha) as
  · rfl

theorem isLegal_ofStyle (s : Style) : (ofStyle s).IsLegal := by
  rw [ofStyle]
  split
  · exact .nil
  · exact .singleton rfl

theorem isLegal_asked (hf : forced.IsLegal) : (asked forced author declared).IsLegal := by
  cases declared with
  | none => exact hf
  | some b => exact hf.append (isLegal_ofStyle _)

theorem isLegal_renewed (hf : forced.IsLegal) (ha : as.IsLegal) :
    (renewed forced as).IsLegal := by
  induction as with
  | nil => exact .nil
  | cons a as ih =>
    obtain ⟨ha, has⟩ := List.forall_mem_cons.1 ha
    rcases has_eq_false_or_find? forced a with hn | ⟨g, hg, -, hfind⟩
    · rw [renewed_cons_of_not_has hn]
      exact List.forall_mem_cons.2 ⟨ha, ih has⟩
    · rw [renewed_cons_of_find? hfind]
      exact List.forall_mem_cons.2 ⟨hf g hg, All.remove (ih has) g.name⟩

theorem isLegal_placed (hf : forced.IsLegal) (ha : as.IsLegal) : (placed forced as).IsLegal :=
  (isLegal_renewed hf ha).append (hf.filter _)

theorem isLegal_kept (ha : as.IsLegal) (s : Style) : (kept as s).IsLegal := by
  rw [kept]
  split
  · exact ha.remove _
  · exact ha

theorem filter_style_placed (hd : forced.Pairwise fun f g => f.key ≠ g.key)
    (hs : forced.has "style".toList = false) (as : Attributes) :
    (placed (asked forced author declared)
        (kept as (declared.elim author author.mergedAhead))).filter (·.key == "style".toList) =
      newStyles author (as.filter (·.key == "style".toList)) declared := by
  have hgone : (as.remove "style".toList).filter (·.key == "style".toList) = [] := by
    have := has_eq_false_iff_filter.1 (has_remove as "style".toList)
    rwa [lower_style] at this
  have hother (a : Attribute) (ha : (a.key == "style".toList) = true) :
      forced.has a.name = false :=
    (has_congr ((beq_iff_eq.1 ha).trans lower_style.symm) forced).trans hs
  cases declared with
  | none =>
    rw [asked, filter_placed hother, Option.elim_none, kept, newStyles]
    split
    · exact hgone
    · rfl
  | some b =>
    rw [newStyles, Option.elim_some, kept]
    split
    · rename_i hempty
      rw [asked, ofStyle, if_pos hempty, List.append_nil, filter_placed hother, hgone]
    · rename_i hfilled
      have hm : ⟨"style".toList, some (author.mergedAhead b).render⟩ ∈
          asked forced author (some b) := by
        rw [asked, ofStyle, if_neg hfilled]
        exact List.mem_append_right _ (List.mem_singleton.2 rfl)
      rw [ofStyle, if_neg hfilled]
      exact filter_key_placed (pairwise_asked hd hs) hm as

theorem has_placed_eq_false (hf : forced.has name = false) (ha : as.has name = false) :
    (placed forced as).has name = false := by
  rw [has_eq_false_iff_filter, filter_placed, has_eq_false_iff_filter.1 ha]
  exact fun a hk => (has_congr (beq_iff_eq.1 hk) forced).trans hf

theorem has_kept_eq_false (ha : as.has name = false) (s : Style) :
    (kept as s).has name = false := by
  rw [kept]
  split
  · exact has_eq_false_iff.2 fun a hm => has_eq_false_iff.1 ha a (List.mem_filter.1 hm).1
  · exact ha

theorem has_leaving_eq_false {n : Text} (hn : n ∈ dropped) (as : Attributes) :
    (leaving dropped as).has n = false := by
  refine has_eq_false_iff.2 fun a ha => ?_
  simpa using List.all_eq_true.1 (List.mem_filter.1 ha).2 n hn

theorem isRevised_placed (hd : forced.Pairwise fun f g => f.key ≠ g.key)
    (hs : forced.has "style".toList = false) (author : Style) (declared : Option Style)
    (dropped : List Text) (old : Attributes) :
    IsRevised forced dropped author declared old
      ((placed (asked forced author declared)
        (kept (leaving dropped old) (declared.elim author author.mergedAhead))).map written) where
  inPlace := rfl
  once f hf := by
    rw [filter_map_written fun _ => rfl,
      filter_key_placed (pairwise_asked hd hs) (mem_asked hf)]
    rfl
  gone n hn hf hb := by
    have hasked : (asked forced author declared).has n = false := (has_asked hb).trans hf
    rw [has_eq_false_iff_filter, filter_map_written fun _ => rfl, has_eq_false_iff_filter.1]
    · rfl
    · exact has_placed_eq_false hasked (has_kept_eq_false (has_leaving_eq_false hn old) _)
  others := by
    have hother (a : Attribute)
        (ha : (!forced.has a.name && a.key != "style".toList) = true) :
        forced.has a.name = false ∧ a.key ≠ "style".toList := by simpa using ha
    rw [filter_map_written fun _ => rfl, filter_placed, filter_kept, leaving, List.filter_filter]
    · simp only [Bool.and_comm]
    · exact fun a ha => (hother a ha).2
    · intro a ha
      obtain ⟨hn, hk⟩ := hother a ha
      rw [has_asked fun h => absurd h hk, hn]
  styles := by
    rw [filter_map_written fun _ => rfl, filter_style_placed hd hs]

/-- Revised attributes are read with every forced attribute once and in its place, without the
dropped names, and with the one style that the block gives or the author's own. -/
theorem revise_read {t : Text} (hl : forced.IsLegal)
    (hd : forced.Pairwise fun f g => f.key ≠ g.key) (hs : forced.has "style".toList = false)
    (h : (parse t).revise forced block dropped = .ok bs) :
    ∃ author declared, Style.parse (leaving dropped (parse t)).styleText = .ok author ∧
      block.mapM StyleBlock.toStyle = .ok declared ∧
      IsRevised forced dropped author declared (parse t) (parse bs.render) := by
  obtain ⟨author, declared, ha, hb, rfl⟩ := revise_inversion hd hs h
  have hold : (leaving dropped (parse t)).IsLegal := (isLegal_parse t).filter _
  refine ⟨author, declared, ha, hb, ?_⟩
  rw [parse_render (isLegal_placed (isLegal_asked hl) (isLegal_kept hold _))]
  exact isRevised_placed hd hs author declared dropped (parse t)

end

def cellText : Text :=
  " ID=a Title=t Style='color:red' height=3 id=b nowrap class=c STYLE=d:e Height=4".toList

def cellForced : Attributes :=
  [⟨"class".toList, some "\"".toList⟩, ⟨"lang".toList, some "en".toList⟩, ⟨"Id".toList, none⟩]

def cellDropped : List Text := ["HEIGHT".toList, "title".toList]

def cellRevised : Attributes := [
  ⟨"Id".toList, none⟩, ⟨"style".toList, some "COLOR:blue;".toList⟩, ⟨"nowrap".toList, none⟩,
  ⟨"class".toList, some "\"".toList⟩, ⟨"lang".toList, some "en".toList⟩]

theorem revise_read_of_cell :
    cellForced.IsLegal ∧ (cellForced.Pairwise fun f g => f.key ≠ g.key) ∧
      cellForced.has "style".toList = false ∧
      (parse cellText).revise cellForced (some (.text "COLOR:blue".toList)) cellDropped =
        .ok cellRevised ∧
      ∃ author declared, Style.parse (leaving cellDropped (parse cellText)).styleText = .ok author ∧
        (some (StyleBlock.text "COLOR:blue".toList)).mapM StyleBlock.toStyle = .ok declared ∧
        IsRevised cellForced cellDropped author declared (parse cellText)
          (parse cellRevised.render) := by
  have hl : cellForced.IsLegal :=
    List.all_eq_true.1 (show cellForced.all (isLegalName ·.name) = true by decide)
  have hd : cellForced.Pairwise fun f g => f.key ≠ g.key := by decide
  have hs : cellForced.has "style".toList = false := by decide
  have h : (parse cellText).revise cellForced (some (.text "COLOR:blue".toList)) cellDropped =
      .ok cellRevised := by decide +kernel
  exact ⟨hl, hd, hs, h, revise_read hl hd hs h⟩

end Attributes

end MailMarkup.Markup
