import MailMarkup.Proofs.Url.QueryBytes

namespace MailMarkup.Url

open Text

def queryText (address : Text) : Text :=
  (breakAt '?' (breakAt '#' (cleaned address)).1).2.getD []

theorem breakAt_append_of_not_mem {c : Char} {p : Text} (h : c ∉ p) (t : Text) :
    breakAt c (p ++ t) = (p ++ (breakAt c t).1, (breakAt c t).2) := by
  by_cases ht : c ∈ t
  · obtain ⟨s, v, rfl, hs⟩ := List.eq_append_cons_of_mem ht
    rw [← List.append_assoc, breakAt_append (by simp [h, hs]), breakAt_append hs]
  · rw [breakAt_of_not_mem (by simp [h, ht]), breakAt_of_not_mem ht]

theorem of_mem_marks {m : Char} (h : m ∈ ['?', '#']) : m.toLower = m ∧
    isSchemeChar m = false ∧ isNetlocEnd m = true ∧ m ≠ ':' ∧ m ≠ '/' := by
  simp only [List.mem_cons, List.not_mem_nil, or_false] at h
  rcases h with rfl | rfl <;> decide

theorem exists_before_path (t : Text) : ∃ p, t = p ++ (splitNetloc (splitScheme t).2).2 ∧
    ∀ m ∈ ['?', '#'], m ∉ p := by
  obtain ⟨s, hs, hsm⟩ : ∃ s, t = s ++ (splitScheme t).2 ∧ ∀ m ∈ ['?', '#'], m ∉ s := by
    rcases exists_splitScheme t with ht | ⟨s, r, rfl, ht, hscheme⟩
    · exact ⟨[], by rw [ht]; rfl, by simp⟩
    · refine ⟨s ++ [':'], by rw [ht]; simp, fun m hm hmem => ?_⟩
      obtain ⟨hlower, hchar, -, hcolon, -⟩ := of_mem_marks hm
      rcases List.mem_append.1 hmem with hmem | hmem
      · have hc := List.all_eq_true.1 hscheme.chars _ (List.mem_map_of_mem hmem)
        rw [hlower, hchar] at hc
        cases hc
      · exact hcolon (List.mem_singleton.1 hmem)
  obtain ⟨n, hn, hnm⟩ : ∃ n, (splitScheme t).2 = n ++ (splitNetloc (splitScheme t).2).2 ∧
      ∀ m ∈ ['?', '#'], m ∉ n := by
    generalize (splitScheme t).2 = r
    unfold splitNetloc
    split
    · rename_i r
      refine ⟨'/' :: '/' :: r.takeWhile (!isNetlocEnd ·), by simp, fun m hm hmem => ?_⟩
      obtain ⟨-, -, hend, -, hslash⟩ := of_mem_marks hm
      rcases List.mem_cons.1 hmem with h | hmem
      · exact hslash h
      rcases List.mem_cons.1 hmem with h | hmem
      · exact hslash h
      · simpa [hend] using List.mem_takeWhile_imp hmem
    · exact ⟨[], rfl, by simp⟩
  refine ⟨s ++ n, by rw [List.append_assoc, ← hn, ← hs], fun m hm hmem => ?_⟩
  exact (List.mem_append.1 hmem).elim (hsm m hm) (hnm m hm)

theorem query_of_parse {t : Text} {u : Url} (h : parse t = .ok u) : u.query = queryText t := by
  have hq : u.query =
      (breakAt '?' (breakAt '#' (splitNetloc (splitScheme (cleaned t)).2).2).1).2.getD [] := by
    obtain ⟨_, -, h⟩ := bind_eq_ok.1 h
    obtain ⟨_, -, h⟩ := bind_eq_ok.1 h
    rw [← pure_eq_ok.1 h]
    rfl
  obtain ⟨p, hp, hm⟩ := exists_before_path (cleaned t)
  generalize (splitNetloc (splitScheme (cleaned t)).2).2 = path at hp hq
  rw [hq, queryText, hp, breakAt_append_of_not_mem (hm '#' (by simp)),
    breakAt_append_of_not_mem (hm '?' (by simp))]

theorem exists_cleaned_append (p : Text) {t : Text} (ht : ∀ c ∈ t.head?, 0x20 < c.toNat) :
    ∃ q, cleaned (p ++ t) = q ++ t.filter (!isDropped ·) ∧ ∀ c ∈ q, c ∈ p := by
  have hself : t.dropWhile (·.toNat ≤ 0x20) = t := by
    cases t with
    | nil => rfl
    | cons c t => exact List.dropWhile_cons_of_neg (by simpa using ht c rfl)
  have hdrop : (p ++ t).dropWhile (·.toNat ≤ 0x20) = p.dropWhile (·.toNat ≤ 0x20) ++ t := by
    rw [List.dropWhile_append, hself]
    split
    · rename_i he
      rw [List.isEmpty_iff.1 he]
      rfl
    · rfl
  refine ⟨(p.dropWhile (·.toNat ≤ 0x20)).filter (!isDropped ·), ?_, fun c hc => ?_⟩
  · rw [cleaned, hdrop, List.filter_append]
    rfl
  · exact (List.dropWhile_sublist _).subset (List.mem_filter.1 hc).1

theorem breakAt_marks {p q r : Text} (hp : ∀ m ∈ ['?', '#'], m ∉ p) (hq : '#' ∉ q)
    (hr : r = [] ∨ ∃ s, r = '#' :: s) :
    (breakAt '?' (breakAt '#' (p ++ (withMark '?' q ++ r))).1).2.getD [] = q := by
  have hfirst : '#' ∉ p ++ withMark '?' q := by
    rw [List.mem_append, not_or]
    exact ⟨hp '#' (by simp), fun hm => (mem_withMark hm).elim (by decide) hq⟩
  have hbreak : (breakAt '#' (p ++ (withMark '?' q ++ r))).1 = p ++ withMark '?' q := by
    rw [← List.append_assoc]
    obtain rfl | ⟨s, rfl⟩ := hr
    · rw [List.append_nil, breakAt_of_not_mem hfirst]
    · rw [breakAt_append hfirst]
  rw [hbreak, withMark]
  split
  · rename_i he
    rw [List.append_nil, breakAt_of_not_mem (hp '?' (by simp)), List.isEmpty_iff.1 he]
    rfl
  · rw [breakAt_append (hp '?' (by simp))]
    rfl

theorem queryText_render {u : Url}
    (hm : ∀ m ∈ ['?', '#'], m ∉ u.scheme ∧ m ∉ u.netloc ∧ m ∉ u.path)
    (hq : ∀ c ∈ u.query, c ≠ '#' ∧ isDropped c = false) : queryText u.render = u.query := by
  have hfront : ∀ m ∈ ['?', '#'],
      m ∉ (if u.scheme.isEmpty then [] else u.scheme ++ [':']) ++ u.located := by
    intro m hmark
    obtain ⟨-, -, -, hcolon, hslash⟩ := of_mem_marks hmark
    obtain ⟨hs, hn, hp⟩ := hm m hmark
    rw [List.mem_append, not_or]
    refine ⟨by split <;> simp [hs, hcolon], fun hl => ?_⟩
    rcases mem_located hl with h | h | h
    · exact hslash h
    · exact hn h
    · exact hp h
  have hhead : ∀ c ∈ (withMark '?' u.query ++ withMark '#' u.fragment).head?, 0x20 < c.toNat := by
    rw [withMark, withMark]
    split <;> split <;> simp
  obtain ⟨p, hp, hsub⟩ := exists_cleaned_append
    ((if u.scheme.isEmpty then [] else u.scheme ++ [':']) ++ u.located) hhead
  have hkept : (withMark '?' u.query).filter (!isDropped ·) = withMark '?' u.query := by
    refine List.filter_eq_self.2 fun c hc => ?_
    rcases mem_withMark hc with rfl | hc
    · rfl
    · simp [(hq c hc).2]
  have hrest : (withMark '#' u.fragment).filter (!isDropped ·) = [] ∨
      ∃ s, (withMark '#' u.fragment).filter (!isDropped ·) = '#' :: s := by
    rw [withMark]
    split
    · exact .inl rfl
    · exact .inr ⟨_, List.filter_cons_of_pos (by decide)⟩
  rw [queryText, render, List.append_assoc, hp, List.filter_append, hkept]
  exact breakAt_marks (fun m hmark hmem => hfront m hmark (hsub m hmem))
    (fun h => (hq _ h).1 rfl) hrest

end MailMarkup.Url

namespace MailMarkup.Link

open Text

variable {c : Campaign} {u : Url} {href new : Text}

theorem queryText_marked (h : Url.parse href = .ok u) :
    Url.queryText (c.marked u).render = (c.mark (.parse (Url.queryText href))).render := by
  have hfront : ∀ m ∈ ['?', '#'], m ∉ u.scheme ∧ m ∉ u.netloc ∧ m ∉ (c.marked u).path := by
    intro m hm
    obtain ⟨-, hs, hn, -, hslash⟩ := Url.of_mem_marks hm
    refine ⟨fun hmem => ?_, fun hmem => ?_, fun hmem => ?_⟩
    · rcases Url.scheme_of_parse h with he | he
      · simp [he] at hmem
      · rw [List.all_eq_true.1 he.chars m hmem] at hs
        cases hs
    · exact List.any_eq_false.1 (Url.netloc_of_parse h) m hmem hn
    · have hpath : m ∉ u.path := by
        obtain ⟨h1, h2⟩ := Url.path_of_parse h
        simp only [List.mem_cons, List.not_mem_nil, or_false] at hm
        obtain rfl | rfl := hm
        · exact h1
        · exact h2
      simp only [Campaign.marked] at hmem
      split at hmem
      · exact hslash (List.mem_singleton.1 hmem)
      · exact hpath hmem
  rw [← Url.query_of_parse h]
  exact Url.queryText_render hfront fun d hd => Url.Query.ne_mark_of_mem_render hd

def campaignNames : List Bytes :=
  [encodeUtf8 "utm_medium".toList, encodeUtf8 "utm_campaign".toList]

def isAuthored (p : Url.ByteParameter) : Bool := !campaignNames.contains p.1

def authored (address : Text) : List Url.ByteParameter :=
  (Url.parameterBytes (Url.queryText address)).filter isAuthored

theorem isAuthored_repaired (p : Url.ByteParameter) :
    isAuthored (Prod.map repaired repaired p) = isAuthored p := by
  have hiff : repaired p.1 ∈ campaignNames ↔ p.1 ∈ campaignNames := by
    simp only [campaignNames, repaired, List.mem_cons, List.not_mem_nil, or_false,
      encodeUtf8_injective.eq_iff]
    rw [decodeUtf8Lossy_eq_iff (by decide), decodeUtf8Lossy_eq_iff (by decide)]
  rw [isAuthored, isAuthored, Prod.map_fst, Bool.not_inj_iff, Bool.eq_iff_iff,
    List.contains_iff_mem, List.contains_iff_mem, hiff]

theorem filter_isAuthored_mark (c : Campaign) (q : Url.Query) :
    (c.mark q).filter (isAuthored ∘ Prod.map encodeUtf8 encodeUtf8) =
      q.filter (isAuthored ∘ Prod.map encodeUtf8 encodeUtf8) := by
  obtain ⟨r, hm, hc⟩ := c.sets_mark q
  rw [hc.filter_other fun _ => by simp [isAuthored, campaignNames],
    hm.filter_other fun _ => by simp [isAuthored, campaignNames]]

theorem map_repaired_eq_self_iff {ps : List Url.ByteParameter} :
    ps.map (Prod.map repaired repaired) = ps ↔
      ∀ p ∈ ps, isUtf8 p.1 = true ∧ isUtf8 p.2 = true := by
  conv_lhs => rhs; rw [← List.map_id ps]
  rw [List.map_inj_left]
  refine forall₂_congr fun p _ => ?_
  rw [id, Prod.ext_iff, Prod.map_fst, Prod.map_snd, repaired_eq_self_iff, repaired_eq_self_iff]

/-- A marked address has the author's own parameters in their order, repaired; it has them byte for
byte if and only if their bytes are UTF-8. -/
theorem authored_addParameters (h : addParameters c href = .ok new) :
    authored new = (authored href).map (Prod.map repaired repaired) ∧
      (authored new = authored href ↔
        ∀ p ∈ authored href, isUtf8 p.1 = true ∧ isUtf8 p.2 = true) := by
  obtain ⟨u, hu, -, rfl⟩ := addParameters_eq_ok.1 h
  have hmap : authored (c.marked u).render =
      (authored href).map (Prod.map repaired repaired) := by
    rw [authored, queryText_marked hu, Url.Query.parameterBytes_render, List.filter_map,
      filter_isAuthored_mark, Url.Query.parse_eq, List.filter_map, List.map_map, authored]
    exact congrArg (List.map _) (List.filter_congr fun p _ => isAuthored_repaired p)
  exact ⟨hmap, by rw [hmap, map_repaired_eq_self_iff]⟩

def mixedAddress : Text := "shop?n=%C3%A9+1&utm_medium=old&%e9=x&&b=é%2&utm_medium#top".toList

def markedMixedAddress : Text :=
  "shop?n=%C3%A9+1&utm_medium=m&%EF%BF%BD=x&b=%C3%A9%252#top".toList

theorem authored_addParameters_of_mixed :
    addParameters ⟨['m'], []⟩ mixedAddress = .ok markedMixedAddress ∧
      authored mixedAddress =
        [([110], [195, 169, 32, 49]), ([233], [120]), ([98], [195, 169, 37, 50])] ∧
      authored markedMixedAddress =
        [([110], [195, 169, 32, 49]), ([239, 191, 189], [120]), ([98], [195, 169, 37, 50])] := by
  have hnew : addParameters ⟨['m'], []⟩ mixedAddress = .ok markedMixedAddress := by
    decide +kernel
  have hown : authored mixedAddress =
      [([110], [195, 169, 32, 49]), ([233], [120]), ([98], [195, 169, 37, 50])] := by
    decide +kernel
  have hkept := (authored_addParameters hnew).1
  rw [hown] at hkept
  exact ⟨hnew, hown, hkept.trans (by decide +kernel)⟩

theorem authored_lost_in_other_code :
    ¬ ∀ (c : Campaign) (href new : Text), addParameters c href = .ok new →
      authored new = authored href := by
  intro h
  have hnew : addParameters ⟨['m'], []⟩ "/p?a=%FF".toList =
      .ok "/p?a=%EF%BF%BD&utm_medium=m".toList := by decide +kernel
  exact absurd (h _ _ _ hnew) (by decide +kernel)

end MailMarkup.Link
