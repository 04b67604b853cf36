import MailMarkup.Proofs.Markup.AttributeChanges
import MailMarkup.Proofs.Markup.StyleMerging
import MailMarkup.Proofs.Table.NormalForm

namespace MailMarkup.Table

open Text Markup

def IsPreserved (key : Text) : Prop :=
  key ∈ keptNames ∨ ∃ p r, key = p ++ r ∧ p.map foldLetter ∈ keptBeginnings ∧ r ≠ [] ∧
    ∀ c ∈ r, isWordChar c = true ∨ c = '-'

theorem keeps_iff {key : Text} : keeps key = true ↔ IsPreserved key := by
  simp only [keeps, IsPreserved, Bool.or_eq_true, List.contains_iff_mem, List.any_eq_true,
    Option.any_eq_true, Bool.and_eq_true, Bool.not_eq_true', List.isEmpty_eq_false_iff,
    List.all_eq_true, beq_iff_eq, dropFolded?_eq_some_iff]
  refine or_congr_right ⟨?_, ?_⟩
  · rintro ⟨_, hw, r, ⟨p, rfl, rfl⟩, hr⟩
    exact ⟨p, r, rfl, hw, hr⟩
  · rintro ⟨p, r, rfl, hw, hr⟩
    exact ⟨_, hw, r, ⟨p, rfl, rfl⟩, hr⟩

instance (key : Text) : Decidable (IsPreserved key) := decidable_of_iff _ keeps_iff

example : IsPreserved "ARIA-x".toList ∧ ¬ IsPreserved "data-".toList ∧
    ¬ IsPreserved "data-a.b".toList := by decide +kernel

def ownStyle (l : Layout) : Style :=
  baseStyle ++
    if l.responsive then [⟨"max-width".toList, l.width.text ++ "px".toList⟩] else []

theorem containerStyle_eq (l : Layout) : containerStyle l = ownStyle l := by
  obtain ⟨responsive, size, pointed⟩ := l
  cases responsive <;> cases size <;> cases pointed <;> decide

def IsLeft (l : Layout) (d : Declaration) : Prop :=
  d.key ∉ widthProperties ∧ d.key ∉ (ownStyle l).map Declaration.key

instance (l : Layout) : DecidablePred (IsLeft l) :=
  fun _ => inferInstanceAs (Decidable (_ ∧ _))

theorem normalStyle_inversion {l : Layout} {t : Text} {s : Style} (h : normalStyle l t = .ok s) :
    ∃ author, Style.parse t = .ok author ∧
      s = ownStyle l ++ author.filter fun d => IsLeft l d := by
  obtain ⟨author, ha, h⟩ := bind_eq_ok.1 h
  refine ⟨author, ha, ?_⟩
  rw [← pure_eq_ok.1 h, containerStyle_eq, Style.mergedAhead, Style.foldl_remove_eq_filter,
    List.filter_filter]
  refine congrArg (ownStyle l ++ ·) (List.filter_congr fun d hd => ?_)
  obtain ⟨u, w, -, -, hw⟩ := Style.exists_chunk_of_parse ha hd
  have hkey : lower (trim d.property) = d.key := congrArg lower (Declaration.trim_property hw)
  have hwidths : widthProperties.map (fun p => lower (trim p)) = widthProperties := by decide
  have hall : (widthProperties.all fun p => d.key != lower (trim p)) =
      widthProperties.all (d.key != ·) :=
    List.all_map.symm.trans (congrArg (List.all · (d.key != ·)) hwidths)
  rw [Style.declares, hkey, hall, Bool.eq_iff_iff, Bool.and_eq_true, and_comm, decide_eq_true_iff]
  refine and_congr ?_ (by simp)
  simpa using List.forall_mem_ne

def tableKeys : List Text := ["role".toList, "align".toList, "width".toList, "border".toList,
  "cellpadding".toList, "cellspacing".toList, "style".toList]

def readAs (l : Layout) (as : Attributes) (author : Style) : Attributes :=
  (as.filter (IsPreserved ·.key)).map Attributes.written ++ [
    ⟨"role".toList, some "presentation".toList⟩,
    ⟨"align".toList, some "center".toList⟩,
    ⟨"width".toList, some (if l.responsive then "100%".toList else l.width.text)⟩,
    ⟨"border".toList, some "0".toList⟩,
    ⟨"cellpadding".toList, some "0".toList⟩,
    ⟨"cellspacing".toList, some "0".toList⟩,
    ⟨"style".toList,
      some (escapeQuotes (Style.render (ownStyle l ++ author.filter fun d => IsLeft l d)))⟩]

theorem filter_keeps (as : Attributes) :
    as.filter (keeps ·.key) = as.filter (IsPreserved ·.key) :=
  List.filter_congr fun a _ => by rw [Bool.eq_iff_iff, keeps_iff, decide_eq_true_iff]

theorem written_forcedAttributes (l : Layout) :
    (forcedAttributes l).map Attributes.written = forcedAttributes l := by
  obtain ⟨responsive, size, pointed⟩ := l
  cases responsive <;> cases size <;> cases pointed <;> decide

theorem map_written_normalList (l : Layout) (as : Attributes) (author : Style) :
    (normalList l (as.filter (keeps ·.key))
        (ownStyle l ++ author.filter fun d => IsLeft l d)).map Attributes.written =
      readAs l as author := by
  rw [normalList, List.map_append, List.map_append, written_forcedAttributes, filter_keeps]
  rfl

theorem countP_readAs (l : Layout) (as : Attributes) (author : Style) {key : Text}
    (hkey : key ∈ tableKeys) : (readAs l as author).countP (·.key == key) = 1 := by
  have hkept : keeps key = false := by
    revert key
    decide
  rw [readAs, List.countP_append, Attributes.countP_key_map_written, ← filter_keeps,
    Attributes.countP_key_filter hkept]
  simp only [tableKeys, List.mem_cons, List.not_mem_nil, or_false] at hkey
  rcases hkey with rfl | rfl | rfl | rfl | rfl | rfl | rfl <;> rfl

/-- The normal tag of any attribute text is one opening tag: the preserved attributes in their
order, then those of every table, once each. Its style is the program's own and behind that what is
left of the author's. -/
theorem normalTag_read {l : Layout} {attrs t : Text} (h : normalTag l attrs = .ok t) :
    ∃ (new : Token) (author : Style), tokens [] t = [new] ∧
      new.start = 0 ∧ new.stop = t.length ∧ new.name = name ∧
      new.closing = false ∧ new.selfClosing = false ∧
      Style.parse (Attributes.parse attrs).styleText = .ok author ∧
      Attributes.parse new.attrs = readAs l (.parse attrs) author ∧
      ∀ key ∈ tableKeys, (Attributes.parse new.attrs).countP (·.key == key) = 1 := by
  obtain ⟨as, has, h⟩ := bind_eq_ok.1 h
  obtain rfl := pure_eq_ok.1 h
  obtain ⟨s, hs, -⟩ := bind_eq_ok.1 has
  obtain rfl := Except.ok.inj ((normalAttributes_eq l hs).symm.trans has)
  obtain ⟨author, hauthor, rfl⟩ := normalStyle_inversion hs
  have hlegal := isLegal_normalList l ((Attributes.isLegal_parse attrs).filter (keeps ·.key))
    (ownStyle l ++ author.filter fun d => IsLeft l d)
  have hread := Attributes.parse_render hlegal
  rw [map_written_normalList] at hread
  refine ⟨_, author, tokens_openTag (by decide) hlegal, rfl, rfl, rfl, rfl, rfl, hauthor, hread, ?_⟩
  intro key hkey
  exact (congrArg (List.countP _) hread).trans (countP_readAs l _ author hkey)

def mixedAttributes : Text :=
  " ID=a Data-k='\"' height=3 WIDTH=5 ID=b data-=c ".toList ++
    "Style='Width:1px;color:red' style=a:b Role=x".toList

def mixedTable : Text :=
  "<table ID=\"a\" Data-k=\"&quot;\" ID=\"b\" role=\"presentation\" align=\"center\" ".toList ++
    "width=\"100%\" border=\"0\" cellpadding=\"0\" cellspacing=\"0\" style=\"".toList ++
    (containerStyle ⟨true, .px600, false⟩).render ++ "color:red;\">".toList

theorem normalTag_read_of_mixed :
    normalTag ⟨true, .px600, false⟩ mixedAttributes = .ok mixedTable ∧
      ∃ (new : Token) (author : Style), tokens [] mixedTable = [new] ∧
        new.start = 0 ∧ new.stop = mixedTable.length ∧ new.name = name ∧
        new.closing = false ∧ new.selfClosing = false ∧
        Style.parse (Attributes.parse mixedAttributes).styleText = .ok author ∧
        Attributes.parse new.attrs =
          readAs ⟨true, .px600, false⟩ (.parse mixedAttributes) author ∧
        ∀ key ∈ tableKeys, (Attributes.parse new.attrs).countP (·.key == key) = 1 := by
  have h : normalTag ⟨true, .px600, false⟩ mixedAttributes = .ok mixedTable := by decide +kernel
  exact ⟨h, normalTag_read h⟩

end MailMarkup.Table
