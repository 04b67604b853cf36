import MailMarkup.Proofs.Files.FileNames
import MailMarkup.Proofs.Files.Saving
import MailMarkup.Proofs.Image.AltClaims

namespace MailMarkup.Files

open Text

theorem safeName_ne_nil (t : Text) : safeName t ≠ [] := by
  rw [safeName_eq]
  exact finished_ne_nil _

theorem isLegal_of_mem_safeName {t : Text} {c : Char} (hc : c ∈ safeName t) : IsLegal c := by
  rw [safeName_eq] at hc
  refine isLegal_of_mem_finished ?_ c hc
  intro d hd
  exact isLegal_iff.2 ((isCleaned_cleaned t).allowed d (shortened_subset _ hd))

def stemOf (campaign : Text) : Text :=
  if (trim campaign).isEmpty then "email_formatted".toList
  else safeName ((trim campaign).map fun c => if c = ' ' then '_' else c)

def copyName (campaign : Text) (k : Nat) : Text :=
  stemOf campaign ++ if k = 0 then ".html".toList else '_' :: (ofNat k ++ ".html".toList)

variable {campaign : Text} {k n fuel : Nat}

theorem campaignName_eq (campaign : Text) : campaignName campaign = copyName campaign 0 := by
  rw [campaignName, copyName, stemOf]
  split
  · rfl
  · rfl

theorem stemOf_ne_nil (campaign : Text) : stemOf campaign ≠ [] := by
  rw [stemOf]
  split
  · decide
  · exact safeName_ne_nil _

theorem isLegal_of_mem_stemOf {c : Char} (hc : c ∈ stemOf campaign) : IsLegal c := by
  rw [stemOf] at hc
  split at hc
  · exact List.forall_iff_forall_mem.1 (by decide) c hc
  · exact isLegal_of_mem_safeName hc

theorem isLegal_of_isDigit {c : Char} (h : c.isDigit = true) : IsLegal c := by
  have hdigit := Markup.isDigit_iff.1 h
  have hsigns : List.Forall (fun d => d.toNat < 48 ∨ 57 < d.toNat) "<>:\"/\\|?*".toList := by decide
  refine ⟨fun hc => ?_, by omega⟩
  have hout := List.forall_iff_forall_mem.1 hsigns c hc
  omega

theorem isLegal_of_mem_copyName {c : Char} (hc : c ∈ copyName campaign k) : IsLegal c := by
  have hsuffix : ∀ c ∈ ".html".toList, IsLegal c := List.forall_iff_forall_mem.1 (by decide)
  rcases List.mem_append.1 hc with hc | hc
  · exact isLegal_of_mem_stemOf hc
  split at hc
  · exact hsuffix c hc
  rcases List.mem_cons.1 hc with rfl | hc
  · decide
  rcases List.mem_append.1 hc with hc | hc
  · exact isLegal_of_isDigit (isDigit_of_mem_ofNat hc)
  · exact hsuffix c hc

theorem copyName_injective (campaign : Text) : Function.Injective (copyName campaign) := by
  intro j k h
  have h := List.append_cancel_left h
  split at h <;> split at h
  · omega
  · exact absurd (List.cons.inj h).1 (by decide)
  · exact absurd (List.cons.inj h).1 (by decide)
  · exact ofNat_injective (List.append_cancel_right (List.cons.inj h).2)

structure IsPlainName (name : Text) : Prop where
  ne_nil : name ≠ []
  one : '/' ∉ name
  ne_here : name ≠ ".".toList
  ne_up : name ≠ "..".toList

theorem isPlainName_copyName (campaign : Text) (k : Nat) : IsPlainName (copyName campaign k) := by
  have hlen : 5 < (copyName campaign k).length := by
    have hstem := List.length_pos_of_ne_nil (stemOf_ne_nil campaign)
    rw [copyName, List.length_append]
    split
    · simp
      omega
    · simp
      omega
  constructor
  · rintro h
    simp [h] at hlen
  · intro h
    exact (isLegal_of_mem_copyName h).1 (by decide)
  · intro h
    simp [h] at hlen
  · intro h
    simp [h] at hlen

namespace Path

variable {folder : Path}

theorem name_child (folder : Path) (name : Text) : (folder.child name).name = name := by
  simp [Path.name, child]

theorem parent_child (folder : Path) (name : Text) : (folder.child name).parent = folder := by
  simp [parent, child]

theorem splitSuffix_html {stem : Text} (h : stem ≠ []) :
    splitSuffix (stem ++ ".html".toList) = (stem, ".html".toList) := by
  have hrev : (stem ++ ".html".toList).reverse =
      'l' :: 'm' :: 't' :: 'h' :: '.' :: stem.reverse := by simp
  have htail : ((stem ++ ".html".toList).reverse.takeWhile (· != '.')).reverse =
      "html".toList := by
    rw [hrev]
    simp
  have hstem : (stem ++ ".html".toList).take
      ((stem ++ ".html".toList).length - "html".toList.length - 1) = stem := by
    simp
  rw [splitSuffix, htail, hstem]
  exact if_pos (by simp [h])

theorem numbered_copyName (folder : Path) (campaign : Text) (hk : k ≠ 0) :
    (folder.child (copyName campaign 0)).numbered k = folder.child (copyName campaign k) := by
  rw [numbered, name_child, parent_child, copyName, if_pos rfl,
    splitSuffix_html (stemOf_ne_nil campaign), copyName, if_neg hk]
  simp

def IsWithinLimits (p : Path) : Prop :=
  (encodeUtf8 p.text).length < Tree.pathLimit ∧ ∀ w ∈ p.parts, Tree.isLong w = false

end Path

namespace Tree

variable {t : Tree} {p folder : Path} {here place : Place}

def Holds (t : Tree) (p : Path) : Prop := ∃ place n, t.look p = .ok (place, some n)

theorem enter_eq_ok {w : Text} {q : Place} : t.enter here w = .ok q ↔
    t.find? here = some .folder ∧ isLong w = false ∧
      q = if w = "..".toList then here.dropLast else here ++ [w] := by
  constructor
  · intro h
    have hf := find?_of_enter h
    rw [enter, hf] at h
    cases hl : isLong w with
    | true => simp [hl] at h
    | false => exact ⟨hf, rfl, by simpa [hl, eq_comm] using h⟩
  · rintro ⟨hf, hl, rfl⟩
    rw [enter, hf, hl]
    rfl

theorem exists_isLong_of_enter {w : Text} (h : t.enter here w = .error .longName) :
    isLong w = true := by
  rw [enter] at h
  split at h
  · cases h
  · cases h
  split at h
  · assumption
  · cases h

theorem exists_isLong_of_foldlM {ws : List Text}
    (h : ws.foldlM t.enter here = .error .longName) : ∃ w ∈ ws, isLong w = true := by
  induction ws generalizing here with
  | nil => cases h
  | cons w ws ih =>
    rcases bind_eq_error.1 h with h | ⟨q, -, h⟩
    · exact ⟨w, List.mem_cons_self, exists_isLong_of_enter h⟩
    · obtain ⟨v, hv, hl⟩ := ih h
      exact ⟨v, List.mem_cons_of_mem _ hv, hl⟩

theorem not_isWithinLimits_of_look (h : t.look p = .error .longName) : ¬ p.IsWithinLimits := by
  rintro ⟨hlen, hnames⟩
  rcases bind_eq_error.1 h with h | ⟨_, -, h⟩
  · rcases bind_eq_error.1 h with h | ⟨_, -, h⟩
    · rw [checkText] at h
      split at h
      · cases h
      split at h
      · omega
      · cases h
    · obtain ⟨w, hw, hl⟩ := exists_isLong_of_foldlM h
      rw [hnames w hw] at hl
      cases hl
  · cases h

theorem isTaken_cases (t : Tree) (p : Path) :
    (t.isTaken p = .ok true ∧ t.Holds p) ∨ (t.isTaken p = .ok false ∧ ¬ t.Holds p) ∨
      (t.isTaken p = .error ⟨.longName, p.text⟩ ∧ ¬ p.IsWithinLimits) := by
  have hnone {r : Except Cause (Place × Option Node)} (hl : t.look p = r)
      (hr : ∀ place n, r ≠ .ok (place, some n)) : ¬ t.Holds p := by
    rintro ⟨place, n, h⟩
    exact hr place n (hl.symm.trans h)
  rw [isTaken]
  cases hl : t.look p with
  | ok found =>
    obtain ⟨place, n⟩ := found
    cases n with
    | some n => exact .inl ⟨rfl, place, n, hl⟩
    | none => exact .inr (.inl ⟨rfl, hnone hl (by simp)⟩)
  | error c =>
    cases c with
    | longName => exact .inr (.inr ⟨rfl, not_isWithinLimits_of_look hl⟩)
    | _ => exact .inr (.inl ⟨rfl, hnone hl (by simp)⟩)

theorem locate_child {name : Text} (h : IsPlainName name)
    (hl : t.locate (folder.child name) = .ok place) :
    ∃ here, folder.parts.foldlM t.enter (startOf folder) = .ok here ∧ place = here ++ [name] := by
  obtain ⟨_, -, hf⟩ := bind_eq_ok.1 hl
  have hstart : startOf (folder.child name) = startOf folder := rfl
  have hparts : (folder.child name).parts = folder.parts ++ [name] := rfl
  rw [hstart, hparts, List.foldlM_append] at hf
  obtain ⟨here, hh, hf⟩ := bind_eq_ok.1 hf
  refine ⟨here, hh, ?_⟩
  obtain ⟨q, hq, hf⟩ := bind_eq_ok.1 hf
  obtain ⟨-, -, hq⟩ := enter_eq_ok.1 hq
  rw [← pure_eq_ok.1 hf, hq, if_neg h.ne_up]

theorem mem_entries_of_find? {n : Node} (h : t.find? place = some n) (hne : place ≠ []) :
    place ∈ t.entries.map Prod.fst := by
  rw [find?, if_neg (by simpa using hne)] at h
  obtain ⟨l₁, l₂, he, -⟩ := List.lookup_eq_some_iff.1 h
  rw [he]
  simp

theorem exists_not_holds (t : Tree) (folder : Path) (campaign : Text) :
    ∃ k ≤ t.entries.length, ¬ t.Holds (folder.child (copyName campaign k)) := by
  by_contra hall
  have hall : ∀ k ≤ t.entries.length, t.Holds (folder.child (copyName campaign k)) := by
    intro k hk
    by_contra hfree
    exact hall ⟨k, hk, hfree⟩
  obtain ⟨_, _, hl⟩ := hall 0 (Nat.zero_le _)
  obtain ⟨here, hh, -⟩ := locate_child (isPlainName_copyName campaign 0) (look_eq_ok.1 hl).1
  have hsub : (List.range (t.entries.length + 1)).map
      (fun k => here ++ [copyName campaign k]) ⊆ t.entries.map Prod.fst := by
    intro q hq
    obtain ⟨k, hk, rfl⟩ := List.mem_map.1 hq
    obtain ⟨place, n, hl⟩ := hall k (Nat.le_of_lt_succ (List.mem_range.1 hk))
    obtain ⟨hp, hn⟩ := look_eq_ok.1 hl
    obtain ⟨here', hh', rfl⟩ := locate_child (isPlainName_copyName campaign k) hp
    obtain rfl := Except.ok.inj (hh.symm.trans hh')
    exact mem_entries_of_find? hn (by simp)
  have hinj : Function.Injective fun k => here ++ [copyName campaign k] := by
    intro j k h
    exact copyName_injective campaign (List.singleton_inj.1 (List.append_cancel_left h))
  have hlen := ((List.nodup_range.map hinj).subperm hsub).length_le
  simp only [List.length_map, List.length_range] at hlen
  omega

inductive Proposes (t : Tree) (folder : Path) (campaign : Text) : Path → Prop
  | itself : ¬ t.Holds (folder.child (campaignName campaign)) →
      Proposes t folder campaign (folder.child (campaignName campaign))
  | copy {k : Nat} : t.Holds (folder.child (campaignName campaign)) →
      IsLeast {k | 1 ≤ k ∧ ¬ t.Holds (folder.child (copyName campaign k))} k →
      Proposes t folder campaign (folder.child (copyName campaign k))

theorem Proposes.not_holds (h : Proposes t folder campaign p) : ¬ t.Holds p := by
  cases h with
  | itself h => exact h
  | copy _ h => exact h.1.2

theorem Proposes.exists_copy (h : Proposes t folder campaign p) :
    ∃ k, p = folder.child (copyName campaign k) := by
  cases h with
  | itself => exact ⟨0, by rw [campaignName_eq]⟩
  | @copy k => exact ⟨k, rfl⟩

theorem firstFree_spec (hn : 1 ≤ n)
    (hbefore : ∀ k, 1 ≤ k → k < n → t.Holds (folder.child (copyName campaign k)))
    (hfree : ∃ k, n ≤ k ∧ k < n + fuel ∧ ¬ t.Holds (folder.child (copyName campaign k))) :
    (∃ k, t.firstFree (folder.child (copyName campaign 0)) fuel n =
        .ok (folder.child (copyName campaign k)) ∧
      IsLeast {k | 1 ≤ k ∧ ¬ t.Holds (folder.child (copyName campaign k))} k) ∨
    ∃ k < n + fuel, ¬ (folder.child (copyName campaign k)).IsWithinLimits ∧
      t.firstFree (folder.child (copyName campaign 0)) fuel n =
        .error ⟨.longName, (folder.child (copyName campaign k)).text⟩ := by
  induction fuel generalizing n with
  | zero =>
    obtain ⟨k, hk, hlt, -⟩ := hfree
    omega
  | succ fuel ih =>
    have hcopy := Path.numbered_copyName folder campaign (Nat.ne_of_gt hn)
    rw [firstFree, hcopy]
    rcases t.isTaken_cases (folder.child (copyName campaign n)) with
      ⟨ht, hh⟩ | ⟨ht, hh⟩ | ⟨ht, hlong⟩
    · have hnext : ∀ k, 1 ≤ k → k < n + 1 → t.Holds (folder.child (copyName campaign k)) := by
        intro k hk hlt
        rcases Nat.lt_succ_iff_lt_or_eq.1 hlt with hlt | rfl
        · exact hbefore k hk hlt
        · exact hh
      obtain ⟨k, hk, hlt, hkfree⟩ := hfree
      have hne : k ≠ n := by
        rintro rfl
        exact hkfree hh
      rw [ht]
      rcases ih (Nat.le_succ_of_le hn) hnext ⟨k, by omega, by omega, hkfree⟩ with h | ⟨j, hj, h⟩
      · exact .inl h
      · exact .inr ⟨j, by omega, h⟩
    · rw [ht]
      refine .inl ⟨n, rfl, ⟨hn, hh⟩, ?_⟩
      rintro k ⟨hk, hkfree⟩
      by_contra hlt
      exact hkfree (hbefore k hk (Nat.lt_of_not_le hlt))
    · rw [ht]
      exact .inr ⟨n, by omega, hlong, rfl⟩

theorem suggest_spec (t : Tree) (folder : Path) (campaign : Text) :
    (∃ p, t.suggest folder campaign = .ok p ∧ t.Proposes folder campaign p) ∨
    ∃ k ≤ t.entries.length, ¬ (folder.child (copyName campaign k)).IsWithinLimits ∧
      t.suggest folder campaign =
        .error ⟨.longName, (folder.child (copyName campaign k)).text⟩ := by
  have hname := campaignName_eq campaign
  rw [suggest, unique, hname]
  rcases t.isTaken_cases (folder.child (copyName campaign 0)) with
    ⟨ht, hh⟩ | ⟨ht, hh⟩ | ⟨ht, hlong⟩
  · obtain ⟨k, hk, hfree⟩ := t.exists_not_holds folder campaign
    have hne : k ≠ 0 := by
      rintro rfl
      exact hfree hh
    have hbefore : ∀ k, 1 ≤ k → k < 1 → t.Holds (folder.child (copyName campaign k)) := by omega
    rw [ht]
    have hrange : ∃ k, 1 ≤ k ∧ k < 1 + t.entries.length ∧
        ¬ t.Holds (folder.child (copyName campaign k)) := ⟨k, by omega, by omega, hfree⟩
    rcases firstFree_spec (Nat.le_refl 1) hbefore hrange with ⟨j, hj, hleast⟩ | ⟨j, hj, h⟩
    · exact .inl ⟨_, hj, .copy (hname ▸ hh) hleast⟩
    · exact .inr ⟨j, by omega, h⟩
  · rw [ht]
    exact .inl ⟨_, rfl, hname ▸ .itself (hname ▸ hh)⟩
  · rw [ht]
    exact .inr ⟨0, Nat.zero_le _, hlong, rfl⟩

theorem proposes_of_suggest (h : t.suggest folder campaign = .ok p) :
    t.Proposes folder campaign p := by
  rcases t.suggest_spec folder campaign with ⟨q, hq, hp⟩ | ⟨k, -, -, he⟩
  · rw [hq] at h
    exact Except.ok.inj h ▸ hp
  · rw [he] at h
    cases h

end Tree

end MailMarkup.Files
