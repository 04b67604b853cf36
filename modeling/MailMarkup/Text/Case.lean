import MailMarkup.Text.CaseTable

namespace MailMarkup.Text

def isCased (c : Char) : Bool := inRanges casedRanges c

def isCaseIgnorable (c : Char) : Bool := inRanges caseIgnorableRanges c

def meetsCased (t : Text) : Bool := (t.find? (!isCaseIgnorable ·)).any isCased

/-- The lower-case form of `c` behind a text that does or does not end in a cased letter and
before `r`. A sigma that ends a word has a form of its own. -/
def lowerChar (afterCased : Bool) (c : Char) (r : Text) : Text :=
  if c.toNat < 128 then [c.toLower]
  else if c = 'Σ' then [if afterCased && !meetsCased r then 'ς' else 'σ']
  else if c = 'İ' then ['i', '\u0307']
  else [(partner? lowerRuns c).getD c]

def lowerFrom (afterCased : Bool) : Text → Text
  | [] => []
  | c :: r =>
    lowerChar afterCased c r ++
      lowerFrom (if isCaseIgnorable c then afterCased else isCased c) r

def lower (t : Text) : Text := lowerFrom false t

def titleChar (c : Char) : Text :=
  ((longTitles.find? (·.1 == c)).map (·.2)).getD [(partner? titleRuns c).getD c]

def capitalize : Text → Text
  | [] => []
  | c :: r => titleChar c ++ lowerFrom (!isCaseIgnorable c && isCased c) r

/-- The ASCII letter that a letter stands for in a match without regard to case: long s, the
Kelvin sign and the two Turkish letters stand for s, k and i. -/
def foldLetter (c : Char) : Char :=
  if c = 'ſ' then 's'
  else if c = '\u212A' then 'k'
  else if c = 'İ' ∨ c = 'ı' then 'i'
  else c.toLower

def isFoldedLetter (c : Char) : Bool := (foldLetter c).isLower

def dropFolded? : Text → Text → Option Text
  | [], t => some t
  | _ :: _, [] => none
  | p :: w, c :: r => if foldLetter c = p then dropFolded? w r else none

theorem dropFolded?_eq_some_iff {w t r : Text} :
    dropFolded? w t = some r ↔ ∃ p, t = p ++ r ∧ p.map foldLetter = w := by
  induction w generalizing t with
  | nil => simp [dropFolded?, eq_comm]
  | cons d w ih =>
    cases t with
    | nil => simp [dropFolded?]
    | cons c t =>
      constructor
      · intro h
        rw [dropFolded?] at h
        split at h
        · rename_i hc
          obtain ⟨p, rfl, rfl⟩ := ih.1 h
          exact ⟨c :: p, rfl, by rw [List.map_cons, hc]⟩
        · cases h
      · rintro ⟨p, ht, hp⟩
        cases p with
        | nil => cases hp
        | cons e p =>
          obtain ⟨rfl, hrest⟩ := List.cons.inj ht
          obtain ⟨hc, hfold⟩ := List.cons.inj hp
          rw [dropFolded?, if_pos hc]
          exact ih.2 ⟨p, hrest, hfold⟩

theorem dropFolded?_map (p r : Text) : dropFolded? (p.map foldLetter) (p ++ r) = some r :=
  dropFolded?_eq_some_iff.2 ⟨p, rfl, rfl⟩

theorem dropFolded?_append_right {w t z : Text} (h : dropFolded? w t = some z) (r : Text) :
    dropFolded? w (t ++ r) = some (z ++ r) := by
  obtain ⟨p, rfl, hp⟩ := dropFolded?_eq_some_iff.1 h
  exact dropFolded?_eq_some_iff.2 ⟨p, List.append_assoc p z r, hp⟩

theorem exists_append_of_dropFolded? {w t r : Text} (h : dropFolded? w t = some r) :
    ∃ p, p.length = w.length ∧ t = p ++ r := by
  obtain ⟨p, ht, rfl⟩ := dropFolded?_eq_some_iff.1 h
  exact ⟨p, (List.length_map foldLetter).symm, ht⟩

def startsFolded (w t : Text) : Bool := (dropFolded? w t).isSome

end MailMarkup.Text
