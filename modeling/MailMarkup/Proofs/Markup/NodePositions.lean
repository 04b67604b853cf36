import Mathlib.Data.List.Induction
import MailMarkup.Proofs.Markup.Node

namespace MailMarkup.Text

def firstSplit (p : α → Bool) : List α → Option (List α × α × List α)
  | [] => none
  | a :: as =>
    if p a then some ([], a, as) else (firstSplit p as).map fun x => (a :: x.1, x.2.1, x.2.2)

theorem eq_of_firstSplit {p : α → Bool} {as l r : List α} {a : α}
    (h : firstSplit p as = some (l, a, r)) :
    as = l ++ a :: r ∧ p a = true ∧ ∀ b ∈ l, p b = false := by
  induction as generalizing l with
  | nil => simp [firstSplit] at h
  | cons b as ih =>
    simp only [firstSplit] at h
    split at h
    · rename_i hb
      simp only [Option.some.injEq, Prod.mk.injEq] at h
      obtain ⟨rfl, rfl, rfl⟩ := h
      exact ⟨rfl, hb, by simp⟩
    · rename_i hb
      obtain ⟨⟨l', a', r'⟩, hx, he⟩ := Option.map_eq_some_iff.1 h
      simp only [Prod.mk.injEq] at he
      obtain ⟨rfl, rfl, rfl⟩ := he
      obtain ⟨rfl, ha, hl⟩ := ih hx
      refine ⟨rfl, ha, fun c hc => ?_⟩
      rcases List.mem_cons.1 hc with rfl | hc
      · simpa using hb
      · exact hl c hc

theorem firstSplit_eq_none {p : α → Bool} {as : List α} :
    firstSplit p as = none ↔ ∀ a ∈ as, p a = false := by
  induction as with
  | nil => simp [firstSplit]
  | cons a as ih =>
    simp only [firstSplit]
    split
    · rename_i ha
      simp [ha]
    · rename_i ha
      simp [ha, ih]

theorem firstSplit_filter {p q : α → Bool} (h : ∀ a, p a = true → q a = true) (as : List α) :
    firstSplit p (as.filter q) =
      (firstSplit p as).map fun x => (x.1.filter q, x.2.1, x.2.2.filter q) := by
  induction as with
  | nil => rfl
  | cons a as ih =>
    by_cases hp : p a = true
    · simp [firstSplit, hp, h a hp]
    · by_cases hq : q a = true
      · simp [firstSplit, hp, hq, ih, Function.comp_def]
      · simp [firstSplit, hp, hq, ih, Function.comp_def]

def lastSplit (p : α → Bool) (as : List α) : Option (List α × α × List α) :=
  (firstSplit p as.reverse).map fun x => (x.2.2.reverse, x.2.1, x.1.reverse)

theorem eq_of_lastSplit {p : α → Bool} {as l r : List α} {a : α}
    (h : lastSplit p as = some (l, a, r)) :
    as = l ++ a :: r ∧ p a = true ∧ ∀ b ∈ r, p b = false := by
  obtain ⟨⟨l', a', r'⟩, hx, he⟩ := Option.map_eq_some_iff.1 h
  simp only [Prod.mk.injEq] at he
  obtain ⟨rfl, rfl, rfl⟩ := he
  obtain ⟨hs, ha, hl⟩ := eq_of_firstSplit hx
  refine ⟨by simpa using congrArg List.reverse hs, ha, fun b hb => hl b (List.mem_reverse.1 hb)⟩

theorem lastSplit_filter {p q : α → Bool} (h : ∀ a, p a = true → q a = true) (as : List α) :
    lastSplit p (as.filter q) =
      (lastSplit p as).map fun x => (x.1.filter q, x.2.1, x.2.2.filter q) := by
  rw [lastSplit, lastSplit, ← List.filter_reverse, firstSplit_filter h]
  cases firstSplit p as.reverse <;> simp

end MailMarkup.Text

namespace MailMarkup.Markup

open Text

def Node.tag? : Node → Option Tag
  | tag closing name body => some (.ofBody closing name body)
  | _ => none

def tagsOf (ns : List Node) : List Tag := ns.filterMap Node.tag?

def Node.tokens (start : Nat) (n : Node) : List Token :=
  (n.tag?.map fun t => { t with start, stop := start + n.source.length : Token }).toList

def tokensOf (start : Nat) : List Node → List Token
  | [] => []
  | n :: ns => n.tokens start ++ tokensOf (start + n.source.length) ns

theorem tokensFrom_map_char (start : Nat) (s : Text) (ps : Lexemes) :
    tokensFrom [] start (s.map .char ++ ps) = tokensFrom [] (start + s.length) ps := by
  induction s generalizing start with
  | nil => rfl
  | cons c s ih =>
    rw [List.map_cons, List.cons_append, tokensFrom, ih]
    · simp [Piece.source, Nat.add_assoc, Nat.add_comm 1]
    · simp

theorem tokensFrom_pieces_append (start : Nat) (n : Node) (ps : Lexemes) :
    tokensFrom [] start (n.pieces ++ ps) =
      n.tokens start ++ tokensFrom [] (start + n.source.length) ps := by
  cases n with
  | comment inner => rfl
  | tag closing name body => rfl
  | char c => exact tokensFrom_map_char start [c] ps
  | angle c => exact tokensFrom_map_char start ['<', c] ps
  | declaration m inner => exact tokensFrom_map_char start _ ps

theorem tokensFrom_pieces (start : Nat) (ns : List Node) :
    tokensFrom [] start (ns.flatMap Node.pieces) = tokensOf start ns := by
  induction ns generalizing start with
  | nil => rfl
  | cons n ns ih => rw [List.flatMap_cons, tokensFrom_pieces_append, ih, tokensOf]

theorem tokens_of_isRead {ns : List Node} (h : IsRead ns) (names : List Text) :
    tokens names (sources ns) = (tokensOf 0 ns).filter (·.toTag.isAmong names) := by
  rw [tokens_eq_filter, tokens, lexemes_of_isRead h, tokensFrom_pieces]

theorem tokens_sources {ns : List Node} (h : IsClean ns) (names : List Text) :
    tokens names (sources ns) = (tokensOf 0 ns).filter (·.toTag.isAmong names) :=
  tokens_of_isRead h.isRead names

theorem tokensOf_append (start : Nat) (ns ms : List Node) :
    tokensOf start (ns ++ ms) = tokensOf start ns ++ tokensOf (start + (sources ns).length) ms := by
  induction ns generalizing start with
  | nil => rfl
  | cons n ns ih =>
    rw [List.cons_append, tokensOf, ih, tokensOf, sources_cons, List.length_append,
      List.append_assoc, Nat.add_assoc]

theorem map_toTag_tokensOf (start : Nat) (ns : List Node) :
    (tokensOf start ns).map (·.toTag) = tagsOf ns := by
  induction ns generalizing start with
  | nil => rfl
  | cons n ns ih =>
    rw [tokensOf, List.map_append, ih]
    cases h : n.tag? <;> simp [Node.tokens, h, tagsOf]

theorem Node.source_ne_nil (n : Node) : n.source ≠ [] := by
  cases n <;> simp [Node.source, commentText, tagText]

theorem le_start_of_mem_tokensOf {start : Nat} {ns : List Node} {k : Token}
    (h : k ∈ tokensOf start ns) : start ≤ k.start := by
  induction ns generalizing start with
  | nil => simp [tokensOf] at h
  | cons n ns ih =>
    rcases List.mem_append.1 h with h | h
    · cases ht : n.tag? <;> simp [Node.tokens, ht] at h
      simp [h]
    · exact Nat.le_of_add_right_le (ih h)

theorem start_lt_of_mem_tokensOf {start : Nat} {ns : List Node} {k : Token}
    (h : k ∈ tokensOf start ns) : k.start < start + (sources ns).length := by
  induction ns generalizing start with
  | nil => simp [tokensOf] at h
  | cons n ns ih =>
    have hn := List.length_pos_iff.2 n.source_ne_nil
    rw [sources_cons, List.length_append]
    rcases List.mem_append.1 h with h | h
    · cases ht : n.tag? <;> simp [Node.tokens, ht] at h
      simp [h]
      omega
    · have := ih h
      omega

theorem exists_of_mem_tokensOf {start : Nat} {ns : List Node} {k : Token}
    (h : k ∈ tokensOf start ns) :
    ∃ l n r, ns = l ++ n :: r ∧ n.tag? = some k.toTag ∧ k.start = start + (sources l).length ∧
      k.stop = start + (sources (l ++ [n])).length := by
  induction ns generalizing start with
  | nil => simp [tokensOf] at h
  | cons n ns ih =>
    rcases List.mem_append.1 h with h | h
    · cases ht : n.tag? with
      | none => simp [Node.tokens, ht] at h
      | some t =>
        simp only [Node.tokens, ht, Option.map_some, Option.toList_some, List.mem_singleton] at h
        refine ⟨[], n, ns, rfl, by rw [ht, h], by simp [h, sources], by simp [h, sources]⟩
    · obtain ⟨l, m, r, rfl, ht, hs, he⟩ := ih h
      refine ⟨n :: l, m, r, rfl, ht, ?_, ?_⟩
      · rw [hs, sources_cons, List.length_append, Nat.add_assoc]
      · rw [he, List.cons_append, sources_cons, List.length_append, Nat.add_assoc]

def Node.isTagOf (name : Text) (closing : Bool) (n : Node) : Bool :=
  n.tag?.any fun t => name == t.name && t.closing == closing

def Node.token? (start : Nat) (n : Node) : Option Token :=
  n.tag?.map fun t => { t with start, stop := start + n.source.length }

theorem find?_tokensOf (start : Nat) (ns : List Node) (p : Tag → Bool) :
    (tokensOf start ns).find? (p ·.toTag) =
      (firstSplit (fun n => n.tag?.any p) ns).bind fun x =>
        x.2.1.token? (start + (sources x.1).length) := by
  induction ns generalizing start with
  | nil => rfl
  | cons n ns ih =>
    rw [tokensOf, List.find?_append, ih, firstSplit]
    cases ht : n.tag? with
    | none =>
      cases firstSplit (fun n => n.tag?.any p) ns <;>
        simp [Node.tokens, ht, sources_cons, Nat.add_assoc]
    | some t =>
      by_cases hp : p t = true
      · simp [Node.tokens, Node.token?, ht, hp, sources]
      · cases firstSplit (fun n => n.tag?.any p) ns <;>
          simp [Node.tokens, ht, hp, sources_cons, Nat.add_assoc]

theorem lastSplit_snoc (p : α → Bool) (as : List α) (a : α) :
    lastSplit p (as ++ [a]) =
      if p a then some (as, a, [])
      else (lastSplit p as).map fun x => (x.1, x.2.1, x.2.2 ++ [a]) := by
  rw [lastSplit, List.reverse_append, List.reverse_singleton, List.singleton_append, firstSplit]
  split
  · simp
  · simp [lastSplit, Function.comp_def]

theorem find?_reverse_tokensOf (start : Nat) (ns : List Node) (p : Tag → Bool) :
    (tokensOf start ns).reverse.find? (p ·.toTag) =
      (lastSplit (fun n => n.tag?.any p) ns).bind fun x =>
        x.2.1.token? (start + (sources x.1).length) := by
  induction ns using List.reverseRecOn with
  | nil => rfl
  | append_singleton ns n ih =>
    rw [tokensOf_append, List.reverse_append, List.find?_append, ih, lastSplit_snoc]
    cases ht : n.tag? with
    | none =>
      cases lastSplit (fun n => n.tag?.any p) ns <;> simp [tokensOf, Node.tokens, ht]
    | some t =>
      by_cases hp : p t = true
      · simp [tokensOf, Node.tokens, Node.token?, ht, hp]
      · cases lastSplit (fun n => n.tag?.any p) ns <;> simp [tokensOf, Node.tokens, ht, hp]

theorem find?_congr_mem {p q : α → Bool} {as : List α} (h : ∀ a ∈ as, p a = q a) :
    as.find? p = as.find? q := by
  induction as with
  | nil => rfl
  | cons a as ih =>
    rw [List.find?_cons, List.find?_cons, h a List.mem_cons_self,
      ih fun b hb => h b (List.mem_cons_of_mem _ hb)]

theorem findTag?_of_isRead {ns ms : List Node} (h : IsRead (ns ++ ms)) (name : Text)
    (hn : lower name = name) (closing : Bool) :
    findTag? (sources (ns ++ ms)) name closing (sources ns).length =
      (firstSplit (Node.isTagOf name closing) ms).bind fun x =>
        x.2.1.token? (sources (ns ++ x.1)).length := by
  have hp : ∀ k ∈ tokensOf 0 ns, ¬ decide (k.toTag.isAmong [name] = true ∧
      (decide ((sources ns).length ≤ k.start) && k.closing == closing) = true) = true := by
    intro k hk
    have := start_lt_of_mem_tokensOf hk
    have hlt : ¬ (sources ns).length ≤ k.start := by omega
    simp [hlt]
  have hq : ∀ k ∈ tokensOf (0 + (sources ns).length) ms,
      decide (k.toTag.isAmong [name] = true ∧
        (decide ((sources ns).length ≤ k.start) && k.closing == closing) = true) =
      (name == k.name && k.closing == closing) := by
    intro k hk
    have := le_start_of_mem_tokensOf hk
    have hle : (sources ns).length ≤ k.start := by omega
    simp [hle, Tag.isAmong, hn, Bool.beq_eq_decide_eq]
  rw [findTag?, tokens_of_isRead h, List.find?_filter, tokensOf_append, List.find?_append,
    List.find?_eq_none.2 hp, Option.none_or, find?_congr_mem hq,
    find?_tokensOf (p := fun t => name == t.name && t.closing == closing)]
  simp only [sources_append, List.length_append, Nat.zero_add]
  rfl

theorem findOpening?_of_isRead {ns : List Node} (h : IsRead ns) (name : Text)
    (hn : lower name = name) :
    findOpening? (sources ns) name =
      (firstSplit (Node.isTagOf name false) ns).bind fun x =>
        x.2.1.token? (sources x.1).length :=
  @findTag?_of_isRead [] ns h name hn false

theorem findLastTag?_of_isRead {ns : List Node} (h : IsRead ns) (name : Text)
    (hn : lower name = name) (closing : Bool) :
    findLastTag? (sources ns) name closing =
      (lastSplit (Node.isTagOf name closing) ns).bind fun x =>
        x.2.1.token? (sources x.1).length := by
  have hq : ∀ k ∈ (tokensOf 0 ns).reverse,
      decide (k.toTag.isAmong [name] = true ∧ (k.closing == closing) = true) =
        (name == k.name && k.closing == closing) := by
    intro k _
    simp [Tag.isAmong, hn, Bool.beq_eq_decide_eq]
  rw [findLastTag?, tokens_of_isRead h, List.findRev?_eq_find?_reverse, ← List.filter_reverse,
    List.find?_filter, find?_congr_mem hq,
    find?_reverse_tokensOf (p := fun t => name == t.name && t.closing == closing)]
  simp only [Nat.zero_add]
  rfl

end MailMarkup.Markup
