import MailMarkup.Proofs.Markup.HarmlessTags
import MailMarkup.Proofs.Markup.NodePositions
import MailMarkup.Proofs.Run.Rewriter
import MailMarkup.Proofs.Text.Splicing

namespace MailMarkup.Markup

open Text

theorem edited_map_char (names : List Text) (s : Text) (ps : Lexemes) (es : List (Option Text)) :
    Lexemes.edited names (s.map .char ++ ps) es = s ++ ps.edited names es := by
  induction s with
  | nil => rfl
  | cons c s ih =>
    rw [List.map_cons, List.cons_append, Lexemes.edited, ih]
    · rfl
    · simp

theorem edited_pieces_of_among {names : List Text} {n : Node} {t : Tag} (hn : n.tag? = some t)
    (ht : t.isAmong names = true) (ps : Lexemes) (es : List (Option Text)) :
    Lexemes.edited names (n.pieces ++ ps) es =
      es.head?.join.getD n.source ++ ps.edited names es.tail := by
  cases n with
  | tag closing name body =>
    obtain rfl := Option.some.inj hn
    simp only [Node.pieces, List.singleton_append, Lexemes.edited, if_pos ht, Node.source]
  | _ => simp [Node.tag?] at hn

theorem edited_pieces_of_not_among {names : List Text} {n : Node}
    (hn : ∀ t, n.tag? = some t → t.isAmong names = false) (ps : Lexemes)
    (es : List (Option Text)) :
    Lexemes.edited names (n.pieces ++ ps) es = n.source ++ ps.edited names es := by
  cases n with
  | tag closing name body =>
    simp only [Node.pieces, List.singleton_append, Lexemes.edited, hn _ rfl, Node.source]
    rfl
  | comment inner => rfl
  | char c => exact edited_map_char names [c] ps es
  | angle c => exact edited_map_char names ['<', c] ps es
  | declaration m inner => exact edited_map_char names _ ps es

def chosen (names : List Text) (ns : List Node) : List Tag :=
  (tagsOf ns).filter (·.isAmong names)

theorem chosen_cons (names : List Text) (n : Node) (ns : List Node) :
    chosen names (n :: ns) = n.tag?.toList.filter (·.isAmong names) ++ chosen names ns := by
  cases h : n.tag? with
  | none => simp [chosen, tagsOf, h]
  | some t => by_cases ht : t.isAmong names = true <;> simp [chosen, tagsOf, h, ht]

theorem chosen_cons_among {names : List Text} {n : Node} {t : Tag} (hn : n.tag? = some t)
    (ht : t.isAmong names = true) (ns : List Node) :
    chosen names (n :: ns) = t :: chosen names ns := by
  simp [chosen_cons, hn, ht]

theorem chosen_cons_not_among {names : List Text} {n : Node}
    (hn : ∀ t, n.tag? = some t → t.isAmong names = false) (ns : List Node) :
    chosen names (n :: ns) = chosen names ns := by
  cases h : n.tag? with
  | none => simp [chosen_cons, h]
  | some t => simp [chosen_cons, h, hn t h]

inductive Renewed (names : List Text) : Node → Node → Prop
  | keep (n : Node) : Renewed names n n
  | renew {name body name' body' : Text}
    (among : (Tag.ofBody false name body).isAmong names = true)
    (same : name'.map Char.toLower = name.map Char.toLower)
    (valid : (Node.tag false name' body').isValid = true) :
    Renewed names (.tag false name body) (.tag false name' body')

theorem Written.exists_node {k : Tag} {t : Text}
    (h : Written Attributes.IsQuietOne k (some t)) :
    k.closing = false ∧ ∃ body, k.name.map Char.toLower = k.name ∧
      (Node.tag false k.name body).isValid = true ∧ t = tagText false k.name body ∧
      ∃ as, Attributes.All Attributes.IsQuietOne as ∧
        (body = as.render ∨ body = as.render ++ " /".toList) := by
  obtain ⟨hc, hn, hl, as, ha, rfl | rfl⟩ := h t rfl
  · exact ⟨hc, _, hl, isValid_render hn ha, openTag_eq_tagText _ _, as, ha, .inl rfl⟩
  · exact ⟨hc, _, hl, isValid_render_slash hn ha, closedTag_eq_tagText _ _, as, ha, .inr rfl⟩

inductive Rewrites (names : List Text) : List Node → List (Option Text) → List Node → Prop
  | nil : Rewrites names [] [] []
  | pass {n : Node} {ns ms : List Node} {es : List (Option Text)}
    (h : ∀ t, n.tag? = some t → t.isAmong names = false) (hr : Rewrites names ns es ms) :
    Rewrites names (n :: ns) es (n :: ms)
  | keep {n : Node} {t : Tag} {ns ms : List Node} {es : List (Option Text)}
    (hn : n.tag? = some t) (ht : t.isAmong names = true) (hr : Rewrites names ns es ms) :
    Rewrites names (n :: ns) (none :: es) (n :: ms)
  | renew {name body name' body' : Text} {ns ms : List Node} {es : List (Option Text)}
    (ht : (Tag.ofBody false name body).isAmong names = true)
    (same : name'.map Char.toLower = name.map Char.toLower)
    (valid : (Node.tag false name' body').isValid = true) (hr : Rewrites names ns es ms) :
    Rewrites names (.tag false name body :: ns) (some (tagText false name' body') :: es)
      (.tag false name' body' :: ms)

theorem Rewrites.edited {names : List Text} {ns ms : List Node} {es : List (Option Text)}
    (h : Rewrites names ns es ms) :
    Lexemes.edited names (ns.flatMap Node.pieces) es = sources ms := by
  induction h with
  | nil => rfl
  | pass h hr ih =>
    rw [List.flatMap_cons, edited_pieces_of_not_among h, ih, sources_cons]
  | keep hn ht hr ih =>
    rw [List.flatMap_cons, edited_pieces_of_among hn ht, List.tail_cons, ih, sources_cons]
    rfl
  | renew ht same valid hr ih =>
    rw [List.flatMap_cons, edited_pieces_of_among rfl ht, List.tail_cons, ih, sources_cons]
    rfl

theorem Rewrites.isClean {names : List Text} {ns ms : List Node} {es : List (Option Text)}
    (h : Rewrites names ns es ms) (hc : IsClean ns) : IsClean ms := by
  induction h with
  | nil => exact .nil
  | pass h hr ih => exact .cons hc.head (ih hc.tail)
  | keep hn ht hr ih => exact .cons hc.head (ih hc.tail)
  | renew ht same valid hr ih => exact .cons valid (ih hc.tail)

theorem Rewrites.forall₂ {names : List Text} {ns ms : List Node} {es : List (Option Text)}
    (h : Rewrites names ns es ms) : List.Forall₂ (Renewed names) ns ms := by
  induction h with
  | nil => exact .nil
  | pass h hr ih => exact .cons (.keep _) ih
  | keep hn ht hr ih => exact .cons (.keep _) ih
  | renew ht same valid hr ih => exact .cons (.renew ht same valid) ih

theorem Rewrites.mem_tagsOf {names : List Text} {ns ms : List Node} {es : List (Option Text)}
    (h : Rewrites names ns es ms) {k : Tag} (hk : k ∈ tagsOf ms) :
    k ∈ tagsOf ns ∨ ∃ name body, (Node.tag false name body).isValid = true ∧
      k = .ofBody false name body ∧ some (tagText false name body) ∈ es := by
  induction h with
  | nil => exact .inl hk
  | pass h hr ih =>
    rw [tagsOf, List.filterMap_cons] at hk ⊢
    split at hk
    · exact ih hk
    · rcases List.mem_cons.1 hk with rfl | hk
      · exact .inl List.mem_cons_self
      · exact (ih hk).imp (List.mem_cons_of_mem _) id
  | keep hn ht hr ih =>
    rw [tagsOf, List.filterMap_cons, hn] at hk ⊢
    rcases List.mem_cons.1 hk with rfl | hk
    · exact .inl List.mem_cons_self
    · refine (ih hk).imp (List.mem_cons_of_mem _) ?_
      rintro ⟨name, body, hv, he, hm⟩
      exact ⟨name, body, hv, he, List.mem_cons_of_mem _ hm⟩
  | @renew name body name' body' ns ms es ht same valid hr ih =>
    rcases List.mem_cons.1 hk with rfl | hk
    · exact .inr ⟨name', body', valid, rfl, List.mem_cons_self⟩
    · refine (ih hk).imp (List.mem_cons_of_mem _) ?_
      rintro ⟨name, body, hv, he, hm⟩
      exact ⟨name, body, hv, he, List.mem_cons_of_mem _ hm⟩

theorem exists_rewrites {names : List Text} {ns : List Node} {es : List (Option Text)}
    (h : List.Forall₂ (Written Attributes.IsQuietOne) (chosen names ns) es) :
    ∃ ms, Rewrites names ns es ms := by
  induction ns generalizing es with
  | nil =>
    cases h
    exact ⟨[], .nil⟩
  | cons n ns ih =>
    by_cases hp : ∀ t, n.tag? = some t → t.isAmong names = false
    · rw [chosen_cons_not_among hp] at h
      obtain ⟨ms, hr⟩ := ih h
      exact ⟨n :: ms, .pass hp hr⟩
    · simp only [not_forall, Bool.not_eq_false] at hp
      obtain ⟨t, hn, ht⟩ := hp
      rw [chosen_cons_among hn ht] at h
      cases h with
      | @cons _ e _ es he hes =>
        obtain ⟨ms, hr⟩ := ih hes
        cases e with
        | none => exact ⟨n :: ms, .keep hn ht hr⟩
        | some u =>
          obtain ⟨hc, body', hl, hv, rfl, -⟩ := he.exists_node
          cases n with
          | tag closing name body =>
            obtain rfl := Option.some.inj hn
            obtain rfl : closing = false := hc
            exact ⟨_, .renew ht hl hv hr⟩
          | _ => simp [Node.tag?] at hn

theorem map_toTag_tokens {ns : List Node} (h : IsClean ns) (names : List Text) :
    (tokens names (sources ns)).map (·.toTag) = chosen names ns := by
  rw [tokens_sources h, chosen, ← map_toTag_tokensOf 0 ns, List.filter_map]
  rfl

theorem exists_editTags {names : List Text} {ns : List Node} {es : List (Option Text)}
    (hc : IsClean ns)
    (h : List.Forall₂ (fun (k : Token) e => Written Attributes.IsQuietOne k.toTag e)
      (tokens names (sources ns)) es) :
    ∃ ms, Rewrites names ns es ms ∧ editTags names (sources ns) es = sources ms := by
  have h' : List.Forall₂ (Written Attributes.IsQuietOne) (chosen names ns) es := by
    rw [← map_toTag_tokens hc, List.forall₂_map_left_iff]
    exact h
  obtain ⟨ms, hr⟩ := exists_rewrites h'
  exact ⟨ms, hr, by rw [editTags, lexemes_sources hc, hr.edited]⟩

inductive Grown (P : Node → Prop) : List Node → List Node → Prop
  | nil : Grown P [] []
  | keep {n : Node} {ns ms : List Node} (h : Grown P ns ms) : Grown P (n :: ns) (n :: ms)
  | add {n : Node} {ns ms : List Node} (hn : P n) (h : Grown P ns ms) : Grown P ns (n :: ms)

section Grown

variable {P : Node → Prop} {ns ms : List Node}

theorem Grown.refl (P : Node → Prop) (ns : List Node) : Grown P ns ns := by
  induction ns with
  | nil => exact .nil
  | cons n ns ih => exact .keep ih

theorem Grown.keeps (h : Grown P ns ms) (ls : List Node) : Grown P (ls ++ ns) (ls ++ ms) := by
  induction ls with
  | nil => exact h
  | cons l ls ih => exact .keep ih

theorem Grown.adds {as : List Node} (ha : ∀ n ∈ as, P n) (h : Grown P ns ms) :
    Grown P ns (as ++ ms) := by
  induction as with
  | nil => exact h
  | cons a as ih =>
    exact .add (ha a List.mem_cons_self) (ih fun n hn => ha n (List.mem_cons_of_mem _ hn))

theorem Grown.isClean (h : Grown P ns ms) (hp : ∀ n, P n → n.isValid = true) (hc : IsClean ns) :
    IsClean ms := by
  induction h with
  | nil => exact .nil
  | keep h ih => exact .cons hc.head (ih hc.tail)
  | add hn h ih => exact .cons (hp _ hn) (ih hc)

theorem Grown.mem_tagsOf (h : Grown P ns ms) {k : Tag} (hk : k ∈ tagsOf ms) :
    k ∈ tagsOf ns ∨ ∃ n, P n ∧ n.tag? = some k := by
  induction h with
  | nil => exact .inl hk
  | keep h ih =>
    rw [tagsOf, List.filterMap_cons] at hk ⊢
    split at hk
    · exact ih hk
    · rcases List.mem_cons.1 hk with rfl | hk
      · exact .inl List.mem_cons_self
      · exact (ih hk).imp (List.mem_cons_of_mem _) id
  | @add n ns ms hn h ih =>
    rw [tagsOf, List.filterMap_cons] at hk
    split at hk
    · exact ih hk
    · rename_i t ht
      rcases List.mem_cons.1 hk with rfl | hk
      · exact .inr ⟨n, hn, ht⟩
      · exact ih hk

end Grown

theorem exists_append_of_mem_tokens {ns : List Node} (hc : IsClean ns) {names : List Text}
    {k : Token} (hk : k ∈ tokens names (sources ns)) :
    ∃ l n r, ns = l ++ n :: r ∧ n.tag? = some k.toTag ∧ k.start = (sources l).length ∧
      k.stop = (sources (l ++ [n])).length := by
  rw [tokens_sources hc] at hk
  simpa using exists_of_mem_tokensOf (List.mem_filter.1 hk).1

theorem take_sources (ns ms : List Node) :
    (sources (ns ++ ms)).take (sources ns).length = sources ns := by
  rw [sources_append, List.take_left]

theorem drop_sources (ns ms : List Node) :
    (sources (ns ++ ms)).drop (sources ns).length = sources ms := by
  rw [sources_append, List.drop_left]

def IsBoundary (ns : List Node) (i : Nat) : Prop := ∃ l r, ns = l ++ r ∧ i = (sources l).length

theorem isBoundary_of_mem_tokens {ns : List Node} (hc : IsClean ns) {names : List Text}
    {k : Token} (hk : k ∈ tokens names (sources ns)) :
    IsBoundary ns k.start ∧ IsBoundary ns k.stop := by
  obtain ⟨l, n, r, rfl, -, hs, he⟩ := exists_append_of_mem_tokens hc hk
  exact ⟨⟨l, n :: r, rfl, hs⟩, ⟨l ++ [n], r, by simp, he⟩⟩

theorem exists_insert {P : Node → Prop} {ns as : List Node} (ha : ∀ n ∈ as, P n) {i : Nat}
    (hi : IsBoundary ns i) :
    ∃ ms, Grown P ns ms ∧
      (sources ns).take i ++ sources as ++ (sources ns).drop i = sources ms := by
  obtain ⟨l, r, rfl, rfl⟩ := hi
  refine ⟨l ++ (as ++ r), (Grown.adds ha (.refl P r)).keeps l, ?_⟩
  rw [take_sources, drop_sources, sources_append, sources_append, List.append_assoc]

theorem sources_eq_nil {ns : List Node} (h : sources ns = []) : ns = [] := by
  cases ns with
  | nil => rfl
  | cons n ns =>
    rw [sources_cons, List.append_eq_nil_iff] at h
    exact absurd h.1 n.source_ne_nil

theorem exists_of_isBoundary {ns ms : List Node} {i : Nat} (h : IsBoundary (ns ++ ms) i)
    (hi : (sources ns).length ≤ i) :
    ∃ l r, ms = l ++ r ∧ i = (sources (ns ++ l)).length := by
  obtain ⟨l, r, he, rfl⟩ := h
  rcases List.append_eq_append_iff.1 he with ⟨x, rfl, rfl⟩ | ⟨x, rfl, rfl⟩
  · exact ⟨x, r, rfl, rfl⟩
  · rw [sources_append, List.length_append] at hi
    obtain rfl : x = [] := sources_eq_nil (List.length_eq_zero_iff.1 (by omega))
    exact ⟨[], ms, rfl, by simp⟩

structure Fitting (P : Node → Prop) (ns : List Node) (i : Insertion) : Prop where
  place : ∃ p : Nat, i.position = p ∧ IsBoundary ns p
  addition : ∃ as, (∀ n ∈ as, P n) ∧ i.addition = sources as

theorem exists_weave {P : Node → Prop} {ns ms : List Node} {is : List Insertion}
    (h : ∀ i ∈ is, Fitting P (ns ++ ms) i)
    (ho : is.Pairwise fun a b => a.position ≤ b.position)
    (hs : ∀ i ∈ is, ((sources ns).length : Int) ≤ i.position) :
    ∃ ms', Grown P ms ms' ∧
      weave (sources (ns ++ ms)) (sources ns).length is = sources ms' := by
  induction is generalizing ns ms with
  | nil =>
    refine ⟨ms, .refl P ms, ?_⟩
    rw [weave, fromIndex, clampIndex_natCast (by simp [sources_append]), drop_sources]
  | cons i is ih =>
    obtain ⟨⟨p, hp, hb⟩, as, ha, hadd⟩ := h i List.mem_cons_self
    have hle := hs i List.mem_cons_self
    rw [hp] at hle
    obtain ⟨l, r, rfl, rfl⟩ := exists_of_isBoundary hb (by omega)
    rw [List.pairwise_cons] at ho
    rw [← List.append_assoc] at h
    obtain ⟨r', hg, hw⟩ := ih (fun j hj => h j (List.mem_cons_of_mem _ hj)) ho.2
      fun j hj => hp ▸ ho.1 j hj
    refine ⟨l ++ (as ++ r'), (hg.adds ha).keeps l, ?_⟩
    have hlen : (sources (ns ++ l)).length ≤ (sources (ns ++ (l ++ r))).length := by
      simp [sources_append]
    have hlen' : (sources ns).length ≤ (sources (ns ++ (l ++ r))).length := by
      simp [sources_append]
    rw [weave, hp, hadd, between, clampIndex_natCast hlen, clampIndex_natCast hlen',
      ← List.append_assoc ns l r, hw, take_sources, drop_sources, sources_append, sources_append,
      List.append_assoc]

theorem exists_splice {P : Node → Prop} {ns : List Node} {is : List Insertion}
    (h : ∀ i ∈ is, Fitting P ns i) :
    ∃ ms, Grown P ns ms ∧ splice (sources ns) is = sources ms := by
  have hm : ∀ i ∈ is.mergeSort Insertion.before, Fitting P ns i :=
    fun i hi => h i (List.mem_mergeSort.1 hi)
  have h0 : ∀ i ∈ is.mergeSort Insertion.before, (0 : Int) ≤ i.position := by
    intro i hi
    obtain ⟨⟨p, hp, -⟩, -⟩ := hm i hi
    omega
  obtain ⟨ms, hg, hw⟩ := @exists_weave P [] ns _ hm (Insertion.pairwise_position_mergeSort is) h0
  exact ⟨ms, hg, (splice_eq_weave_mergeSort _ is).trans hw⟩

end MailMarkup.Markup
