import MailMarkup.Proofs.Markup.EditedTags
import MailMarkup.Proofs.Run.EarlyStages
import MailMarkup.Proofs.Table.ImageCells

namespace MailMarkup.Markup

open Text

inductive Renewal (names : List Text) (R : Tag → Option Text → Prop) : Node → Node → Prop
  | pass {n : Node} (h : ∀ t, n.tag? = some t → t.isAmong names = false) : Renewal names R n n
  | keep {n : Node} {t : Tag} (hn : n.tag? = some t) (ht : t.isAmong names = true)
    (hR : R t none) : Renewal names R n n
  | renew {name body name' body' : Text}
    (ht : (Tag.ofBody false name body).isAmong names = true)
    (same : name'.map Char.toLower = name.map Char.toLower)
    (valid : (Node.tag false name' body').isValid = true)
    (hR : R (.ofBody false name body) (some (tagText false name' body'))) :
    Renewal names R (.tag false name body) (.tag false name' body')

theorem isAmong_singleton {name : Text} (hl : lower name = name) {k : Tag} :
    k.isAmong [name] = true ↔ k.name = name := by
  rw [isAmong_iff (List.forall_mem_singleton.2 hl) (List.cons_ne_nil _ _), List.mem_singleton]

variable {names : List Text} {R : Tag → Option Text → Prop} {ns ms : List Node}

theorem Renewal.renewed {n m : Node} (h : Renewal names R n m) : Renewed names n m := by
  cases h with
  | pass => exact .keep n
  | keep => exact .keep n
  | renew ht same valid => exact .renew ht same valid

theorem Renewal.imp {S : Tag → Option Text → Prop} (h : ∀ k e, R k e → S k e) {n m : Node}
    (hr : Renewal names R n m) : Renewal names S n m := by
  cases hr with
  | pass hp => exact .pass hp
  | keep hn ht hR => exact .keep hn ht (h _ _ hR)
  | renew ht same valid hR => exact .renew ht same valid (h _ _ hR)

theorem renewed_of_renewal (h : List.Forall₂ (Renewal names R) ns ms) :
    List.Forall₂ (Renewed names) ns ms :=
  h.imp fun _ _ => Renewal.renewed

theorem Rewrites.renewal {es : List (Option Text)} (hr : Rewrites names ns es ms)
    (he : List.Forall₂ R (chosen names ns) es) : List.Forall₂ (Renewal names R) ns ms := by
  induction hr with
  | nil => exact .nil
  | pass h hr ih =>
    rw [chosen_cons_not_among h] at he
    exact .cons (.pass h) (ih he)
  | keep hn ht hr ih =>
    rw [chosen_cons_among hn ht, List.forall₂_cons] at he
    exact .cons (.keep hn ht he.1) (ih he.2)
  | @renew name body name' body' ns ms es ht same valid hr ih =>
    rw [chosen_cons_among (n := .tag false name body) rfl ht, List.forall₂_cons] at he
    exact .cons (.renew ht same valid he.1) (ih he.2)

def Settled (names : List Text) (f : Tag → Except Fault (Option Text)) (ns : List Node) : Prop :=
  ∀ n ∈ ns, ∀ t, n.tag? = some t → t.isAmong names = true →
    f t = .ok none ∨ f t = .ok (some n.source)

variable {f : Tag → Except Fault (Option Text)}

theorem Settled.exists_edits (h : Settled names f ns) (hr : IsRead ns) :
    ∃ es, (tokens names (sources ns)).mapM (f ·.toTag) = .ok es ∧
      editTags names (sources ns) es = sources ns := by
  have hps : ∀ k s, .hit (.tag k) s ∈ lexemes (sources ns) → k.isAmong names = true →
      f k = .ok none ∨ f k = .ok (some s) := by
    intro k s hm hk
    rw [lexemes_of_isRead hr] at hm
    obtain ⟨n, hn, hp⟩ := List.mem_flatMap.1 hm
    cases n with
    | tag closing name body =>
      obtain ⟨rfl, rfl⟩ : k = .ofBody closing name body ∧ s = tagText closing name body := by
        simpa [Node.pieces] using hp
      exact h _ hn _ rfl hk
    | comment inner => simp [Node.pieces] at hp
    | _ =>
      rw [Node.pieces] at hp
      · simp at hp
      · simp
      · simp
  obtain ⟨es, h1, h2⟩ := exists_edits_of_settled hps 0
  exact ⟨es, h1, h2.trans (source_lexemes _)⟩

end MailMarkup.Markup
