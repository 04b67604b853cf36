import Mathlib.Data.List.Range
import MailMarkup.Proofs.Markup.TagOrder
import MailMarkup.Run.Examination

namespace MailMarkup.Run

open Text

variable {σ ε : Type} {apply : σ → Text → Except ε Text}

inductive Softly (apply : σ → Text → Except ε Text) :
    List σ → Text → List σ → List (σ × ε) → Text → Prop
  | nil (t : Text) : Softly apply [] t [] [] t
  | done {s : σ} {t t' last : Text} {ss ds : List σ} {fs : List (σ × ε)} :
      apply s t = .ok t' → Softly apply ss t' ds fs last →
        Softly apply (s :: ss) t (s :: ds) fs last
  | failed {s : σ} {t last : Text} {e : ε} {ss ds : List σ} {fs : List (σ × ε)} :
      apply s t = .error e → Softly apply ss t ds fs last →
      Softly apply (s :: ss) t ds ((s, e) :: fs) last

theorem runSteps_ok {s : σ} {t t' : Text} (h : apply s t = .ok t') (ss : List σ) :
    runSteps apply (s :: ss) t =
      ((runSteps apply ss t').1, ⟨s, t, none⟩ :: (runSteps apply ss t').2) := by
  rw [runSteps, h]

theorem runSteps_error {s : σ} {t : Text} {e : ε} (h : apply s t = .error e) (ss : List σ) :
    runSteps apply (s :: ss) t =
      ((runSteps apply ss t).1, ⟨s, t, some e⟩ :: (runSteps apply ss t).2) := by
  rw [runSteps, h]

theorem softly_runSteps (apply : σ → Text → Except ε Text) (ss : List σ) (t : Text) :
    Softly apply ss t (completed (runSteps apply ss t).2) (failures (runSteps apply ss t).2)
      (runSteps apply ss t).1 := by
  induction ss generalizing t with
  | nil => exact .nil t
  | cons s ss ih =>
    cases h : apply s t with
    | ok t' =>
      rw [runSteps_ok h]
      exact .done h (ih t')
    | error e =>
      rw [runSteps_error h]
      exact .failed h (ih t)

namespace Softly

variable {ss ds : List σ} {fs : List (σ × ε)} {t last : Text}

theorem foldlM_done (h : Softly apply ss t ds fs last) :
    ds.foldlM (fun t s => apply s t) t = .ok last := by
  induction h with
  | nil => rfl
  | done ha _ ih =>
    rw [List.foldlM_cons, ha]
    exact ih
  | failed _ _ ih => exact ih

theorem perm (h : Softly apply ss t ds fs last) : (ds ++ fs.map Prod.fst).Perm ss := by
  induction h with
  | nil => exact .nil
  | done _ _ ih => exact ih.cons _
  | failed _ _ ih => exact List.perm_middle.trans (ih.cons _)

theorem sublist_done (h : Softly apply ss t ds fs last) : ds.Sublist ss := by
  induction h with
  | nil => exact .slnil
  | done _ _ ih => exact ih.cons_cons _
  | failed _ _ ih => exact ih.cons _

theorem not_mem_done (h : Softly apply ss t ds fs last) {s : σ}
    (hs : ∀ t t', apply s t ≠ .ok t') : s ∉ ds := by
  induction h with
  | nil => exact List.not_mem_nil
  | done ha _ ih =>
    refine List.not_mem_cons_of_ne_of_not_mem ?_ ih
    rintro rfl
    exact hs _ _ ha
  | failed _ _ ih => exact ih

end Softly

namespace Stage

theorem name_injective {s s' : Stage} (h : s.name = s'.name) : s = s' := by
  have ha : ∀ s ∈ all, ∀ s' ∈ all, s.name = s'.name → s = s' := by decide
  exact ha s s.mem_all s' s'.mem_all h

theorem nodup_stagesOf (c : Config) : (stagesOf c).Nodup := by
  have ha : all.Nodup := by decide
  exact ha.filter _

end Stage

theorem eq_of_word_isPrefix {p n n' r r' x : Text} (hn : ' ' ∉ n) (hn' : ' ' ∉ n')
    (hr : r = ' ' :: r') (h : p ++ n ++ r <+: p ++ n' ++ r ++ x) : n = n' := by
  have hword {n : Text} (hn : ' ' ∉ n) (u : Text) :
      (n ++ ' ' :: u).takeWhile (· != ' ') = n := by
    have hall : ∀ c ∈ n, (c != ' ') = true := fun c hc =>
      bne_iff_ne.2 (ne_of_mem_of_not_mem hc hn)
    rw [List.takeWhile_append_of_pos hall, List.takeWhile_cons_of_neg (by decide),
      List.append_nil]
  rw [List.append_assoc, List.append_assoc, List.append_assoc, List.prefix_append_right_inj,
    hr] at h
  obtain ⟨u, hu⟩ := h
  rw [List.append_assoc, List.cons_append, List.cons_append] at hu
  rw [← hword hn (r' ++ u), hu, hword hn' (r' ++ x)]

theorem stageFailedOpening_isPrefix_iff {s s' : Stage} {problem : Text} :
    Note.stageFailedOpening s <+: Note.stageFailedText s' problem ↔ s = s' := by
  constructor
  · intro h
    have hblank : ∀ s ∈ Stage.all, ' ' ∉ s.name := by decide
    have hf : " failed".toList = ' ' :: "failed".toList := by decide
    rw [Note.stageFailedText, List.append_assoc] at h
    exact Stage.name_injective
      (eq_of_word_isPrefix (hblank s s.mem_all) (hblank s' s'.mem_all) hf h)
  · rintro rfl
    rw [Note.stageFailedText, List.append_assoc]
    exact List.prefix_append _ _

-- Every other warning differs from these in its first two characters.
theorem take_of_stageFailedOpening_isPrefix {s : Stage} {w : Text}
    (h : Note.stageFailedOpening s <+: w) : w.take 2 = ['S', 't'] := by
  obtain ⟨u, rfl⟩ := h
  rfl

theorem not_isPrefix_of_mem_sourceWarnings {s : Stage} {c : Config} {html w : Text}
    (h : w ∈ sourceWarnings c html) : ¬ Note.stageFailedOpening s <+: w := by
  intro hs
  have ht := take_of_stageFailedOpening_isPrefix hs
  rw [sourceWarnings, List.mem_append, List.mem_append, List.mem_ite_nil_right,
    List.mem_ite_nil_right, List.mem_ite_nil_right, List.mem_singleton, List.mem_singleton,
    List.mem_singleton] at h
  rcases h with (⟨-, rfl⟩ | ⟨-, rfl⟩) | ⟨-, rfl⟩ <;> cases ht

theorem not_isPrefix_of_mem_findingsOf {s : Stage} {w : Text}
    {r : Except Report.Rejection Report.Content} (h : w ∈ findingsOf r) :
    ¬ Note.stageFailedOpening s <+: w := by
  intro hs
  have ht := take_of_stageFailedOpening_isPrefix hs
  cases r with
  | error e => cases h
  | ok c =>
    rw [findingsOf, Report.Content.findings, List.mem_append, List.mem_append,
      List.mem_ite_nil_left, List.mem_ite_nil_left, List.mem_ite_nil_right, List.mem_singleton,
      List.mem_singleton, List.mem_singleton] at h
    rcases h with (⟨-, rfl⟩ | ⟨-, rfl⟩) | ⟨-, rfl⟩
    · obtain ⟨d, ds, hd⟩ := List.exists_cons_of_ne_nil (@Nat.toDigits_ne_nil c.missingAlts 10)
      have hdigit : d.isDigit = true :=
        Nat.isDigit_of_mem_toDigits (by decide) (by decide) (hd ▸ List.mem_cons_self)
      rw [Report.Content.missingAltsText, ofNat, hd, List.cons_append, List.take_succ_cons] at ht
      rw [(List.cons.inj ht).1] at hdigit
      cases hdigit
    · cases ht
    · cases ht

structure Result.TellsOf (apply : Stage → Text → Except ε Text) (message : ε → Text) (c : Config)
    (source : Text) (failed : List (Stage × ε)) (r : Result ε) : Prop where
  success : r.success = true
  run : Softly apply (Stage.stagesOf c) source r.completed failed r.html
  completed : r.completed.Sublist (Stage.stagesOf c)
  html : r.completed.foldlM (fun t s => apply s t) source = .ok r.html
  warnings : r.warnings = sourceWarnings c source ++
    failed.map (fun x => Note.stageFailedText x.1 (message x.2)) ++ findingsOf r.report
  once : ∀ s, r.warnings.countP (fun w => (Note.stageFailedOpening s).isPrefixOf w) =
    if s ∈ failed.map Prod.fst then 1 else 0

theorem countP_failed {fs : List (Stage × ε)} (message : ε → Text) (s : Stage) :
    (fs.map fun x => Note.stageFailedText x.1 (message x.2)).countP
      (fun w => (Note.stageFailedOpening s).isPrefixOf w) = (fs.map Prod.fst).count s := by
  rw [List.count, List.countP_map, List.countP_map]
  refine List.countP_congr fun x _ => ?_
  rw [Function.comp_apply, List.isPrefixOf_iff_prefix, stageFailedOpening_isPrefix_iff,
    Function.comp_apply, beq_iff_eq, eq_comm]

theorem tellsOf_resultOf (analyze : Report.Analysis) {apply : Stage → Text → Except ε Text}
    (message : ε → Text) (c : Config) (source : Text) :
    Result.TellsOf apply message c source
      (failures (runSteps apply (Stage.stagesOf c) source).2)
      (resultOf analyze message c source (runSteps apply (Stage.stagesOf c) source).1
        (runSteps apply (Stage.stagesOf c) source).2) := by
  have hrun := softly_runSteps apply (Stage.stagesOf c) source
  refine ⟨rfl, hrun, hrun.sublist_done, hrun.foldlM_done, rfl, fun s => ?_⟩
  have hnone {ws : List Text} (h : ∀ w ∈ ws, ¬ Note.stageFailedOpening s <+: w) :
      ws.countP (fun w => (Note.stageFailedOpening s).isPrefixOf w) = 0 :=
    List.countP_eq_zero.2 fun w hw hp => h w hw (List.isPrefixOf_iff_prefix.1 hp)
  have hnodup : ((failures (runSteps apply (Stage.stagesOf c) source).2).map Prod.fst).Nodup :=
    (List.nodup_append.1 (hrun.perm.nodup_iff.2 (Stage.nodup_stagesOf c))).2.1
  simp only [resultOf, List.countP_append]
  rw [hnone fun w => not_isPrefix_of_mem_sourceWarnings,
    hnone fun w => not_isPrefix_of_mem_findingsOf, countP_failed, Nat.zero_add, Nat.add_zero,
    hnodup.count]

theorem current_progressOf (ss : List Stage) :
    (progressOf ss).map (·.current) = List.range (ss.length + 1) := by
  rw [progressOf, List.map_append, List.map_map, List.range_succ, List.range_eq_range',
    ← List.zipIdx_map_snd]
  rfl

theorem stage_progressOf (ss : List Stage) :
    (progressOf ss).map (·.stage) = ss.map some ++ [none] := by
  rw [progressOf, List.map_append, List.map_map]
  refine congrArg (· ++ [none]) ?_
  nth_rewrite 3 [← List.zipIdx_map_fst 0 ss]
  rw [List.map_map]
  rfl

theorem total_of_mem_progressOf {ss : List Stage} {p : Progress} (h : p ∈ progressOf ss) :
    p.total = ss.length := by
  rcases List.mem_append.1 h with h | h
  · obtain ⟨x, -, rfl⟩ := List.mem_map.1 h
    rfl
  · rw [List.mem_singleton.1 h]

/-- A run fails softly, whatever its stages do and whoever is told of its progress. -/
theorem format_fails_soft (analyze : Report.Analysis) {m : Type → Type} [Monad m] [LawfulMonad m]
    (report : Progress → m Unit) (message : ε → Text) (c : Config) :
    (∀ (apply : Stage → Text → Except ε Text) (source : Text), allBlank source = false →
      ∃ (r : Result ε) (failed : List (Stage × ε)) (ps : List Progress),
        formatWith analyze report (fun s t => pure (apply s t)) message c (.text source) =
          (do forM ps report; return .ok r) ∧
        r.TellsOf apply message c source failed ∧
        ps.map (·.current) = List.range ((Stage.stagesOf c).length + 1) ∧
        ps.map (·.stage) = (Stage.stagesOf c).map some ++ [none] ∧
        (∀ p ∈ ps, p.total = (Stage.stagesOf c).length) ∧
        ps.getLast? = some ⟨none, (Stage.stagesOf c).length, (Stage.stagesOf c).length⟩) ∧
      ∀ apply : Stage → Text → m (Except ε Text),
        (∀ source, allBlank source = true →
          formatWith analyze report apply message c (.text source) = pure (.error .blank)) ∧
        ∀ kind, formatWith analyze report apply message c (.other kind) =
          pure (.error (.notText kind)) := by
  refine ⟨fun apply source h => ?_, fun apply => ⟨fun source h => ?_, fun kind => ?_⟩⟩
  · exact ⟨_, _, progressOf (Stage.stagesOf c), formatWith_pure analyze h report apply message c,
      tellsOf_resultOf analyze message c source, current_progressOf _, stage_progressOf _,
      fun p hp => total_of_mem_progressOf hp, List.getLast?_concat⟩
  · have hv : validate (.text source) = .error .blank := if_pos h
    exact formatWith_refused analyze hv report apply message c
  · exact formatWith_refused analyze rfl report apply message c

def withBrokenTidying (c : Config) (s : Stage) (html : Text) : Except Text Text :=
  if s = .tidyWhitespace then .error "boom".toList else (s.apply c html).mapError Fault.message

def collected (p : Progress) : StateM (List Progress) Unit := modify (· ++ [p])

def spacedTable : Text := "<table><tr><td>a   b</td></tr></table>".toList

theorem format_fails_soft_in_tidying :
    LawfulMonad (StateM (List Progress)) ∧ allBlank spacedTable = false ∧
      ∃ (r : Result Text) (ps : List Progress),
        formatWith Report.analyze collected (fun s t => pure (withBrokenTidying plainConfig s t)) id
          plainConfig (.text spacedTable) = (do forM ps collected; return .ok r) ∧
        ps.map (·.current) = List.range 12 ∧ .tidyWhitespace ∉ r.completed ∧
        r.warnings.countP
          (fun w => (Note.stageFailedOpening .tidyWhitespace).isPrefixOf w) = 1 := by
  have hfull : allBlank spacedTable = false := by decide
  obtain ⟨r, failed, ps, hf, hr, hps, -⟩ :=
    (format_fails_soft Report.analyze collected id plainConfig).1 (withBrokenTidying plainConfig)
      spacedTable hfull
  have hnot : .tidyWhitespace ∉ r.completed := hr.run.not_mem_done fun t t' => nofun
  have hall : Stage.tidyWhitespace ∈ Stage.stagesOf plainConfig := by decide
  have hmem : Stage.tidyWhitespace ∈ failed.map Prod.fst :=
    (List.mem_append.1 (hr.run.perm.mem_iff.2 hall)).resolve_left hnot
  exact ⟨inferInstance, hfull, r, ps, hf, hps, hnot, by rw [hr.once, if_pos hmem]⟩

end MailMarkup.Run
