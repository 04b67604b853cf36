import MailMarkup.CommandLine.Session
import MailMarkup.Proofs.Files.Saving

namespace MailMarkup.Files

open Text

theorem Path.null_not_mem_parse {w : Text} (h : '\x00' ∉ w) : '\x00' ∉ (Path.parse w).text := by
  have hroot : '\x00' ∉ Path.rootOf w := by
    unfold Path.rootOf
    split <;> decide
  rw [Path.text]
  split
  · decide
  · rw [List.mem_append, not_or]
    refine ⟨hroot, fun hm => ?_⟩
    obtain ⟨v, hv, hm⟩ := (mem_join hm).resolve_left (by decide)
    exact h (mem_of_mem_fields (List.mem_filter.1 hv).1 hm)

namespace Tree

variable {t t' : Tree} {p : Path} {content : Bytes}

theorem ne_null_of_enter {here : Place} {part : Text} {c : Cause}
    (h : t.enter here part = .error c) : c ≠ .nullCharacter := by
  rintro rfl
  unfold enter at h
  split at h
  · cases h
  · cases h
  · split at h <;> cases h

theorem ne_null_of_locate {c : Cause} (hp : '\x00' ∉ p.text) (h : t.locate p = .error c) :
    c ≠ .nullCharacter := by
  rcases bind_eq_error.1 h with h | ⟨_, -, h⟩
  · rw [checkText, if_neg (by simpa using hp)] at h
    split at h
    · obtain rfl := Except.error.inj h
      simp
    · cases h
  · generalize startOf p = here, p.parts = ws at h
    induction ws generalizing here with
    | nil => cases h
    | cons w ws ih =>
      rcases bind_eq_error.1 h with h | ⟨q, -, h⟩
      · exact ne_null_of_enter h
      · exact ih q h

theorem ne_null_of_look {c : Cause} (hp : '\x00' ∉ p.text) (h : t.look p = .error c) :
    c ≠ .nullCharacter := by
  rcases bind_eq_error.1 h with h | ⟨place, -, h⟩
  · exact ne_null_of_locate hp h
  · cases h

theorem ne_null_of_makeFolder {e : FileError} (hp : '\x00' ∉ p.text)
    (h : t.makeFolder p = .error e) : e.cause ≠ .nullCharacter := by
  rw [makeFolder] at h
  split at h
  · cases h
  · obtain rfl := Except.error.inj h
    simp
  · rename_i hc
    obtain rfl := Except.error.inj h
    exact ne_null_of_look hp hc

theorem ne_null_of_requireFolder {e : FileError} (hp : '\x00' ∉ p.text)
    (h : t.requireFolder p = .error e) : e.cause ≠ .nullCharacter := by
  rw [requireFolder] at h
  split at h
  · cases h
  · rename_i e' he
    split at h
    · cases h
    · obtain rfl := Except.error.inj h
      exact ne_null_of_makeFolder hp he

theorem null_not_mem_parent (hp : '\x00' ∉ p.text) : '\x00' ∉ p.parent.text := by
  rcases text_parent p with h | h
  · rw [h]
    decide
  · exact fun hm => hp (h.subset hm)

theorem exists_of_attempted {r : Except FileError Tree} {e : FileError}
    (h : (t.attempted r).2 = some e) : r = .error e := by
  cases r with
  | ok u => cases h
  | error e' => exact congrArg Except.error (Option.some.inj h)

theorem ne_null_of_ensureFolder {e : FileError} (hp : '\x00' ∉ p.text)
    (h : (t.ensureFolder p).2 = some e) : e.cause ≠ .nullCharacter := by
  fun_induction ensureFolder t p with
  | case1 p u hu => cases h
  | case2 p e' he hm hn =>
    obtain rfl := Option.some.inj h
    exact ne_null_of_makeFolder hp he
  | case3 p e' he hm hne u hu ih => exact ne_null_of_requireFolder hp (exists_of_attempted h)
  | case4 p e' he hm hne hs ih => exact ih (null_not_mem_parent hp) h
  | case5 p e' he =>
    split at h
    · cases h
    · obtain rfl := Option.some.inj h
      exact ne_null_of_makeFolder hp he

theorem ne_null_of_save {e : FileError} (hp : '\x00' ∉ p.text)
    (h : t.save p content = .error e) : e.cause ≠ .nullCharacter := by
  rw [save_eq] at h
  split at h
  · obtain rfl := Except.error.inj h
    simp
  · cases h
  · rename_i hc
    obtain rfl := Except.error.inj h
    exact ne_null_of_look hp hc

theorem ne_null_of_write {e : FileError} (hp : '\x00' ∉ p.text)
    (h : t.write p content = (t', some e)) : e.cause ≠ .nullCharacter := by
  have he := congrArg Prod.snd h
  rw [write] at he
  split at he
  · exact ne_null_of_save hp (exists_of_attempted he)
  · exact ne_null_of_ensureFolder (null_not_mem_parent hp) he

theorem ne_null_of_read {e : FileError} (hp : '\x00' ∉ p.text) (h : t.read p = .error e) :
    e.cause ≠ .nullCharacter := by
  rw [read] at h
  split at h
  · cases h
  · obtain rfl := Except.error.inj h
    simp
  · obtain rfl := Except.error.inj h
    simp
  · rename_i hc
    obtain rfl := Except.error.inj h
    exact ne_null_of_look hp hc

end Tree

end MailMarkup.Files

namespace MailMarkup.CommandLine

open Text Files

def givenValue (v : Text) : Option Text := if v = "--".toList then none else some v

def outputValues : List Word → List (Option Text)
  | .switch .output .nothing :: .plain v :: ws => some v :: outputValues ws
  | .switch .output (.assigned v) :: ws => givenValue v :: outputValues ws
  | .switch .output (.joined v) :: ws => givenValue v :: outputValues ws
  | _ :: ws => outputValues ws
  | [] => []

def namedOutput (ws : List Word) : Option Text := (outputValues ws).getLast?.join

namespace Options

theorem output_set {o o' : Options} {s : Switch} {v : Text} (h : o.set s v = .ok o') :
    o'.output = if s = .output then some v else o.output := by
  cases s with
  | width =>
    cases hv : sizeOf v with
    | error e => simp [set, hv, Except.map] at h
    | ok size =>
      obtain rfl : { o with size := some size } = o' := by simpa [set, hv, Except.map] using h
      rfl
  | help | responsive | wrapColumns | verbose => cases h
  | _ =>
    obtain rfl := Except.ok.inj h
    rfl

theorem output_clear (o : Options) (s : Switch) :
    (o.clear s).output = if s = .output then none else o.output := by
  cases s <;> rfl

theorem output_assign {o o' : Options} {s : Switch} {v : Text} (h : o.assign s v = .ok o') :
    o'.output = if s = .output then givenValue v else o.output := by
  rw [assign] at h
  split at h
  · rename_i hv
    obtain rfl := Except.ok.inj h
    rw [output_clear, givenValue, if_pos hv]
  · rename_i hv
    rw [output_set h, givenValue, if_neg hv]

theorem output_turnOn (o : Options) (s : Switch) : (o.turnOn s).output = o.output := by
  cases s <;> rfl

end Options

theorem outputValues_switch (s : Switch) (v : Text) (ws : List Word) :
    outputValues (.switch s .nothing :: .plain v :: ws) =
        (if s = .output then [some v] else []) ++ outputValues ws ∧
      outputValues (.switch s (.assigned v) :: ws) =
        (if s = .output then [givenValue v] else []) ++ outputValues ws ∧
      outputValues (.switch s (.joined v) :: ws) =
        (if s = .output then [givenValue v] else []) ++ outputValues ws := by
  cases s <;> exact ⟨rfl, rfl, rfl⟩

theorem output_of_readWords {st r : Reading} {ws : List Word}
    (h : readWords st ws = .ok (some r)) :
    r.options.output = (outputValues ws).getLast?.getD st.options.output := by
  -- the options hold the last value so far, which counts if none follows
  have hlast {s : Switch} {v o : Option Text} {vs : List (Option Text)} :
      vs.getLast?.getD (if s = .output then v else o) =
        ((if s = .output then [v] else []) ++ vs).getLast?.getD o := by
    split
    · simp [List.getLast?_cons]
    · rfl
  fun_induction readWords st ws with
  | case1 st =>
    obtain rfl : st = r := by simpa using h
    rfl
  | case2 st t ws ih =>
    refine (ih h).trans (congrArg _ ?_)
    rw [Reading.plain]
    split <;> rfl
  | case3 st ws ih =>
    refine (ih h).trans (congrArg _ ?_)
    rw [Reading.separator]
    split <;> rfl
  | case4 st t ws ih => exact ih h
  | case5 st s hs v ws ih =>
    obtain ⟨o, ho, h⟩ := bind_eq_ok.1 h
    rw [ih o h, Reading.withOptions, Options.output_set ho, (outputValues_switch s v ws).1, hlast]
  | case6 => cases h
  | case7 st s hs v ws ih =>
    obtain ⟨o, ho, h⟩ := bind_eq_ok.1 h
    rw [ih o h, Reading.withOptions, Options.output_assign ho, (outputValues_switch s v ws).2.1,
      hlast]
  | case8 st s hs v ws ih =>
    obtain ⟨o, ho, h⟩ := bind_eq_ok.1 h
    rw [ih o h, Reading.withOptions, Options.output_assign ho, (outputValues_switch s v ws).2.2,
      hlast]
  | case9 => cases h
  | case10 st s ws hs hh ih =>
    have hv : outputValues (.switch s .nothing :: ws) = outputValues ws := by
      cases s
      case output => exact absurd rfl hs
      all_goals rfl
    rw [ih h, Reading.withOptions, Options.output_turnOn, hv]
  | case11 => cases h
  | case12 st s ws hs v =>
    cases hb : checkBundle s ws.head? v with
    | error e => simp [hb, Except.map] at h
    | ok u => simp [hb, Except.map] at h

theorem exists_of_parse {ts : List Text} {a : Arguments}
    (h : Request.parse ts = .ok (.format a)) :
    ∃ ws, words ts = .ok ws ∧ a.options.output = namedOutput ws := by
  rw [Request.parse] at h
  split at h
  · cases pure_eq_ok.1 h
  · obtain ⟨ws, hws, h⟩ := bind_eq_ok.1 h
    obtain ⟨r, hr, h⟩ := bind_eq_ok.1 h
    cases r with
    | none => cases pure_eq_ok.1 h
    | some r =>
      obtain ⟨b, hb, h⟩ := bind_eq_ok.1 h
      obtain rfl := Request.format.inj (pure_eq_ok.1 h)
      refine ⟨ws, hws, ?_⟩
      have ho : b.options = r.options := by
        rw [Reading.finish] at hb
        split at hb
        · cases hb
        · split at hb
          · exact (Except.ok.inj hb) ▸ rfl
          · cases hb
      rw [ho, output_of_readWords hr, namedOutput]
      cases (outputValues ws).getLast? <;> rfl

theorem ne_nil_of_parse {ts : List Text} (h : Request.parse ts = .ok .window) : ts = [] := by
  rw [Request.parse] at h
  split at h
  · rename_i he
    simpa using he
  · obtain ⟨ws, -, h⟩ := bind_eq_ok.1 h
    obtain ⟨r, -, h⟩ := bind_eq_ok.1 h
    cases r with
    | none => cases pure_eq_ok.1 h
    | some r =>
      obtain ⟨b, -, h⟩ := bind_eq_ok.1 h
      cases pure_eq_ok.1 h

def Session.Reads (s : Session) (t : Tree) (a : Arguments) (source : Text) : Prop :=
  if a.readsStandardInput then source = unifiedBreaks s.standardInput
  else ∃ e, t.readDocument (.parse a.input) = .ok (source, e)

inductive GivenTo (t : Tree) (html : Text) : Option Text → Outcome → Tree → Prop
  | shown {o : Outcome} : (∀ clock, o.standardOutput clock = html) → GivenTo t html none o t
  | saved {o : Outcome} {t' : Tree} {path : Text} : (∀ clock, o.standardOutput clock = []) →
      t.Wrote t' (.parse path) (encodeUtf8 html) → GivenTo t html (some path) o t'

theorem Draft.result_ofText (analyze : Report.Analysis) (c : Config) (source : Text) :
    (∃ r, Run.formatBy analyze c source = .ok r ∧
        (Draft.ofText analyze c source).result = .ok r.html) ∨
      (Draft.ofText analyze c source).result = .error inputErrorCode := by
  rw [Draft.ofText]
  cases h : Run.formatBy analyze c source with
  | error e => exact .inr rfl
  | ok r => exact .inl ⟨r, rfl, rfl⟩

variable {s : Session} {t : Tree} {a : Arguments}

theorem exists_draft (analyze : Report.Analysis) (hn : '\x00' ∉ a.input) :
    ∃ d, s.draft analyze t a = .ok d ∧
      ((∃ c source r, a.options.config = .ok c ∧ s.Reads t a source ∧
        Run.formatBy analyze c source = .ok r ∧ d.result = .ok r.html) ∨
      ∃ code, d.result = .error code ∧ code ≠ 0) := by
  rw [Session.draft]
  cases hc : a.options.config with
  | error e => exact ⟨_, rfl, .inr ⟨inputErrorCode, rfl, by decide⟩⟩
  | ok c =>
    simp only
    split
    · rename_i hi
      refine ⟨_, rfl, ?_⟩
      rcases Draft.result_ofText analyze c (unifiedBreaks s.standardInput) with ⟨r, hr, hd⟩ | hd
      · exact .inl ⟨c, _, r, rfl, by rw [Session.Reads, if_pos hi], hr, hd⟩
      · exact .inr ⟨_, hd, by decide⟩
    · rename_i hi
      cases hr : t.readDocument (.parse a.input) with
      | error e =>
        have he : e.cause ≠ .nullCharacter := by
          refine Tree.ne_null_of_read (Path.null_not_mem_parse hn) (t := t) ?_
          cases hb : t.read (.parse a.input) with
          | ok bs => simp [Tree.readDocument, hb, Except.map] at hr
          | error e' => simpa [Tree.readDocument, hb, Except.map] using hr
        exact ⟨_, if_neg he, .inr ⟨fileErrorCode, rfl, by decide⟩⟩
      | ok x =>
        obtain ⟨source, e⟩ := x
        refine ⟨_, rfl, ?_⟩
        rcases Draft.result_ofText analyze c source with ⟨r, hr', hd⟩ | hd
        · exact .inl ⟨c, source, r, rfl, by rw [Session.Reads, if_neg hi]; exact ⟨e, hr⟩, hr', hd⟩
        · exact .inr ⟨_, hd, by decide⟩

theorem Session.deliver_map (t : Tree) (a : Arguments) (notes : List Run.Note) (html : Text) :
    deliver t a notes (html.map .scalar) = match a.options.output with
      | none => .ok (a.outcome successCode notes html, t)
      | some path =>
        match t.writeDocument (.parse path) html with
        | (_, some ⟨.nullCharacter, path⟩) => .error ⟨.nullCharacter, path⟩
        | (t, e) => .ok (a.savedOutcome notes (.parse path) html.length e, t) := by
  rw [deliver, scalars?_map]
  cases a.options.output with
  | none => rfl
  | some path =>
    simp only [write, Tree.writeString_map, List.length_map]
    rcases t.writeDocument (.parse path) html with ⟨u, _ | ⟨_ | _ | _ | _ | _ | _, q⟩⟩ <;> rfl

theorem exists_delivered (notes : List Run.Note) (html : Text) {path : Text}
    (ho : a.options.output = some path) (hn : '\x00' ∉ path) :
    ∃ o t', Session.deliver t a notes (html.map .scalar) = .ok (o, t') ∧
      (∀ clock, o.standardOutput clock = []) ∧
      (o.code ≠ 0 → t.Grown t') ∧
      (o.code = 0 → t.Wrote t' (.parse path) (encodeUtf8 html)) := by
  rw [Session.deliver_map, ho]
  simp only
  rcases hw : t.writeDocument (.parse path) html with ⟨t', _ | e⟩
  · exact ⟨_, t', rfl, fun _ => rfl, fun h => absurd rfl h, fun _ => Tree.wrote_write hw⟩
  · have he := Tree.ne_null_of_write (Path.null_not_mem_parse hn) hw
    obtain ⟨cause, q⟩ := e
    refine ⟨a.savedOutcome notes (.parse path) html.length (some ⟨cause, q⟩), t', ?_, fun _ => rfl,
      fun _ => Tree.grown_write hw, fun h => absurd h (Nat.one_ne_zero)⟩
    cases cause with
    | nullCharacter => exact absurd rfl he
    | _ => rfl

theorem emptied_of_half {notes : List Run.Note} {html : List CodePoint} {n : Fin 2048}
    (h : .half n ∈ html) {path : Text} (ho : a.options.output = some path) {t' : Tree}
    (hw : t.write (.parse path) [] = (t', none)) :
    ∃ o, Session.deliver t a notes html = .ok (o, t') ∧ o.code ≠ 0 ∧
      t.Wrote t' (.parse path) [] := by
  refine ⟨a.brokenOutcome notes, ?_, Nat.one_ne_zero, Tree.wrote_write hw⟩
  rw [Session.deliver, ho, scalars?_eq_none h]
  simp only [Session.write, Tree.writeString_of_half h hw]

/-- A run of the command is all or nothing. -/
theorem run_all_or_nothing (analyze : Report.Analysis) (s : Session) (t : Tree)
    {ts : List Text} (hne : ts ≠ []) (hhelp : Request.parse ts ≠ .ok .help)
    (hnull : ∀ a, Request.parse ts = .ok (.format a) →
      '\x00' ∉ a.input ∧ ∀ path ∈ a.options.output, '\x00' ∉ path) :
    ∃ o t', s.runBy analyze t ts = .ok (o, t') ∧
      (o.code ≠ 0 → (∀ clock, o.standardOutput clock = []) ∧ t.Grown t') ∧
      (o.code = 0 → ∃ ws a c source r, words ts = .ok ws ∧
        Request.parse ts = .ok (.format a) ∧ a.options.config = .ok c ∧ s.Reads t a source ∧
        Run.formatBy analyze c source = .ok r ∧ GivenTo t r.html (namedOutput ws) o t') := by
  rw [Session.runBy]
  rcases hp : Request.parse ts with e | _ | _ | a
  · exact ⟨_, t, rfl, fun _ => ⟨fun _ => rfl, .refl t⟩, nofun⟩
  · exact absurd (ne_nil_of_parse hp) hne
  · exact absurd hp hhelp
  · obtain ⟨hinput, houtput⟩ := hnull a hp
    obtain ⟨ws, hws, ho⟩ := exists_of_parse hp
    obtain ⟨d, hd, hr⟩ := exists_draft (s := s) (t := t) analyze hinput
    simp only [Session.format, hd, bind, Except.bind]
    rcases hr with ⟨c, source, r, hc, hs, hf, hr⟩ | ⟨code, hr, hcode⟩
    · rw [hr]
      cases hout : a.options.output with
      | none =>
        have hshown := Session.deliver_map t a (.logFile s.logFile :: d.notes) r.html
        rw [hout] at hshown
        refine ⟨_, t, hshown, fun h => absurd rfl h, fun _ => ?_⟩
        exact ⟨ws, a, c, source, r, hws, rfl, hc, hs, hf, ho ▸ hout ▸ .shown fun _ => rfl⟩
      | some path =>
        obtain ⟨o, t', hw, hshow, hgrown, hwrote⟩ := exists_delivered (t := t) (a := a)
          (.logFile s.logFile :: d.notes) r.html hout (houtput path hout)
        refine ⟨o, t', hw, fun h => ⟨hshow, hgrown h⟩, fun h => ?_⟩
        exact ⟨ws, a, c, source, r, hws, rfl, hc, hs, hf, ho ▸ hout ▸ .saved hshow (hwrote h)⟩
    · rw [hr]
      exact ⟨_, t, rfl, fun _ => ⟨fun _ => rfl, .refl t⟩, fun h => absurd h hcode⟩

def savingWords : List Text := ["-".toList, "-oa".toList, "--output".toList, "b.html".toList]

theorem run_all_or_nothing_into_second_file :
    savingWords ≠ [] ∧ Request.parse savingWords ≠ .ok .help ∧
      (∀ a, Request.parse savingWords = .ok (.format a) →
        '\x00' ∉ a.input ∧ ∀ path ∈ a.options.output, '\x00' ∉ path) ∧
      ∃ o t' c source r, Session.run ⟨[], "x".toList⟩ .empty savingWords = .ok (o, t') ∧
        o.code = 0 ∧ Run.format c source = .ok r ∧
        GivenTo .empty r.html (some "b.html".toList) o t' := by
  have hparse : Request.parse savingWords =
      .ok (.format ⟨"-".toList, { output := some "b.html".toList }⟩) := by decide
  have hws : words savingWords = .ok [.plain "-".toList, .switch .output (.joined "a".toList),
      .switch .output .nothing, .plain "b.html".toList] := by decide
  have hcode : (Session.run ⟨[], "x".toList⟩ .empty savingWords).map (·.1.code) = .ok 0 := by
    rw [Session.run, Session.runBy, hparse]
    simp only [Session.format, Session.deliver_map]
    decide +kernel
  have hne : savingWords ≠ [] := by decide
  have hhelp : Request.parse savingWords ≠ .ok .help := by decide
  have hnull : ∀ a, Request.parse savingWords = .ok (.format a) →
      '\x00' ∉ a.input ∧ ∀ path ∈ a.options.output, '\x00' ∉ path := by
    intro a ha
    rw [hparse] at ha
    obtain rfl := Request.format.inj (Except.ok.inj ha)
    decide
  obtain ⟨o, t', hrun, -, h⟩ :=
    run_all_or_nothing Report.analyze ⟨[], "x".toList⟩ .empty hne hhelp hnull
  rw [Session.run, hrun] at hcode
  have hcode : o.code = 0 := Except.ok.inj hcode
  obtain ⟨ws, a, c, source, r, hw, -, -, -, hf, hg⟩ := h hcode
  obtain rfl := Except.ok.inj (hw.symm.trans hws)
  exact ⟨hne, hhelp, hnull, o, t', c, source, r, hrun, hcode, hf, hg⟩

def dashedWords : List Text := ["-".toList, "-o--".toList]

theorem result_shown_despite_output :
    dashedWords ≠ [] ∧ Request.parse dashedWords ≠ .ok .help ∧ '\x00' ∉ dashedWords.flatten ∧
      (∃ ws, words dashedWords = .ok ws ∧ .switch .output (.joined "--".toList) ∈ ws) ∧
      ∃ o t', Session.run ⟨[], "x".toList⟩ .empty dashedWords = .ok (o, t') ∧ o.code = 0 ∧
        ∀ clock, o.standardOutput clock ≠ [] := by
  have hws : words dashedWords =
      .ok [.plain "-".toList, .switch .output (.joined "--".toList)] := by decide
  have hparse : Request.parse dashedWords = .ok (.format ⟨"-".toList, {}⟩) := by decide
  have hrun : (Session.run ⟨[], "x".toList⟩ .empty dashedWords).map
      (fun x => (x.1.code, x.1.output.isEmpty)) = .ok (0, false) := by
    rw [Session.run, Session.runBy, hparse]
    simp only [Session.format, Session.deliver_map]
    decide +kernel
  refine ⟨by decide, by decide, by decide, ⟨_, hws, by decide⟩, ?_⟩
  cases h : Session.run ⟨[], "x".toList⟩ .empty dashedWords with
  | error e =>
    rw [h] at hrun
    cases hrun
  | ok x =>
    rw [h] at hrun
    obtain ⟨hcode, hout⟩ := Prod.mk.inj (Except.ok.inj hrun)
    refine ⟨x.1, x.2, rfl, hcode, fun clock hs => ?_⟩
    rw [Outcome.standardOutput, List.append_eq_nil_iff] at hs
    simp [hs.2] at hout

end MailMarkup.CommandLine
