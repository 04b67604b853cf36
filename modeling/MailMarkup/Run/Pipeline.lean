import MailMarkup.Text.Basic

namespace MailMarkup.Run

variable {σ ε : Type}

structure Outcome (σ ε : Type) where
  step : σ
  given : Text
  failure : Option ε

def runSteps (apply : σ → Text → Except ε Text) : List σ → Text → Text × List (Outcome σ ε)
  | [], t => (t, [])
  | s :: ss, t =>
    match apply s t with
    | .ok t' =>
      let (last, os) := runSteps apply ss t'
      (last, ⟨s, t, none⟩ :: os)
    | .error e =>
      let (last, os) := runSteps apply ss t
      (last, ⟨s, t, some e⟩ :: os)

section

variable {m : Type → Type} [Monad m]

def runStepsM (announce : Nat → σ → m Unit) (apply : σ → Text → m (Except ε Text)) :
    Nat → List σ → Text → m (Text × List (Outcome σ ε))
  | _, [], t => pure (t, [])
  | i, s :: ss, t => do
    announce i s
    match ← apply s t with
    | .ok t' =>
      let (last, os) ← runStepsM announce apply (i + 1) ss t'
      return (last, ⟨s, t, none⟩ :: os)
    | .error e =>
      let (last, os) ← runStepsM announce apply (i + 1) ss t
      return (last, ⟨s, t, some e⟩ :: os)

theorem runStepsM_pure [LawfulMonad m] (announce : Nat → σ → m Unit)
    (apply : σ → Text → Except ε Text) (i : Nat) (ss : List σ) (t : Text) :
    runStepsM announce (fun s t => pure (apply s t)) i ss t = do
      forM (ss.zipIdx i) fun x => announce x.2 x.1
      return runSteps apply ss t := by
  induction ss generalizing i t with
  | nil => simp [runStepsM, runSteps]
  | cons s ss ih =>
    rw [runStepsM, runSteps, List.zipIdx_cons, List.forM_cons]
    simp only [pure_bind, bind_assoc]
    cases apply s t with
    | ok t' => simp only [ih, bind_assoc, pure_bind]
    | error e => simp only [ih, bind_assoc, pure_bind]

end

def completed (os : List (Outcome σ ε)) : List σ :=
  (os.filter (·.failure.isNone)).map (·.step)

def failures (os : List (Outcome σ ε)) : List (σ × ε) :=
  os.filterMap fun o => o.failure.map fun e => (o.step, e)

theorem map_step_runSteps (apply : σ → Text → Except ε Text) (ss : List σ) (t : Text) :
    (runSteps apply ss t).2.map (·.step) = ss := by
  induction ss generalizing t with
  | nil => rfl
  | cons s ss ih =>
    unfold runSteps
    split <;> simp [ih]

end MailMarkup.Run
