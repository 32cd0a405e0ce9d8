import Mathlib.Tactic

/-!
# Runs of a state machine

A machine is a function `step : S → A → S`. Its run over a list of actions is a fold, and a property
that the steps keep is a property of every state of the run. `Along` says that a condition on the
state and the action holds before each step, so a property kept by the steps that meet a condition
holds in every run whose steps all do.
-/

namespace Grxcp.Runs

variable {S A : Type*} (step : S → A → S)

/-- The state after a list of actions. -/
def after (s : S) (as : List A) : S :=
  as.foldl step s

/-- The condition holds before each step of the run. -/
def Along (ok : S → A → Prop) : S → List A → Prop
  | _, [] => True
  | s, a :: as => ok s a ∧ Along ok (step s a) as

@[simp] theorem after_nil (s : S) : after step s [] = s := rfl

@[simp] theorem after_cons (s : S) (a : A) (as : List A) :
    after step s (a :: as) = after step (step s a) as := rfl

theorem after_append (s : S) (as bs : List A) :
    after step s (as ++ bs) = after step (after step s as) bs :=
  List.foldl_append

variable {step} {ok ok' : S → A → Prop}

@[simp] theorem along_nil (s : S) : Along step ok s [] := trivial

@[simp] theorem along_cons (s : S) (a : A) (as : List A) :
    Along step ok s (a :: as) ↔ ok s a ∧ Along step ok (step s a) as := Iff.rfl

theorem along_append (s : S) (as bs : List A) :
    Along step ok s (as ++ bs) ↔ Along step ok s as ∧ Along step ok (after step s as) bs := by
  induction as generalizing s with
  | nil => simp
  | cons a as ih => simp [ih, and_assoc]

/-- A stronger condition along a run gives a weaker one. -/
theorem Along.mono (h : ∀ s a, ok s a → ok' s a) {s : S} {as : List A}
    (hr : Along step ok s as) : Along step ok' s as := by
  induction as generalizing s with
  | nil => trivial
  | cons a as ih => exact ⟨h _ _ hr.1, ih hr.2⟩

/-- Two conditions along a run. -/
theorem Along.and {s : S} {as : List A} (h : Along step ok s as) (h' : Along step ok' s as) :
    Along step (fun s a => ok s a ∧ ok' s a) s as := by
  induction as generalizing s with
  | nil => trivial
  | cons a as ih => exact ⟨⟨h.1, h'.1⟩, ih h.2 h'.2⟩

/-- A condition that all the actions of a run meet in every state. -/
theorem along_of_forall {as : List A} (h : ∀ a ∈ as, ∀ s, ok s a) (s : S) :
    Along step ok s as := by
  induction as generalizing s with
  | nil => trivial
  | cons a as ih =>
    exact ⟨h a List.mem_cons_self s, ih (fun a' ha' => h a' (List.mem_cons_of_mem _ ha')) _⟩

theorem along_true (s : S) (as : List A) : Along step (fun _ _ => True) s as := by
  induction as generalizing s with
  | nil => trivial
  | cons a as ih => exact ⟨trivial, ih _⟩

/-- What every step that meets the condition keeps, every such run keeps. -/
theorem invariant {I : S → Prop} (hstep : ∀ s a, I s → ok s a → I (step s a)) {s : S}
    {as : List A} (hr : Along step ok s as) (hs : I s) : I (after step s as) := by
  induction as generalizing s with
  | nil => exact hs
  | cons a as ih => exact ih hr.2 (hstep s a hs hr.1)

/-- The same for a property that all steps keep. -/
theorem invariant_always {I : S → Prop} (hstep : ∀ s a, I s → I (step s a)) (s : S)
    (as : List A) (hs : I s) : I (after step s as) :=
  invariant (fun s a h _ => hstep s a h) (along_true s as) hs

/-- A relation that every step is an instance of, composed over the run. -/
theorem reflTransGen {R : S → S → Prop} (hstep : ∀ s a, Relation.ReflTransGen R s (step s a))
    (s : S) (as : List A) : Relation.ReflTransGen R s (after step s as) := by
  induction as generalizing s with
  | nil => exact .refl
  | cons a as ih => exact (hstep s a).trans (ih _)

/-- An invariant of a relation holds after any number of its steps. -/
theorem reflTransGen_invariant {R : S → S → Prop} {I : S → Prop}
    (hstep : ∀ s s', I s → R s s' → I s') {s s' : S} (hr : Relation.ReflTransGen R s s')
    (hs : I s) : I s' := by
  induction hr with
  | refl => exact hs
  | tail _ h ih => exact hstep _ _ ih h

end Grxcp.Runs
