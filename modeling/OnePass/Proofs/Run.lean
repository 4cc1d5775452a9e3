import OnePass.Proofs.Production
set_option autoImplicit false

/-!
# Runs that are compared

Where two productions are compared, or one with itself in two states, it is not enough to say how each
of them ends.  These equations say what the runs of composed productions are, given the runs of their
parts.
-/

namespace OnePass.Program

variable {α β : Type} {s s' : State}

theorem bind_run_of_ok {p : Parser β} {f : β → Parser α} {b : β} (h : p s = .ok b s') :
    (p >>= f) s = f b s' := by
  change EStateM.bind p f s = f b s'
  delta EStateM.bind
  rw [h]

theorem bind_run_of_error {p : Parser β} {f : β → Parser α} {stop : Stop}
    (h : p s = .error stop s') : (p >>= f) s = .error stop s' := by
  change EStateM.bind p f s = _
  delta EStateM.bind
  rw [h]

theorem bind_run_congr {p p' : Parser β} (f : β → Parser α) (h : p' s = p s) :
    (p' >>= f) s = (p >>= f) s := by
  change EStateM.bind p' f s = EStateM.bind p f s
  delta EStateM.bind
  rw [h]

/-- Two continuations that agree wherever a production succeeds. -/
theorem bind_run_congr_of_ends {p : Parser β} {f g : β → Parser α}
    (h : Ends p s (fun b s' => f b s' = g b s') fun _ _ => True) : (p >>= f) s = (p >>= g) s := by
  cases hp : p s with
  | ok b s' =>
    rw [bind_run_of_ok hp, bind_run_of_ok hp]
    exact (ends_of_ok hp).mp h
  | error stop s' => rw [bind_run_of_error hp, bind_run_of_error hp]

theorem tryCatch_run_of_ok {p : Parser α} {handle : Stop → Parser α} {a : α}
    (h : p s = .ok a s') : (tryCatch p handle : Parser α) s = .ok a s' := by
  change EStateM.tryCatch p handle s = _
  delta EStateM.tryCatch
  dsimp only
  rw [h]

theorem tryCatch_run_of_error {p : Parser α} {handle : Stop → Parser α} {stop : Stop}
    (h : p s = .error stop s') : (tryCatch p handle : Parser α) s = handle stop s' := by
  change EStateM.tryCatch p handle s = _
  delta EStateM.tryCatch
  dsimp only
  rw [h]
  rfl

theorem tryCatch_run_congr {p p' : Parser α} (handle : Stop → Parser α) (h : p' s = p s) :
    (tryCatch p' handle : Parser α) s = (tryCatch p handle : Parser α) s := by
  change EStateM.tryCatch p' handle s = EStateM.tryCatch p handle s
  delta EStateM.tryCatch
  dsimp only
  rw [h]

/-- A production that ends however another one ends has the same run. -/
theorem run_eq_of_ends {p q : Parser α} {t : State}
    (h : ∀ Q E, Ends q t Q E → Ends p s Q E) : p s = q t := by
  have hself : Ends q t (fun a s' => q t = .ok a s') fun stop s' => q t = .error stop s' := by
    unfold Ends
    cases q t <;> rfl
  have hends := h _ _ hself
  unfold Ends at hends
  cases hp : p s with
  | ok a s' =>
    rw [hp] at hends
    exact hends.symm
  | error stop s' =>
    rw [hp] at hends
    exact hends.symm

end OnePass.Program
