import Mathlib.Tactic

/-! What comes of computations that can fail and that change a state, part by part. -/

namespace LocksetLang.Outcome

variable {σ ε α β : Type} {x : ExceptT ε (StateM σ) α} {f : α → ExceptT ε (StateM σ) β} {s t : σ}

theorem run_bind {a : α} (h : x.run s = (.ok a, t)) : (x >>= f).run s = (f a).run t := by
  change (ExceptT.bind x f).run s = _
  simp only [ExceptT.bind, ExceptT.run, ExceptT.mk, bind, StateT.bind]
  have : x s = (.ok a, t) := h
  rw [this]
  rfl

theorem run_bind_fault {e : ε} (h : x.run s = (.error e, t)) : (x >>= f).run s = (.error e, t) := by
  change (ExceptT.bind x f).run s = _
  simp only [ExceptT.bind, ExceptT.run, ExceptT.mk, bind, StateT.bind]
  have : x s = (.error e, t) := h
  rw [this]
  rfl

/-- What comes to its end does so part by part. -/
theorem run_bind_eq_ok {b : β} (h : (x >>= f).run s = (.ok b, t)) :
    ∃ a r, x.run s = (.ok a, r) ∧ (f a).run r = (.ok b, t) := by
  rcases hx : x.run s with ⟨fault | a, r⟩
  · rw [run_bind_fault hx] at h
    cases h
  · rw [run_bind hx] at h
    exact ⟨a, r, rfl, h⟩

theorem run_lift (r : Except ε α) (s : σ) : (liftM r : ExceptT ε (StateM σ) α).run s = (r, s) := rfl

theorem run_adapt {ε' : Type} (g : ε → ε') (x : ExceptT ε (StateM σ) α) (s : σ) :
    (x.adapt g).run s = ((x.run s).1.mapError g, (x.run s).2) := rfl

theorem run_adapt_ok {ε' : Type} {g : ε → ε'} {a : α} (h : x.run s = (.ok a, t)) :
    (x.adapt g).run s = (.ok a, t) := by
  rw [run_adapt, h]
  rfl

theorem run_adapt_fault {ε' : Type} {g : ε → ε'} {e : ε} (h : x.run s = (.error e, t)) :
    (x.adapt g).run s = (.error (g e), t) := by
  rw [run_adapt, h]
  rfl

end LocksetLang.Outcome
