import Famicom.Console.Basic

/-!
# Computations of the console

How computations of the console run, construct by construct.
-/

namespace Famicom.Console.Run

variable {α β : Type}

/-- An error ends a computation, with what was changed by then. -/
theorem bind_run (x : Run α) (f : α → Run β) (c : Console) :
    (x >>= f).run c =
      match x.run c with
      | (.ok a, d) => (f a).run d
      | (.error e, d) => (.error e, d) := by
  change (ExceptT.bindCont f (x.run c).1) (x.run c).2 = _
  rcases x.run c with ⟨a | e, d⟩
  · rfl
  · rfl

/-- A value can be changed afterwards. -/
theorem map_run (f : α → β) (x : Run α) (c : Console) :
    (f <$> x).run c =
      match x.run c with
      | (.ok a, d) => (.ok (f a), d)
      | (.error e, d) => (.error e, d) := by
  rw [map_eq_pure_bind, bind_run]
  rfl

theorem pure_run (a : α) (c : Console) : (pure a : Run α).run c = (.ok a, c) := rfl

theorem throw_run (e : Error) (c : Console) : (throw e : Run α).run c = (.error e, c) := rfl

/-- What cannot fail ends well. -/
theorem lift_run (x : StateM Console α) (c : Console) :
    (liftM x : Run α).run c = (.ok (x c).1, (x c).2) := rfl

theorem exec_run (act : Exec Bus α) (c : Console) :
    (exec act : Run α).run c = (.ok (execOn act c).1, (execOn act c).2) := rfl

theorem get_run (c : Console) : (get : Run Console).run c = (.ok c, c) := rfl

/-- Without an error a computation has ended well. -/
theorem run_of_isOk {x : Run Unit} {c : Console} (h : (x.run c).1.isOk) :
    x.run c = (.ok (), (x.run c).2) := by
  rcases hrun : x.run c with ⟨e | ⟨⟩, d⟩
  · rw [hrun] at h
    cases h
  · rfl

/-- The outcome after a last change, which is not made after an error. -/
def finished (f : Console → Console) : Except Error Unit × Console → Except Error Unit × Console
  | (.ok (), d) => (.ok (), f d)
  | (.error e, d) => (.error e, d)

theorem bind_modify_run (x : Run Unit) (f : Console → Console) (c : Console) :
    (x >>= fun _ => modify f).run c = finished f (x.run c) := by
  rw [bind_run]
  rcases x.run c with ⟨e | u, d⟩
  · rfl
  · rfl

/-- An error is handled where it has occurred. -/
theorem tryCatch_run (x : Run α) (handle : Error → Run α) (c : Console) :
    (tryCatch x handle).run c =
      match x.run c with
      | (.ok a, d) => (.ok a, d)
      | (.error e, d) => (handle e).run d := by
  simp only [tryCatch, tryCatchThe, MonadExceptOf.tryCatch, ExceptT.tryCatch, ExceptT.run,
    ExceptT.mk, bind, StateT.bind]
  rcases x c with ⟨a | e, d⟩
  · rfl
  · rfl

end Famicom.Console.Run
