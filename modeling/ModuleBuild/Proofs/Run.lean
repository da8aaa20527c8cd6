/-
  ModuleBuild.Proofs.Run
  ──────────────────────
  **RUNS, STEP BY STEP.**

  What an edit or an action returns and leaves, for each way of putting one
  together: the equations by which every later proof takes a run apart.

  Main results:
    * `Edit.runOn_bind`, `Action.runOn_bind` — one step, then the rest;
    * `Edit.runOn_tryCatch`, `Action.runOn_tryCatch` — a step and its handler;
    * `Action.runOn_lift` — an edit as a step of an action;
    * `Action.tree_forIn_note` — what is noted leaves the tree as it is.
-/
import ModuleBuild.Action

namespace ModuleBuild

variable {α β : Type}

/-! ## §1. Edits. -/

namespace Edit

@[simp] theorem runOn_pure (a : α) (t : FileTree) : (pure a : Edit α).runOn t = (.ok a, t) := rfl

@[simp] theorem runOn_throw (failure : Failure) (t : FileTree) :
    (throw failure : Edit α).runOn t = (.error failure, t) := rfl

@[simp] theorem runOn_get (t : FileTree) : (get : Edit FileTree).runOn t = (.ok t, t) := rfl

@[simp] theorem runOn_view (f : FileTree → α) (t : FileTree) :
    (view f).runOn t = (.ok (f t), t) := rfl

/-- What follows a step, for each of its results. -/
theorem runOn_bind (e : Edit α) (f : α → Edit β) (t : FileTree) :
    (e >>= f).runOn t
      = match e.runOn t with
        | (.ok a, t') => (f a).runOn t'
        | (.error failure, t') => (.error failure, t') := by
  simp only [runOn, ExceptT.run, StateT.run, bind, ExceptT.bind, StateT.bind, ExceptT.mk]
  rcases e t with ⟨_ | _, _⟩ <;> rfl

/-- A handler runs after a failure, on the tree that the failed step has left. -/
theorem runOn_tryCatch (e : Edit α) (handler : Failure → Edit α) (t : FileTree) :
    (tryCatch e handler).runOn t
      = match e.runOn t with
        | (.ok a, t') => (.ok a, t')
        | (.error failure, t') => (handler failure).runOn t' := by
  simp only [runOn, ExceptT.run, StateT.run, tryCatch, tryCatchThe, MonadExceptOf.tryCatch,
    ExceptT.tryCatch, ExceptT.mk, bind, StateT.bind]
  rcases e t with ⟨_ | _, _⟩ <;> rfl

/-- What returns something after a step changes no more than the step. -/
theorem tree_bind_pure (e : Edit α) (b : β) (t : FileTree) :
    ((e >>= fun _ => pure b).runOn t).2 = (e.runOn t).2 := by
  rw [runOn_bind]
  rcases e.runOn t with ⟨_ | _, _⟩ <;> rfl

/-- A handler that only looks at the failure changes no more than the step. -/
theorem tree_tryCatch (e : Edit α) {handler : Failure → Edit α}
    (hidle : ∀ failure t, ((handler failure).runOn t).2 = t) (t : FileTree) :
    ((tryCatch e handler).runOn t).2 = (e.runOn t).2 := by
  rw [runOn_tryCatch]
  rcases e.runOn t with ⟨_ | _, _⟩
  · exact hidle _ _
  · rfl

end Edit

/-! ## §2. Actions. -/

namespace Action

@[simp] theorem runOn_pure (a : α) (w : World) : (pure a : Action α).runOn w = (.ok a, w) := rfl

@[simp] theorem runOn_throw (failure : Failure) (w : World) :
    (throw failure : Action α).runOn w = (.error failure, w) := rfl

theorem runOn_bind (a : Action α) (f : α → Action β) (w : World) :
    (a >>= f).runOn w
      = match a.runOn w with
        | (.ok x, w') => (f x).runOn w'
        | (.error failure, w') => (.error failure, w') := by
  simp only [runOn, ExceptT.run, StateT.run, bind, ExceptT.bind, StateT.bind, ExceptT.mk]
  rcases a w with ⟨_ | _, _⟩ <;> rfl

theorem runOn_tryCatch (a : Action α) (handler : Failure → Action α) (w : World) :
    (tryCatch a handler).runOn w
      = match a.runOn w with
        | (.ok x, w') => (.ok x, w')
        | (.error failure, w') => (handler failure).runOn w' := by
  simp only [runOn, ExceptT.run, StateT.run, tryCatch, tryCatchThe, MonadExceptOf.tryCatch,
    ExceptT.tryCatch, ExceptT.mk, bind, StateT.bind]
  rcases a w with ⟨_ | _, _⟩ <;> rfl

/-- What returns has returned at each step. -/
theorem exists_of_runOn_bind {a : Action α} {f : α → Action β} {w u : World} {y : β}
    (h : (a >>= f).runOn w = (.ok y, u)) :
    ∃ x v, a.runOn w = (.ok x, v) ∧ (f x).runOn v = (.ok y, u) := by
  rw [runOn_bind] at h
  rcases hrun : a.runOn w with ⟨failure | x, v⟩
  · rw [hrun] at h
    cases h
  · rw [hrun] at h
    exact ⟨x, v, rfl, h⟩

/-- Steps that change nothing fail or return together as their results do. -/
theorem runOn_bind_of_still {a : Action α} {f : α → Action β} {w : World}
    {r : Except Failure α} {g : α → Except Failure β} (ha : a.runOn w = (r, w))
    (hf : ∀ x, (f x).runOn w = (g x, w)) : (a >>= f).runOn w = (r >>= g, w) := by
  rw [runOn_bind, ha]
  cases r with
  | error failure => rfl
  | ok x => exact hf x

/-- An edit as a step of an action. -/
@[simp] theorem runOn_lift (e : Edit α) (w : World) :
    (liftM e : Action α).runOn w = ((e.runOn w.tree).1, { w with tree := (e.runOn w.tree).2 }) :=
  rfl

@[simp] theorem runOn_ask (f : FileTree → Except Failure α) (w : World) :
    (liftM (Edit.ask f) : Action α).runOn w = (f w.tree, w) := by
  rw [runOn_lift, Edit.run_ask]

@[simp] theorem runOn_log (level : Level) (logger message : Text) (w : World) :
    (log level logger message).runOn w
      = (.ok (), { w with events := w.events ++ [.logged ⟨level, logger, message⟩] }) := rfl

/-- Noting things leaves the tree as it is. -/
theorem tree_forIn_note {γ : Type} (event : γ → Event) :
    ∀ (items : List γ) (w : World), ∃ events,
      (forIn items PUnit.unit fun item _ => do
        note (event item)
        pure (ForInStep.yield PUnit.unit) : Action PUnit).runOn w = (.ok PUnit.unit, ⟨w.tree, events⟩)
  | [], w => ⟨w.events, rfl⟩
  | item :: items, w => by
    obtain ⟨events, h⟩ := tree_forIn_note event items ⟨w.tree, w.events ++ [event item]⟩
    refine ⟨events, ?_⟩
    rw [List.forIn_cons, runOn_bind, runOn_bind, runOn_note]
    exact h

/-! ## Runs whatever was noted before. -/

/-- Whatever has been noted before, an action takes a tree to another with a result. -/
def Gives (a : Action α) (t : FileTree) (x : α) (t' : FileTree) : Prop :=
  ∀ events, ∃ events', a.runOn ⟨t, events⟩ = (.ok x, ⟨t', events'⟩)

variable {t u v : FileTree}

theorem gives_pure (x : α) (t : FileTree) : Gives (pure x) t x t := fun _ => ⟨_, rfl⟩

theorem gives_note (e : Event) (t : FileTree) : Gives (note e) t () t := fun _ => ⟨_, rfl⟩

theorem gives_log (level : Level) (logger message : Text) (t : FileTree) :
    Gives (log level logger message) t () t :=
  gives_note _ t

theorem gives_lift {e : Edit α} {x : α} (h : e.runOn t = (.ok x, u)) : Gives (liftM e : Action α) t x u :=
  fun events => ⟨events, by rw [runOn_lift, h]⟩

theorem Gives.bind {a : Action α} {f : α → Action β} {x : α} {y : β} (ha : Gives a t x u)
    (hf : Gives (f x) u y v) : Gives (a >>= f) t y v := by
  intro events
  obtain ⟨events', ha⟩ := ha events
  rw [runOn_bind, ha]
  exact hf events'

theorem Gives.tryCatch {a : Action α} {x : α} (ha : Gives a t x u) (handler : Failure → Action α) :
    Gives (tryCatch a handler) t x u := by
  intro events
  obtain ⟨events', ha⟩ := ha events
  rw [runOn_tryCatch, ha]
  exact ⟨events', rfl⟩

theorem gives_forM {f : β → Action PUnit} (hf : ∀ b, Gives (f b) t ⟨⟩ t) :
    ∀ items : List β, Gives (items.forM f) t ⟨⟩ t
  | [] => gives_pure _ t
  | b :: items => (hf b).bind (gives_forM hf items)

end Action

end ModuleBuild
