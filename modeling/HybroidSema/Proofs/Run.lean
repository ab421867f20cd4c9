import HybroidSema.Check.Basic

/-!
# Running a check

A statement about a check is a statement about one run of it: from a state the check succeeds, and
its result and the state that it leaves have a property. `Check.Runs` is that statement, and the
lemmas below give one rule for each way to build a check.

* `Runs.pure`, `Runs.bind` and `Runs.mono`: the rules of the monad.
* `runs_get`, `runs_modify` and `runs_read`: the steps that touch the state.
* `Runs.forM`: a check for each item of a list, by an invariant of the state.

Every rule claims success. A check that may fail has no rule here; that it does not is shown
where the own environment is known to be registered.
-/

namespace HybroidSema.Check

variable {α β : Type} {m : Check α} {f : α → Check β} {c : Context} {s : State}

/-- From a state the check succeeds, and its result and the state it leaves satisfy `post`. -/
def Runs (m : Check α) (c : Context) (s : State) (post : α → State → Prop) : Prop :=
  ∃ a s', m c s = .ok (a, s') ∧ post a s'

/-! ## The monad -/

/-- A check after another one starts in the state that the first one leaves. -/
theorem bind_apply (m : Check α) (f : α → Check β) (c : Context) (s : State) :
    (m >>= f) c s = m c s >>= fun r => f r.1 c r.2 := rfl

/-- After a successful check the rest runs from its result. -/
theorem bind_apply_ok {a : α} {s' : State} (h : m c s = .ok (a, s')) :
    (m >>= f) c s = f a c s' := by
  rw [bind_apply, h]
  rfl

/-- A successful run of a sequence is a run of its parts. -/
theorem bind_eq_ok {r : β × State} (h : (m >>= f) c s = .ok r) :
    ∃ a s', m c s = .ok (a, s') ∧ f a c s' = .ok r := by
  rw [bind_apply] at h
  cases hm : m c s with
  | error e => rw [hm] at h; cases h
  | ok r' => exact ⟨r'.1, r'.2, rfl, by rw [hm] at h; exact h⟩

namespace Runs

theorem pure {post : α → State → Prop} {a : α} (h : post a s) : Runs (pure a) c s post :=
  ⟨a, s, rfl, h⟩

theorem bind {mid : α → State → Prop} {post : β → State → Prop} (hm : Runs m c s mid)
    (hf : ∀ a s', mid a s' → Runs (f a) c s' post) : Runs (m >>= f) c s post := by
  obtain ⟨a, s', hrun, hmid⟩ := hm
  obtain ⟨b, t, hrest, hpost⟩ := hf a s' hmid
  exact ⟨b, t, (bind_apply_ok hrun).trans hrest, hpost⟩

theorem mono {post post' : α → State → Prop} (hm : Runs m c s post)
    (h : ∀ a s', post a s' → post' a s') : Runs m c s post' := by
  obtain ⟨a, s', hrun, hpost⟩ := hm
  exact ⟨a, s', hrun, h a s' hpost⟩

/-- Two properties of the one run of a check. -/
theorem and {post post' : α → State → Prop} (h : Runs m c s post) (h' : Runs m c s post') :
    Runs m c s fun a s' => post a s' ∧ post' a s' := by
  obtain ⟨a, s', hrun, hpost⟩ := h
  obtain ⟨b, t, hrun', hpost'⟩ := h'
  obtain ⟨rfl, rfl⟩ : a = b ∧ s' = t := by
    rw [hrun] at hrun'
    simpa using hrun'
  exact ⟨a, s', hrun, hpost, hpost'⟩

/-- What holds of the result of a run that is known. -/
theorem apply {post : α → State → Prop} (h : Runs m c s post) {a : α} {s' : State}
    (hrun : m c s = .ok (a, s')) : post a s' := by
  obtain ⟨b, t, hrun', hpost⟩ := h
  obtain ⟨rfl, rfl⟩ : b = a ∧ t = s' := by
    rw [hrun] at hrun'
    simpa using hrun'.symm
  exact hpost

/-- Run a check for each item: what every item keeps, the whole run keeps. -/
theorem forM {ι : Type} {step : ι → Check Unit} {I : State → Prop} (items : List ι)
    (h : I s) (hstep : ∀ i ∈ items, ∀ t, I t → Runs (step i) c t fun _ => I) :
    Runs (items.forM step) c s fun _ => I := by
  induction items generalizing s with
  | nil => exact .pure h
  | cons i rest ih =>
    refine (hstep i (by simp) s h).bind fun _ t ht => ?_
    exact ih ht fun j hj => hstep j (by simp [hj])

end Runs

/-! ## State and context -/

theorem runs_get : Runs get c s fun a s' => a = s ∧ s' = s := ⟨s, s, rfl, rfl, rfl⟩

theorem runs_modify (g : State → State) : Runs (modify g) c s fun _ s' => s' = g s :=
  ⟨(), g s, rfl, rfl⟩

theorem runs_set (t : State) : Runs (set t) c s fun _ s' => s' = t := ⟨(), t, rfl, rfl⟩

/-- What was computed outside the state. -/
theorem runs_lift {x : Except CompileError α} {a : α} (h : x = .ok a) :
    Runs (liftM x) c s fun b s' => b = a ∧ s' = s := by
  subst h
  exact ⟨a, s, rfl, rfl, rfl⟩

/-! ## Results -/

/-- What is computed to hold of a result holds of a result. -/
theorem exists_eq_ok_of_any {ε : Type} {x : Except ε α} {p : α → Bool}
    (h : x.toOption.any p = true) : ∃ a, x = .ok a ∧ p a = true := by
  cases x with
  | error e => cases h
  | ok a => exact ⟨a, rfl, h⟩

/-- Every result of a check has the property. -/
def Gives (m : Check α) (Q : α → Prop) : Prop := ∀ c s a s', m c s = .ok (a, s') → Q a

namespace Gives

variable {f : α → Check β} {Q : α → Prop} {R : β → Prop}

theorem pure {a : α} (h : Q a) : Gives (pure a) Q := by
  intro c s a' s' hrun
  cases hrun
  exact h

theorem bind (hf : ∀ a, Gives (f a) R) : Gives (m >>= f) R := by
  intro c s b s' hrun
  obtain ⟨a, t, -, hrun'⟩ := bind_eq_ok hrun
  exact hf a c t b s' hrun'

theorem bind_of (hm : Gives m Q) (hf : ∀ a, Q a → Gives (f a) R) : Gives (m >>= f) R := by
  intro c s b s' hrun
  obtain ⟨a, t, hrun₁, hrun₂⟩ := bind_eq_ok hrun
  exact hf a (hm c s a t hrun₁) c t b s' hrun₂

end Gives

end HybroidSema.Check
