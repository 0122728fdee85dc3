import Mathlib.Logic.Basic

/-!
# Request handlers

A handler reads and writes a store and may raise. What it wrote before it raised stays written, as in a program
without transactions.

* (execution) `exec` runs a handler on a store, `exec_bind` cuts a run at a command.
* (cleanup) `onError x c` runs `c` when `x` raises, and raises the same error again.
* (parts) `onPart` runs a handler of a part of the store on the whole.
* (frame) `Keeps f x`: whatever `x` does, it leaves the part `f` of the store alone.
* (triples) `Triple P x Q E`: from `P` the handler returns with `Q` or raises with `E`.
-/

namespace Handlers

/-- A computation on the store `σ` that returns an `α` or raises an `ε`. -/
abbrev Handler (σ ε α : Type) := ExceptT ε (StateM σ) α

variable {σ τ ε α β : Type} {s t : σ}

/-- What a handler returns or raises, and the store it leaves. -/
def exec (x : Handler σ ε α) (s : σ) : Except ε α × σ :=
  StateT.run (ExceptT.run x) s

/-- `x`, with the cleanup `c` before an error of `x` is raised again. -/
def onError (x : Handler σ ε α) (c : Handler σ ε Unit) : Handler σ ε α :=
  tryCatch x fun e => do c; throw e

/-- `x` where `p` holds, nothing elsewhere. -/
def doIf (p : Prop) [Decidable p] (x : Handler σ ε Unit) : Handler σ ε Unit :=
  if p then x else pure ()

/-- A handler of the part `view s` of the store, where `put` writes that part back. -/
def onPart (view : σ → τ) (put : σ → τ → σ) (x : Handler τ ε α) : Handler σ ε α :=
  ExceptT.mk fun s => let r := exec x (view s); (r.1, put s r.2)

/-- Raises the error of a computation that reads nothing. -/
def orRaise (r : Except ε α) : Handler σ ε α :=
  ExceptT.mk (pure r)

/-! ### Execution -/

@[simp] theorem exec_pure (a : α) : exec (pure a : Handler σ ε α) s = (.ok a, s) := rfl

@[simp] theorem exec_throw {e : ε} : exec (throw e : Handler σ ε α) s = (.error e, s) := rfl

@[simp] theorem exec_get : exec (get : Handler σ ε σ) s = (.ok s, s) := rfl

@[simp] theorem exec_modify (g : σ → σ) : exec (modify g : Handler σ ε Unit) s = (.ok (), g s) := rfl

@[simp] theorem exec_onPart (view : σ → τ) (put : σ → τ → σ) (x : Handler τ ε α) :
    exec (onPart view put x) s = ((exec x (view s)).1, put s (exec x (view s)).2) := rfl

@[simp] theorem exec_orRaise (r : Except ε α) : exec (orRaise r : Handler σ ε α) s = (r, s) := rfl

theorem doIf_of {p : Prop} [Decidable p] (h : p) (x : Handler σ ε Unit) : doIf p x = x := if_pos h

theorem doIf_of_not {p : Prop} [Decidable p] (h : ¬ p) (x : Handler σ ε Unit) : doIf p x = pure () := if_neg h

theorem exec_bind (x : Handler σ ε α) (f : α → Handler σ ε β) :
    exec (x >>= f) s = match exec x s with
      | (.ok a, t) => exec (f a) t
      | (.error e, t) => (.error e, t) := by
  simp only [exec, ExceptT.run_bind, StateT.run_bind]
  rcases StateT.run (ExceptT.run x) s with ⟨_ | _, _⟩ <;> rfl

theorem exec_bind_ok {x : Handler σ ε α} {a : α} (f : α → Handler σ ε β) (h : exec x s = (.ok a, t)) :
    exec (x >>= f) s = exec (f a) t := by
  rw [exec_bind, h]

theorem exec_bind_error {x : Handler σ ε α} {e : ε} (f : α → Handler σ ε β) (h : exec x s = (.error e, t)) :
    exec (x >>= f) s = (.error e, t) := by
  rw [exec_bind, h]

theorem exec_tryCatch (x : Handler σ ε α) (c : ε → Handler σ ε α) :
    exec (tryCatch x c) s = match exec x s with
      | (.ok a, t) => (.ok a, t)
      | (.error e, t) => exec (c e) t := by
  simp only [exec, ExceptT.run_tryCatch, StateT.run_bind]
  rcases StateT.run (ExceptT.run x) s with ⟨_ | _, _⟩ <;> rfl

theorem exec_onError (x : Handler σ ε α) (c : Handler σ ε Unit) :
    exec (onError x c) s = match exec x s with
      | (.ok a, t) => (.ok a, t)
      | (.error e, t) => exec (c >>= fun _ => throw e) t := by
  simp only [exec, onError, ExceptT.run_tryCatch, StateT.run_bind]
  rcases StateT.run (ExceptT.run x) s with ⟨_ | _, _⟩ <;> rfl

theorem exec_onError_ok {x : Handler σ ε α} {a : α} (c : Handler σ ε Unit) (h : exec x s = (.ok a, t)) :
    exec (onError x c) s = (.ok a, t) := by
  rw [exec_onError, h]

/-- A cleanup does not catch. -/
theorem onError_raises {x : Handler σ ε α} {e : ε} (c : Handler σ ε Unit) (h : exec x s = (.error e, t)) :
    ∃ e' t', exec (onError x c) s = (.error e', t') := by
  rw [exec_onError, h]
  rcases hc : exec c t with ⟨e' | u, t'⟩
  · exact ⟨e', t', exec_bind_error _ hc⟩
  · exact ⟨e, t', (exec_bind_ok _ hc).trans exec_throw⟩

/-! ### Frames -/

/-- The handler leaves `f` of the store as it found it, whether it returns or raises. -/
def Keeps (f : σ → β) (x : Handler σ ε α) : Prop :=
  ∀ s, f (exec x s).2 = f s

section Frames

variable {γ : Type} {f : σ → γ}

theorem keeps_pure (a : α) : Keeps f (pure a : Handler σ ε α) := fun _ => rfl

theorem keeps_throw (e : ε) : Keeps f (throw e : Handler σ ε α) := fun _ => rfl

theorem keeps_get : Keeps f (get : Handler σ ε σ) := fun _ => rfl

theorem keeps_modify {g : σ → σ} (h : ∀ s, f (g s) = f s) : Keeps f (modify g : Handler σ ε Unit) := h

theorem keeps_orRaise (r : Except ε α) : Keeps f (orRaise r : Handler σ ε α) := fun _ => rfl

theorem keeps_onPart {view : σ → τ} {put : σ → τ → σ} {x : Handler τ ε α} (h : ∀ s t, f (put s t) = f s) :
    Keeps f (onPart view put x) := fun s => h s _

theorem Keeps.bind {x : Handler σ ε α} {k : α → Handler σ ε β} (hx : Keeps f x) (hk : ∀ a, Keeps f (k a)) :
    Keeps f (x >>= k) := by
  intro s
  have h := hx s
  rw [exec_bind]
  generalize exec x s = r at h ⊢
  rcases r with ⟨e | a, t⟩
  · exact h
  · exact (hk a t).trans h

theorem Keeps.onError {x : Handler σ ε α} {c : Handler σ ε Unit} (hx : Keeps f x) (hc : Keeps f c) :
    Keeps f (onError x c) := by
  intro s
  have h := hx s
  rw [exec_onError]
  generalize exec x s = r at h ⊢
  rcases r with ⟨e | a, t⟩
  · exact ((hc.bind fun _ => keeps_throw e) t).trans h
  · exact h

theorem Keeps.ite {p : Prop} [Decidable p] {x y : Handler σ ε α} (hx : Keeps f x) (hy : Keeps f y) :
    Keeps f (if p then x else y) := by
  split
  · exact hx
  · exact hy

theorem Keeps.doIf {p : Prop} [Decidable p] {x : Handler σ ε Unit} (hx : Keeps f x) : Keeps f (doIf p x) :=
  hx.ite (keeps_pure _)

theorem Keeps.prod {δ : Type} {g : σ → δ} {x : Handler σ ε α} (hf : Keeps f x) (hg : Keeps g x) :
    Keeps (fun s => (f s, g s)) x := fun s => Prod.ext (hf s) (hg s)

end Frames

/-! ### Handlers that never return -/

/-- The handler raises in every store. -/
def Fails (x : Handler σ ε α) : Prop := ∀ s, ∃ e t, exec x s = (.error e, t)

theorem fails_throw (e : ε) : Fails (throw e : Handler σ ε α) := fun s => ⟨e, s, exec_throw⟩

theorem Fails.bind {x : Handler σ ε α} (hx : Fails x) (k : α → Handler σ ε β) : Fails (x >>= k) := by
  intro s
  obtain ⟨e, t, h⟩ := hx s
  exact ⟨e, t, exec_bind_error k h⟩

theorem Fails.after (x : Handler σ ε α) {k : α → Handler σ ε β} (hk : ∀ a, Fails (k a)) : Fails (x >>= k) := by
  intro s
  rcases hx : exec x s with ⟨e | a, t⟩
  · exact ⟨e, t, exec_bind_error k hx⟩
  · obtain ⟨e, u, h⟩ := hk a t
    exact ⟨e, u, (exec_bind_ok k hx).trans h⟩

/-! ### Triples -/

/-- From a store with `P` the handler returns with `Q` or raises with `E`. -/
def Triple (P : σ → Prop) (x : Handler σ ε α) (Q : α → σ → Prop) (E : ε → σ → Prop) : Prop :=
  ∀ s, P s → match exec x s with
    | (.ok a, t) => Q a t
    | (.error e, t) => E e t

section Triples

variable {P P' : σ → Prop} {Q Q' : α → σ → Prop} {E E' : ε → σ → Prop} {x : Handler σ ε α}

theorem triple_pure {a : α} (h : ∀ s, P s → Q a s) : Triple P (pure a : Handler σ ε α) Q E := h

theorem triple_throw {e : ε} (h : ∀ s, P s → E e s) : Triple P (throw e : Handler σ ε α) Q E := h

theorem triple_get {Q : σ → σ → Prop} (h : ∀ s, P s → Q s s) : Triple P (get : Handler σ ε σ) Q E := h

theorem triple_modify {g : σ → σ} {Q : Unit → σ → Prop} (h : ∀ s, P s → Q () (g s)) :
    Triple P (modify g : Handler σ ε Unit) Q E := h

/-- The rule of consequence. -/
theorem Triple.mono (hx : Triple P x Q E) (hP : ∀ s, P' s → P s) (hQ : ∀ a s, Q a s → Q' a s)
    (hE : ∀ e s, E e s → E' e s) : Triple P' x Q' E' := by
  intro s hs
  have h := hx s (hP s hs)
  generalize exec x s = r at h ⊢
  rcases r with ⟨e | a, t⟩
  · exact hE e t h
  · exact hQ a t h

theorem Triple.pre (hx : Triple P x Q E) (h : ∀ s, P' s → P s) : Triple P' x Q E :=
  hx.mono h (fun _ _ hs => hs) fun _ _ hs => hs

theorem Triple.post (hx : Triple P x Q E) (h : ∀ a s, Q a s → Q' a s) : Triple P x Q' E :=
  hx.mono (fun _ hs => hs) h fun _ _ hs => hs

theorem Triple.err (hx : Triple P x Q E) (h : ∀ e s, E e s → E' e s) : Triple P x Q E' :=
  hx.mono (fun _ hs => hs) (fun _ _ hs => hs) h

/-- A handler that only reads. -/
theorem triple_reads {g : σ → α} (hx : ∀ s, exec x s = (.ok (g s), s)) :
    Triple P x (fun a s => P s ∧ a = g s) E := by
  intro s hs
  rw [hx s]
  exact ⟨hs, rfl⟩

theorem triple_true : Triple (fun _ => True) x (fun _ _ => True) fun _ _ => True := by
  intro s _
  split <;> trivial

theorem Triple.and {P₁ : σ → Prop} {Q₁ : α → σ → Prop} {E₁ : ε → σ → Prop} (hx : Triple P x Q E)
    (hy : Triple P₁ x Q₁ E₁) :
    Triple (fun s => P s ∧ P₁ s) x (fun a s => Q a s ∧ Q₁ a s) fun e s => E e s ∧ E₁ e s := by
  intro s hs
  have h := hx s hs.1
  have h₁ := hy s hs.2
  generalize exec x s = r at h h₁ ⊢
  rcases r with ⟨e | a, t⟩
  · exact ⟨h, h₁⟩
  · exact ⟨h, h₁⟩

/-- A part of the precondition that the store has no say in is a hypothesis. -/
theorem triple_assume {p : Prop} (h : p → Triple P x Q E) : Triple (fun s => p ∧ P s) x Q E :=
  fun s hs => h hs.1 s hs.2

theorem triple_assume_right {p : Prop} (h : p → Triple P x Q E) : Triple (fun s => P s ∧ p) x Q E :=
  fun s hs => h hs.2 s hs.1

theorem Triple.bind {R : β → σ → Prop} {k : α → Handler σ ε β} (hx : Triple P x Q E)
    (hk : ∀ a, Triple (Q a) (k a) R E) : Triple P (x >>= k) R E := by
  intro s hs
  have h := hx s hs
  rw [exec_bind]
  generalize exec x s = r at h ⊢
  rcases r with ⟨e | a, t⟩
  · exact h
  · exact hk a t h

/-- A handler that reads the store first goes on in the store it has read. -/
theorem triple_get_bind {k : σ → Handler σ ε α} (h : ∀ r, Triple (fun s => P s ∧ s = r) (k r) Q E) :
    Triple P (get >>= k) Q E :=
  Triple.bind (triple_get fun _ hs => ⟨hs, rfl⟩) h

theorem Triple.ite {p : Prop} [Decidable p] {y : Handler σ ε α} (hx : p → Triple P x Q E)
    (hy : ¬ p → Triple P y Q E) : Triple P (if p then x else y) Q E := by
  split
  · next h => exact hx h
  · next h => exact hy h

theorem Triple.tryCatch {F : ε → σ → Prop} {c : ε → Handler σ ε α} (hx : Triple P x Q F)
    (hc : ∀ e, Triple (F e) (c e) Q E) : Triple P (tryCatch x c) Q E := by
  intro s hs
  have h := hx s hs
  rw [exec_tryCatch]
  generalize exec x s = r at h ⊢
  rcases r with ⟨e | a, t⟩
  · exact hc e t h
  · exact h

/-- What holds of the store however the handler ends. -/
theorem Triple.final {R : σ → Prop} (hx : Triple P x (fun _ => R) fun _ => R) (hs : P s) : R (exec x s).2 := by
  have h := hx s hs
  generalize exec x s = r at h ⊢
  rcases r with ⟨e | a, t⟩
  · exact h
  · exact h

/-- What holds of a part of the store that the handler leaves alone, holds after it. -/
theorem Keeps.triple {γ : Type} {f : σ → γ} (hx : Keeps f x) (p : γ → Prop) :
    Triple (fun s => p (f s)) x (fun _ s => p (f s)) fun _ s => p (f s) := by
  intro s hs
  rw [← hx s] at hs
  generalize exec x s = r at hs ⊢
  rcases r with ⟨e | a, t⟩
  · exact hs
  · exact hs

/-- A handler of a part of the store, where the rest decides what holds. -/
theorem triple_onPart {view : σ → τ} {put : σ → τ → σ} {x : Handler τ ε α}
    (hQ : ∀ s a u, P s → exec x (view s) = (.ok a, u) → Q a (put s u))
    (hE : ∀ s e u, P s → exec x (view s) = (.error e, u) → E e (put s u)) :
    Triple P (onPart view put x) Q E := by
  intro s hs
  rw [exec_onPart]
  rcases h : exec x (view s) with ⟨e | a, u⟩
  · exact hE s e u hs h
  · exact hQ s a u hs h

end Triples

end Handlers
