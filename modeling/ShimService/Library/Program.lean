import Mathlib.Logic.Basic

/-!
Computations that may raise, over a state that outlives the exception, with handlers and
finalizers; and rules for what holds when one ends.
-/

/-- Ends with a value or an exception, and with a state in both cases. -/
def Program (σ ε α : Type) : Type := σ → Except ε α × σ

namespace Program

variable {σ ε α β : Type}

instance : Monad (Program σ ε) where
  pure a s := (.ok a, s)
  bind x f s :=
    match x s with
    | (.ok a, s) => f a s
    | (.error e, s) => (.error e, s)

def raise (e : ε) : Program σ ε α := fun s => (.error e, s)

def read (f : σ → α) : Program σ ε α := fun s => (.ok (f s), s)

def modify (f : σ → σ) : Program σ ε Unit := fun s => (.ok (), f s)

/-- `try` with an `except` that sees every exception. -/
def handle (x : Program σ ε α) (handler : ε → Program σ ε α) : Program σ ε α := fun s =>
  match x s with
  | (.ok a, s) => (.ok a, s)
  | (.error e, s) => handler e s

/-- `try` with a `finally`, which is told whether the body has ended normally. An exception of the
finalizer replaces the body's. -/
def ensure (x : Program σ ε α) (finalizer : Bool → Program σ ε Unit) : Program σ ε α := fun s =>
  let (result, s) := x s
  match finalizer result.isOk s with
  | (.ok _, s) => (result, s)
  | (.error e, s) => (.error e, s)

/-- What holds of the outcome and the state at the end. -/
def Ends (x : Program σ ε α) (s : σ) (post : Except ε α → σ → Prop) : Prop :=
  post (x s).1 (x s).2

variable {x : Program σ ε α} {s : σ} {post post' : Except ε α → σ → Prop}

/-! How a computation goes on from a state. -/

theorem pure_apply {a : α} : (pure a : Program σ ε α) s = (.ok a, s) := rfl

theorem bind_read {f : σ → α} {k : α → Program σ ε β} : (read f >>= k) s = k (f s) s := rfl

theorem bind_modify {f : σ → σ} {k : Unit → Program σ ε β} :
    (modify f >>= k) s = k () (f s) := rfl

theorem bind_of_ok {k : α → Program σ ε β} {a : α} {t : σ} (h : x s = (.ok a, t)) :
    (x >>= k) s = k a t := by
  simp only [bind, h]

theorem bind_of_error {k : α → Program σ ε β} {e : ε} {t : σ} (h : x s = (.error e, t)) :
    (x >>= k) s = (.error e, t) := by
  simp only [bind, h]

theorem bind_pure_apply {b : β} :
    (x >>= fun _ => pure b) s = ((x s).1.map fun _ => b, (x s).2) := by
  simp only [bind]
  rcases x s with ⟨_ | _, _⟩ <;> rfl

/-! What holds when a computation has ended. -/

theorem Ends.mono (h : x.Ends s post) (himp : ∀ result t, post result t → post' result t) :
    x.Ends s post' := himp _ _ h

@[simp] theorem ends_pure {a : α} : Ends (pure a : Program σ ε α) s post ↔ post (.ok a) s :=
  Iff.rfl

@[simp] theorem ends_raise {e : ε} : Ends (raise e) s post ↔ post (.error e) s := Iff.rfl

@[simp] theorem ends_read {f : σ → α} : Ends (read f) s post ↔ post (.ok (f s)) s := Iff.rfl

@[simp] theorem ends_modify {f : σ → σ} {post : Except ε Unit → σ → Prop} :
    Ends (modify f) s post ↔ post (.ok ()) (f s) := Iff.rfl

theorem ends_bind {f : α → Program σ ε β} {post : Except ε β → σ → Prop} :
    (x >>= f).Ends s post ↔ x.Ends s fun result t =>
      match result with
      | .ok a => (f a).Ends t post
      | .error e => post (.error e) t := by
  change post ((x >>= f) s).1 ((x >>= f) s).2 ↔ _
  unfold Ends
  rcases hx : x s with ⟨_ | a, t⟩ <;> simp only [bind, hx]

theorem ends_bind_read {f : σ → α} {k : α → Program σ ε β} {post : Except ε β → σ → Prop} :
    (read f >>= k).Ends s post ↔ (k (f s)).Ends s post := Iff.rfl

theorem ends_handle {handler : ε → Program σ ε α} :
    (x.handle handler).Ends s post ↔ x.Ends s fun result t =>
      match result with
      | .ok a => post (.ok a) t
      | .error e => (handler e).Ends t post := by
  unfold Ends handle
  rcases hx : x s with ⟨_ | a, t⟩ <;> rfl

theorem ends_ensure {finalizer : Bool → Program σ ε Unit} :
    (x.ensure finalizer).Ends s post ↔ x.Ends s fun result t =>
      (finalizer result.isOk).Ends t fun last u =>
        match last with
        | .ok _ => post result u
        | .error e => post (.error e) u := by
  unfold Ends ensure
  rcases hx : x s with ⟨result, t⟩
  rcases hf : finalizer result.isOk t with ⟨_ | _, u⟩ <;> simp only [hf]

end Program
