import EffectKernel.Defect

/-!
# Actions

The functions a program hands to the machine. Such a function may read and change
the state of the program, and it may stop in the middle, in which case what it did
to the state before stays done. It cannot see the machine: not the clock, not the
services, not the frames around it.

The type of the state is a parameter everywhere, so that nothing the machine does
can depend on it.

## Main definitions

* `Act`: A function on the state that may panic.
* `Act.stop`: The function that only panics.
* `Act.attempt`: The function whose panic is a result.
* `Act.update`: A change of the state with a result.
-/

namespace EffectKernel

/-- A function on the state of type `σ` that gives an `α` or panics. -/
structure Act (σ α : Type) where
  /-- The result, or the panic, with the state it leaves. -/
  run : σ → Except Panic α × σ

namespace Act

variable {σ α β : Type}

instance : Monad (Act σ) where
  pure a := ⟨fun s => (.ok a, s)⟩
  bind act next := ⟨fun s =>
    match act.run s with
    | (.ok a, s) => (next a).run s
    | (.error p, s) => (.error p, s)⟩

instance : Inhabited (Act σ α) := ⟨⟨fun s => (.error ⟨none⟩, s)⟩⟩

/-- The function that only panics. -/
def stop (p : Panic) : Act σ α :=
  ⟨fun s => (.error p, s)⟩

/-- The function that panics with a message. -/
def stopWith (message : String) : Act σ α :=
  stop ⟨some message⟩

/-- The function with its panic, if it panics, as a result. -/
def attempt (act : Act σ α) : Act σ (Except Panic α) :=
  ⟨fun s => match act.run s with | (result, s) => (.ok result, s)⟩

/-- A change of the state with a result. -/
def update (f : σ → α × σ) : Act σ α :=
  ⟨fun s => match f s with | (a, s) => (.ok a, s)⟩

/-- A change of the state. -/
def modify (f : σ → σ) : Act σ Unit :=
  update fun s => ((), f s)

@[simp] theorem run_pure (a : α) (s : σ) : (pure a : Act σ α).run s = (.ok a, s) := rfl

/-- An action that follows another one is not run if that one has panicked. What the first one has
    done to the state stays done. -/
theorem run_bind (act : Act σ α) (next : α → Act σ β) (s : σ) :
    (act >>= next).run s =
      match act.run s with
      | (.ok a, s) => (next a).run s
      | (.error p, s) => (.error p, s) := rfl

@[simp] theorem run_stop (p : Panic) (s : σ) :
    (stop p : Act σ α).run s = (.error p, s) := rfl

end Act

end EffectKernel
