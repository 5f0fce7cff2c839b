import BufferSchema.CompileError
import BufferSchema.Log

/-!
# Results with a log

A stage either fails or has a result, and in both cases it has told some events. Stages are put
one after the other with `bind`: the events of a stage that fails are kept, those of later
stages do not arise.
-/

namespace BufferSchema

/-- The outcome of a stage together with what it told on the way. -/
structure Logged (α : Type) where
  events : List Log.Event
  result : Except CompileError α

namespace Logged

variable {α β : Type}

protected def pure (a : α) : Logged α := ⟨[], .ok a⟩

protected def bind (x : Logged α) (f : α → Logged β) : Logged β :=
  match x.result with
  | .error e => ⟨x.events, .error e⟩
  | .ok a => ⟨x.events ++ (f a).events, (f a).result⟩

instance : Monad Logged where
  pure := Logged.pure
  bind := Logged.bind

/-- Tells events and does nothing else. -/
def tell (events : List Log.Event) : Logged Unit := ⟨events, .ok ()⟩

/-- A result that tells nothing. -/
def ofExcept (result : Except CompileError α) : Logged α := ⟨[], result⟩

@[simp] theorem result_pure (a : α) : (pure a : Logged α).result = .ok a := rfl

@[simp] theorem events_pure (a : α) : (pure a : Logged α).events = [] := rfl

@[simp] theorem result_tell (events : List Log.Event) : (tell events).result = .ok () := rfl

@[simp] theorem events_tell (events : List Log.Event) : (tell events).events = events := rfl

@[simp] theorem result_ofExcept (r : Except CompileError α) : (ofExcept r).result = r := rfl

@[simp] theorem events_ofExcept (r : Except CompileError α) : (ofExcept r).events = [] := rfl

@[simp] theorem result_bind (x : Logged α) (f : α → Logged β) :
    (x >>= f).result = x.result >>= fun a => (f a).result := by
  obtain ⟨events, result⟩ := x
  cases result <;> rfl

end Logged

end BufferSchema
