import StyleAudit.Event
import StyleAudit.Fault

/-!
# Runs that tell about themselves

A run gives events and then a value or a fault. Events that came before a fault are kept.
-/

namespace StyleAudit

structure Logged (α : Type) where
  events : List Event
  result : Except Fault α

namespace Logged

variable {α β : Type}

/-- Goes on with the value, if there is one. -/
def andThen (m : Logged α) (f : α → Logged β) : Logged β :=
  match m.result with
  | .ok a => ⟨m.events ++ (f a).events, (f a).result⟩
  | .error e => ⟨m.events, .error e⟩

instance : Monad Logged where
  pure a := ⟨[], .ok a⟩
  bind := andThen

/-- Tells events. -/
def tell (events : List Event) : Logged Unit :=
  ⟨events, .ok ()⟩

/-- A value or fault without events. -/
def lift (result : Except Fault α) : Logged α :=
  ⟨[], result⟩

end Logged

end StyleAudit
