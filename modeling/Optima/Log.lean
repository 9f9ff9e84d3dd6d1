/-!
Messages for the reader of a log, and values that come with messages.

* `log_bind`: the messages of one step stand before those of the next.
-/

namespace Optima

/-- How important a message is. -/
inductive Level
  | trace | debug | info | warn
  deriving DecidableEq, Repr

def Level.name : Level → String
  | trace => "TRACE"
  | debug => "DEBUG"
  | info => "INFO"
  | warn => "WARN"

structure Message where
  level : Level
  text : String
  deriving DecidableEq, Repr

/-- How a log writes a message. -/
def Message.line (m : Message) : String := m.level.name ++ " " ++ m.text

/-- A value, and the messages given on the way to it. -/
structure Logged (β : Type) where
  value : β
  log : List Message

namespace Logged

def map {β γ : Type} (f : β → γ) (x : Logged β) : Logged γ := ⟨f x.value, x.log⟩

instance : Monad Logged where
  pure b := ⟨b, []⟩
  bind x f := ⟨(f x.value).value, x.log ++ (f x.value).log⟩

def say (level : Level) (text : String) : Logged Unit := ⟨(), [⟨level, text⟩]⟩

/-- Gives the message only under a condition. -/
def sayIf (condition : Bool) (level : Level) (text : String) : Logged Unit :=
  if condition then say level text else pure ()

theorem value_bind {β γ : Type} (x : Logged β) (f : β → Logged γ) :
    (x >>= f).value = (f x.value).value := rfl

theorem log_bind {β γ : Type} (x : Logged β) (f : β → Logged γ) :
    (x >>= f).log = x.log ++ (f x.value).log := rfl

end Logged

end Optima
