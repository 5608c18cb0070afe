/-!
# Computations that report events

A logged computation ends with a value or an error, and lists the events on its way in order.
Events never decide anything: the result of a sequence depends on the results of its steps alone.
-/

namespace LinOpt

/-- A result together with the events that were reported before it was reached. -/
structure Logged (event error value : Type) where
  events : List event
  result : Except error value

namespace Logged

variable {event error value next : Type}

def emit (e : event) : Logged event error Unit := ⟨[e], .ok ()⟩

def fail (e : error) : Logged event error value := ⟨[], .error e⟩

def ofExcept (result : Except error value) : Logged event error value := ⟨[], result⟩

/-- Continues after a value with its events first, and stops at an error. -/
def andThen (first : Logged event error value) (rest : value → Logged event error next) :
    Logged event error next :=
  match first.result with
  | .ok v =>
    let second := rest v
    ⟨first.events ++ second.events, second.result⟩
  | .error e => ⟨first.events, .error e⟩

instance : Monad (Logged event error) where
  pure v := ⟨[], .ok v⟩
  bind := andThen

def mapError {error' : Type} (f : error → error') (logged : Logged event error value) :
    Logged event error' value :=
  ⟨logged.events, logged.result.mapError f⟩

@[simp] theorem result_pure (v : value) :
    (pure v : Logged event error value).result = .ok v := rfl

@[simp] theorem result_emit (e : event) :
    (emit e : Logged event error Unit).result = .ok () := rfl

@[simp] theorem result_fail (e : error) :
    (fail e : Logged event error value).result = .error e := rfl

@[simp] theorem result_ofExcept (result : Except error value) :
    (ofExcept result : Logged event error value).result = result := rfl

@[simp] theorem result_mapError {error' : Type} (f : error → error')
    (logged : Logged event error value) :
    (logged.mapError f).result = logged.result.mapError f := rfl

@[simp] theorem result_bind (first : Logged event error value)
    (rest : value → Logged event error next) :
    (first >>= rest).result = first.result.bind fun v => (rest v).result := by
  show (andThen first rest).result = _
  unfold andThen
  cases first.result <;> rfl

end Logged

end LinOpt
