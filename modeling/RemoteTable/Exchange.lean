import RemoteTable.Request
import RemoteTable.Response

/-!
# Exchanges with a server

An operation on the server is described before it is run: it is finished, or it sends one request
and goes on with the reply. Who answers the requests is decided when the description is run, by
`Exchange.run`. A `Call` is an exchange that can fail, and once it has failed it sends nothing more.
-/

namespace RemoteTable

/-- What comes back for a request: an envelope, or the reason why there is none. -/
abbrev Reply := Except TransportFault Response

/-- A computation that may send requests, one after the other, and use their replies. -/
inductive Exchange (α : Type) where
  /-- Nothing is left to send. -/
  | done (result : α)
  /-- Sends a request and goes on with its reply. -/
  | ask (request : Request) (next : Reply → Exchange α)

namespace Exchange

variable {α β γ : Type}

/-- Goes on with a second exchange when the first is done. -/
def bind : Exchange α → (α → Exchange β) → Exchange β
  | done a, f => f a
  | ask request next, f => ask request fun reply => bind (next reply) f

/-- Sends one request. -/
def send (request : Request) : Exchange Reply :=
  ask request done

instance : Monad Exchange where
  pure := done
  bind := bind

/-- Runs an exchange with somebody who answers its requests. -/
def run {m : Type → Type} [Monad m] (answer : Request → m Reply) : Exchange α → m α
  | done a => pure a
  | ask request next => do run answer (next (← answer request))

/-! ## Laws -/

/-- Going on with the result alone changes nothing. -/
theorem bind_done (x : Exchange α) : bind x done = x := by
  induction x with
  | done a => rfl
  | ask request next ih => simp [bind, ih]

/-- What follows a conversation of two parts may be put behind its second part. -/
theorem bind_assoc (x : Exchange α) (f : α → Exchange β) (g : β → Exchange γ) :
    bind (bind x f) g = bind x fun a => bind (f a) g := by
  induction x with
  | done a => rfl
  | ask request next ih => simp [bind, ih]

instance : LawfulMonad Exchange :=
  LawfulMonad.mk' Exchange (fun x => bind_done x) (fun _ _ => rfl) (fun x f g => bind_assoc x f g)

end Exchange

/-- An exchange that ends in a result or a failure. -/
abbrev Call := ExceptT Error Exchange

namespace Call

variable {α : Type}

/-- Sends one request; a missing reply is the failure of the call. -/
def send (request : Request) : Call Response :=
  ExceptT.mk do
    match ← Exchange.send request with
    | .ok response => pure (.ok response)
    | .error fault => pure (.error (.transport fault))

/-- A result or a failure that is known without asking. -/
def ofExcept : Except Error α → Call α
  | .ok a => pure a
  | .error e => throw e

end Call

end RemoteTable
