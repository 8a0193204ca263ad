import RemoteTable.Client

/-!
# Outcomes of calls

An exchange that is run goes from one reply to the next, and what is composed of exchanges runs as
the composition of their runs (`Exchange.run_bind`). With a server that answers by a fixed rule a
call comes to one outcome (`Call.outcome`), which is found by following the parts of the call. A call
that sends one request and no more is a `Call.single`, whoever answers; the calls of a table are
(`Table.call_eq_single`), and what a client, a database and a table add to the request is
`Table.addressed`.
-/

namespace RemoteTable

/-! ## Conversations -/

namespace Exchange

variable {α β : Type} {m : Type → Type} [Monad m]

/-- A conversation in two parts is run part by part. -/
theorem run_bind [LawfulMonad m] (answer : Request → m Reply) (x : Exchange α)
    (f : α → Exchange β) : run answer (x >>= f) = run answer x >>= fun a => run answer (f a) := by
  change run answer (x.bind f) = _
  induction x with
  | done a => simp [Exchange.bind, run]
  | ask request next ih => simp [Exchange.bind, run, ih]

end Exchange

/-! ## Outcomes of calls -/

namespace Call

variable {α β : Type}

/-- What a call comes to with a server that answers by a rule. -/
def outcome (answer : Request → Reply) (x : Call α) : Except Error α :=
  (Exchange.run (m := Id) answer x.run).run

variable (answer : Request → Reply)

@[simp] theorem outcome_pure (a : α) : outcome answer (pure a) = .ok a := rfl

@[simp] theorem outcome_throw (e : Error) : outcome answer (throw e : Call α) = .error e := rfl

@[simp] theorem outcome_ofExcept (x : Except Error α) : outcome answer (ofExcept x) = x := by
  cases x <;> rfl

@[simp] theorem outcome_send (request : Request) :
    outcome answer (send request) = (answer request).mapError .transport := by
  have hreply : Exchange.run (m := Id) answer (Exchange.send request) = answer request := rfl
  simp only [outcome, send, ExceptT.run_mk, Exchange.run_bind, hreply]
  cases h : answer request <;> rfl

/-- A failed part ends a call, and else the call goes on with the part's result. -/
@[simp] theorem outcome_bind (x : Call α) (f : α → Call β) :
    outcome answer (x >>= f) = outcome answer x >>= fun a => outcome answer (f a) := by
  have hbind : outcome answer (x >>= f) =
      (Exchange.run (m := Id) answer (ExceptT.bindCont f (outcome answer x))).run :=
    congrArg Id.run (Exchange.run_bind (m := Id) answer x.run (ExceptT.bindCont f))
  rw [hbind]
  cases outcome answer x <;> rfl

/-! ## Calls of one request -/

/-- The call that sends one request, and no other, and is decided by the reply to it. -/
def single (request : Request) (result : Reply → Except Error α) : Call α :=
  ExceptT.mk (.ask request fun reply => .done (result reply))

/-- A call of one request comes to what its reply says. -/
@[simp] theorem outcome_single (request : Request) (result : Reply → Except Error α) :
    outcome answer (single request result) = result (answer request) := rfl

/-- What is made of the result sends nothing more. -/
theorem single_bind {request : Request} {result : Reply → Except Error α} {f : α → Call β}
    {g : α → Except Error β} (h : ∀ a, f a = ofExcept (g a)) :
    single request result >>= f = single request fun reply => result reply >>= g := by
  show ExceptT.mk (Exchange.ask request fun reply =>
      (Exchange.done (result reply)).bind (ExceptT.bindCont f)) = _
  unfold single
  congr 2
  funext reply
  show (Exchange.done (result reply)).bind (ExceptT.bindCont f) = Exchange.done (result reply >>= g)
  cases result reply with
  | error e => rfl
  | ok a =>
    show (f a).run = Exchange.done (g a)
    rw [h a]
    cases g a <;> rfl

theorem send_eq_single (request : Request) :
    send request = single request fun reply => reply.mapError .transport := by
  show ExceptT.mk (Exchange.ask request _) = ExceptT.mk (Exchange.ask request _)
  congr 2
  funext reply
  cases reply <;> rfl

end Call

/-! ## Requests with their address -/

namespace Request

variable (r : Request) (name : String) (value : Json) (text? : Option String)

/-- A new request has no parameters. -/
@[simp] theorem get?_call (controller method asked : String) :
    (call controller method).get? asked = none := rfl

/-- A parameter that is set is the one that is found. -/
theorem get?_param (asked : String) :
    (r.param name value).get? asked = if name = asked then some value else r.get? asked :=
  Members.get?_insert r.params.entries name value asked

/-- A default counts where the parameter was not set. -/
theorem get?_defaultParam? (asked : String) :
    (r.defaultParam? name text?).get? asked =
      if name = asked then (r.get? asked).or (text?.map .string) else r.get? asked := by
  cases text? with
  | none => simp [defaultParam?]
  | some text =>
    show (r.params.setDefault name (.string text)).get? asked = _
    unfold Params.setDefault
    by_cases hset : (r.params.get? name).isSome
    · rw [if_pos hset]
      by_cases hname : name = asked
      · subst hname
        obtain ⟨old, hold⟩ := Option.isSome_iff_exists.mp hset
        simp [get?, hold]
      · rw [if_neg hname]
        rfl
    · rw [if_neg hset]
      have hnone : r.get? name = none := by simpa [get?] using hset
      have hparam := r.get?_param name (.string text) asked
      by_cases hname : name = asked
      · subst hname
        rw [if_pos rfl] at hparam ⊢
        rw [hnone]
        exact hparam
      · rw [if_neg hname] at hparam ⊢
        exact hparam

@[simp] theorem controller_param : (r.param name value).controller = r.controller := rfl

@[simp] theorem method_param : (r.param name value).method = r.method := rfl

@[simp] theorem controller_defaultParam? :
    (r.defaultParam? name text?).controller = r.controller := by
  cases text? <;> rfl

@[simp] theorem method_defaultParam? : (r.defaultParam? name text?).method = r.method := by
  cases text? <;> rfl

end Request

/-! ## Calls to a table -/

namespace Table

/-- A request as it leaves through a table: with the names of the table and of its database, and
with a token unless it has one, the table's before the client's. -/
def addressed (t : Table) (request : Request) : Request :=
  (((request.param "module" (.string t.name)).defaultParam? "token" t.ownToken).param "db"
    (.string t.database.name)).defaultParam? "token" t.database.client.token

/-- The reply as the outcome of the call of a request: another code than that of success is a
failure. -/
def accepted (request : Request) (reply : Reply) : Except Error Response := do
  let response ← reply.mapError .transport
  if response.isSuccess then pure response
  else throw (.transport (.rejected request.controller request.method response.code response.data))

@[simp] theorem controller_addressed (t : Table) (r : Request) :
    (t.addressed r).controller = r.controller := by
  simp [addressed]

@[simp] theorem method_addressed (t : Table) (r : Request) :
    (t.addressed r).method = r.method := by
  simp [addressed]

theorem get?_addressed_db (t : Table) (r : Request) :
    (t.addressed r).get? "db" = some (.string t.database.name) := by
  simp [addressed, Request.get?_defaultParam?, Request.get?_param]

theorem get?_addressed_module (t : Table) (r : Request) :
    (t.addressed r).get? "module" = some (.string t.name) := by
  simp [addressed, Request.get?_defaultParam?, Request.get?_param]

/-- A request leaves with its own token if it has one, or else with the table's. -/
theorem get?_addressed_token_eq (t : Table) (r : Request) :
    (t.addressed r).get? "token" = (r.get? "token").or (t.token.map .string) := by
  have hown : ∀ own other : Option String,
      (own.map Json.string).or (other.map .string) = (own.or other).map .string := by
    intro own other
    cases own <;> rfl
  simp [addressed, token, Request.get?_defaultParam?, Request.get?_param, Option.or_assoc, hown]

/-- A request without a token of its own leaves with the table's token. -/
theorem get?_addressed_token (t : Table) {r : Request} (h : r.get? "token" = none) :
    (t.addressed r).get? "token" = t.token.map .string := by
  rw [get?_addressed_token_eq, h, Option.none_or]

/-- The address does not touch the other parameters. -/
theorem get?_addressed (t : Table) (r : Request) {name : String}
    (h : name ∉ ["db", "module", "token"]) : (t.addressed r).get? name = r.get? name := by
  have hdb : "db" ≠ name := fun heq => h (by simp [heq.symm])
  have hmodule : "module" ≠ name := fun heq => h (by simp [heq.symm])
  have htoken : "token" ≠ name := fun heq => h (by simp [heq.symm])
  simp [addressed, Request.get?_defaultParam?, Request.get?_param, hdb, hmodule, htoken]

/-- A call comes to what the reply to the addressed request says. -/
theorem outcome_call (answer : Request → Reply) (t : Table) (request : Request) :
    Call.outcome answer (t.call request) = accepted request (answer (t.addressed request)) := by
  rw [call, Database.call, Client.call, Call.outcome_bind, Call.outcome_send]
  simp only [accepted, addressed]
  cases (answer _).mapError Error.transport with
  | error e => rfl
  | ok response =>
    simp only [bind, Except.bind, Request.controller_defaultParam?, Request.controller_param,
      Request.method_defaultParam?, Request.method_param]
    cases response.isSuccess <;> rfl

/-- A request through a table is the only one of its call. -/
theorem call_eq_single (t : Table) (request : Request) :
    t.call request = Call.single (t.addressed request) (accepted request) := by
  rw [call, Database.call, Client.call, Call.send_eq_single,
    Call.single_bind (g := fun response => accepted request (.ok response))]
  · rfl
  · intro response
    simp only [Request.controller_defaultParam?, Request.controller_param,
      Request.method_defaultParam?, Request.method_param]
    show _ = Call.ofExcept (if response.isSuccess then pure response else _)
    cases response.isSuccess <;> rfl

theorem accepted_ok (request : Request) {response : Response} (h : response.isSuccess = true) :
    accepted request (.ok response) = .ok response := by
  show (if response.isSuccess then pure response else _ : Except Error Response) = .ok response
  rw [if_pos h]
  rfl

/-- A reply is accepted if there is one and it is successful. -/
theorem accepted_eq_ok_iff {request : Request} {reply : Reply} {response : Response} :
    accepted request reply = .ok response ↔ reply = .ok response ∧ response.isSuccess = true := by
  constructor
  · intro h
    cases reply with
    | error fault => cases h
    | ok received =>
      cases hsuccess : received.isSuccess with
      | true =>
        rw [accepted_ok request hsuccess] at h
        cases h
        exact ⟨rfl, hsuccess⟩
      | false =>
        change (if received.isSuccess then pure received else _ : Except Error Response) = _ at h
        rw [hsuccess] at h
        cases h
  · rintro ⟨rfl, hsuccess⟩
    exact accepted_ok request hsuccess

end Table

end RemoteTable
