import Mathlib.Data.Nat.Notation
import RemoteTable.Proofs.Exchange

/-!
# Runs

A run of an exchange is one way it can go: the requests that are sent, each with the reply that comes
back, and the result (`Exchange.Runs`). Nothing is assumed about the replies, and every sequence of
replies leads to exactly one run (`Exchange.exists_runs`, `Exchange.Runs.unique`). So does every rule
that says what is replied to which request (`Exchange.exists_runs_of_rule`,
`Exchange.Runs.unique_of_rule`). The runs of a composed call are those of its parts
(`Call.runs_bind_iff`).
-/

namespace RemoteTable

/-! ## Runs of a conversation -/

/-- Requests, each with the reply to it, the first one first. -/
abbrev Transcript := List (Request × Reply)

namespace Exchange

variable {α β : Type}

/-- The ways an exchange can go: what is sent, with the reply to each request, and the result. -/
inductive Runs : Exchange α → Transcript → α → Prop
  /-- An exchange that is done sends nothing. -/
  | done (a : α) : Runs (.done a) [] a
  /-- A request is sent, and some reply comes back. -/
  | ask {request : Request} {next : Reply → Exchange α} {log : Transcript} {a : α} (reply : Reply)
      (h : Runs (next reply) log a) : Runs (.ask request next) ((request, reply) :: log) a

variable {x : Exchange α} {f : α → Exchange β} {log log' : Transcript} {a a' : α} {b : β}

theorem runs_done_iff : Runs (.done a) log a' ↔ log = [] ∧ a' = a := by
  constructor
  · intro h
    cases h
    exact ⟨rfl, rfl⟩
  · rintro ⟨rfl, rfl⟩
    exact .done a'

theorem runs_pure_iff : Runs (pure a) log a' ↔ log = [] ∧ a' = a :=
  runs_done_iff

/-- A request is sent, and what follows its reply goes on. -/
theorem runs_ask_iff {request : Request} {next : Reply → Exchange α} :
    Runs (.ask request next) log a ↔
      ∃ reply rest, log = (request, reply) :: rest ∧ Runs (next reply) rest a := by
  constructor
  · intro h
    cases h with
    | ask reply h => exact ⟨reply, _, rfl, h⟩
  · rintro ⟨reply, rest, rfl, h⟩
    exact .ask reply h

/-- A run of an exchange and of what comes behind it is a run of the one and then of the other. -/
theorem runs_bind_iff :
    Runs (x >>= f) log b ↔
      ∃ before a after, log = before ++ after ∧ Runs x before a ∧ Runs (f a) after b := by
  change Runs (x.bind f) log b ↔ _
  induction x generalizing log with
  | done a =>
    constructor
    · exact fun h => ⟨[], a, log, rfl, .done a, h⟩
    · rintro ⟨before, a', after, rfl, hdone, h⟩
      obtain ⟨rfl, rfl⟩ := runs_done_iff.mp hdone
      exact h
  | ask request next ih =>
    constructor
    · intro h
      obtain ⟨reply, rest, rfl, hrest⟩ := runs_ask_iff.mp h
      obtain ⟨before, a, after, rfl, hbefore, hafter⟩ := (ih reply).mp hrest
      exact ⟨(request, reply) :: before, a, after, rfl, .ask reply hbefore, hafter⟩
    · rintro ⟨before, a, after, rfl, hbefore, hafter⟩
      obtain ⟨reply, rest, rfl, hrest⟩ := runs_ask_iff.mp hbefore
      exact .ask reply ((ih reply).mpr ⟨rest, a, after, rfl, hrest, hafter⟩)

/-! ## One run for all replies -/

/-- Every rule for the replies, which may change from one request to the next, leads to a run. -/
theorem exists_runs_of_rule (rule : ℕ → Request → Reply) (x : Exchange α) :
    ∃ log a, Runs x log a ∧ ∀ i sent, log[i]? = some sent → sent.2 = rule i sent.1 := by
  induction x generalizing rule with
  | done a => exact ⟨[], a, .done a, by simp⟩
  | ask request next ih =>
    obtain ⟨log, a, hruns, hreplies⟩ := ih (rule 0 request) fun i => rule (i + 1)
    refine ⟨(request, rule 0 request) :: log, a, .ask _ hruns, fun i sent hsent => ?_⟩
    cases i with
    | zero =>
      obtain rfl : (request, rule 0 request) = sent := by simpa using hsent
      rfl
    | succ i => exact hreplies i sent (by simpa using hsent)

/-- Every sequence of replies leads to a run. -/
theorem exists_runs (replies : ℕ → Reply) (x : Exchange α) :
    ∃ log a, Runs x log a ∧ ∀ i sent, log[i]? = some sent → sent.2 = replies i :=
  exists_runs_of_rule (fun i _ => replies i) x

/-- Runs with the same replies are the same. -/
theorem Runs.unique (h : Runs x log a) (h' : Runs x log' a')
    (hreplies : ∀ (i : ℕ) sent sent', log[i]? = some sent → log'[i]? = some sent' →
      sent.2 = sent'.2) : log = log' ∧ a = a' := by
  induction h generalizing log' with
  | done a =>
    obtain ⟨rfl, rfl⟩ := runs_done_iff.mp h'
    exact ⟨rfl, rfl⟩
  | ask reply h ih =>
    obtain ⟨reply', rest, rfl, hrest⟩ := runs_ask_iff.mp h'
    obtain rfl : reply = reply' := hreplies 0 _ _ rfl rfl
    obtain ⟨rfl, rfl⟩ := ih hrest fun i sent sent' hsent hsent' =>
      hreplies (i + 1) sent sent' (by simpa using hsent) (by simpa using hsent')
    exact ⟨rfl, rfl⟩

/-- An exchange can be run with the replies of any other run, as far as it asks for them. -/
theorem exists_runs_alike (log : Transcript) (y : Exchange β) :
    ∃ log' b, Runs y log' b ∧ ∀ (i : ℕ) sent sent', log[i]? = some sent → log'[i]? = some sent' →
      sent.2 = sent'.2 := by
  obtain ⟨log', b, hruns, hreplies⟩ :=
    exists_runs (fun i => (log[i]?.map Prod.snd).getD (.error .badBody)) y
  refine ⟨log', b, hruns, fun i sent sent' hsent hsent' => ?_⟩
  rw [hreplies i sent' hsent', hsent]
  rfl

/-- If every run of an exchange is, with another result, a run of a second one, then the second one has
no other runs. -/
theorem exists_runs_of_map {y : Exchange β} {g : α → β}
    (h : ∀ log a, Runs x log a → Runs y log (g a)) (hy : Runs y log b) :
    ∃ a, Runs x log a ∧ g a = b := by
  obtain ⟨log', a, hruns, halike⟩ := exists_runs_alike log x
  obtain ⟨rfl, rfl⟩ := Runs.unique hy (h log' a hruns) halike
  exact ⟨a, hruns, rfl⟩

end Exchange

/-! ## Runs of a call -/

namespace Call

variable {α β : Type} {x : Call α} {f : α → Call β} {log : Transcript}

/-- The ways a call can go. -/
def Runs (x : Call α) (log : Transcript) (outcome : Except Error α) : Prop :=
  Exchange.Runs x.run log outcome

theorem runs_pure_iff {a : α} {outcome : Except Error α} :
    Runs (pure a) log outcome ↔ log = [] ∧ outcome = .ok a :=
  Exchange.runs_done_iff

theorem runs_throw_iff {e : Error} {outcome : Except Error α} :
    Runs (throw e) log outcome ↔ log = [] ∧ outcome = .error e :=
  Exchange.runs_done_iff

/-- An outcome that is already there takes no request. -/
theorem runs_ofExcept_iff {result outcome : Except Error α} :
    Runs (ofExcept result) log outcome ↔ log = [] ∧ outcome = result := by
  cases result
  · exact runs_throw_iff
  · exact runs_pure_iff

/-- A call of one request is over with its reply. -/
theorem runs_single_iff {request : Request} {result : Reply → Except Error α}
    {outcome : Except Error α} :
    Runs (single request result) log outcome ↔
      ∃ reply, log = [(request, reply)] ∧ outcome = result reply := by
  unfold Runs single
  constructor
  · intro h
    obtain ⟨reply, rest, rfl, hrest⟩ := Exchange.runs_ask_iff.mp h
    obtain ⟨rfl, rfl⟩ := Exchange.runs_done_iff.mp hrest
    exact ⟨reply, rfl, rfl⟩
  · rintro ⟨reply, rfl, rfl⟩
    exact .ask reply (.done _)

/-- A run of a composed call ends with the failure of its first part, or it goes on with the second
part behind a result of the first. -/
theorem runs_bind_iff {outcome : Except Error β} :
    Runs (x >>= f) log outcome ↔
      (∃ e, Runs x log (.error e) ∧ outcome = .error e) ∨
        ∃ before a after, log = before ++ after ∧ Runs x before (.ok a) ∧
          Runs (f a) after outcome := by
  have hbind : Runs (x >>= f) log outcome ↔ ∃ before first after, log = before ++ after ∧
      Exchange.Runs x.run before first ∧ Exchange.Runs (ExceptT.bindCont f first) after outcome :=
    Exchange.runs_bind_iff (x := x.run) (f := ExceptT.bindCont f)
  rw [hbind]
  constructor
  · rintro ⟨before, first, after, rfl, hfirst, hafter⟩
    cases first with
    | ok a => exact .inr ⟨before, a, after, rfl, hfirst, hafter⟩
    | error e =>
      obtain ⟨rfl, rfl⟩ := Exchange.runs_done_iff.mp hafter
      exact .inl ⟨e, by rwa [List.append_nil], rfl⟩
  · rintro (⟨e, hfirst, rfl⟩ | ⟨before, a, after, rfl, hfirst, hafter⟩)
    · exact ⟨log, .error e, [], by simp, hfirst, .done _⟩
    · exact ⟨before, .ok a, after, rfl, hfirst, hafter⟩

/-- What is made of a result without asking sends nothing. -/
theorem runs_bind_ofExcept_iff {g : α → Except Error β} {outcome : Except Error β} :
    Runs (x >>= fun a => ofExcept (g a)) log outcome ↔
      ∃ found, Runs x log found ∧ outcome = found >>= g := by
  rw [runs_bind_iff]
  constructor
  · rintro (⟨e, hfirst, rfl⟩ | ⟨before, a, after, rfl, hfirst, hafter⟩)
    · exact ⟨.error e, hfirst, rfl⟩
    · obtain ⟨rfl, rfl⟩ := runs_ofExcept_iff.mp hafter
      exact ⟨.ok a, by rwa [List.append_nil], rfl⟩
  · rintro ⟨found, hfirst, rfl⟩
    cases found with
    | error e => exact .inl ⟨e, hfirst, rfl⟩
    | ok a => exact .inr ⟨log, a, [], by simp, hfirst, runs_ofExcept_iff.mpr ⟨rfl, rfl⟩⟩

/-- What is made of a result sends nothing. -/
theorem runs_bind_pure_iff {g : α → β} {outcome : Except Error β} :
    Runs (x >>= fun a => pure (g a)) log outcome ↔ ∃ found, Runs x log found ∧ outcome = g <$> found :=
  runs_bind_ofExcept_iff (g := fun a => .ok (g a))

/-- A call goes in one way on the replies that it asks for. -/
theorem Runs.unique_of_append {before before' after after' : Transcript}
    {outcome outcome' : Except Error α} (h : Runs x before outcome) (h' : Runs x before' outcome')
    (hlog : before ++ after = before' ++ after') : before = before' ∧ outcome = outcome' := by
  refine Exchange.Runs.unique h h' fun i sent sent' hsent hsent' => ?_
  have hi : (before ++ after)[i]? = some sent := by
    rw [List.getElem?_append_left (List.getElem?_eq_some_iff.mp hsent).1, hsent]
  have hi' : (before' ++ after')[i]? = some sent' := by
    rw [List.getElem?_append_left (List.getElem?_eq_some_iff.mp hsent').1, hsent']
  rw [hlog, hi'] at hi
  rw [Option.some.inj hi]

/-- Calls that go on alike behind every result of their common first part are the same. -/
theorem bind_congr {g : α → Call β} (h : ∀ log a, Runs x log (.ok a) → f a = g a) :
    x >>= f = x >>= g := by
  unfold Runs at h
  show ExceptT.mk (Exchange.bind x.run (ExceptT.bindCont f)) =
    ExceptT.mk (Exchange.bind x.run (ExceptT.bindCont g))
  congr 1
  generalize x.run = exchange at h
  induction exchange with
  | done first =>
    cases first with
    | ok a => exact congrArg ExceptT.run (h [] a (.done _))
    | error e => rfl
  | ask request next ih =>
    show Exchange.ask request _ = Exchange.ask request _
    congr 1
    funext reply
    exact ih reply fun log a hruns => h _ a (.ask reply hruns)

end Call

end RemoteTable
