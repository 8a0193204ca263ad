import RemoteTable.Proofs.Exchange.Runs
import RemoteTable.Proofs.Response.Readings

/-!
# Courses of calls

A course says what a call is to do whatever is replied: which request is next, which replies this step
accepts and what it finds in them, and with which outcome it is over. A run ends a course
(`Course.Ends`) if it goes on behind every accepted reply and stops at any other one, with the failure
that this reply is. A call follows a course if all of its runs end it (`Course.FollowedBy`), and what
is composed of calls follows the composed courses (`Course.FollowedBy.bind`).
-/

namespace RemoteTable

/-- What is asked for, one request after the other, and how it ends if every reply is accepted. -/
inductive Course (α : Type) : Type 1 where
  /-- It is over. -/
  | done (outcome : Except Error α)
  /-- A request is next, whose reply is accepted if it carries something, and it goes on with what is
  found in it. -/
  | ask {β : Type} (request : Request) (carries : Response → β → Prop) (next : β → Course α)

namespace Course

/-- Goes on with a second course at a result of the first. -/
def bind {α β : Type} : Course α → (α → Course β) → Course β
  | done (.ok a), f => f a
  | done (.error e), _ => done (.error e)
  | ask request carries next, f => ask request carries fun found => bind (next found) f

/-- The course of one request, whose reply carries the result. -/
def single {α : Type} (request : Request) (carries : Response → α → Prop) : Course α :=
  ask request carries fun a => done (.ok a)

/-- The ways a course can end. -/
inductive Ends {α : Type} : Course α → Transcript → Except Error α → Prop
  /-- Nothing is left to ask. -/
  | done (outcome : Except Error α) : Ends (.done outcome) [] outcome
  /-- No reply comes back, which is the failure. -/
  | lost {β : Type} {request : Request} {carries : Response → β → Prop} {next : β → Course α}
      (fault : TransportFault) :
      Ends (.ask request carries next) [(request, .error fault)] (.error (.transport fault))
  /-- The reply has another code than that of success, which is the failure whatever its data are. -/
  | rejected {β : Type} {request : Request} {carries : Response → β → Prop} {next : β → Course α}
      (response : Response) (hcode : response.code ≠ Response.successCode) :
      Ends (.ask request carries next) [(request, .ok response)]
        (.error (.transport
          (.rejected request.controller request.method response.code response.data)))
  /-- The data of the reply are not of the shape that is accepted, which is the failure. -/
  | misshapen {β : Type} {request : Request} {carries : Response → β → Prop} {next : β → Course α}
      (response : Response) (hcode : response.code = Response.successCode)
      (hshape : ∀ found, ¬ carries response found) (fault : ReplyFault) :
      Ends (.ask request carries next) [(request, .ok response)] (.error (.unexpectedResponse fault))
  /-- The reply is accepted, and it goes on with what is found in it. -/
  | accepted {β : Type} {request : Request} {carries : Response → β → Prop} {next : β → Course α}
      {log : Transcript} {outcome : Except Error α}
      (response : Response) (hcode : response.code = Response.successCode) (found : β)
      (hfound : carries response found) (hrest : Ends (next found) log outcome) :
      Ends (.ask request carries next) ((request, .ok response) :: log) outcome

variable {α β : Type} {c : Course α} {f : α → Course β} {log before after : Transcript}

/-! ## Composition -/

/-- A failure of the first part is the end. -/
theorem Ends.bind_error {e : Error} (h : c.Ends log (.error e)) :
    (c.bind f).Ends log (.error e) := by
  generalize houtcome : (.error e : Except Error α) = outcome at h
  induction h with
  | done =>
    subst houtcome
    exact .done _
  | lost fault =>
    cases houtcome
    exact .lost fault
  | rejected response hcode =>
    cases houtcome
    exact .rejected response hcode
  | misshapen response hcode hshape fault =>
    cases houtcome
    exact .misshapen response hcode hshape fault
  | accepted response hcode found hfound _ ih =>
    exact .accepted response hcode found hfound (ih houtcome)

/-- The second part begins where the first has a result. -/
theorem Ends.bind_ok {a : α} {outcome : Except Error β} (h : c.Ends before (.ok a))
    (hf : (f a).Ends after outcome) : (c.bind f).Ends (before ++ after) outcome := by
  generalize hfirst : (.ok a : Except Error α) = first at h
  induction h with
  | done =>
    subst hfirst
    exact hf
  | lost => cases hfirst
  | rejected => cases hfirst
  | misshapen => cases hfirst
  | accepted response hcode found hfound _ ih =>
    exact .accepted response hcode found hfound (ih hfirst)

/-- The course of one request ends in a value only with a reply of success that carries it. -/
theorem Ends.of_single {request : Request} {carries : Response → α → Prop} {a : α}
    (h : (single request carries).Ends log (.ok a)) :
    ∃ response, log = [(request, .ok response)] ∧ response.code = Response.successCode ∧
      carries response a := by
  cases h with
  | accepted response hcode found hfound hrest =>
    cases hrest
    exact ⟨response, rfl, hcode, hfound⟩

/-! ## Calls and their courses -/

/-- Whether a call goes as a course says, whatever is replied. -/
def FollowedBy (c : Course α) (x : Call α) : Prop :=
  ∀ log outcome, x.Runs log outcome → c.Ends log outcome

namespace FollowedBy

/-- An outcome that is already there takes no request. -/
theorem ofExcept (outcome : Except Error α) : (done outcome).FollowedBy (Call.ofExcept outcome) := by
  intro log result h
  obtain ⟨rfl, rfl⟩ := Call.runs_ofExcept_iff.mp h
  exact .done _

/-- A call of one request follows the course of this request, if it reads from the reply what the
course says. -/
theorem single {request sent : Request} {read : Response → Except Error α}
    {carries : Response → α → Prop} (hread : Response.Reads read carries)
    (hcontroller : sent.controller = request.controller) (hmethod : sent.method = request.method) :
    (Course.single sent carries).FollowedBy
      (Call.single sent fun reply => Table.accepted request reply >>= read) := by
  intro log outcome h
  obtain ⟨reply, rfl, rfl⟩ := Call.runs_single_iff.mp h
  cases reply with
  | error fault => exact .lost fault
  | ok response =>
    by_cases hsuccess : response.isSuccess = true
    · have hcode : response.code = Response.successCode := by simpa [Response.isSuccess] using hsuccess
      rw [Table.accepted_ok request hsuccess]
      show (Course.single sent carries).Ends _ (read response)
      by_cases hshape : ∃ a, carries response a
      · obtain ⟨a, ha⟩ := hshape
        rw [(hread.ok_iff hsuccess).mpr ha]
        exact .accepted response hcode a ha (.done _)
      · obtain ⟨fault, hfault⟩ := hread.exists_error hsuccess fun a ha => hshape ⟨a, ha⟩
        rw [hfault]
        exact .misshapen response hcode (fun a ha => hshape ⟨a, ha⟩) fault
    · have hcode : response.code ≠ Response.successCode := by
        simpa [Response.isSuccess] using hsuccess
      have hrejected : Table.accepted request (.ok response) = .error (.transport
          (.rejected sent.controller sent.method response.code response.data)) := by
        rw [hcontroller, hmethod]
        exact if_neg hsuccess
      rw [hrejected]
      exact .rejected response hcode

/-- Courses follow one another as the calls do. -/
theorem bind {x : Call α} {g : α → Call β} (hx : c.FollowedBy x) (hg : ∀ a, (f a).FollowedBy (g a)) :
    (c.bind f).FollowedBy (x >>= g) := by
  intro log outcome h
  rcases Call.runs_bind_iff.mp h with ⟨e, hfirst, rfl⟩ | ⟨before, a, after, rfl, hfirst, hafter⟩
  · exact (hx log _ hfirst).bind_error
  · exact (hx before _ hfirst).bind_ok (hg a after outcome hafter)

end FollowedBy

/-! ## Failures -/

/-- Whether a course, with accepted replies only, fails in none but certain ways. -/
def FailsOnly (allowed : Error → Prop) : Course α → Prop
  | done outcome => ∀ e, outcome = .error e → allowed e
  | ask _ _ next => ∀ found, FailsOnly allowed (next found)

/-- What ends a course is a failure of its own, or a reply that is missing, of another code than that
of success or of an unexpected shape. -/
theorem Ends.error {allowed : Error → Prop} {e : Error} (h : c.Ends log (.error e))
    (hc : c.FailsOnly allowed) :
    allowed e ∨ (∃ fault, e = .transport fault) ∨ ∃ fault, e = .unexpectedResponse fault := by
  generalize houtcome : (.error e : Except Error α) = outcome at h
  induction h with
  | done => exact .inl (hc e houtcome.symm)
  | lost fault =>
    cases houtcome
    exact .inr (.inl ⟨fault, rfl⟩)
  | rejected =>
    cases houtcome
    exact .inr (.inl ⟨_, rfl⟩)
  | misshapen _ _ _ fault =>
    cases houtcome
    exact .inr (.inr ⟨fault, rfl⟩)
  | accepted _ _ found _ _ ih => exact ih (hc found) houtcome

/-- Two parts that fail in allowed ways only do so together. -/
theorem FailsOnly.bind {allowed : Error → Prop} (hc : c.FailsOnly allowed)
    (hf : ∀ a, (f a).FailsOnly allowed) : (c.bind f).FailsOnly allowed := by
  induction c with
  | done outcome =>
    cases outcome with
    | ok a => exact hf a
    | error e =>
      intro e' he'
      cases he'
      exact hc e rfl
  | ask request carries next ih => exact fun found => ih found (hc found)

theorem failsOnly_ok {allowed : Error → Prop} (a : α) : (done (.ok a)).FailsOnly allowed := by
  intro e h
  cases h

theorem FailsOnly.mono {allowed allowed' : Error → Prop} (hc : c.FailsOnly allowed)
    (h : ∀ e, allowed e → allowed' e) : c.FailsOnly allowed' := by
  induction c with
  | done outcome => exact fun e he => h e (hc e he)
  | ask request carries next ih => exact fun found => ih found (hc found)

end Course

/-- The failures that a use of the server can end in, whatever is replied. -/
inductive Error.IsExpected : Error → Prop
  /-- No record matched. -/
  | emptyMatch (table : String) : IsExpected (.emptyMatch table)
  /-- No database belongs to the file. -/
  | cannotDetermineTarget (filename : String) : IsExpected (.cannotDetermineTarget filename)
  /-- A request was not answered with success. -/
  | transport (fault : TransportFault) : IsExpected (.transport fault)
  /-- The data of a reply are not of the expected shape. -/
  | unexpectedResponse (fault : ReplyFault) : IsExpected (.unexpectedResponse fault)

/-- A course whose own failures are expected ends in a value or in an expected failure. -/
theorem Course.Ends.isExpected {α : Type} {c : Course α} {log : Transcript} {e : Error}
    (h : c.Ends log (.error e)) (hc : c.FailsOnly Error.IsExpected) : e.IsExpected := by
  rcases h.error hc with hexpected | ⟨fault, rfl⟩ | ⟨fault, rfl⟩
  · exact hexpected
  · exact .transport fault
  · exact .unexpectedResponse fault

end RemoteTable
