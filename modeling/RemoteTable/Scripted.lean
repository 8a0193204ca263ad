import RemoteTable.Exchange

/-!
# A server that follows a script

A server for trying out operations: it keeps the requests it gets, answers with the replies that
were queued for it, and when there are none left with a rule that sees the request.
-/

namespace RemoteTable

/-- A server with its script and its memory. -/
structure ScriptedServer where
  /-- The rule for requests that no queued reply is left for. -/
  rule : Request → Reply
  /-- The replies to come, the next one first. -/
  queued : List Reply
  /-- The requests so far, the latest first. -/
  received : List Request

namespace ScriptedServer

/-- A server with an empty queue. -/
def ofRule (rule : Request → Reply) : ScriptedServer :=
  ⟨rule, [], []⟩

/-- A server that answers nothing but success. -/
def silent : ScriptedServer :=
  ofRule fun _ => .ok (Response.ok .null)

/-- Queues one more reply. -/
def push (s : ScriptedServer) (reply : Reply) : ScriptedServer :=
  { s with queued := s.queued ++ [reply] }

/-- Forgets the requests so far and the queued replies. -/
def clear (s : ScriptedServer) : ScriptedServer :=
  { s with queued := [], received := [] }

/-- The requests so far, the first one first. -/
def requests (s : ScriptedServer) : List Request :=
  s.received.reverse

/-- Answers a request. -/
def answer (request : Request) : StateM ScriptedServer Reply := fun s =>
  match s.queued with
  | reply :: queued => (reply, { s with queued, received := request :: s.received })
  | [] => (s.rule request, { s with received := request :: s.received })

/-- Runs an exchange with the server. -/
def serve {α : Type} (exchange : Exchange α) (s : ScriptedServer) : α × ScriptedServer :=
  (exchange.run answer).run s

end ScriptedServer

end RemoteTable
