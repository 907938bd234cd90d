import MarkdownPreview.Preview

/-! Previews on demand. A host asks for a preview at every change and computes it when it finds the
time; a ticket taken at the request tells whether the result is still wanted. A host may have
several sessions, whose tickets it keeps on one pile. -/

namespace MarkdownPreview

/-- The number of a request in its session, counted from one. The count has 64 bits, and starts
again from zero after the largest number. -/
structure Ticket where
  number : UInt64
  deriving Repr, DecidableEq, Ord

/-- A session has its options, and knows how many requests have been made. -/
structure Session where
  options : Options
  requests : UInt64 := 0
  deriving Repr, DecidableEq

namespace Session

/-- A new request, which makes every earlier one stale. -/
def request (s : Session) : Ticket × Session :=
  (⟨s.requests + 1⟩, { s with requests := s.requests + 1 })

/-- No request newer than the ticket's has been made. Only the number counts: a ticket of another
session is current if it has the number of the latest request here. -/
def isCurrent (s : Session) (t : Ticket) : Bool := s.requests == t.number

/-- The preview for a request, unless it is stale. -/
def compute (s : Session) (t : Ticket) (source : List Char) (selections : List Selection) :
    Option Decoration.ByKind :=
  if s.isCurrent t then some (preview s.options source selections) else none

theorem isCurrent_iff (s : Session) (t : Ticket) : s.isCurrent t = true ↔ s.requests = t.number :=
  beq_iff_eq

end Session

/-! ### Hosts -/

/-- The sessions of a host, and the tickets of all of them in the order in which they were given. -/
structure Host where
  sessions : List Session
  tickets : List Ticket := []
  deriving Repr, DecidableEq

namespace Host

/-- What a host does with a session. Sessions and tickets go by their places. -/
inductive Operation where
  | request (session : Nat)
  | isCurrent (session ticket : Nat)
  | compute (session ticket : Nat) (source : List Char) (selections : List Selection)
  deriving Repr, DecidableEq

/-- What a host is answered. -/
inductive Answer where
  | ticket (t : Ticket)
  | current (answer : Bool)
  | preview (drawn : Option Decoration.ByKind)
  deriving Repr, DecidableEq

/-- A host whose sessions have the given options. -/
def ofOptions (options : List Options) : Host := ⟨options.map fun o => { options := o }, []⟩

/-- The answer to an operation and the host after it. A session or a ticket that is not there gives
no answer. -/
def step (h : Host) : Operation → Option Answer × Host
  | .request i =>
    match h.sessions[i]? with
    | none => (none, h)
    | some s =>
      (some (.ticket s.request.1), ⟨h.sessions.set i s.request.2, h.tickets ++ [s.request.1]⟩)
  | .isCurrent i j =>
    match h.sessions[i]?, h.tickets[j]? with
    | some s, some t => (some (.current (s.isCurrent t)), h)
    | _, _ => (none, h)
  | .compute i j source selections =>
    match h.sessions[i]?, h.tickets[j]? with
    | some s, some t => (some (.preview (s.compute t source selections)), h)
    | _, _ => (none, h)

/-- The host after operations one after another. -/
def after (h : Host) (history : List Operation) : Host :=
  history.foldl (fun h operation => (h.step operation).2) h

end Host

end MarkdownPreview
