import MarkdownPreview.Session
import Mathlib.Data.List.Induction

/-! Sessions under a whole history of operations. A session counts its requests and nothing else, so
that its state after a history is known from the number of requests made on it, and the number of a
ticket from the requests up to the one that gave it. Everything about stale tickets follows from
comparing these two counts. -/

namespace MarkdownPreview.Host

variable {options : List Options} {history later : List Operation} {h : Host} {i j n : Nat}
  {t : Ticket}

/-! ### Requests in a history -/

def Operation.isRequest : Operation → Bool
  | .request _ => true
  | _ => false

/-- The session, one out of `n`, that gives a ticket for the operation. -/
def Operation.giver? (n : Nat) : Operation → Option Nat
  | .request i => if i < n then some i else none
  | _ => none

/-- The number of requests made on a session. -/
def requestsOn (i : Nat) (history : List Operation) : Nat := history.count (.request i)

/-- The sessions, out of `n`, that gave the tickets of a history, ticket by ticket. -/
def givers (n : Nat) (history : List Operation) : List Nat := history.filterMap (·.giver? n)

theorem giver?_eq_some_iff {operation : Operation} :
    operation.giver? n = some i ↔ operation = .request i ∧ i < n := by
  cases operation with
  | request k =>
    simp only [Operation.giver?, Option.ite_none_right_eq_some, Option.some.injEq,
      Operation.request.injEq]
    constructor
    · rintro ⟨hk, rfl⟩
      exact ⟨rfl, hk⟩
    · rintro ⟨rfl, hk⟩
      exact ⟨hk, rfl⟩
  | isCurrent => simp [Operation.giver?]
  | compute => simp [Operation.giver?]

theorem givers_append : givers n (history ++ later) = givers n history ++ givers n later :=
  List.filterMap_append

/-- A session gives a ticket for each request made on it. -/
theorem count_givers (hi : i < n) : (givers n history).count i = requestsOn i history := by
  induction history with
  | nil => rfl
  | cons operation rest ih =>
    rw [requestsOn] at ih
    rw [givers, requestsOn, List.filterMap_cons, List.count_cons, ← ih, givers]
    by_cases hop : operation = .request i
    · subst hop
      simp [Operation.giver?, hi]
    · have hgiver : operation.giver? n ≠ some i := fun hsome =>
        hop (giver?_eq_some_iff.1 hsome).1
      rw [if_neg (by simpa using hop)]
      split
      next => rfl
      next k hk => exact List.count_cons_of_ne (by rintro rfl; exact hgiver hk)

theorem requestsOn_le : requestsOn i history ≤ history.countP Operation.isRequest := by
  refine List.countP_mono_left fun operation _ hop => ?_
  rw [beq_iff_eq.1 hop]
  rfl

/-! ### One operation -/

/-- A request on a session changes that session, and no other operation does. -/
theorem sessions_step (h : Host) (operation : Operation) (i : Nat) :
    (h.step operation).2.sessions[i]? =
      h.sessions[i]?.map fun s => if operation = .request i then s.request.2 else s := by
  cases operation with
  | request k =>
    simp only [step, Operation.request.injEq]
    cases hk : h.sessions[k]? with
    | none =>
      by_cases hik : k = i
      · subst hik
        simp [hk]
      · simp [hik]
    | some s =>
      simp only [List.getElem?_set]
      by_cases hik : k = i
      · subst hik
        obtain ⟨hlt, rfl⟩ := List.getElem?_eq_some_iff.1 hk
        simp [hlt]
      · simp [hik]
  | isCurrent k j =>
    simp only [step, reduceCtorEq, if_false, Option.map_id']
    split <;> rfl
  | compute k j source selections =>
    simp only [step, reduceCtorEq, if_false, Option.map_id']
    split <;> rfl

/-- A request on a session adds a ticket, and no other operation does. -/
theorem tickets_step (h : Host) (operation : Operation) :
    (h.step operation).2.tickets = h.tickets ++
      ((operation.giver? h.sessions.length).bind (h.sessions[·]?)).toList.map (·.request.1) := by
  cases operation with
  | request k =>
    simp only [step, Operation.giver?]
    cases hk : h.sessions[k]? with
    | none =>
      rw [if_neg (Nat.not_lt.2 (List.getElem?_eq_none_iff.1 hk))]
      simp
    | some s =>
      obtain ⟨hlt, rfl⟩ := List.getElem?_eq_some_iff.1 hk
      simp [hlt]
  | isCurrent k j =>
    simp only [step, Operation.giver?]
    split <;> simp
  | compute k j source selections =>
    simp only [step, Operation.giver?]
    split <;> simp

/-! ### Histories -/

theorem after_append : h.after (history ++ later) = (h.after history).after later :=
  List.foldl_append

/-- Tickets are kept. -/
theorem tickets_isPrefix_after (h : Host) (later : List Operation) :
    h.tickets <+: (h.after later).tickets := by
  induction later generalizing h with
  | nil => exact List.prefix_refl _
  | cons operation rest ih =>
    refine .trans ?_ (ih (h.step operation).2)
    rw [tickets_step]
    exact List.prefix_append _ _

/-- The sessions after a history have their options and the number of their requests. -/
theorem sessions_after : ((ofOptions options).after history).sessions[i]? =
    options[i]?.map fun o => Session.mk o (.ofNat (requestsOn i history)) := by
  induction history using List.reverseRecOn with
  | nil => simp [after, ofOptions, requestsOn]
  | append_singleton before operation ih =>
    have hcount : requestsOn i (before ++ [operation]) =
        requestsOn i before + if operation = .request i then 1 else 0 := by
      simp only [requestsOn, List.count_append, List.count_singleton, beq_iff_eq]
    rw [after_append, after, List.foldl_cons, List.foldl_nil, sessions_step, ih, Option.map_map,
      hcount]
    congr 1
    funext o
    by_cases hop : operation = .request i
    · simp [hop, Session.request]
    · simp [hop]

theorem length_sessions_after :
    ((ofOptions options).after history).sessions.length = options.length := by
  have hiff (i : Nat) :
      ((ofOptions options).after history).sessions.length ≤ i ↔ options.length ≤ i := by
    rw [← List.getElem?_eq_none_iff, sessions_after, Option.map_eq_none_iff,
      List.getElem?_eq_none_iff]
  exact Nat.le_antisymm ((hiff _).2 (Nat.le_refl _)) ((hiff _).1 (Nat.le_refl _))

/-- The tickets after a history, each with the number of its session's requests up to it. -/
theorem tickets_after : ((ofOptions options).after history).tickets.length =
      (givers options.length history).length ∧
    ∀ i j : Nat, (givers options.length history)[j]? = some i →
      ((ofOptions options).after history).tickets[j]? =
        some (Ticket.mk (.ofNat (((givers options.length history).take (j + 1)).count i))) := by
  induction history using List.reverseRecOn with
  | nil => simp [after, ofOptions, givers]
  | append_singleton before operation ih =>
    obtain ⟨hlength, htickets⟩ := ih
    have hstep := tickets_step ((ofOptions options).after before) operation
    rw [after_append, after, List.foldl_cons, List.foldl_nil, hstep, length_sessions_after,
      givers_append]
    cases hgiver : operation.giver? options.length with
    | none =>
      have hnone : givers options.length [operation] = [] := by simp [givers, hgiver]
      rw [hnone, Option.bind_none, Option.toList_none, List.map_nil, List.append_nil,
        List.append_nil]
      exact ⟨hlength, htickets⟩
    | some k =>
      obtain ⟨rfl, hk⟩ := giver?_eq_some_iff.1 hgiver
      have hone : givers options.length [.request k] = [k] := by simp [givers, hgiver]
      have hsession : ((ofOptions options).after before).sessions[k]? =
          some (Session.mk options[k] (.ofNat (requestsOn k before))) := by
        rw [sessions_after, List.getElem?_eq_getElem hk, Option.map_some]
      rw [hone, Option.bind_some, hsession, Option.toList_some, List.map_cons, List.map_nil]
      refine ⟨by simp [hlength], fun i j hij => ?_⟩
      obtain hj | hj := Nat.lt_or_ge j (givers options.length before).length
      · rw [List.getElem?_append_left hj] at hij
        rw [List.getElem?_append_left (hlength ▸ hj), htickets i j hij,
          List.take_append_of_le_length hj]
      · -- the ticket that has just been given
        rw [List.getElem?_append_right hj] at hij
        obtain ⟨hzero, rfl⟩ : j - (givers options.length before).length = 0 ∧ k = i := by
          simpa [List.getElem?_singleton] using hij
        obtain rfl : j = (givers options.length before).length := by omega
        rw [← hlength, List.getElem?_concat_length, hlength, List.take_of_length_le (by simp),
          List.count_append, count_givers hk]
        simp [Session.request]

/-! ### Current tickets -/

/-- The session takes the ticket for current. -/
def accepts (h : Host) (i : Nat) (t : Ticket) : Bool := h.sessions[i]?.any (·.isCurrent t)

/-- The ticket at place `j` of a history was given by session `i`, one out of `n`. -/
def Gave (n : Nat) (history : List Operation) (i j : Nat) : Prop :=
  (givers n history)[j]? = some i

theorem accepts_eq {s : Session} (hs : h.sessions[i]? = some s) :
    h.accepts i t = s.isCurrent t := by
  rw [accepts, hs, Option.any_some]

/-- As long as the counter does not run over, a ticket is current if its number is that of the
requests made. -/
theorem isCurrent_counted {o : Options} (hn : n < UInt64.size) :
    (Session.mk o (.ofNat n)).isCurrent t = (t.number.toNat == n) := by
  rw [Bool.eq_iff_iff, Session.isCurrent_iff, beq_iff_eq, ← UInt64.toNat_inj,
    UInt64.toNat_ofNat_of_lt' hn, eq_comm]

theorem accepts_after (hi : i < options.length) (hn : requestsOn i history < UInt64.size) :
    ((ofOptions options).after history).accepts i t =
      (t.number.toNat == requestsOn i history) := by
  have hs : ((ofOptions options).after history).sessions[i]? =
      some (Session.mk options[i] (.ofNat (requestsOn i history))) := by
    rw [sessions_after, List.getElem?_eq_getElem hi, Option.map_some]
  rw [accepts_eq hs, isCurrent_counted hn]

theorem Gave.lt_length (h : Gave n history i j) : i < n := by
  obtain ⟨operation, -, hgiver⟩ := List.mem_filterMap.1 (List.mem_of_getElem? h)
  exact (giver?_eq_some_iff.1 hgiver).2

theorem Gave.append (h : Gave n history i j) : Gave n (history ++ later) i j := by
  obtain ⟨hj, -⟩ := List.getElem?_eq_some_iff.1 h
  rw [Gave, givers_append, List.getElem?_append_left hj]
  exact h

/-- No ticket of a session has been given after one whose number counts all requests. -/
theorem Gave.count_take_eq_iff (h : Gave n history i j) :
    ((givers n history).take (j + 1)).count i = requestsOn i history ↔
      ∀ k, Gave n history i k → k ≤ j := by
  have hsplit := congrArg (List.count i) (List.take_append_drop (j + 1) (givers n history))
  rw [List.count_append, count_givers h.lt_length] at hsplit
  have hzero : ((givers n history).drop (j + 1)).count i = 0 ↔
      ∀ k, Gave n history i k → k ≤ j := by
    rw [List.count_eq_zero, List.mem_iff_getElem?, not_exists]
    constructor
    · intro hnone k hk
      by_contra hlt
      refine hnone (k - (j + 1)) ?_
      rw [List.getElem?_drop, Nat.add_sub_cancel' (by omega)]
      exact hk
    · intro hlast k hk
      rw [List.getElem?_drop] at hk
      have := hlast _ hk
      omega
  rw [← hzero]
  omega

/-- Of its own tickets, a session takes the last one only. -/
theorem Gave.accepts_iff (h : Gave options.length history i j)
    (ht : ((ofOptions options).after history).tickets[j]? = some t)
    (hn : requestsOn i history < UInt64.size) :
    ((ofOptions options).after history).accepts i t = true ↔
      ∀ k, Gave options.length history i k → k ≤ j := by
  obtain rfl := Option.some.inj (ht.symm.trans (tickets_after.2 i j h))
  have hle : ((givers options.length history).take (j + 1)).count i ≤ requestsOn i history := by
    rw [← count_givers h.lt_length]
    exact (List.take_sublist _ _).count_le i
  rw [accepts_after h.lt_length hn, beq_iff_eq,
    UInt64.toNat_ofNat_of_lt' (Nat.lt_of_le_of_lt hle hn), h.count_take_eq_iff]

/-- What tickets are worth to a host that has come to where it is through a history. -/
structure TicketLaws (options : List Options) (history : List Operation) (host : Host) :
    Prop where
  /-- A ticket, whoever gave it, is current if its number is that of the requests made. -/
  current : ∀ i j t, i < options.length → host.tickets[j]? = some t →
    (host.step (.isCurrent i j)).1 =
      some (.current (t.number.toNat == requestsOn i history))
  /-- Of its own tickets, a session takes the last one only. -/
  last : ∀ i j, Gave options.length history i j → ∃ t, host.tickets[j]? = some t ∧
    (host.accepts i t = true ↔ ∀ k, Gave options.length history i k → k ≤ j)
  /-- A ticket that its own session takes no more stays stale. -/
  stale : ∀ i j t, Gave options.length history i j → host.tickets[j]? = some t →
    host.accepts i t = false → ∀ later,
    (history ++ later).countP Operation.isRequest < UInt64.size →
    (host.after later).accepts i t = false
  /-- Just a current ticket gives a preview: of the given source with the session's own options,
  and for the given selections. -/
  preview : ∀ i j o t source selections, options[i]? = some o → host.tickets[j]? = some t →
    (host.step (.compute i j source selections)).1 = some (.preview
      (if host.accepts i t then some (Decoration.filter (extract o source) source selections)
        else none))
  /-- Only a request changes which tickets a session takes, and only that session's own. -/
  frame : ∀ i t operation, operation ≠ .request i →
    (host.step operation).2.accepts i t = host.accepts i t

/-- Any history of fewer requests than the counter can count. -/
theorem ticketLaws_after (options : List Options) (history : List Operation)
    (hfew : history.countP Operation.isRequest < UInt64.size) :
    TicketLaws options history ((ofOptions options).after history) := by
  have hcount (i : Nat) : requestsOn i history < UInt64.size := Nat.lt_of_le_of_lt requestsOn_le hfew
  constructor
  case current =>
    intro i j t hi ht
    have hs : ((ofOptions options).after history).sessions[i]? =
        some (Session.mk options[i] (.ofNat (requestsOn i history))) := by
      rw [sessions_after, List.getElem?_eq_getElem hi, Option.map_some]
    simp only [step, hs, ht, isCurrent_counted (hcount i)]
  case last =>
    intro i j hgave
    have ht := tickets_after.2 i j hgave
    exact ⟨_, ht, hgave.accepts_iff ht (hcount i)⟩
  case stale =>
    intro i j t hgave ht hstale later hfew
    have hkept : ((ofOptions options).after (history ++ later)).tickets[j]? = some t := by
      obtain ⟨hj, rfl⟩ := List.getElem?_eq_some_iff.1 ht
      rw [after_append]
      exact List.prefix_iff_getElem?.1 (tickets_isPrefix_after _ later) j hj
    -- it was not the last one, and no later ticket makes it so
    rw [← Bool.not_eq_true, hgave.accepts_iff ht (hcount i)] at hstale
    rw [← after_append, ← Bool.not_eq_true,
      hgave.append.accepts_iff hkept (Nat.lt_of_le_of_lt requestsOn_le hfew)]
    exact fun hlast => hstale fun k hk => hlast k hk.append
  case preview =>
    intro i j o t source selections ho ht
    have hs : ((ofOptions options).after history).sessions[i]? =
        some (Session.mk o (.ofNat (requestsOn i history))) := by
      rw [sessions_after, ho, Option.map_some]
    rw [accepts_eq hs]
    simp only [step, hs, ht, Session.compute]
    rfl
  case frame =>
    intro i t operation hop
    rw [accepts, sessions_step]
    simp only [if_neg hop, Option.map_id']
    rfl

/-- Two sessions, the first tickets of which have the same number, and a preview asked for with a
ticket of the other session. -/
theorem ticketLaws_after_two_sessions :
    let options : List Options := [{}, { math := false }]
    let history : List Operation := [.request 0, .request 1, .request 0, .compute 1 0 ['$'] []]
    history.countP Operation.isRequest < UInt64.size ∧
      TicketLaws options history ((ofOptions options).after history) ∧
      ((ofOptions options).after history).tickets = [⟨1⟩, ⟨1⟩, ⟨2⟩] :=
  ⟨by decide, ticketLaws_after _ _ (by decide), by decide +kernel⟩

end MarkdownPreview.Host
