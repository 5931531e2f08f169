import ItemTable.ChangeLog.Budget
import Mathlib.Algebra.BigOperators.Group.List.Basic
import Mathlib.Algebra.Ring.Nat

/-!
# One budget for several workers

Each worker reserves and releases records as it likes. A reservation changes the count in one step
and hands back the count that it saw; only later, when other workers may have changed the count
again, does the worker work out from that what it was granted. `Reaches.exact` says that the count
is the sum of what has been granted and not given back after every step of every interleaving.
-/
namespace ItemTable.ChangeLog

/-- A reservation that has changed the count, while its worker has yet to work out the grant. -/
structure Ticket where
  worker : Nat
  wanted : Nat
  seen : Nat
deriving DecidableEq, Repr

/-- Records that a worker holds. -/
structure Grant where
  worker : Nat
  records : Nat
deriving DecidableEq, Repr

/-- What the worker works out from the count that its reservation saw. -/
def Ticket.granted (limit : Option Nat) (ticket : Ticket) : Nat :=
  ((Budget.mk limit ticket.seen).reserve ticket.wanted).1

/-- A budget with the reservations under way and the grants that are held, of all workers. -/
structure SharedBudget where
  budget : Budget
  pending : List Ticket := []
  held : List Grant := []
deriving DecidableEq, Repr

namespace SharedBudget

/-- What a worker does in one step. -/
inductive Operation where
  | reserve (worker wanted : Nat)
  | receive (ticket : Ticket)
  | release (grant : Grant)
deriving DecidableEq, Repr

/-- The records that the operation asks for. -/
def Operation.wanted : Operation → Nat
  | .reserve _ wanted => wanted
  | .receive _ | .release _ => 0

def Operation.isRelease : Operation → Bool
  | .release _ => true
  | .reserve _ _ | .receive _ => false

/-- The records that all of them ask for. -/
def requested (operations : List Operation) : Nat := (operations.map Operation.wanted).sum

def start (limit : Nat) : SharedBudget := { budget := { limit := some limit } }

/-- One step of one worker. A worker gives back only what it holds, and then holds it no more. -/
inductive Step : SharedBudget → Operation → SharedBudget → Prop
  | reserve (s : SharedBudget) (worker wanted : Nat) :
      Step s (.reserve worker wanted)
        { s with
          budget := (s.budget.reserve wanted).2
          pending := ⟨worker, wanted, s.budget.used⟩ :: s.pending }
  | receive (s : SharedBudget) (ticket : Ticket) (h : ticket ∈ s.pending) :
      Step s (.receive ticket)
        { s with
          pending := s.pending.erase ticket
          held := ⟨ticket.worker, ticket.granted s.budget.limit⟩ :: s.held }
  | release (s : SharedBudget) (grant : Grant) (h : grant ∈ s.held) :
      Step s (.release grant)
        { s with
          budget := s.budget.release grant.records
          held := s.held.erase grant }

/-- What a budget of so many records can become, with the operations of all workers in their
order. -/
inductive Reaches (limit : Nat) : List Operation → SharedBudget → Prop
  | start : Reaches limit [] (start limit)
  | step {operations : List Operation} {s s' : SharedBudget} {operation : Operation}
      (h : Reaches limit operations s) (hstep : Step s operation s') :
      Reaches limit (operations ++ [operation]) s'

/-- The records of all grants that are held. -/
def heldRecords (s : SharedBudget) : Nat := (s.held.map Grant.records).sum

/-- The records of all grants that have yet to be worked out. -/
def pendingRecords (s : SharedBudget) : Nat := (s.pending.map (Ticket.granted s.budget.limit)).sum

/-- The records granted and not given back. -/
def outstanding (s : SharedBudget) : Nat := s.pendingRecords + s.heldRecords

end SharedBudget

theorem Ticket.granted_eq (limit : Nat) (ticket : Ticket) :
    ticket.granted (some limit) = min ticket.wanted (limit - ticket.seen) := rfl

namespace SharedBudget

theorem requested_append (operations more : List Operation) :
    requested (operations ++ more) = requested operations + requested more := by
  simp [requested]

/-- The count is that of the grants, and the limit is kept. -/
structure IsExact (limit : Nat) (s : SharedBudget) : Prop where
  limit_eq : s.budget.limit = some limit
  used_eq : s.budget.used = s.outstanding
  used_le : s.budget.used ≤ limit

variable {limit : Nat} {s s' : SharedBudget} {operations : List Operation} {operation : Operation}

theorem isExact_start (limit : Nat) : IsExact limit (start limit) where
  limit_eq := rfl
  used_eq := rfl
  used_le := Nat.zero_le limit

theorem IsExact.reserve_budget (h : IsExact limit s) (wanted : Nat) :
    (s.budget.reserve wanted).2 =
      ⟨some limit, s.budget.used + min wanted (limit - s.budget.used)⟩ := by
  simp only [Budget.reserve, h.limit_eq]

/-- The grant comes to what the reservation has added to the count. -/
theorem IsExact.outstanding_reserve (h : IsExact limit s) (worker wanted : Nat)
    (hstep : Step s (.reserve worker wanted) s') :
    s'.outstanding = s.outstanding + min wanted (limit - s.budget.used) := by
  cases hstep
  simp only [outstanding, pendingRecords, heldRecords, h.reserve_budget, h.limit_eq, List.map_cons,
    List.sum_cons, Ticket.granted_eq]
  omega

/-- Working out a grant moves it from one worker's account to the other, and no record is lost. -/
theorem outstanding_receive {ticket : Ticket} (hstep : Step s (.receive ticket) s') :
    s'.outstanding = s.outstanding := by
  cases hstep with
  | receive _ hmem =>
    have hsum := List.sum_map_erase (Ticket.granted s.budget.limit) hmem
    simp only [outstanding, pendingRecords, heldRecords, List.map_cons, List.sum_cons, ← hsum]
    omega

theorem outstanding_release {grant : Grant} (hstep : Step s (.release grant) s') :
    s'.outstanding + grant.records = s.outstanding := by
  cases hstep with
  | release _ hmem =>
    have hsum := List.sum_map_erase Grant.records hmem
    simp only [outstanding, pendingRecords, heldRecords, Budget.release, ← hsum]
    omega

theorem IsExact.step (h : IsExact limit s) (hstep : Step s operation s') : IsExact limit s' := by
  have hused := h.used_eq
  have hle := h.used_le
  cases operation with
  | reserve worker wanted =>
    have hout := h.outstanding_reserve worker wanted hstep
    cases hstep
    rw [h.reserve_budget] at hout ⊢
    refine ⟨rfl, ?_, ?_⟩
    · show s.budget.used + min wanted (limit - s.budget.used) = _
      omega
    · show s.budget.used + min wanted (limit - s.budget.used) ≤ limit
      omega
  | receive ticket =>
    have hout := outstanding_receive hstep
    cases hstep
    exact ⟨h.limit_eq, hused.trans hout.symm, hle⟩
  | release grant =>
    have hout := outstanding_release hstep
    cases hstep
    refine ⟨h.limit_eq, ?_, ?_⟩
    · show s.budget.used - grant.records = _
      omega
    · show s.budget.used - grant.records ≤ limit
      omega

theorem Reaches.exact (h : Reaches limit operations s) : IsExact limit s := by
  induction h with
  | start => exact isExact_start limit
  | step _ hstep ih => exact ih.step hstep

/-- A reservation under way has seen the count that was there when it was made. -/
theorem Reaches.pending (h : Reaches limit operations s) {ticket : Ticket}
    (hmem : ticket ∈ s.pending) :
    ∃ earlier before later, Reaches limit earlier before ∧
      operations = earlier ++ .reserve ticket.worker ticket.wanted :: later ∧
      ticket.seen = before.outstanding := by
  induction h with
  | start => cases hmem
  | @step operations s s' operation h hstep ih =>
    -- Only a reservation adds a ticket; a ticket that was there already is found by the hypothesis.
    have hold : ticket ∈ s.pending → ∃ earlier before later, Reaches limit earlier before ∧
        operations ++ [operation] = earlier ++ .reserve ticket.worker ticket.wanted :: later ∧
        ticket.seen = before.outstanding := by
      intro hmem
      obtain ⟨earlier, before, later, hbefore, rfl, hseen⟩ := ih hmem
      exact ⟨earlier, before, later ++ [operation], hbefore, by simp, hseen⟩
    cases hstep with
    | reserve worker wanted =>
      rcases List.mem_cons.1 hmem with rfl | hmem
      · exact ⟨operations, s, [], h, rfl, h.exact.used_eq⟩
      · exact hold hmem
    | receive _ _ => exact hold (List.mem_of_mem_erase hmem)
    | release _ _ => exact hold hmem

/-- While nothing is given back, all requests together get what one request for all of it would
get. -/
theorem Reaches.outstanding_eq (h : Reaches limit operations s)
    (hkept : ∀ operation ∈ operations, operation.isRelease = false) :
    s.outstanding = min limit (requested operations) := by
  induction h with
  | start => exact (Nat.min_zero limit).symm
  | @step operations s s' operation h hstep ih =>
    have ih := ih fun operation hmem => hkept operation (List.mem_append_left _ hmem)
    have hused := h.exact.used_eq
    rw [requested_append]
    cases operation with
    | reserve worker wanted =>
      have hout := h.exact.outstanding_reserve worker wanted hstep
      have hwanted : requested [.reserve worker wanted] = wanted := rfl
      omega
    | receive ticket =>
      have hout := outstanding_receive hstep
      have hwanted : requested [.receive ticket] = 0 := rfl
      omega
    | release grant =>
      have hrelease := hkept (.release grant) (List.mem_append_right _ List.mem_cons_self)
      cases hrelease

/-- What the count of a shared budget says about its grants, after `operations` have led to `s`. -/
structure IsAccounted (limit : Nat) (operations : List Operation) (s : SharedBudget) : Prop where
  /-- The count is the sum of the grants that are outstanding. -/
  used_eq : s.budget.used = s.outstanding
  used_le : s.budget.used ≤ limit
  remaining_eq : s.budget.remaining = some (limit - s.outstanding)
  /-- No reservation carries the count past a machine word. -/
  reserve_lt : ∀ wanted, s.budget.used + min wanted (limit - s.budget.used) < countBound ∧
    (s.budget.reserve wanted).2.used = s.budget.used + min wanted (limit - s.budget.used)
  /-- A reservation takes what it wants, or what is left. -/
  reserved : ∀ worker wanted s', Step s (.reserve worker wanted) s' →
    s'.outstanding = s.outstanding + min wanted (limit - s.outstanding)
  /-- The worker is granted just what its reservation has taken, whatever was done in between. -/
  received : ∀ ticket s', Step s (.receive ticket) s' →
    ∃ earlier before later, Reaches limit earlier before ∧
      operations = earlier ++ .reserve ticket.worker ticket.wanted :: later ∧
      s'.held = ⟨ticket.worker, min ticket.wanted (limit - before.outstanding)⟩ :: s.held
  /-- What is given back leaves the count. -/
  released : ∀ grant s', Step s (.release grant) s' →
    s'.budget.used + grant.records = s.budget.used
  /-- While nothing is given back, the order of the requests does not matter. -/
  total : (∀ operation ∈ operations, operation.isRelease = false) →
    s.outstanding = min limit (requested operations) ∧
      (s.pending = [] → s.heldRecords = min limit (requested operations))

/-- A shared budget stays exact, whatever the workers do and in whatever order. -/
theorem Reaches.isAccounted (hlimit : limit < countBound) (h : Reaches limit operations s) :
    IsAccounted limit operations s := by
  have hexact := h.exact
  have hused := hexact.used_eq
  have hle := hexact.used_le
  refine ⟨hused, hle, ?_, ?_, ?_, ?_, ?_, ?_⟩
  · simp [Budget.remaining, hexact.limit_eq, hused]
  · intro wanted
    rw [hexact.reserve_budget]
    exact ⟨by omega, rfl⟩
  · intro worker wanted s' hstep
    rw [← hused]
    exact hused ▸ hexact.outstanding_reserve worker wanted hstep
  · intro ticket s' hstep
    cases hstep with
    | receive _ hmem =>
      obtain ⟨earlier, before, later, hbefore, hoperations, hseen⟩ := h.pending hmem
      refine ⟨earlier, before, later, hbefore, hoperations, ?_⟩
      rw [hexact.limit_eq, Ticket.granted_eq, hseen]
  · intro grant s' hstep
    have hout := outstanding_release hstep
    have hused' := (hexact.step hstep).used_eq
    omega
  · intro hkept
    have hout := h.outstanding_eq hkept
    refine ⟨hout, fun hpending => ?_⟩
    rw [← hout, outstanding, pendingRecords, hpending]
    exact (Nat.zero_add _).symm

/-- Two reservations overlap, the second one asks for far more than is left, and the first to have
asked is told last; then its records go back and a third worker takes some of them. -/
theorem isAccounted_of_overlap :
    (10 < countBound ∧
      Reaches 10
        [.reserve 1 7, .reserve 2 (countBound - 1), .receive ⟨2, countBound - 1, 7⟩,
          .receive ⟨1, 7, 0⟩, .release ⟨1, 7⟩, .reserve 3 4]
        ⟨⟨some 10, 7⟩, [⟨3, 4, 3⟩], [⟨2, 3⟩]⟩) ∧
    IsAccounted 10
      [.reserve 1 7, .reserve 2 (countBound - 1), .receive ⟨2, countBound - 1, 7⟩,
        .receive ⟨1, 7, 0⟩, .release ⟨1, 7⟩, .reserve 3 4]
      ⟨⟨some 10, 7⟩, [⟨3, 4, 3⟩], [⟨2, 3⟩]⟩ := by
  have hlimit : 10 < countBound := by decide
  have hfirst : Reaches 10 [.reserve 1 7] ⟨⟨some 10, 7⟩, [⟨1, 7, 0⟩], []⟩ :=
    Reaches.start.step (.reserve _ 1 7)
  have hsecond := hfirst.step (.reserve _ 2 (countBound - 1))
  have htold := (hsecond.step (.receive _ ⟨2, countBound - 1, 7⟩ (by decide))).step
    (.receive _ ⟨1, 7, 0⟩ (by decide))
  have hrun := (htold.step (.release _ ⟨1, 7⟩ (by decide))).step (.reserve _ 3 4)
  exact ⟨⟨hlimit, hrun⟩, Reaches.isAccounted hlimit hrun⟩

end SharedBudget
end ItemTable.ChangeLog
