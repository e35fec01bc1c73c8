import Mathlib.Algebra.BigOperators.Group.List.Basic
import Mathlib.Tactic.Linarith
import Morton.Base.Run
import Morton.Proto.Messages

/-! `UdpSocket`: datagrams wait in a batch until the kernel takes them, and come from it in
batches. What the kernel answers is an input; the ledger beside a socket records the fate of
every datagram. -/
namespace Morton.Net

structure Datagram (A : Type) where
  address : A
  bytes : List UInt8
  deriving DecidableEq

def Datagram.size {A : Type} (d : Datagram A) : Nat := d.bytes.length

def Datagram.truncate {A : Type} (d : Datagram A) (capacity : Nat) : Datagram A :=
  { d with bytes := d.bytes.take capacity }

def kBatchSize : Nat := 64

structure UdpSocket (A : Type) where
  isOpen : Bool := false
  /-- The first `send_count_` places of the batch. -/
  pending : List (Datagram A) := []
  /-- What was received from `recv_next_` to `recv_count_`. -/
  received : List (Datagram A) := []
  lastOverflow : Nat := 0
  overflowSeen : Bool := false
  bytesSent : Nat := 0
  bytesReceived : Nat := 0
  packetsSent : Nat := 0
  packetsReceived : Nat := 0
  sendFailures : Nat := 0
  receiveDrops : Nat := 0

/-- What `recvmmsg` returns: the datagrams, and the drops that the newest of them reports. -/
structure Arrival (A : Type) where
  datagrams : List (Datagram A)
  overflow : Option Nat

/-- What `receive` returns. -/
inductive Received (A : Type)
  | failed
  | nothing
  | datagram (d : Datagram A)

def totalBytes {A : Type} (batch : List (Datagram A)) : Nat := (batch.map Datagram.size).sum

/-- The loop around `sendmmsg`: how many messages each call takes, none of them when it fails.
What it leaves is given up. -/
def handOver {A : Type} : List Nat → List (Datagram A) → List (Datagram A) × List (Datagram A)
  | _, [] => ([], [])
  | [], batch => ([], batch)
  | taken :: answers, batch =>
    if taken = 0 then ([], batch)
    else
      let (sent, failed) := handOver answers (batch.drop taken)
      (batch.take taken ++ sent, failed)

namespace UdpSocket
variable {A : Type}

/-- The socket after `flush_sends`, what was sent and what failed. -/
def flushSends (s : UdpSocket A) (answers : List Nat) :
    UdpSocket A × List (Datagram A) × List (Datagram A) :=
  if s.pending = [] then (s, [], [])
  else if !s.isOpen then ({ s with pending := [] }, [], [])
  else
    let (sent, failed) := handOver answers s.pending
    ({ s with
        pending := []
        packetsSent := s.packetsSent + sent.length
        bytesSent := s.bytesSent + totalBytes sent
        sendFailures := s.sendFailures + failed.length }, sent, failed)

def close (s : UdpSocket A) (answers : List Nat) :
    UdpSocket A × List (Datagram A) × List (Datagram A) :=
  let (s, sent, failed) := if s.isOpen then s.flushSends answers else (s, [], [])
  ({ s with isOpen := false, pending := [], received := [], overflowSeen := false }, sent, failed)

/-- `open`; `opened` tells whether the system calls succeed. -/
def openSocket (s : UdpSocket A) (answers : List Nat) (opened : Bool) :
    UdpSocket A × List (Datagram A) × List (Datagram A) :=
  let (s, sent, failed) := s.close answers
  ({ s with isOpen := opened }, sent, failed)

/-- `send`; `sent` tells whether `sendto` does. -/
def send (s : UdpSocket A) (d : Datagram A) (sent : Bool) : UdpSocket A × Bool :=
  if !s.isOpen || d.size == 0 then (s, false)
  else if !sent then ({ s with sendFailures := s.sendFailures + 1 }, false)
  else
    ({ s with packetsSent := s.packetsSent + 1, bytesSent := s.bytesSent + d.size }, true)

/-- What `send_batched` takes. -/
def takes (s : UdpSocket A) (d : Datagram A) : Bool :=
  s.isOpen && decide (0 < d.size) && decide (d.size ≤ Proto.kMaxDatagramSize)

def sendBatched (s : UdpSocket A) (d : Datagram A) (answers : List Nat) :
    UdpSocket A × List (Datagram A) × List (Datagram A) :=
  if !s.takes d then (s, [], [])
  else
    let (s, sent, failed) :=
      if s.pending.length = kBatchSize then s.flushSends answers else (s, [], [])
    ({ s with pending := s.pending ++ [d] }, sent, failed)

/-- The drops the newest datagram reports, of which the first report is only remembered. -/
def reportOverflow (s : UdpSocket A) : Option Nat → UdpSocket A
  | none => s
  | some total =>
    { s with
      receiveDrops := s.receiveDrops +
        if s.overflowSeen then (total % 2 ^ 32 + 2 ^ 32 - s.lastOverflow) % 2 ^ 32 else 0
      lastOverflow := total % 2 ^ 32
      overflowSeen := true }

/-- `refill`; no arrival is an error other than that nothing is there. -/
def refill (s : UdpSocket A) : Option (Arrival A) → UdpSocket A × Option Bool
  | none => ({ s with received := [] }, none)
  | some arrival =>
    let batch := arrival.datagrams
    if batch = [] then ({ s with received := [] }, some false)
    else
      let s := s.reportOverflow arrival.overflow
      ({ s with
          received := batch
          packetsReceived := s.packetsReceived + batch.length
          bytesReceived := s.bytesReceived + totalBytes batch }, some true)

/-- The next datagram of a batch that is not empty. -/
def takeReceived (s : UdpSocket A) (capacity : Nat) : UdpSocket A × Received A :=
  match s.received with
  | [] => (s, .nothing)
  | d :: rest => ({ s with received := rest }, .datagram (d.truncate capacity))

/-- `receive`; the kernel is asked only when the last batch is used up. The code returns the size:
an empty datagram is taken from the batch and gives 0, as `nothing` does. -/
def receive (s : UdpSocket A) (capacity : Nat) (arrival : Option (Arrival A)) :
    UdpSocket A × Received A :=
  if !s.isOpen then (s, .failed)
  else if s.received = [] then
    match s.refill arrival with
    | (s, none) => (s, .failed)
    | (s, some false) => (s, .nothing)
    | (s, some true) => s.takeReceived capacity
  else s.takeReceived capacity

end UdpSocket

/-- A call, with what the kernel answers during it. -/
inductive SocketCall (A : Type)
  | openSocket (answers : List Nat) (opened : Bool)
  | close (answers : List Nat)
  | send (d : Datagram A) (sent : Bool)
  | sendBatched (d : Datagram A) (answers : List Nat)
  | flushSends (answers : List Nat)
  | receive (capacity : Nat) (arrival : Option (Arrival A))

/-- A socket and what became of every datagram. -/
structure Traffic (A : Type) where
  socket : UdpSocket A := {}
  /-- What `send_batched` took, in order. -/
  accepted : List (Datagram A) := []
  /-- What left the batch, in order, and whether it was sent. -/
  fates : List (Datagram A × Bool) := []
  /-- What `send` was asked to send, and whether it was. -/
  direct : List (Datagram A × Bool) := []
  /-- What came from the kernel, in order. -/
  arrived : List (Datagram A) := []
  /-- What left the received batches, with the capacity it was read with, unless it was thrown
  away by a `close`. -/
  read : List (Datagram A × Option Nat) := []
  /-- What `receive` returned. -/
  delivered : List (Datagram A) := []
  /-- Drops reported since the socket was opened, newest first, and those of earlier sockets. -/
  reports : List Nat := []
  earlierDrops : Nat := 0

namespace Traffic
variable {A : Type}

def marked (sent failed : List (Datagram A)) : List (Datagram A × Bool) :=
  sent.map (·, true) ++ failed.map (·, false)

/-- The newest report less the oldest. -/
def reported (reports : List Nat) : Nat := reports.headD 0 - reports.getLastD 0

/-- A socket is closed: its batch is thrown away, its reports are over. -/
def closed (t : Traffic A) : Traffic A :=
  { t with
    read := t.read ++ t.socket.received.map (·, none)
    earlierDrops := t.earlierDrops + reported t.reports
    reports := [] }

def receive (t : Traffic A) (capacity : Nat) (arrival : Option (Arrival A)) : Traffic A :=
  let asked := t.socket.isOpen && t.socket.received.isEmpty
  let batch := if asked then (arrival.map Arrival.datagrams).getD [] else []
  let report := if asked && !batch.isEmpty then arrival.bind Arrival.overflow else none
  let t := { t with arrived := t.arrived ++ batch, reports := report.toList ++ t.reports }
  match t.socket.receive capacity arrival with
  | (socket, .datagram d) =>
    let next := if asked then batch.head? else t.socket.received.head?
    { t with
      socket
      read := t.read ++ next.toList.map (·, some capacity)
      delivered := t.delivered ++ [d] }
  | (socket, _) => { t with socket }

def step (t : Traffic A) : SocketCall A → Traffic A
  | .openSocket answers opened =>
    let (socket, sent, failed) := t.socket.openSocket answers opened
    { t.closed with socket, fates := t.fates ++ marked sent failed }
  | .close answers =>
    let (socket, sent, failed) := t.socket.close answers
    { t.closed with socket, fates := t.fates ++ marked sent failed }
  | .send d sent =>
    let asked := t.socket.isOpen && d.size != 0
    let (socket, result) := t.socket.send d sent
    { t with socket, direct := t.direct ++ if asked then [(d, result)] else [] }
  | .sendBatched d answers =>
    let (socket, sent, failed) := t.socket.sendBatched d answers
    { t with
      socket
      accepted := t.accepted ++ if t.socket.takes d then [d] else []
      fates := t.fates ++ marked sent failed }
  | .flushSends answers =>
    let (socket, sent, failed) := t.socket.flushSends answers
    { t with socket, fates := t.fates ++ marked sent failed }
  | .receive capacity arrival => t.receive capacity arrival

/-- The datagrams whose fate is this one, in order. -/
def withFate (fate : Bool) (fates : List (Datagram A × Bool)) : List (Datagram A) :=
  (fates.filter fun d => d.2 == fate).map Prod.fst

theorem withFate_append (fate : Bool) (xs ys : List (Datagram A × Bool)) :
    withFate fate (xs ++ ys) = withFate fate xs ++ withFate fate ys := by
  rw [withFate, List.filter_append, List.map_append, withFate, withFate]

theorem withFate_map (fate other : Bool) (xs : List (Datagram A)) :
    withFate fate (xs.map (·, other)) = if other = fate then xs else [] := by
  induction xs with
  | nil => simp [withFate]
  | cons d xs ih =>
    rw [List.map_cons, ← List.singleton_append, withFate_append, ih]
    cases other <;> cases fate <;> simp [withFate]

theorem withFate_marked (fate : Bool) (sent failed : List (Datagram A)) :
    withFate fate (marked sent failed) = if fate then sent else failed := by
  rw [marked, withFate_append, withFate_map, withFate_map]
  cases fate <;> simp

theorem marked_fst (sent failed : List (Datagram A)) :
    (marked sent failed).map Prod.fst = sent ++ failed := by
  simp [marked, List.map_map, Function.comp_def]

theorem totalBytes_append (xs ys : List (Datagram A)) :
    totalBytes (xs ++ ys) = totalBytes xs + totalBytes ys := by
  simp [totalBytes]

/-- Whatever the kernel answers, a batch is split into what is sent and what is given up. -/
theorem handOver_append (answers : List Nat) (batch : List (Datagram A)) :
    (handOver answers batch).1 ++ (handOver answers batch).2 = batch := by
  fun_induction handOver answers batch with
  | case1 => rfl
  | case2 => rfl
  | case3 => rfl
  | case4 answers batch taken _ hne sent failed heq ih =>
    rw [heq] at ih
    rw [List.append_assoc, ih, List.take_append_drop]

/-- What waits is a batch at most, and a closed socket has nothing. -/
structure Waiting (s : UdpSocket A) : Prop where
  room : s.pending.length ≤ kBatchSize
  sendIdle : s.isOpen = false → s.pending = []
  receiveIdle : s.isOpen = false → s.received = []

theorem flushSends_eq {s : UdpSocket A} (h : Waiting s) (answers : List Nat) :
    ∃ sent failed, sent ++ failed = s.pending ∧ s.flushSends answers =
      ({ s with
          pending := []
          packetsSent := s.packetsSent + sent.length
          bytesSent := s.bytesSent + totalBytes sent
          sendFailures := s.sendFailures + failed.length }, sent, failed) := by
  unfold UdpSocket.flushSends
  by_cases hempty : s.pending = []
  · cases s
    cases hempty
    exact ⟨[], [], rfl, rfl⟩
  · have hopen : s.isOpen = true := by
      by_contra hclosed
      exact hempty (h.sendIdle (by simpa using hclosed))
    refine ⟨_, _, handOver_append answers s.pending, ?_⟩
    rw [if_neg hempty, hopen]
    rfl

/-- What was taken leaves in order, and the counters tell how much of it was sent. -/
structure Outbound (t : Traffic A) : Prop where
  order : t.fates.map Prod.fst ++ t.socket.pending = t.accepted
  sent : t.socket.packetsSent =
    (withFate true t.fates).length + (withFate true t.direct).length
  bytes : t.socket.bytesSent =
    totalBytes (withFate true t.fates) + totalBytes (withFate true t.direct)
  failed : t.socket.sendFailures =
    (withFate false t.fates).length + (withFate false t.direct).length

/-- What came from the kernel is handed out in order, once, unless a `close` throws it away. -/
structure Inflow (t : Traffic A) : Prop where
  order : t.read.map Prod.fst ++ t.socket.received = t.arrived
  delivered : t.delivered = t.read.filterMap fun (d, capacity) => capacity.map d.truncate
  packets : t.socket.packetsReceived = t.arrived.length
  bytes : t.socket.bytesReceived = totalBytes t.arrived

/-- The batch has gone its way. -/
theorem Outbound.flushed {t t' : Traffic A} (h : Outbound t) {sent failed : List (Datagram A)}
    (hbatch : sent ++ failed = t.socket.pending)
    (hfates : t'.fates = t.fates ++ marked sent failed) (hdirect : t'.direct = t.direct)
    (haccepted : t'.accepted = t.accepted ++ t'.socket.pending)
    (hsent : t'.socket.packetsSent = t.socket.packetsSent + sent.length)
    (hbytes : t'.socket.bytesSent = t.socket.bytesSent + totalBytes sent)
    (hfailed : t'.socket.sendFailures = t.socket.sendFailures + failed.length) : Outbound t' where
  order := by
    rw [hfates, haccepted, ← h.order, List.map_append, marked_fst, hbatch]
  sent := by
    rw [hsent, h.sent, hfates, hdirect, withFate_append, withFate_marked, if_pos rfl,
      List.length_append]
    omega
  bytes := by
    rw [hbytes, h.bytes, hfates, hdirect, withFate_append, withFate_marked, if_pos rfl,
      totalBytes_append]
    omega
  failed := by
    rw [hfailed, h.failed, hfates, hdirect, withFate_append, withFate_marked, if_neg (by decide),
      List.length_append]
    omega

theorem close_eq {s : UdpSocket A} (h : Waiting s) (answers : List Nat) :
    ∃ sent failed, sent ++ failed = s.pending ∧ s.close answers =
      ({ s with
          isOpen := false
          pending := []
          received := []
          overflowSeen := false
          packetsSent := s.packetsSent + sent.length
          bytesSent := s.bytesSent + totalBytes sent
          sendFailures := s.sendFailures + failed.length }, sent, failed) := by
  unfold UdpSocket.close
  cases hopen : s.isOpen with
  | true =>
    obtain ⟨sent, failed, hbatch, hflush⟩ := flushSends_eq h answers
    refine ⟨sent, failed, hbatch, ?_⟩
    rw [if_pos rfl, hflush]
  | false => exact ⟨[], [], (h.sendIdle hopen).symm, rfl⟩

/-- Every datagram is somewhere, and the counters know. -/
structure Accounted (t : Traffic A) : Prop where
  waiting : Waiting t.socket
  outbound : Outbound t
  inflow : Inflow t

theorem accounted_start : Accounted ({} : Traffic A) where
  waiting := ⟨Nat.zero_le _, fun _ => rfl, fun _ => rfl⟩
  outbound := ⟨rfl, rfl, rfl, rfl⟩
  inflow := ⟨rfl, rfl, rfl, rfl⟩

/-- What is thrown away when the socket is closed. -/
theorem Inflow.closed {t : Traffic A} (h : Inflow t) :
    t.closed.read.map Prod.fst = t.arrived ∧
      t.delivered = t.closed.read.filterMap fun (d, capacity) => capacity.map d.truncate := by
  constructor
  · rw [Traffic.closed, List.map_append, List.map_map, ← h.order]
    simp [Function.comp_def]
  · rw [Traffic.closed, List.filterMap_append, h.delivered]
    simp

theorem Accounted.close {t : Traffic A} (h : Accounted t) (answers : List Nat) :
    Accounted (t.step (.close answers)) := by
  obtain ⟨sent, failed, hbatch, hclose⟩ := close_eq h.waiting answers
  obtain ⟨hread, hdelivered⟩ := h.inflow.closed
  simp only [step, hclose]
  constructor
  case waiting => exact ⟨Nat.zero_le _, fun _ => rfl, fun _ => rfl⟩
  case outbound =>
    exact h.outbound.flushed hbatch rfl rfl (List.append_nil _).symm rfl rfl rfl
  case inflow =>
    exact ⟨(List.append_nil _).trans hread, hdelivered, h.inflow.packets, h.inflow.bytes⟩

theorem Accounted.openSocket {t : Traffic A} (h : Accounted t) (answers : List Nat)
    (opened : Bool) : Accounted (t.step (.openSocket answers opened)) := by
  obtain ⟨sent, failed, hbatch, hclose⟩ := close_eq h.waiting answers
  obtain ⟨hread, hdelivered⟩ := h.inflow.closed
  simp only [step, UdpSocket.openSocket, hclose]
  constructor
  case waiting => exact ⟨Nat.zero_le _, fun _ => rfl, fun _ => rfl⟩
  case outbound =>
    exact h.outbound.flushed hbatch rfl rfl (List.append_nil _).symm rfl rfl rfl
  case inflow =>
    exact ⟨(List.append_nil _).trans hread, hdelivered, h.inflow.packets, h.inflow.bytes⟩

theorem Accounted.flushSends {t : Traffic A} (h : Accounted t) (answers : List Nat) :
    Accounted (t.step (.flushSends answers)) := by
  obtain ⟨sent, failed, hbatch, hflush⟩ := flushSends_eq h.waiting answers
  simp only [step, hflush]
  constructor
  case waiting => exact ⟨Nat.zero_le _, fun _ => rfl, h.waiting.receiveIdle⟩
  case outbound =>
    exact h.outbound.flushed hbatch rfl rfl (List.append_nil _).symm rfl rfl rfl
  case inflow => exact ⟨h.inflow.order, h.inflow.delivered, h.inflow.packets, h.inflow.bytes⟩

theorem Accounted.send {t : Traffic A} (h : Accounted t) (d : Datagram A) (sent : Bool) :
    Accounted (t.step (.send d sent)) := by
  have hinflow := h.inflow
  have hout := h.outbound
  have hone : ∀ fate result, withFate fate [(d, result)] = if result = fate then [d] else [] := by
    intro fate result
    cases fate <;> cases result <;> rfl
  unfold step UdpSocket.send
  dsimp only
  by_cases hidle : (!t.socket.isOpen || d.size == 0) = true
  · have hasked : (t.socket.isOpen && d.size != 0) = false := by
      cases hopen : t.socket.isOpen <;> simp_all
    rw [if_pos hidle, hasked]
    simp only [Bool.false_eq_true, if_false, List.append_nil]
    exact h
  · have hasked : (t.socket.isOpen && d.size != 0) = true := by
      cases hopen : t.socket.isOpen <;> simp_all
    rw [if_neg hidle, hasked]
    cases sent with
    | false =>
      refine ⟨⟨h.waiting.room, h.waiting.sendIdle, h.waiting.receiveIdle⟩,
        ⟨hout.order, ?_, ?_, ?_⟩, ⟨hinflow.order, hinflow.delivered, hinflow.packets, hinflow.bytes⟩⟩
      · simpa [withFate_append, hone] using hout.sent
      · simpa [withFate_append, hone] using hout.bytes
      · simp [withFate_append, hone, hout.failed]
        omega
    | true =>
      refine ⟨⟨h.waiting.room, h.waiting.sendIdle, h.waiting.receiveIdle⟩,
        ⟨hout.order, ?_, ?_, ?_⟩, ⟨hinflow.order, hinflow.delivered, hinflow.packets, hinflow.bytes⟩⟩
      · simp [withFate_append, hone, hout.sent]
        omega
      · simp [withFate_append, hone, hout.bytes, totalBytes]
        omega
      · simpa [withFate_append, hone] using hout.failed

theorem Accounted.sendBatched {t : Traffic A} (h : Accounted t) (d : Datagram A)
    (answers : List Nat) : Accounted (t.step (.sendBatched d answers)) := by
  have hinflow := h.inflow
  unfold step UdpSocket.sendBatched
  dsimp only
  cases htakes : t.socket.takes d with
  | false =>
    simp only [Bool.not_false, if_true, Bool.false_eq_true, if_false, List.append_nil, marked,
      List.map_nil]
    exact h
  | true =>
    have hopen : t.socket.isOpen = true := by
      simp only [UdpSocket.takes, Bool.and_eq_true] at htakes
      exact htakes.1.1
    simp only [Bool.not_true, Bool.false_eq_true, if_false, if_true]
    by_cases hfull : t.socket.pending.length = kBatchSize
    · obtain ⟨sent, failed, hbatch, hflush⟩ := flushSends_eq h.waiting answers
      simp only [hfull, if_true, hflush]
      constructor
      case waiting =>
        refine ⟨by simp [kBatchSize], fun hclosed => ?_, h.waiting.receiveIdle⟩
        rw [hopen] at hclosed
        cases hclosed
      case outbound => exact h.outbound.flushed hbatch rfl rfl rfl rfl rfl rfl
      case inflow => exact ⟨hinflow.order, hinflow.delivered, hinflow.packets, hinflow.bytes⟩
    · simp only [hfull, if_false, marked, List.map_nil, List.append_nil]
      constructor
      case waiting =>
        have hroom := h.waiting.room
        refine ⟨?_, fun hclosed => ?_, h.waiting.receiveIdle⟩
        · rw [List.length_append, List.length_singleton]
          omega
        · rw [hopen] at hclosed
          cases hclosed
      case outbound =>
        refine ⟨?_, h.outbound.sent, h.outbound.bytes, h.outbound.failed⟩
        rw [← h.outbound.order, List.append_assoc]
      case inflow => exact ⟨hinflow.order, hinflow.delivered, hinflow.packets, hinflow.bytes⟩

/-- One datagram of a batch is handed out. -/
def handedOut (t : Traffic A) (d : Datagram A) (capacity : Nat) : Traffic A :=
  { t with
    read := t.read ++ [(d, some capacity)]
    delivered := t.delivered ++ [d.truncate capacity] }

/-- A batch came from the kernel. -/
def refilled (t : Traffic A) (batch : List (Datagram A)) (overflow : Option Nat) : Traffic A :=
  { t with
    socket :=
      { t.socket.reportOverflow overflow with
        received := batch
        packetsReceived := t.socket.packetsReceived + batch.length
        bytesReceived := t.socket.bytesReceived + totalBytes batch }
    arrived := t.arrived ++ batch
    reports := overflow.toList ++ t.reports }

def withReceived (t : Traffic A) (rest : List (Datagram A)) : Traffic A :=
  { t with socket := { t.socket with received := rest } }

/-- Nothing is there. -/
theorem receive_idle {s : UdpSocket A} (hopen : s.isOpen = true) (hreceived : s.received = [])
    (capacity : Nat) (overflow : Option Nat) :
    s.receive capacity none = (s, .failed) ∧
      s.receive capacity (some ⟨[], overflow⟩) = (s, .nothing) := by
  cases s
  cases hopen
  cases hreceived
  exact ⟨rfl, rfl⟩

/-- Nothing is received, or the next datagram of a batch: of the last one or of a new one. -/
theorem receive_cases (t : Traffic A) (capacity : Nat) (arrival : Option (Arrival A)) :
    t.receive capacity arrival = t ∨
    (∃ d rest, t.socket.isOpen = true ∧ t.socket.received = d :: rest ∧
      t.receive capacity arrival = (t.withReceived rest).handedOut d capacity) ∨
    ∃ d rest overflow, t.socket.isOpen = true ∧ t.socket.received = [] ∧
      arrival = some ⟨d :: rest, overflow⟩ ∧
      t.receive capacity arrival =
        ((t.refilled (d :: rest) overflow).withReceived rest).handedOut d capacity := by
  cases hopen : t.socket.isOpen with
  | false =>
    left
    simp [receive, UdpSocket.receive, hopen]
  | true =>
    cases hreceived : t.socket.received with
    | cons d rest =>
      refine Or.inr (Or.inl ⟨d, rest, rfl, rfl, ?_⟩)
      simp [receive, UdpSocket.receive, UdpSocket.takeReceived, hopen, hreceived, handedOut,
        withReceived]
    | nil =>
      cases arrival with
      | none =>
        left
        simp [receive, hopen, hreceived, (receive_idle hopen hreceived capacity none).1]
      | some arrival =>
        obtain ⟨batch, overflow⟩ := arrival
        cases batch with
        | nil =>
          left
          simp [receive, hopen, hreceived, (receive_idle hopen hreceived capacity overflow).2]
        | cons d rest =>
          refine Or.inr (Or.inr ⟨d, rest, overflow, rfl, rfl, rfl, ?_⟩)
          have htaken : t.socket.receive capacity (some ⟨d :: rest, overflow⟩) =
              ({ (t.refilled (d :: rest) overflow).socket with received := rest },
                .datagram (d.truncate capacity)) := by
            cases overflow <;>
              simp [UdpSocket.receive, UdpSocket.refill, UdpSocket.takeReceived,
                UdpSocket.reportOverflow, hopen, hreceived, refilled]
          simp [receive, hopen, hreceived, htaken, handedOut, withReceived, refilled]

theorem reportOverflow_frame (s : UdpSocket A) (overflow : Option Nat) :
    ∃ lastOverflow overflowSeen receiveDrops, s.reportOverflow overflow =
      { s with lastOverflow, overflowSeen, receiveDrops } := by
  cases overflow with
  | none => exact ⟨_, _, _, rfl⟩
  | some total => exact ⟨_, _, _, rfl⟩

theorem Accounted.refilled {t : Traffic A} (h : Accounted t) (hopen : t.socket.isOpen = true)
    (hreceived : t.socket.received = []) (batch : List (Datagram A)) (overflow : Option Nat) :
    Accounted (t.refilled batch overflow) := by
  obtain ⟨_, _, _, hreport⟩ := reportOverflow_frame t.socket overflow
  have hinflow := h.inflow
  have hread : t.read.map Prod.fst = t.arrived := by
    have horder := hinflow.order
    rwa [hreceived, List.append_nil] at horder
  unfold Traffic.refilled
  rw [hreport]
  constructor
  case waiting =>
    refine ⟨h.waiting.room, h.waiting.sendIdle, fun hclosed => ?_⟩
    rw [hopen] at hclosed
    cases hclosed
  case outbound => exact ⟨h.outbound.order, h.outbound.sent, h.outbound.bytes, h.outbound.failed⟩
  case inflow =>
    refine ⟨congrArg (· ++ batch) hread, hinflow.delivered, ?_, ?_⟩
    · simp [hinflow.packets]
    · simp [hinflow.bytes, totalBytes_append]

theorem Accounted.handedOut {t : Traffic A} (h : Accounted t) {d : Datagram A}
    {rest : List (Datagram A)} (hopen : t.socket.isOpen = true)
    (hreceived : t.socket.received = d :: rest) (capacity : Nat) :
    Accounted ((t.withReceived rest).handedOut d capacity) := by
  have hinflow := h.inflow
  constructor
  case waiting =>
    exact ⟨h.waiting.room, h.waiting.sendIdle, fun hclosed =>
      absurd (hopen.symm.trans hclosed) (by decide)⟩
  case outbound => exact ⟨h.outbound.order, h.outbound.sent, h.outbound.bytes, h.outbound.failed⟩
  case inflow =>
    refine ⟨?_, ?_, hinflow.packets, hinflow.bytes⟩
    · have horder := hinflow.order
      rw [hreceived] at horder
      simpa [Traffic.handedOut, Traffic.withReceived] using horder
    · simp [Traffic.handedOut, Traffic.withReceived, hinflow.delivered]

theorem Accounted.receive {t : Traffic A} (h : Accounted t) (capacity : Nat)
    (arrival : Option (Arrival A)) : Accounted (t.step (.receive capacity arrival)) := by
  rw [step]
  obtain hsame | ⟨d, rest, hopen, hreceived, heq⟩ | ⟨d, rest, overflow, hopen, hreceived, -, heq⟩ :=
    t.receive_cases capacity arrival
  · rw [hsame]
    exact h
  · rw [heq]
    exact h.handedOut hopen hreceived capacity
  · rw [heq]
    refine (h.refilled hopen hreceived (d :: rest) overflow).handedOut ?_ rfl capacity
    obtain ⟨_, _, _, hreport⟩ := reportOverflow_frame t.socket overflow
    simp only [Traffic.refilled, hreport, hopen]

theorem accounted_step (t : Traffic A) (call : SocketCall A) (h : Accounted t) :
    Accounted (t.step call) := by
  cases call with
  | openSocket answers opened => exact h.openSocket answers opened
  | close answers => exact h.close answers
  | send d sent => exact h.send d sent
  | sendBatched d answers => exact h.sendBatched d answers
  | flushSends answers => exact h.flushSends answers
  | receive capacity arrival => exact h.receive capacity arrival

/-- Whatever the kernel answers, in every run each datagram that was taken is sent, was given up
as a failure, or still waits, in the order in which they were taken; each one that arrived was
handed out once, was thrown away by a `close`, or still waits; and the counters say so. -/
theorem every_datagram_accounted (calls : List (SocketCall A)) :
    Accounted (Run.run step ({} : Traffic A) calls) :=
  Run.invariant_always Accounted accounted_step accounted_start calls

/-- Reports of one socket never fall, and grow by less than the counter wraps in. -/
def Honest (t : Traffic A) : SocketCall A → Prop
  | .receive _ (some arrival) =>
    t.socket.isOpen = true → t.socket.received = [] → ∀ total ∈ arrival.overflow,
      ∀ last ∈ t.reports.head?, last ≤ total ∧ total < last + 2 ^ 32
  | _ => True

/-- The drops since the first report. -/
structure DropsCounted (t : Traffic A) : Prop where
  drops : t.socket.receiveDrops = t.earlierDrops + reported t.reports
  seen : t.socket.overflowSeen = !t.reports.isEmpty
  last : ∀ last ∈ t.reports.head?, t.socket.lastOverflow = last % 2 ^ 32
  falling : ∀ last ∈ t.reports.head?, ∀ first ∈ t.reports.getLast?, first ≤ last

theorem reported_cons {total last : Nat} {reports : List Nat} :
    reported (total :: last :: reports) = total - (last :: reports).getLastD 0 := by
  simp [reported]

/-- One more report adds what was dropped since the one before. -/
theorem DropsCounted.report {t : Traffic A} (h : DropsCounted t) (total : Nat)
    (hhonest : ∀ last ∈ t.reports.head?, last ≤ total ∧ total < last + 2 ^ 32) :
    let s := t.socket.reportOverflow (some total)
    s.receiveDrops = t.earlierDrops + reported (total :: t.reports) ∧
      s.lastOverflow = total % 2 ^ 32 ∧ s.overflowSeen = true := by
  have hdrops := h.drops
  have hseen := h.seen
  cases hreports : t.reports with
  | nil =>
    rw [hreports] at hdrops hseen
    refine ⟨?_, rfl, rfl⟩
    simp only [UdpSocket.reportOverflow, hseen, hdrops]
    simp [reported]
  | cons last reports =>
    rw [hreports] at hdrops hseen hhonest
    have hlast := h.last last (by rw [hreports]; rfl)
    obtain ⟨hle, hlt⟩ := hhonest last rfl
    have hfirst : (last :: reports).getLastD 0 ≤ last := by
      apply h.falling last (by rw [hreports]; rfl)
      rw [hreports, List.getLastD_eq_getLast?, List.getLast?_cons]
      rfl
    refine ⟨?_, rfl, rfl⟩
    have hgap : (total % 2 ^ 32 + 2 ^ 32 - last % 2 ^ 32) % 2 ^ 32 = total - last := by omega
    simp only [UdpSocket.reportOverflow, hseen, hdrops, hlast, List.isEmpty_cons, Bool.not_false,
      if_true, hgap, reported_cons]
    simp only [reported, List.headD_cons]
    omega

theorem dropsCounted_start : DropsCounted ({} : Traffic A) where
  drops := rfl
  seen := rfl
  last last hlast := by cases hlast
  falling last hlast := by cases hlast

/-- What a socket that is left has dropped is not forgotten. -/
theorem DropsCounted.closed {t t' : Traffic A} (h : DropsCounted t)
    (hdrops : t'.socket.receiveDrops = t.socket.receiveDrops)
    (hearlier : t'.earlierDrops = t.earlierDrops + reported t.reports)
    (hseen : t'.socket.overflowSeen = false) (hreports : t'.reports = []) : DropsCounted t' where
  drops := by
    rw [hdrops, hearlier, hreports, h.drops]
    rfl
  seen := by rw [hseen, hreports]; rfl
  last last hlast := by rw [hreports] at hlast; cases hlast
  falling last hlast := by rw [hreports] at hlast; cases hlast

theorem DropsCounted.same {t t' : Traffic A} (h : DropsCounted t)
    (hdrops : t'.socket.receiveDrops = t.socket.receiveDrops)
    (hearlier : t'.earlierDrops = t.earlierDrops)
    (hseen : t'.socket.overflowSeen = t.socket.overflowSeen)
    (hlast : t'.socket.lastOverflow = t.socket.lastOverflow) (hreports : t'.reports = t.reports) :
    DropsCounted t' where
  drops := by rw [hdrops, hearlier, hreports, h.drops]
  seen := by rw [hseen, hreports, h.seen]
  last := by rw [hlast, hreports]; exact h.last
  falling := by rw [hreports]; exact h.falling

theorem DropsCounted.refilled {t : Traffic A} (h : DropsCounted t) (batch : List (Datagram A))
    {overflow : Option Nat} (hhonest : ∀ total ∈ overflow,
      ∀ last ∈ t.reports.head?, last ≤ total ∧ total < last + 2 ^ 32) :
    DropsCounted (t.refilled batch overflow) := by
  cases overflow with
  | none => exact h.same rfl rfl rfl rfl rfl
  | some total =>
    obtain ⟨hdrops, hlast, hseen⟩ := h.report total (hhonest total rfl)
    constructor
    case drops => exact hdrops
    case seen => exact hseen
    case last =>
      intro last hhead
      obtain rfl : total = last := Option.some.inj hhead
      exact hlast
    case falling =>
      intro last hhead first hfirst
      obtain rfl : total = last := Option.some.inj hhead
      cases hreports : t.reports with
      | nil =>
        rw [Traffic.refilled, hreports] at hfirst
        obtain rfl : total = first := Option.some.inj hfirst
        exact le_rfl
      | cons newest reports =>
        have hnewest : newest ∈ t.reports.head? := by rw [hreports]; rfl
        have holdest : first ∈ t.reports.getLast? := by
          rw [Traffic.refilled, hreports] at hfirst
          rw [hreports]
          exact hfirst
        exact (h.falling newest hnewest first holdest).trans (hhonest total rfl newest hnewest).1

theorem dropsCounted_step (t : Traffic A) (call : SocketCall A)
    (hok : Accounted t ∧ t.Honest call) (h : DropsCounted t) : DropsCounted (t.step call) := by
  obtain ⟨haccounted, hhonest⟩ := hok
  cases call with
  | openSocket answers opened =>
    obtain ⟨sent, failed, -, hclose⟩ := close_eq haccounted.waiting answers
    simp only [step, UdpSocket.openSocket, hclose]
    exact h.closed rfl rfl rfl rfl
  | close answers =>
    obtain ⟨sent, failed, -, hclose⟩ := close_eq haccounted.waiting answers
    simp only [step, hclose]
    exact h.closed rfl rfl rfl rfl
  | send d sent =>
    unfold step UdpSocket.send
    dsimp only
    split
    · exact h.same rfl rfl rfl rfl rfl
    · split <;> exact h.same rfl rfl rfl rfl rfl
  | sendBatched d answers =>
    unfold step UdpSocket.sendBatched
    dsimp only
    split
    · exact h.same rfl rfl rfl rfl rfl
    · obtain ⟨sent, failed, -, hflush⟩ := flushSends_eq haccounted.waiting answers
      split
      · rw [hflush]
        exact h.same rfl rfl rfl rfl rfl
      · exact h.same rfl rfl rfl rfl rfl
  | flushSends answers =>
    obtain ⟨sent, failed, -, hflush⟩ := flushSends_eq haccounted.waiting answers
    simp only [step, hflush]
    exact h.same rfl rfl rfl rfl rfl
  | receive capacity arrival =>
    rw [step]
    obtain hsame | ⟨d, rest, -, -, heq⟩ | ⟨d, rest, overflow, hopen, hreceived, harrival, heq⟩ :=
      t.receive_cases capacity arrival
    · rw [hsame]
      exact h
    · rw [heq]
      exact h.same rfl rfl rfl rfl rfl
    · rw [heq]
      rw [harrival] at hhonest
      exact (h.refilled (d :: rest) (hhonest hopen hreceived)).same rfl rfl rfl rfl rfl

/-- The drops counted are those the kernel reports from the first report of a socket to the
newest, over all the times it was opened; the wrap of the 32-bit counter does not show, and what
was dropped before the first report is left out. -/
theorem drops_counted {calls : List (SocketCall A)}
    (h : Run.Along step Honest ({} : Traffic A) calls) :
    let t := Run.run step ({} : Traffic A) calls
    t.socket.receiveDrops = t.earlierDrops + reported t.reports := by
  have hrun := Run.invariant (fun t : Traffic A => Accounted t ∧ DropsCounted t)
    (fun t call hhonest ht =>
      ⟨accounted_step t call ht.1, dropsCounted_step t call ⟨ht.1, hhonest⟩ ht.2⟩)
    ⟨accounted_start, dropsCounted_start⟩ h
  exact hrun.2.drops

instance decidableHonest (t : Traffic A) (call : SocketCall A) : Decidable (t.Honest call) :=
  match call with
  | .receive _ (some arrival) =>
    inferInstanceAs (Decidable (t.socket.isOpen = true → t.socket.received = [] →
      ∀ total ∈ arrival.overflow, ∀ last ∈ t.reports.head?, last ≤ total ∧ total < last + 2 ^ 32))
  | .receive _ none | .openSocket _ _ | .close _ | .send _ _ | .sendBatched _ _
  | .flushSends _ => isTrue trivial

/-- The counter wraps between two reports, and starts anew with the next socket. -/
def wrapping : List (SocketCall Unit) :=
  [.openSocket [] true, .receive 1200 (some ⟨[⟨(), [1]⟩], some 4294967294⟩),
    .receive 1200 (some ⟨[⟨(), [2]⟩, ⟨(), [3]⟩], some 4294967299⟩), .openSocket [] true,
    .receive 1200 (some ⟨[⟨(), [4]⟩], some 7⟩), .receive 1200 (some ⟨[⟨(), [5]⟩], some 9⟩)]

theorem drops_counted_wrapping :
    (Run.run step ({} : Traffic Unit) wrapping).socket.receiveDrops = 5 + 2 :=
  drops_counted (by decide : Run.Along step Honest ({} : Traffic Unit) wrapping)

end Traffic
end Morton.Net
