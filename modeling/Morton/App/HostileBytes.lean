import Morton.Cluster.MigrationTicket
import Morton.Net.EndpointRuns
import Morton.Net.ScanPacket
import Morton.Proto.ScanMessages

/-! Every decoder on every byte string: it reads inside the string, and what comes out of
the reliability layer is bounded. -/
namespace Morton.App
open Proto Net Cluster Traced Scan

namespace TicketScan

/-- `data[i]` through the pointer to the blob. -/
def byteAt (blob : Bytes) (i : Nat) : Scan UInt8 := ⟨fun r => ((blob.getD i 0, r), [i])⟩

/-- The loop of `checksum` over `count` bytes from `i` on. -/
def checksumLoop (blob : Bytes) : Nat → Nat → UInt32 → Scan UInt32
  | 0, _, hash => pure hash
  | count+1, i, hash => do
    let byte ← byteAt blob i
    checksumLoop blob count (i+1) ((hash ^^^ byte.toUInt32) * 16777619)

def fields : Scan MigrationTicket := do
  let token ← u64
  let playerId ← string
  let fromShard ← string
  let toShard ← string
  let region ← varint
  let tick ← u32
  let px ← u32
  let py ← u32
  let vx ← u32
  let vy ← u32
  let lastInputSequence ← varint
  let issuedMs ← u64
  pure { token, playerId, fromShard, toShard, region, tick
         position := ⟨UInt32.ofNat px, UInt32.ofNat py⟩
         velocity := ⟨UInt32.ofNat vx, UInt32.ofNat vy⟩
         lastInputSequence, issuedMs }

/-- The reader starts at the blob and ends before its checksum. -/
def ticket (blob : Bytes) : Scan (Option MigrationTicket) :=
  bif decide (blob.length < 5) || decide (kMigrationTicketBytes < blob.length) then pure none
  else do
    let body := blob.length - 4
    let b0 ← byteAt blob body
    let b1 ← byteAt blob (body + 1)
    let b2 ← byteAt blob (body + 2)
    let b3 ← byteAt blob (body + 3)
    let expected := b0.toNat ||| b1.toNat <<< 8 ||| b2.toNat <<< 16 ||| b3.toNat <<< 24
    let sum ← checksumLoop blob body 0 2166136261
    bif sum.toNat != expected then pure none
    else do
      let version ← varint
      bif version != kMigrationVersion then pure none
      else do
        let ticket ← fields
        let failed ← overflowed
        pure (bif failed || ticket.playerId.isEmpty then none else some ticket)

section Erasure

@[simp] theorem eval_byteAt (blob : Bytes) (i : Nat) (r : BitReader) :
    (byteAt blob i).eval r = (blob.getD i 0, r) := (rfl)

theorem eval_checksumLoop (blob : Bytes) (count i : Nat) (hash : UInt32) (r : BitReader)
    (hend : i + count ≤ blob.length) :
    (checksumLoop blob count i hash).eval r =
      (((blob.drop i).take count).foldl (fun hash b => (hash ^^^ b.toUInt32) * 16777619) hash, r) := by
  induction count generalizing i hash with
  | zero => simp [checksumLoop]
  | succ count ih =>
    have hi : i < blob.length := by omega
    rw [checksumLoop, eval_bind, eval_byteAt, ih (i+1) _ (by omega),
      List.drop_eq_getElem_cons hi, List.take_succ_cons, List.foldl_cons,
      List.getD_eq_getElem blob 0 hi]

@[simp] theorem eval_fields (r : BitReader) : fields.eval r = readTicket r := by
  simp only [fields, eval_bind, eval_u64, eval_string, eval_varint, eval_u32, eval_pure]
  rfl

theorem eval_ticket (blob : Bytes) :
    ((ticket blob).eval (BitReader.ofBytes (blob.take (blob.length - 4)))).1 =
      decodeMigrationTicket blob := by
  by_cases hsize : blob.length < 5 ∨ kMigrationTicketBytes < blob.length
  · have hcond : (decide (blob.length < 5) || decide (kMigrationTicketBytes < blob.length)) =
        true := by simpa using hsize
    simp [ticket, decodeMigrationTicket, hcond, hsize]
  · have hcond : (decide (blob.length < 5) || decide (kMigrationTicketBytes < blob.length)) =
        false := by simpa using hsize
    have hsum := fun r => eval_checksumLoop blob (blob.length - 4) 0 2166136261 r (by omega)
    simp only [List.drop_zero] at hsum
    simp only [ticket, hcond, cond_false, eval_bind, eval_byteAt, hsum, eval_cond, eval_pure,
      eval_varint, eval_fields, eval_overflowed]
    simp only [decodeMigrationTicket, if_neg hsize, checksum, littleEndian, Bool.cond_eq_ite,
      bne_iff_ne, Bool.or_eq_true, List.isEmpty_iff, List.getD_eq_getElem?_getD,
      List.getElem?_drop, Nat.add_zero]
    split
    · rfl
    · split <;> rfl

end Erasure

section Bounds

theorem within_byteAt {size : Nat} {blob : Bytes} {i : Nat} (hi : i < blob.length) :
    Within (Inside size) (· < blob.length) (byteAt blob i) fun _ => True :=
  fun _ hr => ⟨hr, fun j hj => by rw [List.mem_singleton.mp hj]; exact hi, trivial⟩

theorem within_checksumLoop {size : Nat} {blob : Bytes} (count i : Nat) (hash : UInt32)
    (hend : i + count ≤ blob.length) :
    Within (Inside size) (· < blob.length) (checksumLoop blob count i hash) fun _ => True := by
  induction count generalizing i hash with
  | zero => exact within_pure trivial
  | succ count ih =>
    exact (within_byteAt (by omega)).andThen fun byte => ih (i+1) _ (by omega)

theorem within_fields {size : Nat} (hsize : size < 2 ^ 28) :
    Within (Inside size) (· < size) fields fun _ => True := by
  unfold fields
  refine (within_u64 hsize).andThen fun token => (within_string hsize).andThen fun playerId => ?_
  refine (within_string hsize).andThen fun source => (within_string hsize).andThen fun target => ?_
  refine (within_varint hsize).andThen fun region => (within_u32 hsize).andThen fun tick => ?_
  refine (within_u32 hsize).andThen fun px => (within_u32 hsize).andThen fun py => ?_
  refine (within_u32 hsize).andThen fun vx => (within_u32 hsize).andThen fun vy => ?_
  exact (within_varint hsize).andThen fun input => (within_u64 hsize).andThen fun issued =>
    within_pure trivial

/-- A blob is read in three ways, and all of them stay inside it. -/
theorem within_ticket {blob : Bytes} (hsize : blob.length < 2 ^ 28) :
    Within (Inside (blob.length - 4)) (· < blob.length) (ticket blob) fun _ => True := by
  have hbody : blob.length - 4 < 2 ^ 28 := by omega
  have hinside : ∀ i, i < blob.length - 4 → i < blob.length := fun i hi => by omega
  unfold ticket
  refine within_cond (fun _ => within_pure trivial) fun hlong => ?_
  rw [Bool.or_eq_false_iff, decide_eq_false_iff_not] at hlong
  refine (within_byteAt (by omega)).andThen fun b0 => (within_byteAt (by omega)).andThen fun b1 => ?_
  refine (within_byteAt (by omega)).andThen fun b2 => (within_byteAt (by omega)).andThen fun b3 => ?_
  refine (within_checksumLoop _ _ _ (by omega)).andThen fun sum => ?_
  refine within_cond (fun _ => within_pure trivial) fun _ => ?_
  refine ((within_varint hbody).widen hinside).andThen fun version => ?_
  refine within_cond (fun _ => within_pure trivial) fun _ => ?_
  exact ((within_fields hbody).widen hinside).andThen fun ticket =>
    (within_overflowed.widen hinside).andThen fun failed => within_pure trivial

end Bounds
end TicketScan

/-- A decoder run on a reader of the `size` bytes: it ends with this result and has read
at indices below `size` only. -/
structure Reads {α : Type} (m : Scan α) (r : BitReader) (size : Nat) (result : α) : Prop where
  result : (m.eval r).1 = result
  inside : ∀ i ∈ m.touched r, i < size

theorem Reads.of_within {α : Type} {m : Scan α} {post : α → Prop} {data : Bytes} {result : α}
    (hdata : data.length < 2 ^ 28)
    (hm : Within (Inside data.length) (· < data.length) m post)
    (hresult : (m.eval (BitReader.ofBytes data)).1 = result) :
    Reads m (BitReader.ofBytes data) data.length result :=
  ⟨hresult, (hm _ (inside_new hdata _)).2.1⟩

/-- Whatever bytes arrive, at an endpoint with whatever past, every decoder comes to its
end inside them, and an accepted packet hands out a view inside the datagram and messages
of at most 512 bytes. -/
theorem hostile_bytes_contained {A : Type} (axis : AxisQuantizer A) (data : Bytes)
    (hdata : data.length < 2 ^ 28) (actions : List ReliableEndpoint.EndpointAction) (nowUs : Nat)
    (baseline : Option SnapshotFrame) :
    let e := Run.run ReliableEndpoint.act {} actions
    let r := BitReader.ofBytes data
    let read := e.readPacket (BitReader.view data) data.length nowUs
    Reads (PacketScan.packet e data.length nowUs) r data.length read ∧
    (∀ view messages, read.2 = some (view, messages) →
      view.offset + view.size ≤ data.length ∧
      (∀ m ∈ messages, m.payload.length ≤ 512)) ∧
    (∀ e' : ReliableEndpoint, e'.deliverInOrder.1.reorderBuffer.find?
      (fun m => m.id == e'.deliverInOrder.1.expectedMessageId) = none) ∧
    Reads (Scan.snapshot baseline) r data.length
      (decodeSnapshot (BitReader.view data) data.length baseline) ∧
    Reads Scan.peekSnapshotHeader r data.length
      (peekSnapshotHeader (BitReader.view data) data.length) ∧
    Reads (Scan.inputPacket axis) r data.length (decodeInputPacket axis data) ∧
    Reads Scan.worldConfig r data.length (decodeWorldConfig data) ∧
    Reads Scan.migrateRedirect r data.length (decodeMigrateRedirect data) ∧
    Reads Scan.credential r data.length (decodeCredential data) ∧
    Reads (TicketScan.ticket data) (BitReader.ofBytes (data.take (data.length - 4))) data.length
      (decodeMigrationTicket data) := by
  intro e r read
  have hpacket := PacketScan.within_packet hdata e nowUs
  have hread : ((PacketScan.packet e data.length nowUs).eval r).1 = read :=
    PacketScan.eval_packet e (BitReader.view data) data.length nowUs
  refine ⟨.of_within hdata hpacket hread, fun view messages hsome => ⟨?_, ?_⟩, fun e' => ?_,
    .of_within hdata (within_snapshot hdata baseline) (eval_snapshot _ _ baseline),
    .of_within hdata (within_peekSnapshotHeader hdata) (eval_peekSnapshotHeader _ _),
    .of_within hdata (within_inputPacket hdata axis) (eval_inputPacket axis data),
    .of_within hdata (within_worldConfig hdata) (eval_worldConfig data),
    .of_within hdata (within_migrateRedirect hdata) (eval_migrateRedirect data),
    .of_within hdata (within_credential hdata) (eval_credential data),
    TicketScan.eval_ticket data, ?_⟩
  · have hview := (hpacket r (inside_new hdata _)).2.2
    rw [hread] at hview
    exact hview _ hsome
  · exact (ReliableEndpoint.ready_read (ReliableEndpoint.ready_run actions) _ _ nowUs).2 _ hsome
  · exact ReliableEndpoint.deliverLoop_ends _ e' [] (Nat.le_refl _)
  · refine (TicketScan.within_ticket hdata _ ?_).2.1
    have hlen : (data.take (data.length - 4)).length = data.length - 4 := by simp
    rw [BitReader.ofBytes, hlen]
    exact inside_new (by omega) _

/-- A packet with a message and four bytes of rubbish that acknowledges the packet sent before. -/
def rubbish : Bytes := [0, 0, 0, 0, 0, 0, 0, 0, 1, 0, 0, 2, 2, 0, 9, 8, 4, 0, 255, 255, 255, 255]

/-- An endpoint with a message under way accepts it; no decoder makes anything of what it carries. -/
theorem hostile_bytes_contained_rubbish :
    let e := Run.run ReliableEndpoint.act {} [.queue 1 [1, 2, 3], .write (fun _ => 0) 200 [] 5]
    let read := e.readPacket (BitReader.view rubbish) 22 9
    (e.unacked.length = 1 ∧ read.1.unacked = [] ∧ read.2.map (fun out =>
      (out.1.offset, out.1.size, out.2.map ReliableMessage.payload)) = some (18, 4, [[9, 8]])) ∧
    Reads (PacketScan.packet e 22 9) (BitReader.ofBytes rubbish) 22 read ∧
    (∀ view messages, read.2 = some (view, messages) →
      view.offset + view.size ≤ 22 ∧ ∀ m ∈ messages, m.payload.length ≤ 512) ∧
    Reads (Scan.snapshot none) (BitReader.ofBytes rubbish) 22 none ∧
    Reads (Scan.inputPacket AxisQuantizer.centered) (BitReader.ofBytes rubbish) 22 none := by
  intro e read
  obtain ⟨hpacket, hbounds, -, hsnapshot, -, hinput, -⟩ := hostile_bytes_contained
    AxisQuantizer.centered rubbish (by decide)
    [.queue 1 [1, 2, 3], .write (fun _ => 0) 200 [] 5] 9 none
  have hframe : decodeSnapshot (BitReader.view rubbish) rubbish.length none = none := by
    decide +kernel
  have hcommands : decodeInputPacket AxisQuantizer.centered rubbish = none := by decide +kernel
  refine ⟨by decide +kernel, hpacket, hbounds, ?_, ?_⟩
  · rw [hframe] at hsnapshot
    exact hsnapshot
  · rw [hcommands] at hinput
    exact hinput

end Morton.App
