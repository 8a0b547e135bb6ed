import NanoNccl.Lib.Transfer
import NanoNccl.Socket.Delivery

/-!
# Slices on a byte stream

`send_slice` and `recv_slice` on their own, with every call of `sendmsg` and `recv` cut short or
interrupted as the system likes. The gather list of the sender stands for the rest of the frame at
any time, so any fragmentation writes the frame, and frames announce their size, so the receiver
takes them off the stream one by one.
-/

namespace NanoNccl.Socket.Framing

open ByteOrder Transfer

/-! ### Sending -/

/-- The sending end: the bytes written to the stream, and the number of the next `sendmsg`. -/
structure SendState where
  wire : List UInt8
  call : ℕ
  deriving DecidableEq, Repr

/-- The loop of `send_iov_all`, on the gather list left and the bytes written. -/
def sendLoop (header : List UInt8) (data : ℕ → UInt8) : Loop (List Iovec × List UInt8) where
  finished := fun (iovs, _) => iovs.isEmpty
  limit := fun (iovs, _) => (gather header data iovs).length
  move := fun (iovs, wire) written =>
    (advanceIov iovs written, wire ++ (gather header data iovs).take written)

/-- `send_iov_all`; its answer is the text of the exception it throws. -/
def sendIovAll (schedule : Schedule) (fuel : ℕ) (header : List UInt8) (data : ℕ → UInt8)
    (iovs : List Iovec) (state : SendState) : Option (Except String Unit × SendState) :=
  ((sendLoop header data).run schedule fuel state.call (iovs, state.wire)).map fun
    | .finished (_, wire) call => (.ok (), ⟨wire, call⟩)
    | .stalled (_, wire) call => (.error "sendmsg returned zero bytes", ⟨wire, call⟩)

/-- A payload in memory; address 0 is the null pointer. -/
structure Payload where
  data : ℕ → UInt8
  addr : ℕ
  /-- `payload_bytes` -/
  bytes : UInt32

/-- The bytes of a payload. -/
def Payload.contents (payload : Payload) : List UInt8 :=
  Memory.block payload.data payload.addr payload.bytes.toNat

/-- `send_slice` -/
def sendSlice (schedule : Schedule) (fuel : ℕ) (payload : Payload) (state : SendState) :
    Option (Except String Unit × SendState) :=
  if payload.bytes ≠ 0 ∧ payload.addr = 0 then some (.error "send_slice payload is null", state)
  else sendIovAll schedule fuel (sliceHeader payload.bytes.toNat) payload.data
    (Socket.sendSlice payload.addr payload.bytes.toNat) state

/-- Successive calls of `send_slice`. -/
def sendSlices (schedule : Schedule) (fuel : ℕ) :
    List Payload → SendState → Option (Except String Unit × SendState)
  | [], state => some (.ok (), state)
  | payload :: payloads, state =>
      match sendSlice schedule fuel payload state with
      | some (.ok (), next) => sendSlices schedule fuel payloads next
      | answer => answer

/-! ### Receiving -/

/-- The receiving end: the bytes of the stream not read, the memory of the process, and the number
of the next `recv`. -/
structure RecvState where
  stream : List UInt8
  memory : ℕ → UInt8
  call : ℕ

/-- State of the loop of `recv_all`. -/
structure RecvAll where
  stream : List UInt8
  memory : ℕ → UInt8
  cursor : ℕ
  bytes : ℕ

/-- The loop of `recv_all`. -/
def recvLoop : Loop RecvAll where
  finished := fun state => state.bytes = 0
  limit := fun state => min state.bytes state.stream.length
  move := fun state received =>
    { stream := state.stream.drop received
      memory := Memory.writeBlock state.memory state.cursor (state.stream.take received)
      cursor := state.cursor + received
      bytes := state.bytes - received }

/-- `recv_all` -/
def recvAll (schedule : Schedule) (fuel addr bytes : ℕ) (state : RecvState) :
    Option (Except String Unit × RecvState) :=
  if bytes ≠ 0 ∧ addr = 0 then some (.error "recv_all payload is null", state)
  else
    (recvLoop.run schedule fuel state.call ⟨state.stream, state.memory, addr, bytes⟩).map fun
      | .finished last call => (.ok (), ⟨last.stream, last.memory, call⟩)
      | .stalled last call => (.error "recv: peer closed", ⟨last.stream, last.memory, call⟩)

/-- Address of the header on the stack of `recv_slice`, in a memory of its own. -/
def headerAddr : ℕ := 1

/-- `recv_slice`; its answer is `payload_bytes`. -/
def recvSlice (schedule : Schedule) (fuel addr capacity : ℕ) (state : RecvState) :
    Option (Except String ℕ × RecvState) :=
  match recvAll schedule fuel headerAddr 4 ⟨state.stream, fun _ => 0, state.call⟩ with
  | none => none
  | some (.error error, next) => some (.error error, { next with memory := state.memory })
  | some (.ok (), next) =>
      let payloadBytes := ofBigEndian (Memory.block next.memory headerAddr 4)
      let state := { next with memory := state.memory }
      if payloadBytes > capacity then
        some (.error "socket slice payload exceeds capacity", state)
      else if payloadBytes ≠ 0 ∧ addr = 0 then some (.error "recv_slice payload is null", state)
      else
        (recvAll schedule fuel addr payloadBytes state).map fun (answer, last) =>
          (answer.map fun _ => payloadBytes, last)

/-- Successive calls of `recv_slice`, each with the address and the capacity of its buffer. The
payload is read from the buffer before the next call. -/
def recvSlices (schedule : Schedule) (fuel : ℕ) :
    List (ℕ × ℕ) → RecvState → Option (Except String (List (List UInt8)) × RecvState)
  | [], state => some (.ok [], state)
  | (addr, capacity) :: buffers, state =>
      match recvSlice schedule fuel addr capacity state with
      | none => none
      | some (.error error, next) => some (.error error, next)
      | some (.ok bytes, next) =>
          (recvSlices schedule fuel buffers next).map fun (answer, last) =>
            (answer.map fun payloads => Memory.block next.memory addr bytes :: payloads, last)

/-! ### One slice -/

section Send

variable {schedule : Schedule} (fair : Fair schedule)

theorem advanceIov_nonempty {iovs : List Iovec} (nonempty : ∀ iov ∈ iovs, iov.len ≠ 0) (count : ℕ) :
    ∀ iov ∈ advanceIov iovs count, iov.len ≠ 0 := by
  induction iovs generalizing count with
  | nil => exact nonempty
  | cons iov rest ih =>
      have later : ∀ iov ∈ rest, iov.len ≠ 0 := fun other member =>
        nonempty other (List.mem_cons_of_mem _ member)
      unfold advanceIov
      split
      · exact ih later _
      · rintro other member
        rcases List.mem_cons.mp member with rfl | member
        · simp only
          omega
        · exact later other member

theorem gather_ne_nil {header : List UInt8} {data : ℕ → UInt8} {iovs : List Iovec}
    (nonempty : ∀ iov ∈ iovs, iov.len ≠ 0) (unfinished : iovs.isEmpty = false) :
    (gather header data iovs).length ≠ 0 := by
  cases iovs with
  | nil => cases unfinished
  | cons iov rest =>
      have positive := nonempty iov List.mem_cons_self
      simp only [gather, List.flatMap_cons, List.length_append, Memory.length_block]
      omega

include fair

/-- `send_iov_all` writes what its gather list stands for. -/
theorem sendIovAll_returns (header : List UInt8) (data : ℕ → UInt8) {iovs : List Iovec}
    (nonempty : ∀ iov ∈ iovs, iov.len ≠ 0) (state : SendState) :
    ∃ calls next, ∀ fuel ≥ calls, sendIovAll schedule fuel header data iovs state =
      some (.ok (), ⟨state.wire ++ gather header data iovs, next⟩) := by
  let Inv := fun (left : List Iovec × List UInt8) => (∀ iov ∈ left.1, iov.len ≠ 0) ∧
    left.2 ++ gather header data left.1 = state.wire ++ gather header data iovs
  have step (left : List Iovec × List UInt8) (count : ℕ) (inv : Inv left)
      (unfinished : (sendLoop header data).finished left = false) (positive : 0 < count)
      (fits : count ≤ (sendLoop header data).limit left) :
      Inv ((sendLoop header data).move left count) ∧
        (gather header data ((sendLoop header data).move left count).1).length <
          (gather header data left.1).length := by
    refine ⟨⟨advanceIov_nonempty inv.1 count, ?_⟩, ?_⟩
    · calc
        left.2 ++ (gather header data left.1).take count ++
              gather header data (advanceIov left.1 count)
            = left.2 ++ ((gather header data left.1).take count ++
                (gather header data left.1).drop count) := by
              rw [gather_advanceIov, List.append_assoc]
        _ = state.wire ++ gather header data iovs := by rw [List.take_append_drop]; exact inv.2
    · have some_left : (gather header data left.1).length ≠ 0 := gather_ne_nil inv.1 unfinished
      simp only [sendLoop, gather_advanceIov, List.length_drop] at some_left fits ⊢
      omega
  obtain ⟨calls, ⟨left, wire⟩, next, kept, ended, runs⟩ :=
    Loop.run_finishes fair (sendLoop header data) Inv
      (fun left => (gather header data left.1).length)
      (fun left inv unfinished => gather_ne_nil inv.1 unfinished) step
      (iovs, state.wire) ⟨nonempty, rfl⟩ state.call
  refine ⟨calls, next, fun fuel enough => ?_⟩
  obtain rfl : left = [] := List.isEmpty_iff.mp ended
  have whole : wire = state.wire ++ gather header data iovs := by
    simpa [gather] using kept.2
  unfold sendIovAll
  rw [runs fuel enough, whole]
  rfl

/-- `send_slice` writes one frame. -/
theorem sendSlice_returns {payload : Payload} (nonnull : payload.bytes ≠ 0 → payload.addr ≠ 0)
    (state : SendState) :
    ∃ calls next, ∀ fuel ≥ calls, sendSlice schedule fuel payload state =
      some (.ok (), ⟨state.wire ++ frame payload.contents, next⟩) := by
  obtain ⟨calls, next, runs⟩ :=
    sendIovAll_returns fair (sliceHeader payload.bytes.toNat) payload.data
    (sendSlice_nonempty payload.addr payload.bytes.toNat) state
  refine ⟨calls, next, fun fuel enough => ?_⟩
  have valid : ¬(payload.bytes ≠ 0 ∧ payload.addr = 0) := fun null => nonnull null.1 null.2
  unfold sendSlice
  rw [if_neg valid, runs fuel enough, gather_sendSlice]
  simp [frame, Payload.contents]

/-- Successive calls of `send_slice` write all frames, in order. -/
theorem sendSlices_returns {payloads : List Payload}
    (nonnull : ∀ payload ∈ payloads, payload.bytes ≠ 0 → payload.addr ≠ 0) (state : SendState) :
    ∃ calls next, ∀ fuel ≥ calls, sendSlices schedule fuel payloads state =
      some (.ok (), ⟨state.wire ++ stream (payloads.map Payload.contents), next⟩) := by
  induction payloads generalizing state with
  | nil =>
      refine ⟨0, state.call, fun fuel _ => ?_⟩
      simp [sendSlices, stream]
  | cons payload payloads ih =>
      obtain ⟨first, next, sends⟩ :=
        sendSlice_returns fair (nonnull payload List.mem_cons_self) state
      obtain ⟨others, last, runs⟩ := ih
        (fun other member => nonnull other (List.mem_cons_of_mem _ member))
        ⟨state.wire ++ frame payload.contents, next⟩
      refine ⟨max first others, last, fun fuel enough => ?_⟩
      unfold sendSlices
      rw [sends fuel ((le_max_left _ _).trans enough)]
      simp only
      rw [runs fuel ((le_max_right _ _).trans enough), List.map_cons, stream_cons,
        List.append_assoc]

end Send

section Recv

variable {schedule : Schedule} (fair : Fair schedule)

include fair

/-- `recv_all` takes so many bytes off the stream and stores them where it is told. -/
theorem recvAll_returns (addr bytes : ℕ) (state : RecvState) (nonnull : bytes ≠ 0 → addr ≠ 0)
    (offered : bytes ≤ state.stream.length) :
    ∃ calls next, ∀ fuel ≥ calls, recvAll schedule fuel addr bytes state =
      some (.ok (), ⟨state.stream.drop bytes,
        Memory.writeBlock state.memory addr (state.stream.take bytes), next⟩) := by
  let Inv := fun (left : RecvAll) => ∃ got, got + left.bytes = bytes ∧
    left.stream = state.stream.drop got ∧ left.cursor = addr + got ∧
    left.memory = Memory.writeBlock state.memory addr (state.stream.take got)
  have open_end (left : RecvAll) (inv : Inv left) (unfinished : recvLoop.finished left = false) :
      recvLoop.limit left ≠ 0 := by
    obtain ⟨got, whole, stream, -⟩ := inv
    have some_left : left.bytes ≠ 0 := by simpa [recvLoop] using unfinished
    simp only [recvLoop, stream, List.length_drop]
    omega
  have step (left : RecvAll) (count : ℕ) (inv : Inv left)
      (unfinished : recvLoop.finished left = false) (positive : 0 < count)
      (fits : count ≤ recvLoop.limit left) :
      Inv (recvLoop.move left count) ∧ (recvLoop.move left count).bytes < left.bytes := by
    obtain ⟨got, whole, stream, cursor, memory⟩ := inv
    simp only [recvLoop, stream, List.length_drop] at fits
    refine ⟨⟨got + count, ?_, ?_, ?_, ?_⟩, ?_⟩
    · simp only [recvLoop]
      omega
    · simp only [recvLoop, stream, List.drop_drop]
    · simp only [recvLoop, cursor, Nat.add_assoc]
    · have length : (state.stream.take got).length = got := by
        rw [List.length_take]
        omega
      calc
        Memory.writeBlock left.memory left.cursor (left.stream.take count)
            = Memory.writeBlock (Memory.writeBlock state.memory addr (state.stream.take got))
                (addr + (state.stream.take got).length) ((state.stream.drop got).take count) := by
              rw [memory, cursor, stream, length]
        _ = Memory.writeBlock state.memory addr (state.stream.take (got + count)) := by
              rw [Memory.writeBlock_writeBlock, List.take_add]
    · simp only [recvLoop]
      omega
  obtain ⟨calls, last, next, ⟨got, whole, stream, -, memory⟩, ended, runs⟩ :=
    Loop.run_finishes fair recvLoop Inv RecvAll.bytes open_end step
      ⟨state.stream, state.memory, addr, bytes⟩
      ⟨0, Nat.zero_add _, rfl, rfl, by simp [Memory.writeBlock_nil]⟩ state.call
  have none_left : last.bytes = 0 := by simpa [recvLoop] using ended
  obtain rfl : got = bytes := by omega
  refine ⟨calls, next, fun fuel enough => ?_⟩
  unfold recvAll
  rw [if_neg (fun null => nonnull null.1 null.2), runs fuel enough]
  simp only [Option.map_some, stream, memory]

/-- `recv_slice` reads a header first, and stops there when it announces too much. -/
theorem recvSlice_rejects {capacity addr : ℕ} (state : RecvState)
    (offered : 4 ≤ state.stream.length)
    (announced : capacity < ofBigEndian (state.stream.take 4)) :
    ∃ calls next, ∀ fuel ≥ calls, recvSlice schedule fuel addr capacity state =
      some (.error "socket slice payload exceeds capacity",
        ⟨state.stream.drop 4, state.memory, next⟩) := by
  obtain ⟨calls, next, runs⟩ := recvAll_returns fair headerAddr 4
    ⟨state.stream, fun _ => 0, state.call⟩ (fun _ => by decide) offered
  refine ⟨calls, next, fun fuel enough => ?_⟩
  have length : (state.stream.take 4).length = 4 := by
    rw [List.length_take]
    omega
  have header := Memory.block_writeBlock (fun _ => 0) headerAddr (state.stream.take 4)
  rw [length] at header
  unfold recvSlice
  rw [runs fuel enough]
  simp only [header]
  rw [if_pos announced]

/-- `recv_slice` reads one frame. -/
theorem recvSlice_returns (capacity addr : ℕ) {payload : List UInt8} (later : List UInt8)
    (state : RecvState)
    (stream_eq : state.stream = frame payload ++ later) (short : payload.length < 2 ^ 32)
    (room : payload.length ≤ capacity) (nonnull : payload.length ≠ 0 → addr ≠ 0) :
    ∃ calls next, ∀ fuel ≥ calls, recvSlice schedule fuel addr capacity state =
      some (.ok payload.length,
        ⟨later, Memory.writeBlock state.memory addr payload, next⟩) := by
  have taken : state.stream.take 4 = sliceHeader payload.length := by
    rw [stream_eq, frame, List.append_assoc, List.take_left' (length_sliceHeader _)]
  have dropped : state.stream.drop 4 = payload ++ later := by
    rw [stream_eq, frame, List.append_assoc, List.drop_left' (length_sliceHeader _)]
  have offered : 4 ≤ state.stream.length := by
    rw [stream_eq, List.length_append, length_frame]
    omega
  obtain ⟨first, between, header⟩ := recvAll_returns fair headerAddr 4
    ⟨state.stream, fun _ => 0, state.call⟩ (fun _ => by decide) offered
  simp only [taken, dropped] at header
  obtain ⟨second, next, body⟩ := recvAll_returns fair addr payload.length
    ⟨payload ++ later, state.memory, between⟩ nonnull (by simp)
  refine ⟨max first second, next, fun fuel enough => ?_⟩
  have announced := Memory.block_writeBlock (fun _ => 0) headerAddr (sliceHeader payload.length)
  rw [length_sliceHeader] at announced
  have decoded : ofBigEndian (sliceHeader payload.length) = payload.length :=
    ofBigEndian_bigEndian short
  unfold recvSlice
  rw [header fuel ((le_max_left _ _).trans enough)]
  simp only [announced, decoded]
  rw [if_neg (Nat.not_lt.mpr room), if_neg (fun null => nonnull null.1 null.2),
    body fuel ((le_max_right _ _).trans enough)]
  simp [Except.map]

/-- Successive calls of `recv_slice` read the payloads, in order, and nothing more. -/
theorem recvSlices_returns {payloads : List (List UInt8)} {buffers : List (ℕ × ℕ)}
    (later : List UInt8) (short : ∀ payload ∈ payloads, payload.length < 2 ^ 32)
    (room : List.Forall₂ (fun payload buffer => payload.length ≤ buffer.2 ∧
      (payload.length ≠ 0 → buffer.1 ≠ 0)) payloads buffers) (memory : ℕ → UInt8) (call : ℕ) :
    ∃ calls next last, ∀ fuel ≥ calls,
      recvSlices schedule fuel buffers ⟨stream payloads ++ later, memory, call⟩ =
        some (.ok payloads, ⟨later, last, next⟩) := by
  induction room generalizing memory call with
  | nil =>
      refine ⟨0, call, memory, fun fuel _ => ?_⟩
      simp [recvSlices, stream]
  | cons fits room ih =>
      rename_i payload buffer payloads buffers
      obtain ⟨addr, capacity⟩ := buffer
      obtain ⟨first, between, reads⟩ := recvSlice_returns fair capacity addr
        (stream payloads ++ later) ⟨stream (payload :: payloads) ++ later, memory, call⟩
        (by rw [stream_cons, List.append_assoc]) (short payload List.mem_cons_self) fits.1 fits.2
      obtain ⟨others, next, last, runs⟩ := ih
        (fun other member => short other (List.mem_cons_of_mem _ member))
        (Memory.writeBlock memory addr payload) between
      refine ⟨max first others, next, last, fun fuel enough => ?_⟩
      unfold recvSlices
      rw [reads fuel ((le_max_left _ _).trans enough)]
      simp only
      rw [runs fuel ((le_max_right _ _).trans enough)]
      simp [Memory.block_writeBlock, Except.map]

end Recv

/-! ### The round trip -/

/-- Slices go through a byte stream unchanged, however `sendmsg` and `recv` cut it, as long as
neither is interrupted for ever: `send_slice` writes the frames, `recv_slice` returns the payloads
and reads nothing more. A header that announces too much is refused before the payload is
touched. -/
theorem slices_round_trip {sends recvs : Schedule} (fairSends : Fair sends) (fairRecvs : Fair recvs)
    {payloads : List Payload} {buffers : List (ℕ × ℕ)}
    (nonnull : ∀ payload ∈ payloads, payload.bytes ≠ 0 → payload.addr ≠ 0)
    (room : List.Forall₂ (fun payload buffer => payload.length ≤ buffer.2 ∧
      (payload.length ≠ 0 → buffer.1 ≠ 0)) (payloads.map Payload.contents) buffers) :
    (∃ calls next, ∀ fuel ≥ calls, sendSlices sends fuel payloads ⟨[], 0⟩ =
      some (.ok (), ⟨stream (payloads.map Payload.contents), next⟩)) ∧
    (∀ later memory, ∃ calls next last, ∀ fuel ≥ calls,
      recvSlices recvs fuel buffers ⟨stream (payloads.map Payload.contents) ++ later, memory, 0⟩ =
        some (.ok (payloads.map Payload.contents), ⟨later, last, next⟩)) ∧
    ∀ state : RecvState, ∀ addr capacity, 4 ≤ state.stream.length →
      capacity < ofBigEndian (state.stream.take 4) →
        ∃ calls next, ∀ fuel ≥ calls, recvSlice recvs fuel addr capacity state =
          some (.error "socket slice payload exceeds capacity",
            ⟨state.stream.drop 4, state.memory, next⟩) := by
  refine ⟨?_, fun later memory => ?_, fun state addr capacity offered announced => ?_⟩
  · obtain ⟨calls, next, runs⟩ := sendSlices_returns fairSends nonnull ⟨[], 0⟩
    exact ⟨calls, next, fun fuel enough => by rw [runs fuel enough, List.nil_append]⟩
  · refine recvSlices_returns fairRecvs later ?_ room memory 0
    intro payload member
    obtain ⟨source, -, rfl⟩ := List.mem_map.mp member
    rw [Payload.contents, Memory.length_block]
    exact source.bytes.toNat_lt
  · exact recvSlice_rejects fairRecvs state offered announced

/-- An empty slice and one of two bytes, one byte a call and every other call interrupted. -/
theorem slices_round_trip_two :
    ∃ calls next, ∀ fuel ≥ calls,
      sendSlices (fun call => if call % 2 = 0 then none else some 0) fuel
        [⟨fun _ => 7, 0, 0⟩, ⟨fun _ => 7, 64, 2⟩] ⟨[], 0⟩ =
      some (.ok (), ⟨[0, 0, 0, 0, 0, 0, 0, 2, 7, 7], next⟩) := by
  have fair : Fair fun call => if call % 2 = 0 then none else some 0 := by
    intro call
    refine ⟨(call + 1) % 2, ?_⟩
    dsimp only
    rw [if_neg (by omega)]
    exact Option.some_ne_none 0
  exact (@slices_round_trip _ _ fair fair [⟨fun _ => 7, 0, 0⟩, ⟨fun _ => 7, 64, 2⟩]
    [(64, 8), (64, 8)] (by simp) (by decide)).1

/-- A system that interrupts every call keeps `send_slice` busy for ever. -/
theorem sendSlice_interrupted :
    ¬∃ fuel, (sendSlice (fun _ => none) fuel ⟨fun _ => 7, 64, 2⟩ ⟨[], 0⟩).isSome = true := by
  rintro ⟨fuel, returned⟩
  have loops : (sendLoop (sliceHeader 2) fun _ => 7).run (fun _ => none) fuel 0
      (Socket.sendSlice 64 2, []) = none :=
    Loop.run_interrupted (fun _ => rfl) (by decide) fuel 0
  unfold sendSlice at returned
  rw [if_neg (by decide)] at returned
  unfold sendIovAll at returned
  rw [show (2 : UInt32).toNat = 2 from rfl, loops] at returned
  cases returned

end NanoNccl.Socket.Framing
