import VideoTransport.Feedback.Endpoint
import VideoTransport.Proofs.Feedback.ReportedBatches
import VideoTransport.Proofs.Feedback.WindowArrivals

/-!
# Size of Feedback Packets

Every packet that an endpoint gives out is within the size that it was set up
for.

The size that is set is turned into a number of statuses once, and afterwards
only that number is looked at. So there are two halves to this. The worst case
of a number of statuses is known without looking at them: encoding needs no more
chunks than vectors of seven would, and a delta takes two bytes at most. And no
message that waits in the queue has more statuses than the limit, because no
batch ever spans more numbers than that, whatever is recorded and in whatever
order.

What an endpoint does as a sender leaves its log of arrivals alone, and is part
of a run here only to say so.

## Main definitions

* `Message.Within`: A message tells a window of no more than some statuses.
* `ArrivalLog.Bounded`: The batch and all messages that wait are within the limit.
* `Endpoint.Call`, `Endpoint.step`: What can be asked of an endpoint.
* `Endpoint.polledIn`: The packets that are given out during a run.

## Theorems

* `Window.length_bytes_le`: No message is larger than what its limit was made from.
* `ArrivalLog.bounded_step`: A call keeps the log within its limit.
* `Endpoint.polled_fits`: Every packet of every run fits.
-/

namespace VideoTransport

namespace Feedback

-- A limit on statuses is what the size of packets leaves room for.
theorem statusLimit_eq (mtu limit : Nat) (h : statusLimit mtu = .ok limit) :
    limit = (mtu - 25) / 16 * 7 ∧ limit ≠ 0 := by
  rw [statusLimit] at h
  by_cases hzero : (mtu - 25) / 16 * 7 = 0
  · simp only [hzero, if_true, reduceCtorEq] at h
  · simp only [hzero, if_false, Except.ok.injEq] at h
    rw [← h]
    exact ⟨rfl, hzero⟩

-- Whatever the statuses are, each seven of them take one chunk at most.
theorem Chunk.length_encode_mul_seven (size : SymbolSize) (ss : List Status) :
    (encode size ss).length * 7 < ss.length + 7 := by
  have hencode := length_encode_mul size ss
  cases hsize : symbolSize size ss with
  | oneBit =>
      rw [hsize, SymbolSize.perVector] at hencode
      omega
  | twoBits =>
      rw [hsize, SymbolSize.perVector] at hencode
      omega

-- A message has no more statuses than it declares.
theorem Message.length_statuses_le (m : Message) : m.statuses.length ≤ m.statusCount.toNat := by
  rw [Message.statuses, Message.length_number, Chunk.decode_eq, List.length_take]
  exact Nat.min_le_left _ _

theorem Message.deltaSize_le (m : Message) : m.deltaSize ≤ 2 * m.deltas.length := by
  have hsize (d : Delta) : d.size ≤ 2 := by
    cases d with
    | small u => exact Nat.le_succ 1
    | large u => exact Nat.le_refl 2
  rw [Message.deltaSize]
  induction m.deltas with
  | nil => exact Nat.zero_le _
  | cons d rest ih =>
      have hd := hsize d
      rw [List.foldr_cons, List.length_cons]
      omega

namespace Window

variable (w : Window) (sender media : Ssrc) (count : UInt8)

-- A window has no more deltas than statuses.
theorem length_deltas_le : w.deltas.length ≤ w.statuses.length := by
  have hfilter := congrArg List.length w.filter_statuses
  rw [List.length_map] at hfilter
  rw [← hfilter]
  exact List.length_filter_le _ _

-- The bytes that have no fixed length, in the worst case.
theorem variableSize_le :
    (w.message sender media count).variableSize
      ≤ 2 * (Chunk.encode .oneBit w.statuses).length + 2 * w.statuses.length := by
  have hdeltas := (w.message sender media count).deltaSize_le
  have hlen := w.length_deltas_le
  have hmessage : (w.message sender media count).deltas = w.deltas := rfl
  have hchunks : (w.message sender media count).chunks = Chunk.encode .oneBit w.statuses := rfl
  rw [Message.variableSize, hchunks]
  rw [hmessage] at hdeltas
  omega

/-- A message with no more statuses than the limit is no larger than the packet
    size that the limit was made from. -/
theorem length_bytes_le (mtu limit : Nat) (hlimit : statusLimit mtu = .ok limit)
    (h : w.statuses.length ≤ limit) : (w.message sender media count).bytes.length ≤ mtu := by
  have hsize := w.variableSize_le sender media count
  have hchunks := Chunk.length_encode_mul_seven .oneBit w.statuses
  rcases statusLimit_eq mtu limit hlimit with ⟨heq, hpos⟩
  rw [Message.length_bytes, Message.wordCount]
  omega

-- No window has so many statuses that the length of its message does not fit in
-- the header.
theorem wordCount_le (h : w.statuses.length ≤ 65536) :
    (w.message sender media count).wordCount ≤ 65536 := by
  have hsize := w.variableSize_le sender media count
  have hchunks := Chunk.length_encode_mul_seven .oneBit w.statuses
  rw [Message.wordCount]
  omega

end Window

/-- A message tells a window of no more than some number of statuses. The whole
    circle of sequence numbers has room for them. -/
def Message.Within (limit : Nat) (m : Message) : Prop :=
  ∃ w : Window, w.statuses.length ≤ limit ∧ w.statuses.length ≤ 65536
    ∧ ∃ sender media count, m = w.message sender media count

-- A message within a limit has no more statuses than that, however they are
-- counted.
theorem Message.Within.statuses_le {limit : Nat} {m : Message} (h : m.Within limit) :
    m.statuses.length ≤ limit ∧ ∃ statuses : List Status, statuses.length ≤ limit
      ∧ m.statusCount = UInt16.ofNat statuses.length
      ∧ m.chunks = Chunk.encode .oneBit statuses := by
  rcases h with ⟨w, hlen, _, sender, media, count, rfl⟩
  have hcount : (w.message sender media count).statusCount.toNat ≤ w.statuses.length := by
    rw [Window.message, UInt16.toNat_ofNat']
    exact Nat.mod_le _ _
  exact ⟨(Message.length_statuses_le _).trans (hcount.trans hlen), w.statuses, hlen, rfl, rfl⟩

-- A message within a limit is no larger than the packet size that the limit was
-- made from, and its header tells its length.
theorem Message.Within.bytes_fit {mtu limit : Nat} {m : Message} (h : m.Within limit)
    (hlimit : statusLimit mtu = .ok limit) :
    m.bytes.length ≤ mtu ∧ m.bytes.length = 4 * (m.header.lengthField.toNat + 1) := by
  rcases h with ⟨w, hlen, hcircle, sender, media, count, rfl⟩
  refine ⟨w.length_bytes_le sender media count mtu limit hlimit hlen, ?_⟩
  rw [← Message.byteCount_header _ (w.wordCount_le sender media count hcircle),
    Rtcp.Header.byteCount, Nat.mul_comm]
  rfl

-- What is reported of a batch within a limit is within that limit.
theorem Reported.Sound.within {P : Arrival → Prop} {limit : Nat} {t : Reported}
    (h : t.Sound P limit) : t.message.Within limit := by
  rcases h.window with ⟨w, hw, hmessage⟩
  have hlen := Window.length_statuses_le t.batch w hw
  exact ⟨w, hlen.trans h.span_le, hlen.trans (Feedback.span_le _), hmessage⟩

namespace ArrivalLog

/-- The batch of a log and all messages that wait are within its limit. -/
structure Bounded (limit : Nat) (log : ArrivalLog) : Prop where
  holds : log.Holds (fun _ => True) limit
  ready : ∀ m ∈ log.ready, m.Within limit

-- A new log has a limit of one status at least, and nothing is beyond it yet.
theorem bounded_start (mtu : Nat) (sender : Ssrc) (log : ArrivalLog)
    (h : start mtu sender = .ok log) :
    ∃ limit, statusLimit mtu = .ok limit ∧ 1 ≤ limit ∧ log.Bounded limit := by
  rcases holds_start (P := fun _ => True) mtu sender log h with ⟨limit, hlimit, hholds, hready⟩
  refine ⟨limit, hlimit, Nat.one_le_iff_ne_zero.2 (statusLimit_eq mtu limit hlimit).2, hholds, ?_⟩
  intro m hm
  rw [hready] at hm
  exact absurd hm List.not_mem_nil

/-- A call keeps a log within its limit. What it leaves in the queue was there
    before, and what it adds is reported by it. -/
theorem bounded_step (limit : Nat) (log : ArrivalLog) (c : Call) (h : log.Bounded limit)
    (hlimit : 1 ≤ limit) : (log.step c).Bounded limit := by
  have hc : c.Records fun _ => True := by
    cases c <;> exact trivial
  refine ⟨log.holds_step c h.holds hlimit hc, ?_⟩
  intro m hm
  rw [ready_step] at hm
  rcases List.mem_append.1 hm with hm | hm
  · have hold : m ∈ log.ready := by
      cases c with
      | record r ssrc marker => exact hm
      | report => exact hm
      | poll => exact List.mem_of_mem_tail hm
      | reset => exact absurd hm List.not_mem_nil
    exact h.ready m hold
  · rcases List.mem_map.1 hm with ⟨t, ht, rfl⟩
    exact (log.reportedBy_of_holds c h.holds hlimit hc t ht).within

end ArrivalLog

namespace Endpoint

/-- What can be asked of an endpoint. -/
inductive Call where
  | record (r : Arrival) (ssrc : Ssrc) (marker : Bool)
  | report
  | poll
  | send (sentAt : Duration) (size : Nat)
  | sendAs (seq : SeqNum) (sentAt : Duration) (size : Nat)
  | attach (seq : SeqNum) (time : Duration)
  | readControlInfo (info : List UInt8)
  | readPacket (packet : List UInt8)
  | reset

/-- One call. Feedback that cannot be read changes nothing. -/
def step (e : Endpoint) : Call → Endpoint
  | .record r ssrc marker => e.record r ssrc marker
  | .report => e.report
  | .poll => e.poll.2
  | .send sentAt size => (e.send sentAt size).2
  | .sendAs seq sentAt size => e.sendAs seq sentAt size
  | .attach seq time => (e.attach seq time).2
  | .readControlInfo info =>
    match e.readControlInfo info with
    | .ok (_, e) => e
    | .error _ => e
  | .readPacket packet =>
    match e.readPacket packet with
    | .ok (_, e) => e
    | .error _ => e
  | .reset => e.reset

/-- The packet that a call gives out, if there is one. -/
def polledBy (e : Endpoint) : Call → Option (List UInt8)
  | .poll => e.poll.1
  | _ => none

/-- The packets that are given out during a run of calls. -/
def polledIn (e : Endpoint) : List Call → List (List UInt8)
  | [] => []
  | c :: rest => (e.polledBy c).toList ++ (e.step c).polledIn rest

theorem arrivals_start (s : Settings) (e : Endpoint) (h : start s = .ok e) :
    ∃ log, ArrivalLog.start s.mtu s.sender = .ok log ∧ e.arrivals = log := by
  rw [start] at h
  cases hlog : ArrivalLog.start s.mtu s.sender with
  | error err =>
      rw [hlog] at h
      cases h
  | ok log =>
      rw [hlog] at h
      cases h
      exact ⟨log, rfl, rfl⟩

-- Reading feedback leaves the log of arrivals alone.
theorem arrivals_of_readControlInfo (e e' : Endpoint) (info : List UInt8) (report : Report)
    (h : e.readControlInfo info = .ok (report, e')) : e'.arrivals = e.arrivals := by
  rw [readControlInfo] at h
  cases hread : e.reader.read e.history info with
  | error err =>
      rw [hread] at h
      cases h
  | ok result =>
      rw [hread] at h
      cases h
      rfl

theorem arrivals_of_readPacket (e e' : Endpoint) (packet : List UInt8) (report : Report)
    (h : e.readPacket packet = .ok (report, e')) : e'.arrivals = e.arrivals := by
  rw [readPacket] at h
  cases hinfo : controlInfo packet with
  | error err =>
      rw [hinfo] at h
      cases h
  | ok info =>
      rw [hinfo] at h
      exact e.arrivals_of_readControlInfo e' info report h

-- A call is one call of the log of arrivals, or leaves it alone.
theorem arrivals_step (e : Endpoint) (c : Call) :
    (e.step c).arrivals = e.arrivals ∨ ∃ d, (e.step c).arrivals = e.arrivals.step d := by
  cases c with
  | record r ssrc marker => exact Or.inr ⟨.record r ssrc marker, rfl⟩
  | report => exact Or.inr ⟨.report, rfl⟩
  | poll => exact Or.inr ⟨.poll, rfl⟩
  | send sentAt size => exact Or.inl rfl
  | sendAs seq sentAt size => exact Or.inl rfl
  | attach seq time => exact Or.inl rfl
  | readControlInfo info =>
      apply Or.inl
      rw [step]
      cases h : e.readControlInfo info with
      | error err => rfl
      | ok result => exact e.arrivals_of_readControlInfo result.2 info result.1 h
  | readPacket packet =>
      apply Or.inl
      rw [step]
      cases h : e.readPacket packet with
      | error err => rfl
      | ok result => exact e.arrivals_of_readPacket result.2 packet result.1 h
  | reset => exact Or.inr ⟨.reset, rfl⟩

/-- A call keeps the log of arrivals within its limit. -/
theorem bounded_step (limit : Nat) (e : Endpoint) (c : Call) (h : e.arrivals.Bounded limit)
    (hlimit : 1 ≤ limit) : (e.step c).arrivals.Bounded limit := by
  rcases e.arrivals_step c with hsame | ⟨d, hd⟩
  · rw [hsame]
    exact h
  · rw [hd]
    exact e.arrivals.bounded_step limit d h hlimit

-- What is given out has been in the queue.
theorem mem_polledBy (e : Endpoint) (c : Call) (packet : List UInt8)
    (h : packet ∈ (e.polledBy c).toList) : ∃ m ∈ e.arrivals.ready, packet = m.bytes := by
  rw [Option.mem_toList] at h
  cases c with
  | poll =>
      rcases Option.map_eq_some_iff.1 h with ⟨m, hm, hbytes⟩
      exact ⟨m, List.mem_of_mem_head? hm, hbytes.symm⟩
  | _ => exact absurd h (by simp only [polledBy, reduceCtorEq, not_false_eq_true])

-- Every packet that is given out during a run is that of a message within the
-- limit.
theorem mem_polledIn (limit : Nat) (e : Endpoint) (calls : List Call) (packet : List UInt8)
    (h : e.arrivals.Bounded limit) (hlimit : 1 ≤ limit) (hpacket : packet ∈ e.polledIn calls) :
    ∃ m : Message, m.Within limit ∧ packet = m.bytes := by
  induction calls generalizing e with
  | nil => exact absurd hpacket List.not_mem_nil
  | cons c rest ih =>
      rcases List.mem_append.1 hpacket with hnow | hlater
      · rcases e.mem_polledBy c packet hnow with ⟨m, hm, hbytes⟩
        exact ⟨m, h.ready m hm, hbytes⟩
      · exact ih (e.step c) (e.bounded_step limit c h hlimit) hlater

/-- Every packet that an endpoint gives out is no larger than it was set up for,
    has the length that its header tells, and encodes no more statuses than the
    limit. -/
theorem polled_fits (s : Settings) (e : Endpoint) (hstart : start s = .ok e) (calls : List Call)
    (packet : List UInt8) (hpacket : packet ∈ e.polledIn calls) :
    packet.length ≤ s.mtu ∧ packet.length % 4 = 0
      ∧ (∃ header, Rtcp.Header.parse packet = .ok header
        ∧ packet.length = 4 * (header.lengthField.toNat + 1))
      ∧ ∃ limit, statusLimit s.mtu = .ok limit ∧ ∃ m : Message, packet = m.bytes
        ∧ m.statuses.length ≤ limit ∧ ∃ statuses : List Status, statuses.length ≤ limit
          ∧ m.statusCount = UInt16.ofNat statuses.length
          ∧ m.chunks = Chunk.encode .oneBit statuses := by
  rcases arrivals_start s e hstart with ⟨log, hlog, harrivals⟩
  rcases ArrivalLog.bounded_start s.mtu s.sender log hlog with ⟨limit, hlimit, hpos, hbounded⟩
  rw [← harrivals] at hbounded
  rcases mem_polledIn limit e calls packet hbounded hpos hpacket with ⟨m, hm, rfl⟩
  rcases hm.bytes_fit hlimit with ⟨hsize, hlength⟩
  rcases hm.statuses_le with ⟨hdeclared, statuses, hencoded⟩
  have hheader := m.parse_header []
  rw [List.append_nil] at hheader
  refine ⟨hsize, ?_, ⟨m.header, hheader, hlength⟩, limit, hlimit, m, rfl, hdeclared, statuses,
    hencoded⟩
  rw [hlength]
  exact Nat.mul_mod_right 4 _

-- Packets of 41 bytes leave room for seven statuses. Two arrivals around the
-- end of the circle, with one number lost between them, take 24 bytes.
theorem polled_fits_lost_number :
    ∃ e packet, start ⟨41, ⟨1⟩, 4096⟩ = .ok e
      ∧ packet ∈ e.polledIn [.record ⟨65535, ⟨64001000⟩⟩ ⟨2⟩ false,
        .record ⟨1, ⟨64601000⟩⟩ ⟨2⟩ true, .poll]
      ∧ packet.length = 24 ∧ packet.length ≤ 41 := by
  have hsorted : inOrder [⟨65535, ⟨64001000⟩⟩, ⟨1, ⟨64601000⟩⟩]
      = [⟨65535, ⟨64001000⟩⟩, ⟨1, ⟨64601000⟩⟩] := inOrder_of_pairwise _ _ (by decide)
  have hpolled : polledIn
      { settings := ⟨41, ⟨1⟩, 4096⟩, arrivals := { limit := 7, sender := ⟨1⟩ },
        history := .start 4096 }
      [.record ⟨65535, ⟨64001000⟩⟩ ⟨2⟩ false, .record ⟨1, ⟨64601000⟩⟩ ⟨2⟩ true, .poll]
      = [[143, 205, 0, 5, 0, 0, 0, 1, 0, 0, 0, 2, 255, 255, 0, 3, 0, 0, 1, 0, 168, 0, 0, 2]] := by
    -- The sorting is not computed, so it has to be in sight before it is replaced.
    change (((windows (inOrder [⟨65535, ⟨64001000⟩⟩, ⟨1, ⟨64601000⟩⟩])).foldl ArrivalLog.addWindow
      { limit := 7, sender := ⟨1⟩, media := some ⟨2⟩, latest := some 1 }).ready.head?.map
      Message.bytes).toList ++ [] = _
    rw [hsorted]
    rfl
  have hpacket := List.mem_of_mem_head? (congrArg List.head? hpolled)
  exact ⟨_, _, rfl, hpacket, rfl, (polled_fits ⟨41, ⟨1⟩, 4096⟩ _ rfl _ _ hpacket).1⟩

end Endpoint

end Feedback

end VideoTransport
