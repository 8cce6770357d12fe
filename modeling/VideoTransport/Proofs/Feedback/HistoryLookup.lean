import Mathlib.Data.List.Chain
import Mathlib.Data.List.Forall2
import VideoTransport.Proofs.Feedback.LostPackets

/-!
# Looking Packets Up

What the history of sent packets finds under a number.

A number is looked up by counting from the oldest packet, modulo the whole
circle. That finds the right packet if the numbers that are kept are in a row,
and if there are no more of them than the circle has. Both hold as long as
packets are recorded under the next number, however often the circle is gone
round, and also with a history that keeps all of the circle. A history that is
empty may go on with any number.

So the packets that are kept are known from what was sent, without looking at
the history: they are the last ones since the reset. `Keeps` says this, and
every call preserves it.

If packets are recorded under other numbers, some of them are not found. But
still no packet is taken for another one, since the number of what is found is
compared.

## Main definitions

* `Sending`: What is settled about a packet when it is sent.
* `SendHistory.sentIn`: What has been sent since the last reset.
* `SendHistory.RecordsInOrder`: Packets are recorded under the next number.
* `SendHistory.Keeps`: What is kept is the end of what was sent.
* `SendHistory.FindsAll`: Each packet that is kept is found, and no other one.
* `SendHistory.FindsNoOther`: What is found or changed has the number looked for.

## Theorems

* `SendHistory.keeps_step`, `SendHistory.keeps_run`: Calls preserve what is kept.
* `SendHistory.indexOf?_eq_some_iff`: Without gaps, the place of each number.
* `SendHistory.findsAll_of_keeps`: What is kept is found.
* `SendHistory.findsNoOther`: No packet is taken for another one, with gaps or without.
* `SendHistory.lookup_of_run`: What is found in any run.
-/

namespace VideoTransport

namespace Feedback

/-- What is settled about a packet when it is sent. -/
structure Sending where
  seq : SeqNum
  sentAt : Duration
  size : Nat
deriving DecidableEq

namespace SentPacket

/-- What was settled when the packet was sent. -/
def sending (p : SentPacket) : Sending :=
  ⟨p.seq, p.sentAt, p.size⟩

theorem sending_apply (status : Status) (arrival : Option Duration) (p : SentPacket) :
    (p.apply status arrival).sending = p.sending := by
  rw [apply]
  split
  · rfl
  · split
    · rfl
    · rfl

end SentPacket

-- The entries of a report are joined with the packets that are kept after it.
theorem ReportReader.packets_of_read (r r' : ReportReader) (h h' : SendHistory)
    (info : List UInt8) (report : Report) (hread : r.read h info = .ok (report, r', h')) :
    report.packets = report.receptions.map h'.join := by
  unfold read at hread
  split at hread
  · cases hread
    rw [Report.receptions, SendHistory.map_toReception_join]
  · cases hread

namespace SendHistory

/-- What has been sent since the last reset when a call is done, if `sent` is what
    had been sent before it. -/
def Call.sentAfter (h : SendHistory) (sent : List Sending) : Call → List Sending
  | .send sentAt size => sent ++ [⟨h.nextSeq, sentAt, size⟩]
  | .record seq sentAt size => sent ++ [⟨seq, sentAt, size⟩]
  | .attach _ _ | .read _ _ => sent
  | .reset => []

/-- What has been sent since the last reset when some calls are done. -/
def sentIn (h : SendHistory) (sent : List Sending) : List Call → List Sending
  | [] => sent
  | c :: rest => sentIn (h.step c) (c.sentAfter h sent) rest

/-- A packet is recorded under the next number, or no packet is kept. -/
def Call.InOrder (h : SendHistory) : Call → Prop
  | .record seq _ _ => seq = h.nextSeq ∨ h.size = 0
  | .send _ _ | .attach _ _ | .read _ _ | .reset => True

/-- Each packet that some calls record is recorded so. -/
def RecordsInOrder (h : SendHistory) : List Call → Prop
  | [] => True
  | c :: rest => c.InOrder h ∧ RecordsInOrder (h.step c) rest

/-- A history keeps the end of what was sent. The numbers there follow on each
    other, and the next number follows on the last one. -/
structure Keeps (keep : Nat) (sent : List Sending) (h : SendHistory) : Prop where
  capacity_eq : h.capacity = keep
  kept : h.toList.map (·.sending) = sent.drop (sent.length - keep)
  follows : (h.toList.map (·.seq)).IsChain fun q next => next = q.next
  nextSeq_eq : ∀ q ∈ (h.toList.map (·.seq)).getLast?, h.nextSeq = q.next

-- The numbers of the packets are settled when they are sent.
theorem map_seq_eq (h : SendHistory) :
    h.toList.map (·.seq) = (h.toList.map (·.sending)).map (·.seq) := by
  rw [List.map_map]
  rfl

theorem size_of_keeps (keep : Nat) (sent : List Sending) (h : SendHistory)
    (hk : Keeps keep sent h) : h.size = min keep sent.length := by
  have hlength := congrArg List.length hk.kept
  rw [List.length_map, List.length_drop, show h.toList.length = h.size from
    h.packets.length_toList] at hlength
  omega

/-- A new packet is the last one that was sent, and the ones before it move up. -/
theorem keeps_record (keep : Nat) (sent : List Sending) (h : SendHistory) (hk : Keeps keep sent h)
    (q : SeqNum) (sentAt : Duration) (size : Nat) (hq : q = h.nextSeq ∨ h.size = 0) :
    Keeps keep (sent ++ [⟨q, sentAt, size⟩]) (h.record q sentAt size) := by
  have hsize : h.toList.length = h.size := h.packets.length_toList
  have hlength := size_of_keeps keep sent h hk
  have hlist := h.toList_record q sentAt size
  rw [hsize, hk.capacity_eq] at hlist
  have hseqs : (h.record q sentAt size).toList.map (·.seq)
      = (h.toList.map (·.seq) ++ [q]).drop (h.size + 1 - keep) := by
    rw [hlist, List.map_drop, List.map_append, List.map_singleton]
  refine ⟨hk.capacity_eq, ?_, ?_, ?_⟩
  · rw [hlist, List.map_drop, List.map_append, List.map_singleton, hk.kept,
      ← List.drop_append_of_le_length (Nat.sub_le _ _), List.drop_drop, List.length_append,
      List.length_singleton]
    congr 1
    omega
  · rw [hseqs]
    refine List.IsChain.drop (List.isChain_append.2 ⟨hk.follows, .singleton q, ?_⟩) _
    intro last hlast first hfirst
    rw [List.head?_singleton, Option.mem_some_iff] at hfirst
    rcases hq with hnext | hempty
    · rw [← hfirst, hnext, hk.nextSeq_eq last hlast]
    · -- Nothing is kept, so there is no number to follow on.
      have hnil : h.toList = [] := List.eq_nil_of_length_eq_zero (hsize.trans hempty)
      rw [hnil] at hlast
      cases hlast
  · intro last hlast
    rw [hseqs, List.getLast?_drop] at hlast
    split at hlast
    · cases hlast
    · rw [List.getLast?_concat, Option.mem_some_iff] at hlast
      rw [← hlast]
      rfl

-- A call that changes neither what was sent nor the next number keeps the same.
theorem keeps_of_sendings (keep : Nat) (sent : List Sending) (h h' : SendHistory)
    (hk : Keeps keep sent h) (hframe : SameFrame h h')
    (hsendings : h'.toList.map (·.sending) = h.toList.map (·.sending)) : Keeps keep sent h' := by
  have hseqs : h'.toList.map (·.seq) = h.toList.map (·.seq) := by
    rw [map_seq_eq, hsendings, ← map_seq_eq]
  refine ⟨hframe.capacity.trans hk.capacity_eq, hsendings.trans hk.kept, ?_, ?_⟩
  · rw [hseqs]
    exact hk.follows
  · rw [hseqs, hframe.nextSeq]
    exact hk.nextSeq_eq

/-- Each call preserves that the end of what was sent is kept. -/
theorem keeps_step (keep : Nat) (sent : List Sending) (h : SendHistory) (c : Call)
    (hk : Keeps keep sent h) (hc : c.InOrder h) : Keeps keep (c.sentAfter h sent) (h.step c) := by
  cases c with
  | send sentAt size => exact keeps_record keep sent h hk h.nextSeq sentAt size (Or.inl rfl)
  | record q sentAt size => exact keeps_record keep sent h hk q sentAt size hc
  | attach q time =>
      exact keeps_of_sendings keep sent h _ hk (h.sameFrame_modify q _)
        (map_modify (·.sending) h q _ fun _ => rfl)
  | read r info =>
      rw [step_read]
      exact keeps_of_sendings keep sent h _ hk (h.sameFrame_applyAll _)
        (map_applyAll (·.sending) SentPacket.sending_apply h _)
  | reset => exact ⟨hk.capacity_eq, List.drop_nil.symm, .nil, fun q hq => by cases hq⟩

/-- So does a list of calls. -/
theorem keeps_run (keep : Nat) (sent : List Sending) (h : SendHistory) (calls : List Call)
    (hk : Keeps keep sent h) (hcalls : h.RecordsInOrder calls) :
    Keeps keep (sentIn h sent calls) (h.run calls) := by
  induction calls generalizing h sent with
  | nil => exact hk
  | cons c rest ih => exact ih _ (h.step c) (keeps_step keep sent h c hk hcalls.1) hcalls.2

theorem keeps_start (keep : Nat) : Keeps keep [] (start keep) :=
  ⟨rfl, List.drop_nil.symm, .nil, fun q hq => by cases hq⟩

/-- If the numbers are in a row, each place is that of one number. -/
theorem indexOf?_eq_some_iff (h : SendHistory) (hrow : h.InARow) (i : Nat) (p : SentPacket)
    (hp : h.toList[i]? = some p) (q : SeqNum) : h.indexOf? q = some i ↔ p.seq = q := by
  constructor
  · intro hi
    rcases h.exists_of_indexOf? q i hi with ⟨p', hp', hseq⟩
    rw [hp, Option.some.injEq] at hp'
    rw [hp', hseq]
  · rintro rfl
    exact h.indexOf?_of_inARow hrow i p hp

-- What is found is one of the packets that are kept.
theorem mem_of_get? (h : SendHistory) (q : SeqNum) (p : SentPacket) (hp : h.get? q = some p) :
    p ∈ h.toList ∧ p.seq = q := by
  refine ⟨?_, seq_get? hp⟩
  rw [get?, Option.bind_eq_some_iff] at hp
  rcases hp with ⟨i, _, hi⟩
  rw [SlidingBuffer.get?_eq] at hi
  exact List.mem_of_getElem? hi

theorem get?_eq_some_iff (h : SendHistory) (hrow : h.InARow) (q : SeqNum) (p : SentPacket) :
    h.get? q = some p ↔ p ∈ h.toList ∧ p.seq = q := by
  constructor
  · exact h.mem_of_get? q p
  · rintro ⟨hp, rfl⟩
    rcases List.mem_iff_getElem?.1 hp with ⟨i, hi⟩
    rw [get?, h.indexOf?_of_inARow hrow i p hi, Option.bind_some, SlidingBuffer.get?_eq]
    exact hi

-- Two packets with one number would be at the same place.
theorem nodup_of_inARow (h : SendHistory) (hrow : h.InARow) : (h.toList.map (·.seq)).Nodup := by
  rw [List.nodup_iff_getElem?_ne_getElem?]
  intro i j hij hj hsame
  rw [List.length_map] at hj
  have hpi := List.getElem?_eq_getElem (Nat.lt_trans hij hj)
  have hpj := List.getElem?_eq_getElem hj
  rw [List.getElem?_map, List.getElem?_map, hpi, hpj, Option.map_some, Option.map_some,
    Option.some.injEq] at hsame
  have hi := h.indexOf?_of_inARow hrow i _ hpi
  rw [hsame, h.indexOf?_of_inARow hrow j _ hpj, Option.some.injEq] at hi
  omega

theorem attach_fst_iff (h : SendHistory) (q : SeqNum) (time : Duration) :
    (h.attach q time).1 = true ↔ ∃ p, h.get? q = some p := by
  rw [attach, Option.isSome_iff_exists]
  constructor
  · rintro ⟨i, hi⟩
    rcases h.exists_of_indexOf? q i hi with ⟨p, hp, _⟩
    refine ⟨p, ?_⟩
    rw [get?, hi, Option.bind_some, SlidingBuffer.get?_eq]
    exact hp
  · rintro ⟨p, hp⟩
    rcases Option.bind_eq_some_iff.1 hp with ⟨i, hi, _⟩
    exact ⟨i, hi⟩

theorem toList_attach (h : SendHistory) (hrow : h.InARow) (q : SeqNum) (time : Duration) :
    (h.attach q time).2.toList
      = h.toList.map fun p => if p.seq = q then p.setSocketTime (some time) else p := by
  apply List.ext_getElem?
  intro i
  rw [attach, getElem?_modify, List.getElem?_map]
  apply Option.map_congr
  intro p hp
  simp only [h.indexOf?_eq_some_iff hrow i p hp q]
  rfl

/-- Each packet that is kept is found under its number, and no other one is.

    What is kept is the end of what was sent, in order, with numbers that follow
    on each other and of which none comes twice. The next number follows on the
    last one. A number is found if a packet that is kept has it, and then it is
    this one. A time of the socket is noted for this packet alone. -/
structure FindsAll (keep : Nat) (sent : List Sending) (h : SendHistory) : Prop where
  kept : h.toList.map (·.sending) = sent.drop (sent.length - keep)
  size_eq : h.size = min keep sent.length
  follows : (h.toList.map (·.seq)).IsChain fun q next => next = q.next
  nodup : (h.toList.map (·.seq)).Nodup
  nextSeq_eq : ∀ q ∈ (h.toList.map (·.seq)).getLast?, h.nextSeq = q.next
  found : ∀ q p, h.get? q = some p ↔ p ∈ h.toList ∧ p.seq = q
  attached : ∀ q time, (h.attach q time).1 = true ↔ ∃ p ∈ h.toList, p.seq = q
  afterAttach : ∀ q time, SameFrame h (h.attach q time).2 ∧ (h.attach q time).2.toList
    = h.toList.map fun p => if p.seq = q then p.setSocketTime (some time) else p

theorem findsAll_of_keeps (keep : Nat) (sent : List Sending) (h : SendHistory)
    (hk : Keeps keep sent h) (hkeep : keep ≤ 65536) : h.FindsAll keep sent := by
  have hsize := size_of_keeps keep sent h hk
  have hrow : h.InARow := ⟨by omega, hk.follows⟩
  refine ⟨hk.kept, hsize, hk.follows, h.nodup_of_inARow hrow, hk.nextSeq_eq,
    h.get?_eq_some_iff hrow, fun q time => ?_,
    fun q time => ⟨h.sameFrame_modify q _, h.toList_attach hrow q time⟩⟩
  rw [attach_fst_iff]
  simp only [h.get?_eq_some_iff hrow]

/-- No packet is taken for another one, whatever numbers they were recorded under.

    What is found has the number that was looked for. A packet with another number
    keeps what is known of it, when a time of the socket is noted and when feedback
    says something of a number. And each entry of a report has the data of a packet
    with its own number, or none. -/
structure FindsNoOther (h : SendHistory) : Prop where
  found : ∀ q p, h.get? q = some p → p ∈ h.toList ∧ p.seq = q
  attached : ∀ q time, List.Forall₂
    (fun p p' => p' = p ∨ p.seq = q ∧ p' = p.setSocketTime (some time))
    h.toList (h.attach q time).2.toList
  applied : ∀ q status arrival, List.Forall₂
    (fun p p' => p' = p ∨ p.seq = q ∧ p' = p.apply status arrival)
    h.toList (h.apply q status arrival).toList
  read : ∀ r info report r' h', ReportReader.read r h info = .ok (report, r', h') →
    List.Forall₂ (fun p p' => p' = p ∨ p' = p.applyAll (report.receptions.filter (·.seq = p.seq)))
        h.toList h'.toList
      ∧ ∀ e ∈ report.packets, (e.sentAt = none ∧ e.socketTime = none ∧ e.size = none)
        ∨ ∃ p ∈ h'.toList, p.seq = e.seq ∧ e.sentAt = some p.sentAt
          ∧ e.socketTime = p.socketTime ∧ e.size = some p.size

-- Two lists in which what is at a place goes over to what is there in the other.
theorem forall₂_of_places {α : Type} (R : α → α → Prop) (f : Nat → α → α) (l l' : List α)
    (hplaces : ∀ i, l'[i]? = l[i]?.map (f i)) (hR : ∀ i a, l[i]? = some a → R a (f i a)) :
    List.Forall₂ R l l' := by
  induction l generalizing l' f with
  | nil =>
      have hnone := hplaces 0
      rw [List.getElem?_nil, Option.map_none, ← List.head?_eq_getElem?, List.head?_eq_none_iff]
        at hnone
      rw [hnone]
      exact .nil
  | cons a rest ih =>
      have hhead := hplaces 0
      cases l' with
      | nil => cases hhead
      | cons a' rest' =>
          rw [List.getElem?_cons_zero, List.getElem?_cons_zero, Option.map_some,
            Option.some.injEq] at hhead
          rw [hhead]
          exact .cons (hR 0 a rfl)
            (ih (fun i => f (i + 1)) rest' (fun i => hplaces (i + 1)) fun i => hR (i + 1))

-- A change of the packet of a number is one of a packet that has it.
theorem forall₂_modify (h : SendHistory) (q : SeqNum) (f : SentPacket → SentPacket) :
    List.Forall₂ (fun p p' => p' = p ∨ p.seq = q ∧ p' = f p) h.toList (h.modify q f).toList := by
  refine forall₂_of_places _ _ _ _ (h.getElem?_modify q f) fun i p hp => ?_
  by_cases hi : h.indexOf? q = some i
  · rcases h.exists_of_indexOf? q i hi with ⟨p', hp', hseq⟩
    rw [hp, Option.some.injEq] at hp'
    rw [if_pos hi]
    exact Or.inr ⟨hp' ▸ hseq, rfl⟩
  · rw [if_neg hi]
    exact Or.inl rfl

theorem forall₂_applyAll (h : SendHistory) (rs : List Reception) :
    List.Forall₂ (fun p p' => p' = p ∨ p' = p.applyAll (rs.filter (·.seq = p.seq)))
      h.toList (h.applyAll rs).toList := by
  refine forall₂_of_places _ _ _ _ (h.getElem?_applyAll rs) fun i p _ => ?_
  split
  · exact Or.inr rfl
  · exact Or.inl rfl

-- What an entry of a report has besides what is said is that of a packet with its
-- number.
theorem data_join (h : SendHistory) (r : Reception) :
    ((h.join r).sentAt = none ∧ (h.join r).socketTime = none ∧ (h.join r).size = none)
      ∨ ∃ p ∈ h.toList, p.seq = r.seq ∧ (h.join r).sentAt = some p.sentAt
        ∧ (h.join r).socketTime = p.socketTime ∧ (h.join r).size = some p.size := by
  simp only [join]
  cases hfound : h.get? r.seq with
  | none => exact Or.inl ⟨rfl, rfl, rfl⟩
  | some p =>
      rcases h.mem_of_get? r.seq p hfound with ⟨hp, hseq⟩
      exact Or.inr ⟨p, hp, hseq, rfl, rfl, rfl⟩

theorem findsNoOther (h : SendHistory) : h.FindsNoOther := by
  refine ⟨h.mem_of_get?, fun q time => h.forall₂_modify q _,
    fun q status arrival => h.forall₂_modify q _, fun r info report r' h' hread => ?_⟩
  have hhistory := r.history_of_read r' h h' info report hread
  have hpackets := r.packets_of_read r' h h' info report hread
  refine ⟨?_, fun e he => ?_⟩
  · rw [hhistory]
    exact h.forall₂_applyAll report.receptions
  · rw [hpackets] at he
    rcases List.mem_map.1 he with ⟨s, _, rfl⟩
    exact h'.data_join s

/-- What is found in the history, in any run.

    If no more packets are kept than there are numbers, and each is recorded under
    the next number or while none is kept, then each packet that is kept is found
    under its number, and no number is found that none of them has. What is kept is
    the end of what has been sent since the last reset. If packets are recorded
    under any numbers, what is found or changed still has the number that was
    looked for. -/
theorem lookup_of_run (keep : Nat) (calls : List Call) :
    (keep ≤ 65536 → (start keep).RecordsInOrder calls →
        ((start keep).run calls).FindsAll keep (sentIn (start keep) [] calls))
      ∧ ((start keep).run calls).FindsNoOther :=
  ⟨fun hkeep hcalls =>
    findsAll_of_keeps keep _ _ (keeps_run keep [] _ calls (keeps_start keep) hcalls) hkeep,
    findsNoOther _⟩

-- Two packets are kept of three, the second of them behind the end of the circle. A
-- report says that the first of the two is missing, and the socket tells its time
-- of the other one.
theorem lookup_of_run_wrapped :
    ∃ calls : List Call, (start 2).RecordsInOrder calls
      ∧ sentIn (start 2) [] calls = [⟨65534, ⟨1⟩, 10⟩, ⟨65535, ⟨2⟩, 20⟩, ⟨0, ⟨3⟩, 30⟩]
      ∧ ((start 2).run calls).FindsAll 2 (sentIn (start 2) [] calls)
      ∧ ((start 2).run calls).toList
        = [⟨65535, ⟨2⟩, 20, none, none, true⟩, ⟨0, ⟨3⟩, 30, some ⟨8⟩, none, false⟩]
      ∧ ((start 2).run calls).get? 0 = some ⟨0, ⟨3⟩, 30, some ⟨8⟩, none, false⟩
      ∧ ¬ ∃ p, ((start 2).run calls).get? 65534 = some p := by
  let calls : List Call := [.send ⟨0⟩ 5, .reset, .record 65534 ⟨1⟩ 10, .send ⟨2⟩ 20, .send ⟨3⟩ 30,
    .read {} [255, 254, 0, 2, 0, 0, 0, 0, 0, 2], .attach 0 ⟨8⟩, .attach 65534 ⟨9⟩]
  have horder : (start 2).RecordsInOrder calls :=
    ⟨trivial, trivial, Or.inr rfl, trivial, trivial, trivial, trivial, trivial, trivial⟩
  have hlist : ((start 2).run calls).toList
      = [⟨65535, ⟨2⟩, 20, none, none, true⟩, ⟨0, ⟨3⟩, 30, some ⟨8⟩, none, false⟩] := by
    decide +kernel
  have hfinds := (lookup_of_run 2 calls).1 (by decide) horder
  refine ⟨calls, horder, by decide +kernel, hfinds, hlist, ?_, ?_⟩
  · rw [hfinds.found, hlist]
    exact ⟨List.mem_cons_of_mem _ List.mem_cons_self, rfl⟩
  · rintro ⟨p, hp⟩
    rw [hfinds.found, hlist] at hp
    rcases hp with ⟨hmem, hseq⟩
    rcases List.mem_cons.1 hmem with rfl | hmem
    · exact absurd hseq (by decide)
    · rw [List.mem_singleton.1 hmem] at hseq
      exact absurd hseq (by decide)

end SendHistory

end Feedback

end VideoTransport
