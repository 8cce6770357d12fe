import Mathlib.Data.List.Chain
import VideoTransport.Proofs.Vp8.Media
import VideoTransport.Proofs.Vp8.ReceiverRuns

/-!
# Streams in which Nothing is Missing

If every packet of a stream arrives, every frame comes out, and nothing else.

A picture is cut into fragments in any way, each behind a descriptor of its own.
Between two pictures the transport may report losses, and all of them are false
alarms: the identifiers show that no picture is missing. So the losses are held,
and the next picture drops the one that was held last.

Between two pictures the assembly is `Between`: it has nothing in progress, has
reported nothing, owes no report, and holds what the transport reports. Only the
loss that is held is left open. Each picture takes such a state to another one,
whatever is held, and this is all the induction over the stream needs. The state
of a new assembly differs, since it holds no losses and waits for a keyframe.
What both have in common is `Ready`.

## Main definitions

* `Fragment`, `Fragment.Carries`: A part of a picture, behind a descriptor.
* `Picture`: The fragments of a picture, and the losses reported after it.
* `Picture.Precedes`: The identifiers of two pictures follow on each other.
* `Picture.outputs`, `streamOutputs`: What pictures are to be given out as.
* `Assembly.Ready`, `Assembly.Between`: The states in which a picture begins, and ends.

## Theorems

* `Assembly.openFrame_of_ready`: No loss is seen where a picture begins.
* `Assembly.run_fragments`: The fragments of a picture are joined.
* `Assembly.run_picture`: One picture, from one state between pictures to the next.
* `Receiver.outputs_of_lossless`: A stream comes out as it is.
-/

namespace VideoTransport

namespace Vp8

/-- A part of a picture, behind a descriptor, with what the packet tells besides. -/
structure Fragment where
  descriptor : List UInt8
  data : List UInt8
  seq : SeqNum
  rtpTime : UInt32
  pts : Option Duration

namespace Fragment

/-- The packet of a fragment. -/
def packet (f : Fragment) (marker : Bool) : Packet where
  payload := f.descriptor ++ f.data
  marker := marker
  seq := f.seq
  rtpTime := f.rtpTime
  pts := f.pts
  discontinuous := false

/-- The descriptor can be read, ends where the data begins, and tells the
    picture and whether this is its first fragment. -/
def Carries (f : Fragment) (id : PictureId) (starts : Bool) : Prop :=
  ∃ d, Descriptor.parse (f.descriptor ++ f.data) = .ok d ∧ d.length = f.descriptor.length
    ∧ d.pictureId = some id ∧ d.startsFrame = starts

/-- The packets of some fragments, of which only the last one has the marker. -/
def packets : List Fragment → List Packet
  | [] => []
  | f :: rest => f.packet rest.isEmpty :: packets rest

end Fragment

/-- A picture in one or more fragments, and the losses that the transport
    reports after it. There is data enough for a header. -/
structure Picture where
  id : PictureId
  first : Fragment
  rest : List Fragment
  losses : List LossReport
  opens : first.Carries id true
  continues : ∀ f ∈ rest, f.Carries id false
  sized : 10 ≤ (first.data ++ rest.flatMap Fragment.data).length

namespace Picture

/-- The data of all fragments. -/
def data (p : Picture) : List UInt8 :=
  p.first.data ++ p.rest.flatMap Fragment.data

/-- The packets of the picture, then the losses reported after it. -/
def events (p : Picture) : List Event :=
  (Fragment.packets (p.first :: p.rest)).map .packet ++ p.losses.map .loss

theorem exists_header (p : Picture) : ∃ header, FrameHeader.parse p.data = .ok header :=
  (FrameHeader.parse_eq_ok_iff p.data).2 p.sized

/-- The header of the picture. -/
def header (p : Picture) : FrameHeader :=
  match h : FrameHeader.parse p.data with
  | .ok header => header
  | .error _ => absurd p.exists_header (by simp only [h, reduceCtorEq, exists_false,
      not_false_eq_true])

theorem parse_data (p : Picture) : FrameHeader.parse p.data = .ok p.header := by
  rcases p.exists_header with ⟨found, hfound⟩
  unfold header
  split
  · assumption
  · rename_i err herr
    rw [hfound] at herr
    cases herr

/-- The next picture follows on this one, in the same width or a greater one. -/
def Precedes (p next : Picture) : Prop :=
  p.id.isJustBefore next.id = true ∧ (p.id.isWide = true → next.id.isWide = true)

/-- The frame that the picture is to be given out as. -/
def frame (p : Picture) : Frame where
  data := p.data
  keyframe := p.header.keyframe
  format := p.header.format
  rtpTime := (p.rest.getLastD p.first).rtpTime
  pts := (p.rest.getLastD p.first).pts
  pictureId := some p.id

/-- What a header changes of the format that has been signalled last. -/
def announced (signalled : Option Format) (header : FrameHeader) : List Output :=
  match header.format with
  | some f => if signalled = some f then [] else [.formatChanged f]
  | none => []

/-- What the picture is to be given out as, if a format has been signalled last:
    its frame, and the format before that if it is another one. -/
def outputs (signalled : Option Format) (p : Picture) : List Output :=
  announced signalled p.header ++ [.frame p.frame]

/-- The format that has been signalled last after the picture. -/
def signalledAfter (signalled : Option Format) (p : Picture) : Option Format :=
  p.header.format.or signalled

end Picture

/-- What a stream of pictures is to be given out as. -/
def streamOutputs (signalled : Option Format) : List Picture → List Output
  | [] => []
  | p :: rest => p.outputs signalled ++ streamOutputs (p.signalledAfter signalled) rest

namespace Assembly

/-- A picture can begin: nothing is in progress, no loss is known of, and the
    identifiers show none. A loss is only held if there are identifiers. -/
structure Ready (next : PictureId) (a : Assembly) : Prop where
  idle : a.partialFrame = none
  notDue : a.reportDue = false
  notReported : a.lossReported = false
  follows : (a.lastId = none ∧ a.withheld = none)
    ∨ ∃ last, a.lastId = some last ∧ last.continuity (some next) = .follows

/-- A picture has ended: it has been given out, and losses are held until the
    next one begins. -/
structure Between (id : PictureId) (signalled : Option Format) (a : Assembly) : Prop where
  idle : a.partialFrame = none
  notDue : a.reportDue = false
  notReported : a.lossReported = false
  lastId_eq : a.lastId = some id
  holds : a.holdsLosses = true
  serves : a.awaitsKeyframe = false
  currentFormat_eq : a.currentFormat = signalled

-- Where one picture precedes another, the second one can begin.
theorem ready_of_between (p next : Picture) (signalled : Option Format) (a : Assembly)
    (h : a.Between p.id signalled) (hnext : p.Precedes next) : a.Ready next.id := by
  refine ⟨h.idle, h.notDue, h.notReported, Or.inr ⟨p.id, h.lastId_eq, ?_⟩⟩
  unfold PictureId.continuity
  have hwidth : (p.id.isWide && !next.id.isWide) = false := by
    rw [Bool.and_eq_false_imp]
    intro hwide
    rw [hnext.2 hwide]
    rfl
  simp only [hwidth, hnext.1, Bool.false_eq_true, if_false, if_true]

theorem ready_start (next : PictureId) : Ready next {} :=
  ⟨rfl, rfl, rfl, Or.inl ⟨rfl, rfl⟩⟩

/-- No loss is seen where a picture begins, and what is held is dropped. -/
theorem openFrame_of_ready (s : Settings) (next : PictureId) (pts : Option Duration)
    (a : Assembly) (h : a.Ready next) :
    openFrame s (some next) pts a
      = ({ a with partialFrame := some [], withheld := none, holdsLosses := false }, []) := by
  have habandon : a.abandonFrame = a := by
    unfold abandonFrame
    rw [h.idle, h.notDue, Option.isSome_none, Bool.or_self, ← h.idle, ← h.notDue]
  have hcheck : checkContinuity s (some next) pts a = ({ a with withheld := none }, []) := by
    unfold checkContinuity
    rcases h.follows with ⟨hnone, hheld⟩ | ⟨last, hlast, hfollows⟩
    · simp only [hnone]
      rw [← hnone, ← hheld]
    · simp only [hlast, hfollows]
  unfold openFrame
  simp only [habandon, h.notDue, Bool.false_eq_true, if_false, hcheck, andThen, List.append_nil]

/-- Adds the data of a fragment to what has been collected, and closes the frame
    with it if it is the last one. -/
def add (id : PictureId) (f : Fragment) (marker : Bool) (collected : List UInt8) (a : Assembly) :
    Assembly × List Output :=
  let a := { a with partialFrame := some (collected ++ f.data), lastId := some id }
  if marker then closeFrame (f.packet marker) (some id) (collected ++ f.data) a else (a, [])

section Fragments

variable (s : Settings) (id : PictureId)

-- What the packet of a fragment does to the data in progress.
theorem extendFrame_packet (f : Fragment) (d : Descriptor) (marker : Bool)
    (collected : List UInt8) (a : Assembly) (hlength : d.length = f.descriptor.length)
    (hid : d.pictureId = some id) :
    extendFrame (f.packet marker) d collected a = a.add id f marker collected := by
  have hdrop : (f.packet marker).payload.drop d.length = f.data := by
    rw [hlength]
    exact List.drop_left
  unfold extendFrame add
  rw [hdrop, hid]
  rfl

theorem step_first (f : Fragment) (marker : Bool) (a : Assembly) (h : a.Ready id)
    (hf : f.Carries id true) :
    step s a (.packet (f.packet marker))
      = add id f marker []
        { a with partialFrame := some [], withheld := none, holdsLosses := false } := by
  rcases hf with ⟨d, hparse, hlength, hid, hstarts⟩
  have hparse' : Descriptor.parse (f.packet marker).payload = .ok d := hparse
  have hcontinuous : (f.packet marker).discontinuous = false := rfl
  rw [step, takePacket, hparse', hcontinuous]
  simp only [Bool.false_eq_true, if_false]
  rw [takePart, hstarts, if_pos rfl, hid, openFrame_of_ready s id _ a h]
  exact extendFrame_packet id f d marker [] _ hlength hid

theorem step_next (f : Fragment) (marker : Bool) (collected : List UInt8) (a : Assembly)
    (h : a.partialFrame = some collected) (hf : f.Carries id false) :
    step s a (.packet (f.packet marker)) = a.add id f marker collected := by
  rcases hf with ⟨d, hparse, hlength, hid, hstarts⟩
  have hparse' : Descriptor.parse (f.packet marker).payload = .ok d := hparse
  have hcontinuous : (f.packet marker).discontinuous = false := rfl
  rw [step, takePacket, hparse', hcontinuous]
  simp only [Bool.false_eq_true, if_false]
  rw [takePart, hstarts, if_neg Bool.false_ne_true]
  simp only [andThen, h, List.nil_append]
  exact extendFrame_packet id f d marker collected a hlength hid

/-- The fragments of a picture are joined, and the last one closes it. -/
theorem run_fragments (f : Fragment) (rest : List Fragment) (collected : List UInt8)
    (a : Assembly) (hrest : ∀ g ∈ rest, g.Carries id false) :
    andThen (a.add id f rest.isEmpty collected)
        (fun a => run s a ((Fragment.packets rest).map .packet))
      = closeFrame ((rest.getLastD f).packet true) (some id)
        (collected ++ f.data ++ rest.flatMap Fragment.data)
        { a with
          partialFrame := some (collected ++ f.data ++ rest.flatMap Fragment.data)
          lastId := some id } := by
  induction rest generalizing f collected a with
  | nil =>
      rw [List.flatMap_nil, List.append_nil, andThen]
      simp only [Fragment.packets, List.map_nil, run, List.append_nil]
      rfl
  | cons g rest ih =>
      have hg := hrest g List.mem_cons_self
      have hmore := ih g (collected ++ f.data)
        { a with partialFrame := some (collected ++ f.data), lastId := some id }
        fun h hh => hrest h (List.mem_cons_of_mem g hh)
      rw [← step_next s id g rest.isEmpty (collected ++ f.data) _ rfl hg] at hmore
      rw [List.flatMap_cons, ← List.append_assoc, List.getLastD_cons]
      exact hmore

theorem closeFrame_of_serves (p : Packet) (data : List UInt8) (header : FrameHeader)
    (a : Assembly) (hheader : FrameHeader.parse data = .ok header)
    (hserves : header.keyframe = true ∨ a.awaitsKeyframe = false) :
    closeFrame p (some id) data a
      = ({ a with
          partialFrame := none
          holdsLosses := true
          awaitsKeyframe := false
          lossReported := false
          currentFormat := header.format.or a.currentFormat },
        Picture.announced a.currentFormat header
          ++ [.frame ⟨data, header.keyframe, header.format, p.rtpTime, p.pts, some id⟩]) := by
  unfold closeFrame Picture.announced
  simp only [hheader]
  cases hformat : header.format with
  | none =>
      have hinter : a.awaitsKeyframe = false := by
        rcases hserves with hkeyframe | hserves
        · rw [FrameHeader.format, if_pos hkeyframe] at hformat
          cases hformat
        · exact hserves
      simp only [andThen, announce, hinter, Option.isSome_some, Bool.or_true, Bool.false_eq_true,
        if_false, Option.none_or, List.nil_append]
  | some f =>
      simp only [andThen, announce, Option.isSome_some, Bool.or_true, Bool.false_eq_true, if_false,
        Option.some_or]

-- Losses that are reported after a picture are held.
theorem run_losses (losses : List LossReport) (signalled : Option Format) (a : Assembly)
    (h : a.Between id signalled) :
    ∃ a', run s a (losses.map .loss) = (a', []) ∧ a'.Between id signalled := by
  induction losses generalizing a with
  | nil => exact ⟨a, rfl, h⟩
  | cons r rest ih =>
      have hstep : step s a (.loss r) = ({ a with withheld := some r }, []) := by
        rw [step, takeLoss, if_pos h.holds]
      have hheld : Between id signalled { a with withheld := some r } :=
        ⟨h.idle, h.notDue, h.notReported, h.lastId_eq, h.holds, h.serves, h.currentFormat_eq⟩
      rcases ih _ hheld with ⟨a', hrun, hbetween⟩
      refine ⟨a', ?_, hbetween⟩
      rw [List.map_cons, run, hstep, andThen, hrun]
      rfl

end Fragments

-- The packets of a picture, up to the closing of its frame.
theorem run_packets (s : Settings) (p : Picture) (a : Assembly) (h : a.Ready p.id) :
    run s a ((Fragment.packets (p.first :: p.rest)).map .packet)
      = closeFrame ((p.rest.getLastD p.first).packet true) (some p.id) p.data
        { a with
          partialFrame := some p.data
          withheld := none
          holdsLosses := false
          lastId := some p.id } := by
  rw [Fragment.packets, List.map_cons, run, step_first s p.id p.first p.rest.isEmpty a h p.opens,
    run_fragments s p.id p.first p.rest [] _ p.continues]
  rfl

/-- One picture, from a state in which it can begin to the state after it. -/
theorem run_picture (s : Settings) (p : Picture) (a : Assembly) (h : a.Ready p.id)
    (hserves : p.header.keyframe = true ∨ a.awaitsKeyframe = false) :
    ∃ a', run s a p.events = (a', p.outputs a.currentFormat)
      ∧ a'.Between p.id (p.signalledAfter a.currentFormat) := by
  have hclose := closeFrame_of_serves p.id ((p.rest.getLastD p.first).packet true) p.data p.header
    { a with
      partialFrame := some p.data
      withheld := none
      holdsLosses := false
      lastId := some p.id } p.parse_data hserves
  -- Whatever was held has been dropped where the picture began.
  have hclosed : Between p.id (p.signalledAfter a.currentFormat)
      { a with
        partialFrame := none
        withheld := none
        lastId := some p.id
        holdsLosses := true
        awaitsKeyframe := false
        lossReported := false
        currentFormat := p.header.format.or a.currentFormat } :=
    ⟨rfl, h.notDue, rfl, rfl, rfl, rfl, rfl⟩
  rw [Picture.events, run_append, run_packets s p a h, hclose]
  rcases run_losses s p.id p.losses (p.signalledAfter a.currentFormat) _ hclosed with
    ⟨a', hlosses, hbetween⟩
  refine ⟨a', ?_, hbetween⟩
  rw [andThen]
  simp only
  rw [hlosses, List.append_nil]
  rfl

-- A stream of pictures after another one.
theorem run_pictures (s : Settings) (previous : Picture) (pictures : List Picture)
    (signalled : Option Format) (a : Assembly) (h : a.Between previous.id signalled)
    (hchain : (previous :: pictures).IsChain Picture.Precedes) :
    (run s a (pictures.flatMap Picture.events)).2 = streamOutputs signalled pictures := by
  induction pictures generalizing previous signalled a with
  | nil => rfl
  | cons p rest ih =>
      rcases List.isChain_cons_cons.1 hchain with ⟨hprecedes, hrest⟩
      rcases run_picture s p a (ready_of_between previous p signalled a h hprecedes)
        (Or.inr h.serves) with ⟨a', hrun, hbetween⟩
      rw [h.currentFormat_eq] at hrun hbetween
      rw [List.flatMap_cons, run_append, hrun, andThen, streamOutputs, ih p _ a' hbetween hrest]

end Assembly

namespace Receiver

/-- A stream that begins with a keyframe and in which nothing is missing comes
    out as it is, whatever losses the transport reports between its pictures. -/
theorem outputs_of_lossless (s : Settings) (first : Picture) (more : List Picture)
    (hkeyframe : first.header.keyframe = true)
    (hchain : (first :: more).IsChain Picture.Precedes) (calls : List Call)
    (hcalls : events calls = (first :: more).flatMap Picture.events) :
    (start s).outputs calls = streamOutputs none (first :: more) := by
  rcases Assembly.run_picture s first {} (Assembly.ready_start first.id) (Or.inl hkeyframe) with
    ⟨a, hrun, hbetween⟩
  rw [outputs_eq, hcalls, List.flatMap_cons, Assembly.run_append, hrun, Assembly.andThen,
    streamOutputs, Assembly.run_pictures s first more _ a hbetween hchain]

-- A keyframe in two packets, a loss, and an inter frame whose identifier has
-- come round to zero: two frames come out, and the format before them.
theorem outputs_of_lossless_wrapped :
    ∃ keyframe inter : Picture, keyframe.id = .narrow 127 ∧ inter.id = .narrow 0
      ∧ keyframe.losses.length = 1
      ∧ (start {}).outputs ((keyframe.events ++ inter.events).map .handle)
        = [.formatChanged ⟨320, 240, 0⟩, .frame keyframe.frame, .frame inter.frame] := by
  have hrest : ∀ f ∈ [(⟨[128, 128, 127], [42, 64, 1, 240, 0], 2, 90, none⟩ : Fragment)],
      f.Carries (.narrow 127) false := by
    intro f hf
    rw [List.mem_singleton.1 hf]
    exact ⟨_, rfl, rfl, rfl, rfl⟩
  refine ⟨{
    id := .narrow 127
    first := ⟨[144, 128, 127], [16, 0, 0, 157, 1], 1, 90, none⟩
    rest := [⟨[128, 128, 127], [42, 64, 1, 240, 0], 2, 90, none⟩]
    losses := [⟨⟨100⟩, ⟨20⟩, false⟩]
    opens := ⟨_, rfl, rfl, rfl, rfl⟩
    continues := hrest
    sized := by decide }, {
    id := .narrow 0
    first := ⟨[144, 128, 0], [17, 0, 0, 0, 0, 0, 0, 0, 0, 0], 4, 180, none⟩
    rest := []
    losses := []
    opens := ⟨_, rfl, rfl, rfl, rfl⟩
    continues := fun f hf => absurd hf List.not_mem_nil
    sized := by decide }, rfl, rfl, rfl, ?_⟩
  rw [outputs_of_lossless {} _ [_] rfl (List.isChain_pair.2 ⟨rfl, ?_⟩) _ rfl]
  · rfl
  · intro hwide
    exact hwide

end Receiver

end Vp8

end VideoTransport
