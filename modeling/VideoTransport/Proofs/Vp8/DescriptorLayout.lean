import VideoTransport.Proofs.Vp8.OrderedFields

/-!
# The Layout of Payload Descriptors

Reading a descriptor accepts exactly the payloads whose flags declare a descriptor
that ends before the payload does.

Which fields a descriptor has, and where each of them stands, is said by flags in up
to three of its bytes. `Layout.of?` looks at these bytes alone, and `Layout.read`
takes every field from its place. A reader that goes along the payload finds the same,
since each field that is there moves the fields behind it by its own length.

That fields are read in order says the rest. Nothing behind a descriptor was looked at,
so anything may stand there. And if reading stopped at the end of the payload, a payload
that goes on cannot have a descriptor that ends before that.

## Main definitions

* `Layout`, `Layout.of?`: The fields that the flags declare.
* `Layout.length`: How many bytes they take.
* `Layout.read`: The descriptor, with each field read from its place.

## Theorems

* `Descriptor.fields_eq_ok_iff`: All fields are read if and only if they are there.
* `Descriptor.parse_eq_ok_iff`: A descriptor is accepted if it ends before the payload.
* `Descriptor.parse_take_append`: What follows the descriptor does not matter.
* `Descriptor.needed_le_length`: A longer payload needs what an error says.
* `Descriptor.parse_iff_layout`: All three.
-/

namespace VideoTransport

namespace Vp8

/-- Which fields a descriptor has, and how many bytes its picture identifier takes. -/
structure Layout where
  /-- A second byte of flags follows the first one. -/
  extended : Bool
  /-- None if there is no picture identifier, and one or two if there is one. -/
  idBytes : Nat
  hasBaseLayer : Bool
  hasLayerByte : Bool
deriving DecidableEq

namespace Layout

/-- How many bytes a picture identifier takes. Its first byte says so, and has to be there
    if the identifier is present. -/
def idBytes? (present : Bool) (first : Option UInt8) : Option Nat :=
  if present then first.map fun b => if b.toNat.testBit 7 then 2 else 1
  else some 0

/-- The layout that the flags of a payload declare, if all bytes with flags are there. -/
def of? (payload : List UInt8) : Option Layout := do
  let flags ← payload[0]?
  if flags.toNat.testBit 7 then
    let more ← payload[1]?
    let idBytes ← idBytes? (more.toNat.testBit 7) payload[2]?
    return {
      extended := true
      idBytes
      hasBaseLayer := more.toNat.testBit 6
      hasLayerByte := more.toNat.testBit 5 || more.toNat.testBit 4
    }
  else return { extended := false, idBytes := 0, hasBaseLayer := false, hasLayerByte := false }

/-- Where the picture identifier stands, if there is one: behind the flags. -/
def idPlace (l : Layout) : Nat :=
  if l.extended then 2 else 1

/-- Where the base layer index stands, if there is one. -/
def baseLayerPlace (l : Layout) : Nat :=
  l.idPlace + l.idBytes

/-- Where the layer byte stands, if there is one. -/
def layerPlace (l : Layout) : Nat :=
  l.baseLayerPlace + l.hasBaseLayer.toNat

/-- How many bytes the descriptor takes. -/
def length (l : Layout) : Nat :=
  l.layerPlace + l.hasLayerByte.toNat

/-- The picture identifier of some bytes from a place on. -/
def idAt (payload : List UInt8) (place : Nat) : Nat → Option PictureId
  | 0 => none
  | 1 => payload[place]?.map .ofByte
  | _ => payload[place]?.bind fun b =>
    payload[place + 1]?.map fun low => .ofWord (BigEndian.join16 b low)

theorem idAt_one (payload : List UInt8) (place : Nat) :
    idAt payload place 1 = payload[place]?.map .ofByte := rfl

theorem idAt_two (payload : List UInt8) (place : Nat) :
    idAt payload place 2 = payload[place]?.bind fun b =>
      payload[place + 1]?.map fun low => .ofWord (BigEndian.join16 b low) := rfl

/-- The descriptor at the start of a payload, with each field read from its place. -/
def read (l : Layout) (payload : List UInt8) : Descriptor where
  nonReference := (payload.getD 0 0).toNat.testBit 5
  startsPartition := (payload.getD 0 0).toNat.testBit 4
  partition := UInt8.ofNat ((payload.getD 0 0).toNat % 8)
  pictureId := idAt payload l.idPlace l.idBytes
  baseLayerIndex := if l.hasBaseLayer then payload[l.baseLayerPlace]? else none
  layerByte := if l.hasLayerByte then payload[l.layerPlace]? else none
  hasTemporalLayer := l.extended && (payload.getD 1 0).toNat.testBit 5
  length := l.length

-- The first byte of flags is always there.
theorem length_pos (l : Layout) : 0 < l.length := by
  have hplace : 0 < l.idPlace := by
    rw [idPlace]
    split <;> decide
  rw [length, layerPlace, baseLayerPlace]
  omega

end Layout

namespace Descriptor

section Places

variable (payload : List UInt8)

-- An optional byte is read from its place if it is there.
theorem optional_byte_eq_ok_iff (present : Bool) (pos : Nat) (hpos : pos ≤ payload.length)
    (v : Option UInt8) (next : Nat) :
    optional present byte payload pos = .ok (v, next)
      ↔ v = (if present then payload[pos]? else none) ∧ next = pos + present.toNat
        ∧ next ≤ payload.length := by
  cases present with
  | false =>
      constructor
      · intro h
        cases h
        exact ⟨rfl, rfl, hpos⟩
      · rintro ⟨rfl, rfl, _⟩
        rfl
  | true =>
      rw [optional_true_eq_ok_iff]
      constructor
      · rintro ⟨b, hb, rfl⟩
        rcases (byte_eq_ok_iff ..).1 hb with ⟨hget, rfl⟩
        exact ⟨hget.symm, rfl, (List.getElem?_eq_some_iff.1 hget).1⟩
      · rintro ⟨rfl, rfl, hle⟩
        have hget : payload[pos]? = some payload[pos] := List.getElem?_eq_getElem hle
        exact ⟨payload[pos], (byte_eq_ok_iff ..).2 ⟨hget, rfl⟩, hget⟩

-- An optional picture identifier takes as many bytes as its first one says.
theorem optional_pictureIdField_eq_ok_iff (present : Bool) (pos : Nat)
    (hpos : pos ≤ payload.length) (v : Option PictureId) (next : Nat) :
    optional present pictureIdField payload pos = .ok (v, next)
      ↔ ∃ n, Layout.idBytes? present payload[pos]? = some n ∧ v = Layout.idAt payload pos n
        ∧ next = pos + n ∧ next ≤ payload.length := by
  cases present with
  | false =>
      constructor
      · intro h
        cases h
        exact ⟨0, rfl, rfl, rfl, hpos⟩
      · rintro ⟨n, hn, rfl, rfl, _⟩
        cases hn
        rfl
  | true =>
      rw [optional_true_eq_ok_iff, pictureIdField_eq]
      constructor
      · rintro ⟨id, h, rfl⟩
        rcases (andThen_eq_ok_iff ..).1 h with ⟨b, mid, hb, h⟩
        rcases (byte_eq_ok_iff ..).1 hb with ⟨hget, rfl⟩
        rw [hget, Layout.idBytes?, if_pos rfl, Option.map_some]
        by_cases hwide : b.toNat.testBit 7 = true
        · rw [if_pos hwide] at h
          rcases (andThen_eq_ok_iff ..).1 h with ⟨low, last, hlow, h⟩
          rcases (byte_eq_ok_iff ..).1 hlow with ⟨hnext, rfl⟩
          cases h
          refine ⟨2, by rw [if_pos hwide], ?_, rfl, (List.getElem?_eq_some_iff.1 hnext).1⟩
          rw [Layout.idAt_two, hget, hnext, Option.bind_some, Option.map_some]
        · rw [if_neg hwide] at h
          cases h
          refine ⟨1, by rw [if_neg hwide], ?_, rfl, (List.getElem?_eq_some_iff.1 hget).1⟩
          rw [Layout.idAt_one, hget, Option.map_some]
      · rintro ⟨n, hn, rfl, rfl, hle⟩
        rw [Layout.idBytes?, if_pos rfl, Option.map_eq_some_iff] at hn
        rcases hn with ⟨b, hget, rfl⟩
        have hb := (byte_eq_ok_iff payload pos b (pos + 1)).2 ⟨hget, rfl⟩
        by_cases hwide : b.toNat.testBit 7 = true
        · rw [if_pos hwide] at hle ⊢
          have hnext : payload[pos + 1]? = some payload[pos + 1] := List.getElem?_eq_getElem hle
          refine ⟨.ofWord (BigEndian.join16 b payload[pos + 1]), ?_, ?_⟩
          · rw [andThen_of_ok hb, if_pos hwide,
              andThen_of_ok ((byte_eq_ok_iff ..).2 ⟨hnext, rfl⟩)]
          · rw [Layout.idAt_two, hget, hnext, Option.bind_some, Option.map_some]
        · rw [if_neg hwide]
          refine ⟨.ofByte b, ?_, ?_⟩
          · rw [andThen_of_ok hb, if_neg hwide]
          · rw [Layout.idAt_one, hget, Option.map_some]

/-- What comes behind the flags is read if and only if it is there, with each field from
    its place. -/
theorem behindFlags_eq_ok_iff (flags more : Nat) (pos : Nat) (hpos : pos ≤ payload.length)
    (d : Descriptor) (next : Nat) :
    behindFlags flags more payload pos = .ok (d, next)
      ↔ ∃ n, Layout.idBytes? (more.testBit 7) payload[pos]? = some n
        ∧ next = pos + n + (more.testBit 6).toNat + (more.testBit 5 || more.testBit 4).toNat
        ∧ next ≤ payload.length
        ∧ d = {
          nonReference := flags.testBit 5
          startsPartition := flags.testBit 4
          partition := UInt8.ofNat (flags % 8)
          pictureId := Layout.idAt payload pos n
          baseLayerIndex := if more.testBit 6 then payload[pos + n]? else none
          layerByte := if more.testBit 5 || more.testBit 4 then
            payload[pos + n + (more.testBit 6).toNat]? else none
          hasTemporalLayer := more.testBit 5
          length := next
        } := by
  constructor
  · intro h
    rcases (andThen_eq_ok_iff ..).1 h with ⟨id, place, hid, h⟩
    rcases (optional_pictureIdField_eq_ok_iff _ _ _ hpos _ _).1 hid with ⟨n, hn, rfl, rfl, hplace⟩
    rcases (andThen_eq_ok_iff ..).1 h with ⟨base, place', hbase, h⟩
    rcases (optional_byte_eq_ok_iff _ _ _ hplace _ _).1 hbase with ⟨rfl, rfl, hplace'⟩
    rcases (andThen_eq_ok_iff ..).1 h with ⟨layer, last, hlayer, h⟩
    rcases (optional_byte_eq_ok_iff _ _ _ hplace' _ _).1 hlayer with ⟨rfl, rfl, hlast⟩
    cases h
    exact ⟨n, hn, rfl, hlast, rfl⟩
  · rintro ⟨n, hn, rfl, hlast, rfl⟩
    have hid := (optional_pictureIdField_eq_ok_iff payload _ _ hpos _ _).2
      ⟨n, hn, rfl, rfl, by omega⟩
    have hbase := (optional_byte_eq_ok_iff payload (more.testBit 6) (pos + n) (by omega) _ _).2
      ⟨rfl, rfl, by omega⟩
    have hlayer := (optional_byte_eq_ok_iff payload (more.testBit 5 || more.testBit 4)
      (pos + n + (more.testBit 6).toNat) (by omega) _ _).2 ⟨rfl, rfl, hlast⟩
    rw [behindFlags, andThen_of_ok hid, andThen_of_ok hbase, andThen_of_ok hlayer]
    rfl

theorem fields_of_plain (flags : UInt8) (h : payload[0]? = some flags)
    (hx : flags.toNat.testBit 7 = false) :
    fields payload 0 = behindFlags flags.toNat 0 payload 1 := by
  have hbyte := (byte_eq_ok_iff payload 0 flags 1).2 ⟨h, rfl⟩
  have hnone : optional (flags.toNat.testBit 7) byte payload 1 = .ok (none, 1) := by
    rw [hx]
    rfl
  rw [fields, andThen_of_ok hbyte, andThen_of_ok hnone]
  rfl

theorem fields_of_extended (flags more : UInt8) (h : payload[0]? = some flags)
    (hx : flags.toNat.testBit 7 = true) (hmore : payload[1]? = some more) :
    fields payload 0 = behindFlags flags.toNat more.toNat payload 2 := by
  have hbyte := (byte_eq_ok_iff payload 0 flags 1).2 ⟨h, rfl⟩
  have hsome : optional (flags.toNat.testBit 7) byte payload 1 = .ok (some more, 2) := by
    rw [hx]
    exact (optional_true_eq_ok_iff ..).2 ⟨more, (byte_eq_ok_iff ..).2 ⟨hmore, rfl⟩, rfl⟩
  rw [fields, andThen_of_ok hbyte, andThen_of_ok hsome]
  rfl

/-- All fields are read if and only if the flags are there and declare no more bytes than
    there are. -/
theorem fields_eq_ok_iff (hlen : 2 ≤ payload.length) (d : Descriptor) (next : Nat) :
    fields payload 0 = .ok (d, next) ↔ ∃ l, Layout.of? payload = some l
      ∧ l.length ≤ payload.length ∧ d = l.read payload ∧ next = l.length := by
  have hfirst : payload[0]? = some payload[0] := List.getElem?_eq_getElem (by omega)
  have hsecond : payload[1]? = some payload[1] := List.getElem?_eq_getElem (by omega)
  have hzero : payload.getD 0 0 = payload[0] := by
    rw [List.getD_eq_getElem?_getD, hfirst, Option.getD_some]
  have hone : payload.getD 1 0 = payload[1] := by
    rw [List.getD_eq_getElem?_getD, hsecond, Option.getD_some]
  cases hx : payload[0].toNat.testBit 7 with
  | true =>
      have hof : Layout.of? payload
          = (Layout.idBytes? (payload[1].toNat.testBit 7) payload[2]?).map fun n =>
            ⟨true, n, payload[1].toNat.testBit 6,
              payload[1].toNat.testBit 5 || payload[1].toNat.testBit 4⟩ := by
        rw [Layout.of?, hfirst, hsecond, Option.map_eq_bind]
        simp only [Option.bind_eq_bind, Option.bind_some, hx, if_true]
        rfl
      rw [fields_of_extended payload _ _ hfirst hx hsecond,
        behindFlags_eq_ok_iff payload _ _ 2 hlen, hof]
      constructor
      · rintro ⟨n, hn, rfl, hle, rfl⟩
        refine ⟨_, Option.map_eq_some_iff.2 ⟨n, hn, rfl⟩, hle, ?_, rfl⟩
        rw [Layout.read, hzero, hone]
        rfl
      · rintro ⟨l, hl, hle, rfl, rfl⟩
        rcases Option.map_eq_some_iff.1 hl with ⟨n, hn, rfl⟩
        refine ⟨n, hn, rfl, hle, ?_⟩
        rw [Layout.read, hzero, hone]
        rfl
  | false =>
      have hof : Layout.of? payload = some ⟨false, 0, false, false⟩ := by
        rw [Layout.of?, hfirst]
        simp only [Option.bind_eq_bind, Option.bind_some, hx]
        rfl
      rw [fields_of_plain payload _ hfirst hx,
        behindFlags_eq_ok_iff payload _ _ 1 (by omega), hof]
      constructor
      · rintro ⟨n, hn, rfl, hle, rfl⟩
        cases hn
        refine ⟨_, rfl, hle, ?_, rfl⟩
        rw [Layout.read, hzero, hone]
        rfl
      · rintro ⟨l, hl, hle, rfl, rfl⟩
        cases hl
        refine ⟨0, rfl, rfl, hle, ?_⟩
        rw [Layout.read, hzero, hone]
        rfl

-- A payload is accepted if its fields are read and it goes on behind them.
theorem parse_eq_ok_iff_fields (d : Descriptor) :
    parse payload = .ok d ↔ 2 ≤ payload.length ∧ d.length < payload.length
      ∧ fields payload 0 = .ok (d, d.length) := by
  by_cases hlen : 2 ≤ payload.length
  · cases hfields : fields payload 0 with
    | error e =>
        rw [parse_of_error payload hlen e hfields]
        simp only [reduceCtorEq, and_false]
    | ok r =>
        obtain ⟨found, next⟩ := r
        rcases (fields_eq_ok_iff payload hlen found next).1 hfields with ⟨l, _, _, hfound, hnext⟩
        have hlength : found.length = next := by
          rw [hfound, hnext, Layout.read]
        rw [parse_of_fields payload hlen found next hfields]
        constructor
        · intro h
          split at h
          · cases h
          · cases h
            rw [hlength]
            exact ⟨hlen, by omega, rfl⟩
        · rintro ⟨_, hlt, h⟩
          cases h
          rw [if_neg (Nat.not_le.2 hlt)]
  · rw [parse, if_pos (Nat.not_le.1 hlen)]
    constructor
    · intro h
      cases h
    · intro h
      exact absurd h.1 hlen

/-- A descriptor is accepted if and only if its flags are there and it ends before the
    payload does. -/
theorem parse_eq_ok_iff (d : Descriptor) :
    parse payload = .ok d
      ↔ ∃ l, Layout.of? payload = some l ∧ l.length < payload.length ∧ d = l.read payload := by
  rw [parse_eq_ok_iff_fields]
  constructor
  · rintro ⟨hlen, hlt, h⟩
    rcases (fields_eq_ok_iff payload hlen d d.length).1 h with ⟨l, hl, _, hd, hlength⟩
    exact ⟨l, hl, by omega, hd⟩
  · rintro ⟨l, hl, hlt, rfl⟩
    have hlen : 2 ≤ payload.length := Nat.lt_of_le_of_lt l.length_pos hlt
    exact ⟨hlen, hlt, (fields_eq_ok_iff payload hlen _ _).2 ⟨l, hl, Nat.le_of_lt hlt, rfl, rfl⟩⟩

end Places

/-- The same descriptor is read whatever follows it, as long as something does. -/
theorem parse_take_append (payload : List UInt8) (d : Descriptor) (h : parse payload = .ok d)
    (data : List UInt8) (hdata : data ≠ []) : parse (payload.take d.length ++ data) = .ok d := by
  rcases (parse_eq_ok_iff payload d).1 h with ⟨l, _, _, hd⟩
  rcases (parse_eq_ok_iff_fields payload d).1 h with ⟨_, hlt, hfields⟩
  have hread := ordered_fields.reads payload 0 d d.length (Nat.zero_le _) hfields
    (payload.take d.length ++ data) (List.prefix_append ..)
  have hpos : 0 < d.length := by
    rw [hd]
    exact l.length_pos
  have hmore := List.length_pos_iff.2 hdata
  have hlen : (payload.take d.length ++ data).length = d.length + data.length := by
    rw [List.length_append, List.length_take, Nat.min_eq_left (Nat.le_of_lt hlt)]
  exact (parse_eq_ok_iff_fields _ d).2 ⟨by omega, by omega, hread⟩

/-- An error tells the length of the payload, and how many bytes are needed for sure. A
    payload that goes on in such a way that it can be read has a descriptor of as many. -/
theorem needed_le_length (payload : List UInt8) (e : DescriptorError)
    (h : parse payload = .error e) :
    e.length = payload.length ∧ payload.length ≤ e.needed
      ∧ ∀ more d, parse (payload ++ more) = .ok d → e.needed ≤ d.length := by
  by_cases hlen : 2 ≤ payload.length
  · cases hfields : fields payload 0 with
    | error stop =>
        rw [parse_of_error payload hlen stop hfields] at h
        cases h
        rw [ordered_fields.stops payload 0 e (Nat.zero_le _) hfields]
        refine ⟨rfl, Nat.le_succ _, fun more d hd => ?_⟩
        -- A descriptor that ended in front of the missing byte would have been read.
        rcases (parse_eq_ok_iff_fields _ d).1 hd with ⟨_, _, hlonger⟩
        rcases Nat.lt_or_ge payload.length d.length with hlt | hge
        · exact hlt
        · have hread := ordered_fields.reads _ 0 d d.length (Nat.zero_le _) hlonger payload (by
            rw [List.take_append_of_le_length hge]
            exact List.take_prefix ..)
          rw [hfields] at hread
          cases hread
    | ok r =>
        obtain ⟨found, next⟩ := r
        rw [parse_of_fields payload hlen found next hfields] at h
        split at h
        · rename_i hend
          cases h
          refine ⟨rfl, hend, fun more d hd => ?_⟩
          rcases (parse_eq_ok_iff_fields _ d).1 hd with ⟨_, _, hlonger⟩
          have hread := ordered_fields.reads payload 0 found next (Nat.zero_le _) hfields
            (payload ++ more) ((List.take_prefix ..).trans (List.prefix_append ..))
          rw [hread] at hlonger
          cases hlonger
          exact Nat.le_refl _
        · cases h
  · rw [parse, if_pos (Nat.not_le.1 hlen)] at h
    cases h
    refine ⟨rfl, Nat.le_of_lt_succ (Nat.not_le.1 hlen), fun more d hd => ?_⟩
    rcases (parse_eq_ok_iff _ d).1 hd with ⟨l, _, _, rfl⟩
    exact l.length_pos

/-- A descriptor is accepted exactly if the bytes with its flags are there, and the payload
    goes on behind the bytes that the flags declare. Each of its fields is then read from
    the place that it has in that layout, and whatever else follows the descriptor, the
    same one is read.

    Otherwise the error tells the length of the payload, and a number of bytes that is no
    smaller. Every payload that begins with this one and can be read has a
    descriptor of at least that many bytes. -/
theorem parse_iff_layout (payload : List UInt8) :
    (∀ d, parse payload = .ok d
        ↔ ∃ l, Layout.of? payload = some l ∧ l.length < payload.length ∧ d = l.read payload)
      ∧ (∀ d, parse payload = .ok d →
        ∀ data ≠ [], parse (payload.take d.length ++ data) = .ok d)
      ∧ ∀ e, parse payload = .error e → e.length = payload.length ∧ payload.length ≤ e.needed
        ∧ ∀ more d, parse (payload ++ more) = .ok d → e.needed ≤ d.length :=
  ⟨parse_eq_ok_iff payload, parse_take_append payload, needed_le_length payload⟩

-- A descriptor with all fields, and its beginnings. The one that ends in the middle of the
-- picture identifier is known to need four bytes, of the six that it would have.
theorem parse_iff_layout_all_fields :
    ∃ (payload data : List UInt8) (d : Descriptor),
      parse payload = .ok d ∧ d.length = 6 ∧ d.pictureId = some (.wide 6336)
        ∧ d.baseLayerIndex = some 5 ∧ d.layerByte = some 163
        ∧ (∃ l, Layout.of? payload = some l ∧ d = l.read payload)
        ∧ parse (payload.take d.length ++ data) = .ok d
        ∧ parse (payload.take 3) = .error ⟨4, 3⟩
        ∧ ∀ more longer, parse (payload.take 3 ++ more) = .ok longer → 4 ≤ longer.length := by
  let payload : List UInt8 := [144, 240, 152, 192, 5, 163, 16, 0]
  let d : Descriptor := ⟨false, true, 0, some (.wide 6336), some 5, some 163, true, 6⟩
  have hd : parse payload = .ok d := rfl
  have hcut : parse (payload.take 3) = .error ⟨4, 3⟩ := rfl
  rcases ((parse_iff_layout payload).1 d).1 hd with ⟨l, hl, _, hread⟩
  exact ⟨payload, [1], d, hd, rfl, rfl, rfl, rfl, ⟨l, hl, hread⟩,
    (parse_iff_layout payload).2.1 d hd [1] (List.cons_ne_nil _ _), hcut,
    ((parse_iff_layout (payload.take 3)).2.2 ⟨4, 3⟩ hcut).2.2⟩

end Descriptor

end Vp8

end VideoTransport
