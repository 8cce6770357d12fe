import VideoTransport.Vp8.Descriptor

/-!
# Fields in Order

Reading a descriptor goes along the payload, from one field to the next, and any of its
steps may find the payload at its end.

What is to be known about that is the same for each step: it stays inside the payload, it
looks at nothing behind its end, and if it fails, the byte that it misses is the one right
behind the payload. `Field.Ordered` says so, and it is kept by taking one step after
another. So the steps need not be told apart to see that the same fields are read
whatever follows them, and that a payload that goes on does not end them earlier.

## Main definitions

* `Descriptor.Field.andThen`: Reading one field after another.
* `Descriptor.Field.Ordered`: A field is read byte after byte.
* `Descriptor.fields`: All fields of a descriptor.

## Theorems

* `Descriptor.Field.Ordered.andThen`: Fields that follow on each other are read in order.
* `Descriptor.ordered_fields`: All fields of a descriptor are.
* `Descriptor.parse_of_fields`: A descriptor is its fields, and needs a byte behind it.
-/

namespace VideoTransport

namespace Vp8

namespace Descriptor

/-- Reads one field after another. The second one may depend on the first. -/
def Field.andThen {α β : Type} (field : Field α) (next : α → Field β) : Field β :=
  fun payload pos => do
    let (v, pos) ← field payload pos
    next v payload pos

/-- A field is read byte after byte, from a place inside the payload on. Reading ends
    inside the payload, depends on nothing behind its end, and fails only where
    the payload ends. -/
structure Field.Ordered {α : Type} (field : Field α) : Prop where
  ends : ∀ payload pos v next, pos ≤ payload.length → field payload pos = .ok (v, next) →
    pos ≤ next ∧ next ≤ payload.length
  reads : ∀ payload pos v next, pos ≤ payload.length → field payload pos = .ok (v, next) →
    ∀ other, payload.take next <+: other → field other pos = .ok (v, next)
  stops : ∀ payload pos e, pos ≤ payload.length → field payload pos = .error e →
    e = ⟨payload.length + 1, payload.length⟩

section Steps

variable {α β : Type}

theorem byte_of_lt (payload : List UInt8) (pos : Nat) (h : pos < payload.length) :
    byte payload pos = .ok (payload[pos], pos + 1) := by
  rw [byte, List.getElem?_eq_getElem h]

theorem byte_of_le (payload : List UInt8) (pos : Nat) (h : payload.length ≤ pos) :
    byte payload pos = .error ⟨pos + 1, payload.length⟩ := by
  rw [byte, List.getElem?_eq_none h]

theorem ordered_byte : byte.Ordered where
  ends payload pos v next hpos h := by
    rcases Nat.lt_or_ge pos payload.length with hlt | hge
    · rw [byte_of_lt payload pos hlt] at h
      cases h
      exact ⟨Nat.le_succ pos, hlt⟩
    · rw [byte_of_le payload pos hge] at h
      cases h
  reads payload pos v next hpos h other hother := by
    rcases Nat.lt_or_ge pos payload.length with hlt | hge
    · rw [byte_of_lt payload pos hlt] at h
      cases h
      have hlen := hother.length_le
      rw [List.length_take] at hlen
      have hsame := hother.getElem (i := pos) (by rw [List.length_take]; omega)
      rw [List.getElem_take] at hsame
      rw [byte_of_lt other pos (by omega), hsame]
    · rw [byte_of_le payload pos hge] at h
      cases h
  stops payload pos e hpos h := by
    rcases Nat.lt_or_ge pos payload.length with hlt | hge
    · rw [byte_of_lt payload pos hlt] at h
      cases h
    · rw [byte_of_le payload pos hge] at h
      cases h
      rw [Nat.le_antisymm hpos hge]

theorem andThen_of_ok {field : Field α} {payload : List UInt8} {pos : Nat} {v : α} {mid : Nat}
    (h : field payload pos = .ok (v, mid)) (next : α → Field β) :
    field.andThen next payload pos = next v payload mid := by
  rw [Field.andThen, h]
  rfl

theorem andThen_of_error {field : Field α} {payload : List UInt8} {pos : Nat}
    {e : DescriptorError} (h : field payload pos = .error e) (next : α → Field β) :
    field.andThen next payload pos = .error e := by
  rw [Field.andThen, h]
  rfl

theorem andThen_eq_ok_iff (field : Field α) (next : α → Field β) (payload : List UInt8)
    (pos : Nat) (r : β × Nat) :
    field.andThen next payload pos = .ok r
      ↔ ∃ v mid, field payload pos = .ok (v, mid) ∧ next v payload mid = .ok r := by
  cases h : field payload pos with
  | error e =>
      rw [andThen_of_error h]
      simp only [reduceCtorEq, false_and, exists_false]
  | ok s =>
      rw [andThen_of_ok h]
      refine ⟨fun hr => ⟨s.1, s.2, rfl, hr⟩, ?_⟩
      rintro ⟨v, mid, hs, hr⟩
      cases hs
      exact hr

/-- Fields that follow on each other are read in order. -/
theorem Field.Ordered.andThen {field : Field α} {next : α → Field β} (hfield : field.Ordered)
    (hnext : ∀ v, (next v).Ordered) : (field.andThen next).Ordered where
  ends payload pos w last hpos h := by
    rcases (andThen_eq_ok_iff ..).1 h with ⟨v, mid, hv, hw⟩
    have hmid := hfield.ends payload pos v mid hpos hv
    have hlast := (hnext v).ends payload mid w last hmid.2 hw
    exact ⟨Nat.le_trans hmid.1 hlast.1, hlast.2⟩
  reads payload pos w last hpos h other hother := by
    rcases (andThen_eq_ok_iff ..).1 h with ⟨v, mid, hv, hw⟩
    have hmid := hfield.ends payload pos v mid hpos hv
    have hlast := (hnext v).ends payload mid w last hmid.2 hw
    have hfirst : payload.take mid <+: other :=
      (List.take_prefix_take_left hlast.1).trans hother
    rw [andThen_of_ok (hfield.reads payload pos v mid hpos hv other hfirst)]
    exact (hnext v).reads payload mid w last hmid.2 hw other hother
  stops payload pos e hpos h := by
    cases hv : field payload pos with
    | error e' =>
        rw [andThen_of_error hv] at h
        cases h
        exact hfield.stops payload pos e hpos hv
    | ok r =>
        rw [andThen_of_ok hv] at h
        exact (hnext r.1).stops payload r.2 e (hfield.ends payload pos r.1 r.2 hpos hv).2 h

-- What looks at no byte is read in order.
theorem ordered_nothing (v : Nat → α) : Field.Ordered fun _ pos => .ok (v pos, pos) where
  ends payload pos w next hpos h := by
    cases h
    exact ⟨Nat.le_refl _, hpos⟩
  reads payload pos w next _ h other _ := by
    cases h
    rfl
  stops payload pos e _ h := by
    cases h

theorem optional_true (field : Field α) :
    optional true field = field.andThen fun v _ pos => .ok (some v, pos) := by
  funext payload pos
  rw [optional, if_pos rfl, Field.andThen]
  cases field payload pos with
  | error e => rfl
  | ok r => rfl

theorem ordered_optional (present : Bool) (field : Field α) (h : field.Ordered) :
    (optional present field).Ordered := by
  cases present with
  | false => exact ordered_nothing fun _ => none
  | true =>
      rw [optional_true]
      exact h.andThen fun v => ordered_nothing fun _ => some v

theorem pictureIdField_eq : pictureIdField = byte.andThen fun b =>
    if b.toNat.testBit 7 then
      byte.andThen fun low _ pos => .ok (.ofWord (BigEndian.join16 b low), pos)
    else fun _ pos => .ok (.ofByte b, pos) := by
  funext payload pos
  rw [pictureIdField, Field.andThen]
  congr 1
  funext ⟨b, pos⟩
  dsimp only
  split
  · rfl
  · rfl

theorem ordered_pictureIdField : pictureIdField.Ordered := by
  rw [pictureIdField_eq]
  refine ordered_byte.andThen fun b => ?_
  split
  · exact ordered_byte.andThen fun low => ordered_nothing fun _ => _
  · exact ordered_nothing fun _ => _

theorem byte_eq_ok_iff (payload : List UInt8) (pos : Nat) (b : UInt8) (next : Nat) :
    byte payload pos = .ok (b, next) ↔ payload[pos]? = some b ∧ next = pos + 1 := by
  rw [byte]
  cases payload[pos]? with
  | none => simp only [reduceCtorEq, false_and]
  | some c => simp only [Except.ok.injEq, Prod.mk.injEq, Option.some.injEq, eq_comm]

theorem optional_true_eq_ok_iff (field : Field α) (payload : List UInt8) (pos : Nat)
    (v : Option α) (next : Nat) :
    optional true field payload pos = .ok (v, next)
      ↔ ∃ w, field payload pos = .ok (w, next) ∧ v = some w := by
  rw [optional_true, andThen_eq_ok_iff]
  constructor
  · rintro ⟨w, mid, hw, h⟩
    cases h
    exact ⟨w, hw, rfl⟩
  · rintro ⟨w, hw, rfl⟩
    exact ⟨w, next, hw, rfl⟩

end Steps

/-- All that comes behind the flags of a descriptor. -/
def behindFlags (flags more : Nat) : Field Descriptor :=
  (optional (more.testBit 7) pictureIdField).andThen fun pictureId =>
  (optional (more.testBit 6) byte).andThen fun baseLayerIndex =>
  (optional (more.testBit 5 || more.testBit 4) byte).andThen fun layerByte =>
  fun _ pos => return ({
    nonReference := flags.testBit 5
    startsPartition := flags.testBit 4
    partition := UInt8.ofNat (flags % 8)
    pictureId
    baseLayerIndex
    layerByte
    hasTemporalLayer := more.testBit 5
    length := pos
  }, pos)

/-- All fields of a descriptor, from the start of the payload. -/
def fields : Field Descriptor :=
  byte.andThen fun flags =>
  (optional (flags.toNat.testBit 7) byte).andThen fun more =>
  behindFlags flags.toNat (more.getD 0).toNat

theorem ordered_fields : fields.Ordered :=
  ordered_byte.andThen fun _ =>
  (ordered_optional _ _ ordered_byte).andThen fun _ =>
  (ordered_optional _ _ ordered_pictureIdField).andThen fun _ =>
  (ordered_optional _ _ ordered_byte).andThen fun _ =>
  (ordered_optional _ _ ordered_byte).andThen fun _ => ordered_nothing _

theorem parse_eq (payload : List UInt8) (h : 2 ≤ payload.length) :
    parse payload = do
      let (d, pos) ← fields payload 0
      if payload.length ≤ pos then throw ⟨pos, payload.length⟩
      return d := by
  rw [parse, if_neg (Nat.not_lt.2 h)]
  simp only [fields, behindFlags, Field.andThen, bind_assoc, pure_bind]

theorem parse_of_error (payload : List UInt8) (hlen : 2 ≤ payload.length) (e : DescriptorError)
    (h : fields payload 0 = .error e) : parse payload = .error e := by
  rw [parse_eq payload hlen, h]
  rfl

-- A descriptor that has been read needs a byte behind it.
theorem parse_of_fields (payload : List UInt8) (hlen : 2 ≤ payload.length) (d : Descriptor)
    (next : Nat) (h : fields payload 0 = .ok (d, next)) :
    parse payload
      = if payload.length ≤ next then .error ⟨next, payload.length⟩ else .ok d := by
  rw [parse_eq payload hlen, h]
  by_cases hend : payload.length ≤ next
  · simp only [bind, Except.bind, if_pos hend]
    rfl
  · simp only [bind, Except.bind, if_neg hend]
    rfl

end Descriptor

end Vp8

end VideoTransport
