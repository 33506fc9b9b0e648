import Velocity.Lib.Blocks
import Mathlib.Data.Finmap

namespace Velocity

open Lib List

/-!
# Event serialization

`deserialize_event` demands 26 bytes and indexes 30, which is `none`.
-/

/-! ### The format -/

inductive EncodingType where
  | proto3
  | json
  | msgPack
  | thrift
  deriving DecidableEq

structure SerializedData where
  data : Bytes
  encoding : EncodingType
  schemaVersion : Int32

inductive SerializationError where
  | invalidData (reason : String)
  | invalidUtf8
  deriving DecidableEq

abbrev Attributes := Finmap fun _ : String => Bytes

structure SerializableEvent where
  eventType : Int32
  eventId : Int64
  timestamp : Int64
  attributes : Attributes
  schemaVersion : Int32
  deriving DecidableEq

structure IteratedEvent where
  event : SerializableEvent
  order : AList fun _ : String => Bytes
  iterates : order.toFinmap = event.attributes

def asBytes (s : String) : Bytes := s.toUTF8.data.toList

def fromUtf8 (bytes : Bytes) : Option String := String.fromUTF8? ⟨bytes.toArray⟩

def magic : Bytes := [0x56, 0x45]

def attributeBytes (a : Sigma fun _ : String => Bytes) : Bytes := block (asBytes a.1) ++ block a.2

def serializeEvent (encoding : EncodingType) (e : IteratedEvent) : SerializedData where
  data :=
    magic ++ (beBytes 4 e.event.schemaVersion.toUInt32.toNat
      ++ (beBytes 4 e.event.eventType.toUInt32.toNat
      ++ (beBytes 8 e.event.eventId.toUInt64.toNat
      ++ (beBytes 8 e.event.timestamp.toUInt64.toNat
      ++ (beBytes 4 e.event.attributes.entries.card ++ e.order.entries.flatMap attributeBytes)))))
  encoding := encoding
  schemaVersion := e.event.schemaVersion

def serializeBatch (encoding : EncodingType) (events : List IteratedEvent) : SerializedData where
  data := beBytes 4 events.length
    ++ events.flatMap (fun e => block (serializeEvent encoding e).data)
  encoding := encoding
  schemaVersion := (events.head?.map (fun e => e.event.schemaVersion)).getD 0

def numberAt (buf : Bytes) (offset width : Nat) : Nat := beNat ((buf.drop offset).take width)

def readAttributes : Nat → Bytes → Attributes → Except SerializationError Attributes
  | 0, _, attributes => .ok attributes
  | n + 1, rest, attributes =>
    match readBlock rest with
    | .noLength => .error (.invalidData "truncated key len")
    | .short => .error (.invalidData "truncated key")
    | .block keyBytes rest =>
      match fromUtf8 keyBytes with
      | none => .error .invalidUtf8
      | some key =>
        match readBlock rest with
        | .noLength => .error (.invalidData "truncated val len")
        | .short => .error (.invalidData "truncated val")
        | .block value rest => readAttributes n rest (attributes.insert key value)

def deserializeEvent (data : SerializedData) :
    Option (Except SerializationError SerializableEvent) :=
  let buf := data.data
  if buf.length < 26 then some (.error (.invalidData "too short"))
  else if buf.take 2 ≠ magic then some (.error (.invalidData "bad magic"))
  else if buf.length < 30 then none  -- the bytes of the count are indexed
  else some ((readAttributes (numberAt buf 26 4) (buf.drop 30) ∅).map fun attributes =>
    { eventType := (UInt32.ofNat (numberAt buf 6 4)).toInt32
      eventId := (UInt64.ofNat (numberAt buf 10 8)).toInt64
      timestamp := (UInt64.ofNat (numberAt buf 18 8)).toInt64
      attributes := attributes
      schemaVersion := (UInt32.ofNat (numberAt buf 2 4)).toInt32 })

def readEvents (data : SerializedData) :
    Nat → Bytes → Option (Except SerializationError (List SerializableEvent))
  | 0, _ => some (.ok [])
  | n + 1, rest =>
    match readBlock rest with
    | .noLength => some (.ok [])
    | .short => some (.ok [])
    | .block single rest =>
      match deserializeEvent { data with data := single } with
      | none => none
      | some (.error e) => some (.error e)
      | some (.ok event) => (readEvents data n rest).map (Except.map (event :: ·))

def deserializeBatch (data : SerializedData) :
    Option (Except SerializationError (List SerializableEvent)) :=
  if data.data.length < 4 then some (.error (.invalidData "too short"))
  else readEvents data (numberAt data.data 0 4) (data.data.drop 4)

/-! ### Round trip -/

theorem fromUtf8_asBytes (s : String) : fromUtf8 (asBytes s) = some s := by
  have hvalid : s.toUTF8.IsValidUTF8 := s.isValidUTF8
  exact dif_pos hvalid

theorem readAttributes_append {entries : List (Sigma fun _ : String => Bytes)}
    (hentries : ∀ a ∈ entries, (asBytes a.1).length < 2 ^ 32 ∧ a.2.length < 2 ^ 32)
    (rest : Bytes) (attributes : Attributes) :
    readAttributes entries.length (entries.flatMap attributeBytes ++ rest) attributes
      = .ok (entries.foldl (fun m a => m.insert a.1 a.2) attributes) := by
  induction entries generalizing attributes with
  | nil => rfl
  | cons a entries ih =>
    obtain ⟨⟨hkey, hvalue⟩, htail⟩ := forall_mem_cons.mp hentries
    have hbytes : (a :: entries).flatMap attributeBytes ++ rest
        = block (asBytes a.1) ++ (block a.2 ++ (entries.flatMap attributeBytes ++ rest)) := by
      simp [attributeBytes]
    rw [hbytes, length_cons, readAttributes, readBlock_block hkey]
    simp only [fromUtf8_asBytes, readBlock_block hvalue]
    exact ih htail _

theorem lookup_foldl_insert {κ : Type} [DecidableEq κ] {entries : List (Sigma fun _ : κ => Bytes)}
    (h : entries.NodupKeys) (m : Finmap fun _ : κ => Bytes) (key : κ) :
    (entries.foldl (fun m a => m.insert a.1 a.2) m).lookup key
      = (entries.dlookup key).or (m.lookup key) := by
  induction entries generalizing m with
  | nil => rfl
  | cons a entries ih =>
    obtain ⟨hkey, htail⟩ := nodupKeys_cons.mp h
    rw [foldl_cons, ih htail]
    by_cases heq : key = a.1
    · subst heq
      rw [dlookup_eq_none.mpr hkey, Finmap.lookup_insert, dlookup_cons_eq]
      rfl
    · rw [Finmap.lookup_insert_of_ne _ heq, dlookup_cons_ne _ _ heq]

theorem foldl_insert_entries {κ : Type} [DecidableEq κ] (order : AList fun _ : κ => Bytes) :
    order.entries.foldl (fun m a => m.insert a.1 a.2) ∅ = order.toFinmap := by
  refine Finmap.ext_lookup fun key => ?_
  rw [lookup_foldl_insert order.nodupKeys, Finmap.lookup_empty, Option.or_none]
  rfl

theorem length_le_flatMap (entries : List (Sigma fun _ : String => Bytes)) :
    entries.length ≤ (entries.flatMap attributeBytes).length ∧
      ∀ a ∈ entries, (asBytes a.1).length ≤ (entries.flatMap attributeBytes).length ∧
        a.2.length ≤ (entries.flatMap attributeBytes).length := by
  induction entries with
  | nil => simp
  | cons a entries ih =>
    have hlength : ((a :: entries).flatMap attributeBytes).length
        = (asBytes a.1).length + a.2.length + 8 + (entries.flatMap attributeBytes).length := by
      simp only [flatMap_cons, attributeBytes, block, length_append, length_beBytes]
      omega
    rw [hlength, length_cons]
    refine ⟨by omega, forall_mem_cons.mpr ⟨⟨by omega, by omega⟩, fun b hb => ?_⟩⟩
    have hb := ih.2 b hb
    omega

variable {rest bytes : Bytes}

theorem numberAt_of_drop {buf word : Bytes} {offset width : Nat}
    (h : buf.drop offset = word ++ rest) (hword : word.length = width) :
    numberAt buf offset width = beNat word := by
  rw [numberAt, h, take_left' hword]

theorem drop_add_of_drop {buf word : Bytes} {offset width : Nat}
    (h : buf.drop offset = word ++ rest) (hword : word.length = width) :
    buf.drop (offset + width) = rest := by
  rw [← drop_drop, h, drop_left' hword]

theorem toInt32_ofNat (x : Int32) :
    (UInt32.ofNat (beNat (beBytes 4 x.toUInt32.toNat))).toInt32 = x := by
  rw [beNat_beBytes x.toUInt32.toNat_lt, UInt32.ofNat_toNat, Int32.toInt32_toUInt32]

theorem toInt64_ofNat (x : Int64) :
    (UInt64.ofNat (beNat (beBytes 8 x.toUInt64.toNat))).toInt64 = x := by
  rw [beNat_beBytes x.toUInt64.toNat_lt, UInt64.ofNat_toNat, Int64.toInt64_toUInt64]

theorem deserializeEvent_serializeEvent {encoding : EncodingType} {e : IteratedEvent}
    (h : (serializeEvent encoding e).data.length < 2 ^ 32) {data : SerializedData}
    (hdata : data.data = (serializeEvent encoding e).data) :
    deserializeEvent data = some (.ok e.event) := by
  have hcard : e.event.attributes.entries.card = e.order.entries.length := by
    rw [← e.iterates]
    rfl
  obtain ⟨hcount, hparts⟩ := length_le_flatMap e.order.entries
  simp only [serializeEvent, hcard] at h hdata
  simp only [length_append, length_beBytes, magic, length_cons, length_nil] at h
  generalize hbuf : data.data = buf at hdata
  have hlength : 30 ≤ buf.length := by
    rw [hdata]
    simp only [length_append, length_beBytes, magic, length_cons]
    omega
  have hmagic : buf.take 2 = magic := hdata ▸ rfl
  have h2 : buf.drop 2 = _ := drop_add_of_drop (show buf.drop 0 = _ from hdata) rfl
  have h6 : buf.drop 6 = _ := drop_add_of_drop h2 (length_beBytes 4 _)
  have h10 : buf.drop 10 = _ := drop_add_of_drop h6 (length_beBytes 4 _)
  have h18 : buf.drop 18 = _ := drop_add_of_drop h10 (length_beBytes 8 _)
  have h26 : buf.drop 26 = _ := drop_add_of_drop h18 (length_beBytes 8 _)
  have h30 : buf.drop 30 = _ := drop_add_of_drop h26 (length_beBytes 4 _)
  have hread : readAttributes e.order.entries.length
      (e.order.entries.flatMap attributeBytes ++ []) ∅ = .ok _ :=
    readAttributes_append (fun a ha => by have := hparts a ha; omega) _ _
  rw [append_nil, foldl_insert_entries, e.iterates] at hread
  have hnumber : beNat (beBytes 4 e.order.entries.length) = e.order.entries.length :=
    beNat_beBytes (show _ < 256 ^ 4 by omega)
  simp only [deserializeEvent, hbuf]
  rw [if_neg (by omega), if_neg (by simp [hmagic]), if_neg (by omega),
    numberAt_of_drop h2 (length_beBytes 4 _), numberAt_of_drop h6 (length_beBytes 4 _),
    numberAt_of_drop h10 (length_beBytes 8 _), numberAt_of_drop h18 (length_beBytes 8 _),
    numberAt_of_drop h26 (length_beBytes 4 _), h30, hnumber, hread,
    toInt32_ofNat, toInt32_ofNat, toInt64_ofNat, toInt64_ofNat]
  rfl

variable (data : SerializedData)

theorem readEvents_append {encoding : EncodingType} {events : List IteratedEvent}
    (h : ∀ e ∈ events, (serializeEvent encoding e).data.length < 2 ^ 32) :
    readEvents data events.length
        (events.flatMap fun e => block (serializeEvent encoding e).data)
      = some (.ok (events.map IteratedEvent.event)) := by
  induction events with
  | nil => rfl
  | cons e events ih =>
    obtain ⟨he, hevents⟩ := forall_mem_cons.mp h
    rw [flatMap_cons, length_cons, readEvents, readBlock_block he]
    have hone : deserializeEvent { data with data := (serializeEvent encoding e).data } = _ :=
      deserializeEvent_serializeEvent he rfl
    simp only [hone, ih hevents]
    rfl

/-- **Batches** are read back, whatever order each map was iterated in. -/
theorem deserializeBatch_serializeBatch (encoding : EncodingType) {events : List IteratedEvent}
    (hcount : events.length < 2 ^ 32)
    (hsize : ∀ e ∈ events, (serializeEvent encoding e).data.length < 2 ^ 32) :
    deserializeBatch (serializeBatch encoding events)
      = some (.ok (events.map IteratedEvent.event)) := by
  have hlength := length_beBytes 4 events.length
  rw [deserializeBatch, serializeBatch, if_neg (by simp), numberAt, drop_zero,
    take_left' hlength, drop_left' hlength, beNat_beBytes hcount]
  exact readEvents_append _ hsize

def startedEvent : IteratedEvent where
  event := ⟨1, 7, 1000, (AList.singleton "input" [3, 4]).toFinmap, 2⟩
  order := AList.singleton "input" [3, 4]
  iterates := rfl

theorem deserializeBatch_serializeBatch_started :
    deserializeBatch (serializeBatch .proto3 [startedEvent, startedEvent])
      = some (.ok [startedEvent.event, startedEvent.event]) :=
  deserializeBatch_serializeBatch .proto3 (by decide) (by decide)

/-! ### Other buffers -/

/-- The buffer ends inside the header. -/
def HeaderCut (buf : Bytes) : Prop := 26 ≤ buf.length ∧ buf.length < 30 ∧ buf.take 2 = magic

def IsUtf8 (bytes : Bytes) : Prop := (ByteArray.mk bytes.toArray).IsValidUTF8

inductive AttributeLayout : Nat → Bytes → Prop where
  | nil (rest : Bytes) : AttributeLayout 0 rest
  | cons {n : Nat} {key value rest : Bytes} (hkey : key.length < 2 ^ 32) (hutf8 : IsUtf8 key)
      (hvalue : value.length < 2 ^ 32) (h : AttributeLayout n rest) :
      AttributeLayout (n + 1) (block key ++ (block value ++ rest))

def EventLayout (buf : Bytes) : Prop :=
  30 ≤ buf.length ∧ buf.take 2 = magic ∧ AttributeLayout (numberAt buf 26 4) (buf.drop 30)

/-- The bytes do not suffice for the next event, or its header is cut. -/
def Broken : Nat → Bytes → Prop
  | 0, _ => False
  | n + 1, bytes =>
    bytes.length < 4 ∨
      (∃ head rest, bytes = head ++ rest ∧ head.length = 4 ∧ rest.length < beNat head) ∨
      ∃ event rest, bytes = block event ++ rest ∧ event.length < 2 ^ 32 ∧
        (HeaderCut event ∨ EventLayout event ∧ Broken n rest)

theorem fromUtf8_of_isUtf8 (h : IsUtf8 bytes) : ∃ s, fromUtf8 bytes = some s :=
  ⟨_, dif_pos h⟩

theorem isUtf8_of_fromUtf8 {s : String} (h : fromUtf8 bytes = some s) : IsUtf8 bytes := by
  by_contra hnot
  have hnone : fromUtf8 bytes = none := dif_neg hnot
  rw [hnone] at h
  cases h

variable {n : Nat}

theorem AttributeLayout.readAttributes_eq (h : AttributeLayout n bytes)
    (attributes : Attributes) : ∃ read, readAttributes n bytes attributes = .ok read := by
  induction h generalizing attributes with
  | nil rest => exact ⟨attributes, rfl⟩
  | cons hkey hutf8 hvalue _ ih =>
    obtain ⟨key, hread⟩ := fromUtf8_of_isUtf8 hutf8
    rw [readAttributes, readBlock_block hkey]
    simp only [hread, readBlock_block hvalue]
    exact ih _

theorem attributeLayout_of_readAttributes {attributes read : Attributes}
    (h : readAttributes n bytes attributes = .ok read) : AttributeLayout n bytes := by
  induction n generalizing bytes attributes with
  | zero => exact .nil bytes
  | succ n ih =>
    rw [readAttributes] at h
    rcases readBlock_cases bytes with ⟨-, hblock⟩ | ⟨_, _, -, -, -, hblock⟩ |
      ⟨key, rest, rfl, hkey, hblock⟩
    · rw [hblock] at h
      cases h
    · rw [hblock] at h
      cases h
    rw [hblock] at h
    cases hutf8 : fromUtf8 key with
    | none =>
      simp only [hutf8] at h
      cases h
    | some name =>
      simp only [hutf8] at h
      rcases readBlock_cases rest with ⟨-, hblock⟩ | ⟨_, _, -, -, -, hblock⟩ |
        ⟨value, rest, rfl, hvalue, hblock⟩
      · rw [hblock] at h
        cases h
      · rw [hblock] at h
        cases h
      rw [hblock] at h
      exact .cons hkey (isUtf8_of_fromUtf8 hutf8) hvalue (ih h)

theorem deserializeEvent_cases : (HeaderCut data.data ∧ deserializeEvent data = none) ∨
      (EventLayout data.data ∧ ∃ event, deserializeEvent data = some (.ok event)) ∨
      (¬ HeaderCut data.data ∧ ¬ EventLayout data.data ∧
        ∃ e, deserializeEvent data = some (.error e)) := by
  unfold deserializeEvent
  by_cases hshort : data.data.length < 26
  · exact .inr (.inr ⟨fun h => Nat.not_lt.mpr h.1 hshort, fun h => by have := h.1; omega,
      _, if_pos hshort⟩)
  by_cases hmagic : data.data.take 2 = magic
  · by_cases hcut : data.data.length < 30
    · refine .inl ⟨⟨Nat.not_lt.mp hshort, hcut, hmagic⟩, ?_⟩
      simp [hshort, hmagic, hcut]
    · have hlong : 30 ≤ data.data.length := Nat.not_lt.mp hcut
      simp only [hshort, hmagic, hcut, if_false, ne_eq, not_true]
      refine .inr ?_
      cases hread : readAttributes (numberAt data.data 26 4) (data.data.drop 30) ∅ with
      | ok read =>
        exact .inl ⟨⟨hlong, hmagic, attributeLayout_of_readAttributes hread⟩, _, rfl⟩
      | error e =>
        refine .inr ⟨fun h => hcut h.2.1, fun h => ?_, e, rfl⟩
        obtain ⟨read, hok⟩ := h.2.2.readAttributes_eq ∅
        rw [hread] at hok
        cases hok
  · refine .inr (.inr ⟨fun h => hmagic h.2.2, fun h => hmagic h.2.1,
      .invalidData "bad magic", ?_⟩)
    simp [hshort, hmagic]

theorem broken_block_iff {event : Bytes} (h : event.length < 2 ^ 32) :
    Broken (n + 1) (block event ++ rest) ↔ HeaderCut event ∨ EventLayout event ∧ Broken n rest := by
  constructor
  · rintro (hshort | ⟨head, rest', hbytes, hhead, hshort⟩ | ⟨event', rest', hbytes, h', hbroken⟩)
    · rw [block, append_assoc, length_append, length_beBytes] at hshort
      omega
    · have hread := readBlock_block h rest
      rw [hbytes, readBlock_append hhead, if_pos hshort] at hread
      cases hread
    · have hread := readBlock_block h rest
      rw [hbytes, readBlock_block h'] at hread
      cases hread
      exact hbroken
  · exact fun hbroken => .inr (.inr ⟨event, rest, rfl, h, hbroken⟩)

def Complete (n : Nat) (r : Option (Except SerializationError (List SerializableEvent))) : Prop :=
  ∃ result, r = some result ∧ ∀ events, result = .ok events → events.length = n

theorem complete_cons_iff (event : SerializableEvent)
    (r : Option (Except SerializationError (List SerializableEvent))) :
    Complete (n + 1) (r.map (Except.map (event :: ·))) ↔ Complete n r := by
  rcases r with _ | ⟨e | events⟩
  · exact iff_of_false (by rintro ⟨_, ⟨⟩, -⟩) (by rintro ⟨_, ⟨⟩, -⟩)
  · exact iff_of_true ⟨_, rfl, fun _ h => by cases h⟩ ⟨_, rfl, fun _ h => by cases h⟩
  · constructor
    · rintro ⟨_, ⟨⟩, h⟩
      exact ⟨_, rfl, fun _ heq => by cases heq; exact Nat.succ.inj (h _ rfl)⟩
    · rintro ⟨_, ⟨⟩, h⟩
      exact ⟨_, rfl, fun _ heq => by cases heq; exact congrArg (· + 1) (h _ rfl)⟩

theorem complete_readEvents_iff (n : Nat) (bytes : Bytes) :
    Complete n (readEvents data n bytes) ↔ ¬ Broken n bytes := by
  induction n generalizing bytes with
  | zero => exact iff_of_true ⟨_, rfl, fun events h => by cases h; rfl⟩ id
  | succ n ih =>
    have hempty : ¬ Complete (n + 1) (some (.ok [])) := by
      rintro ⟨_, ⟨⟩, h⟩
      cases h [] rfl
    unfold readEvents
    rcases readBlock_cases bytes with ⟨hshort, hblock⟩ |
      ⟨head, rest, hbytes, hhead, hshort, hblock⟩ | ⟨single, rest, rfl, hsingle, hblock⟩
    · rw [hblock]
      exact iff_of_false hempty (not_not.mpr (.inl hshort))
    · rw [hblock]
      exact iff_of_false hempty (not_not.mpr (.inr (.inl ⟨head, rest, hbytes, hhead, hshort⟩)))
    rw [hblock, broken_block_iff hsingle]
    rcases deserializeEvent_cases { data with data := single } with ⟨hcut, hread⟩ |
      ⟨hlayout, event, hread⟩ | ⟨hcut, hlayout, e, hread⟩
    · simp only [hread]
      refine iff_of_false ?_ (not_not.mpr (.inl hcut))
      rintro ⟨_, ⟨⟩, -⟩
    · have hcut : ¬ HeaderCut single := fun h => Nat.not_lt.mpr hlayout.1 h.2.1
      simp only [hread]
      rw [complete_cons_iff, ih, not_or, not_and]
      exact ⟨fun h => ⟨hcut, fun _ => h⟩, fun h => h.2 hlayout⟩
    · simp only [hread]
      refine iff_of_true ⟨_, rfl, fun events h => by cases h⟩ ?_
      exact not_or.mpr ⟨hcut, fun h => hlayout h.1⟩

/-- **Robustness**, unless the header is cut or a batch's bytes do not suffice. -/
theorem robust_iff (data : SerializedData) :
    ((∃ result, deserializeEvent data = some result) ∧
        ∃ result, deserializeBatch data = some result ∧
          ∀ events, result = .ok events → events.length = numberAt data.data 0 4) ↔
      ¬ HeaderCut data.data ∧
        (4 ≤ data.data.length → ¬ Broken (numberAt data.data 0 4) (data.data.drop 4)) := by
  refine and_congr ?_ ?_
  · rcases deserializeEvent_cases data with ⟨hcut, hread⟩ | ⟨hlayout, event, hread⟩ |
      ⟨hcut, -, e, hread⟩
    · rw [hread]
      exact iff_of_false (by simp) (not_not.mpr hcut)
    · exact iff_of_true ⟨_, hread⟩ fun h => Nat.not_lt.mpr hlayout.1 h.2.1
    · exact iff_of_true ⟨_, hread⟩ hcut
  · unfold deserializeBatch
    by_cases hshort : data.data.length < 4
    · rw [if_pos hshort]
      exact iff_of_true ⟨_, rfl, fun _ h => by cases h⟩ fun h => absurd hshort (Nat.not_lt.mpr h)
    · rw [if_neg hshort, ← complete_readEvents_iff data]
      exact ⟨fun h _ => h, fun h => h (Nat.not_lt.mp hshort)⟩

theorem cut_buffers :
    deserializeEvent ⟨magic ++ List.replicate 24 0, .proto3, 0⟩ = none
      ∧ deserializeBatch ⟨[0, 0, 0, 1], .proto3, 0⟩ = some (.ok []) := by
  decide

end Velocity
