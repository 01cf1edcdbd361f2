import TagLedger.Entry.Codec
import TagLedger.Proofs.Text.Identifier
import TagLedger.Proofs.Text.Moment

/-!
Entries as they are written. The members of an entry are those of its header and those of its body,
under different names, so each part is read back from the whole. What is read back is the entry that
was written, but for data that is null, which counts as absent.
-/

namespace TagLedger

open Json (Members)
open Json.Decode (FieldDecoder)

namespace Json.Decode

variable {σ : Type} {known : List (FieldDecoder σ)}

/-- Members that belong to no field are passed over. -/
theorem fields_append_of_unknown_left {ms : Members}
    (h : ∀ m ∈ ms, known.find? (fun f => f.name == m.1) = none) (rest : Members)
    (seen : List String) (s : σ) : fields known (ms ++ rest) seen s = fields known rest seen s := by
  induction ms with
  | nil => rfl
  | cons m ms ih =>
    obtain ⟨k, v⟩ := m
    have hk : known.find? (fun f => f.name == k) = none := h (k, v) List.mem_cons_self
    rw [List.cons_append, fields, hk]
    exact ih fun m hm => h m (List.mem_cons_of_mem _ hm)

theorem fields_append_of_unknown_right {rest : Members}
    (h : ∀ m ∈ rest, known.find? (fun f => f.name == m.1) = none) (ms : Members)
    (seen : List String) (s : σ) : fields known (ms ++ rest) seen s = fields known ms seen s := by
  induction ms generalizing seen s with
  | nil =>
    have hrest := fields_append_of_unknown_left h [] seen s
    rwa [List.append_nil] at hrest
  | cons m ms ih =>
    obtain ⟨k, v⟩ := m
    simp only [List.cons_append, fields, ih]

end Json.Decode

@[simp] theorem Uuid.decode_toJson (u : Uuid) : Uuid.decode u.toJson = .ok u := by
  simp [Uuid.decode, Uuid.toJson, Uuid.toString, Uuid.parse_toText]

theorem Timestamp.decode_toJson {t : Timestamp} (h : t.IsWritable) :
    Timestamp.decode t.toJson = .ok t := by
  simp [Timestamp.decode, Timestamp.toJson, Timestamp.parse_toText h]

namespace Header

structure IsWritable (h : Header) : Prop where
  index : ∀ i ∈ h.index, i ≤ maxU64
  timestamp : h.timestamp.IsWritable

instance (h : Header) : Decidable h.IsWritable :=
  decidable_of_iff ((∀ i ∈ h.index, i ≤ maxU64) ∧ h.timestamp.IsWritable)
    ⟨fun ⟨hindex, htime⟩ => ⟨hindex, htime⟩, fun hw => ⟨hw.index, hw.timestamp⟩⟩

theorem decode_members {h : Header} (hw : h.IsWritable) : decode h.members = .ok h := by
  obtain ⟨id, index, timestamp, done, processed⟩ := h
  have htime : Timestamp.decode timestamp.toJson = .ok timestamp :=
    Timestamp.decode_toJson hw.timestamp
  cases index with
  | none =>
    simp [decode, members, fields, Json.Decode.fields, htime, Json.Decode.bool, bind, Except.bind,
      pure, Except.pure, blank]
  | some i =>
    have hi : i ≤ maxU64 := hw.index i rfl
    simp [decode, members, fields, Json.Decode.fields, htime, Json.Decode.bool, bind, Except.bind,
      pure, Except.pure, Except.map, Json.Decode.optional, Json.Decode.natural, Json.ofNat, hi]

def names : List String := fields.map fun f => f.name

theorem name_mem_names {h : Header} {m : String × Json} (hm : m ∈ h.members) : m.1 ∈ names := by
  obtain ⟨id, index, timestamp, done, processed⟩ := h
  cases index with
  | none =>
    simp only [members, List.nil_append, List.mem_cons, List.not_mem_nil, or_false] at hm
    rcases hm with rfl | rfl | rfl | rfl <;> simp [names, fields]
  | some i =>
    simp only [members, List.cons_append, List.nil_append, List.mem_cons, List.not_mem_nil,
      or_false] at hm
    rcases hm with rfl | rfl | rfl | rfl | rfl <;> simp [names, fields]

end Header

namespace Entry

/-- A body is read back from the members of an entry if its names are none of the header's. -/
theorem decodeWith_members {σ : Type} {start s : σ} {setHeader : Header → σ → σ}
    {expected : String} {h : Header} (hw : h.IsWritable) (known : List (FieldDecoder σ))
    (body : Members) (names : List String) (hnames : body.map Prod.fst = names)
    (hknown : ∀ k ∈ Header.names, known.find? (fun f => f.name == k) = none)
    (hbody : ∀ k ∈ names, Header.fields.find? (fun f => f.name == k) = none)
    (hread : Json.Decode.fields known body [] start = .ok s) :
    decodeWith expected known start setHeader (.obj (h.members ++ body)) =
      .ok (setHeader h s) := by
  have hbodyRead : Json.Decode.fields known (h.members ++ body) [] start = .ok s := by
    rw [Json.Decode.fields_append_of_unknown_left
      fun m hm => hknown m.1 (Header.name_mem_names hm), hread]
  have hheaderRead : Header.decode (h.members ++ body) = .ok h := by
    rw [Header.decode, Json.Decode.fields_append_of_unknown_right fun m hm =>
      hbody m.1 (hnames ▸ List.mem_map_of_mem hm)]
    exact Header.decode_members hw
  simp only [decodeWith, hbodyRead, hheaderRead]
  rfl

/-- Optional data as it is read back: null counts as absent. -/
def readData : Option Json → Option Json
  | some .null => none
  | data => data

@[simp] theorem optional_ofOption_data (data : Option Json) :
    Json.Decode.optional .ok (Json.ofOption (·) data) = .ok (readData data) := by
  cases data with
  | none => rfl
  | some j => cases j <;> rfl

@[simp] theorem optional_ofOption_str (text : Option String) :
    Json.Decode.optional Json.Decode.string (Json.ofOption .str text) = .ok text := by
  cases text <;> rfl

theorem Thought.decode_members {e : Thought} (h : e.toHeader.IsWritable) :
    Thought.decode (.obj e.members) = .ok e := by
  refine decodeWith_members (s := { e with toHeader := Header.blank }) h fields _ ["content"] ?_
    (by decide) (by decide) ?_
  · rfl
  · simp [fields, Json.Decode.fields, stringField, Json.Decode.string, bind, Except.bind, pure,
      Except.pure]

theorem Input.decode_members {e : Input} (h : e.toHeader.IsWritable) :
    Input.decode (.obj e.members) = .ok { e with data := readData e.data } := by
  refine decodeWith_members (s := { e with toHeader := Header.blank, data := readData e.data }) h
    fields _ ["type", "content", "data", "params", "formatted"] ?_ (by decide) (by decide) ?_
  · rfl
  · simp [fields, Json.Decode.fields, stringField, optionalValueField, optionalStringField,
      membersField, Json.Decode.string, Json.Decode.members, bind, Except.bind, pure, Except.pure]

theorem Output.decode_members {e : Output} (h : e.toHeader.IsWritable) :
    Output.decode (.obj e.members) = .ok { e with data := readData e.data } := by
  refine decodeWith_members (s := { e with toHeader := Header.blank, data := readData e.data }) h
    fields _ ["type", "content", "data", "params", "formatted"] ?_ (by decide) (by decide) ?_
  · rfl
  · simp [fields, Json.Decode.fields, stringField, optionalValueField, optionalStringField,
      membersField, Json.Decode.string, Json.Decode.members, bind, Except.bind, pure, Except.pure]

theorem Call.decode_members {e : Call} (h : e.toHeader.IsWritable) :
    Call.decode (.obj e.members) = .ok { e with data := readData e.data } := by
  refine decodeWith_members (s := { e with toHeader := Header.blank, data := readData e.data }) h
    fields _ ["name", "content", "data", "params"] ?_ (by decide) (by decide) ?_
  · rfl
  · simp [fields, Json.Decode.fields, stringField, optionalValueField, membersField,
      Json.Decode.string, Json.Decode.members, bind, Except.bind, pure, Except.pure]

theorem Result.decode_members {e : Result} (h : e.toHeader.IsWritable) :
    Result.decode (.obj e.members) = .ok e := by
  refine decodeWith_members (s := { e with toHeader := Header.blank }) h fields _
    ["call_id", "name", "data", "formatted"] ?_ (by decide) (by decide) ?_
  · rfl
  · simp [fields, Json.Decode.fields, stringField, optionalStringField, Json.Decode.string, bind,
      Except.bind, pure, Except.pure]

theorem Event.decode_members {e : Event} (h : e.toHeader.IsWritable) :
    Event.decode (.obj e.members) = .ok e := by
  refine decodeWith_members (s := { e with toHeader := Header.blank }) h fields _
    ["name", "data", "params"] ?_ (by decide) (by decide) ?_
  · rfl
  · simp [fields, Json.Decode.fields, stringField, membersField, Json.Decode.string,
      Json.Decode.members, bind, Except.bind, pure, Except.pure]

theorem Step.decode_members {e : Step} (h : e.toHeader.IsWritable) (hstep : e.step ≤ maxU32) :
    Step.decode (.obj e.members) = .ok e := by
  refine decodeWith_members (s := { e with toHeader := Header.blank }) h fields _
    ["step", "type"] ?_ (by decide) (by decide) ?_
  · rfl
  · simp [fields, Json.Decode.fields, stringField, Json.Decode.natural, Json.ofNat, hstep,
      Json.Decode.string, bind, Except.bind, pure, Except.pure]

theorem Run.decode_members {e : Run} (h : e.toHeader.IsWritable) :
    Run.decode (.obj e.members) = .ok e := by
  refine decodeWith_members (s := { e with toHeader := Header.blank }) h fields _ ["type"] ?_
    (by decide) (by decide) ?_
  · rfl
  · simp [fields, Json.Decode.fields, stringField, Json.Decode.string, bind, Except.bind, pure,
      Except.pure]

/-- The number that an entry of a step carries. -/
def stepNumber? : Entry → Option Nat
  | .step e => some e.step
  | _ => none

/-- Whether an entry is in the range of its written form. -/
structure IsWritable (e : Entry) : Prop where
  header : e.header.IsWritable
  step : ∀ n ∈ e.stepNumber?, n ≤ maxU32

instance (e : Entry) : Decidable e.IsWritable :=
  decidable_of_iff (e.header.IsWritable ∧ ∀ n ∈ e.stepNumber?, n ≤ maxU32)
    ⟨fun ⟨hheader, hstep⟩ => ⟨hheader, hstep⟩, fun h => ⟨h.header, h.step⟩⟩

/-- The entry as it is read back. -/
def readBack : Entry → Entry
  | .input e => .input { e with data := readData e.data }
  | .output e => .output { e with data := readData e.data }
  | .call e => .call { e with data := readData e.data }
  | e => e

/-- Every kind of entry is read back from its header and body. -/
theorem decodeKind_bodyMembers {e : Entry} (h : e.IsWritable) :
    decodeKind e.kind (.obj e.bodyMembers) = .ok e.readBack := by
  have hheader := h.header
  cases e with
  | thought e => exact congrArg (Except.map Entry.thought) (Thought.decode_members hheader)
  | input e => exact congrArg (Except.map Entry.input) (Input.decode_members hheader)
  | output e => exact congrArg (Except.map Entry.output) (Output.decode_members hheader)
  | call e => exact congrArg (Except.map Entry.call) (Call.decode_members hheader)
  | result e => exact congrArg (Except.map Entry.result) (Result.decode_members hheader)
  | event e => exact congrArg (Except.map Entry.event) (Event.decode_members hheader)
  | step e => exact congrArg (Except.map Entry.step) (Step.decode_members hheader (h.step e.step rfl))
  | run e => exact congrArg (Except.map Entry.run) (Run.decode_members hheader)

theorem ofOption_readData (data : Option Json) :
    Json.ofOption (·) (readData data) = Json.ofOption (·) data := by
  cases data with
  | none => rfl
  | some j => cases j <;> rfl

/-- An entry that was read back is written as before. -/
theorem toJson_readBack (e : Entry) : e.readBack.toJson = e.toJson := by
  cases e <;>
    simp [toJson, readBack, bodyMembers, kind, Input.members, Output.members, Call.members,
      ofOption_readData]

/-- Entries are written alike only if they are the same, but for data that is null. -/
theorem toJson_eq_iff {e f : Entry} (he : e.IsWritable) (hf : f.IsWritable) :
    e.toJson = f.toJson ↔ e.readBack = f.readBack := by
  constructor
  · intro h
    simp only [toJson, Json.obj.injEq, List.cons.injEq, Prod.mk.injEq, Json.str.injEq,
      true_and] at h
    obtain ⟨hname, hbody⟩ := h
    have hkind : e.kind = f.kind := by
      have hlookup := EntryKind.ofName?_name e.kind
      rw [hname, EntryKind.ofName?_name] at hlookup
      exact (Option.some.inj hlookup).symm
    have hread := decodeKind_bodyMembers he
    rw [hkind, hbody, decodeKind_bodyMembers hf] at hread
    exact (Except.ok.inj hread).symm
  · intro h
    rw [← toJson_readBack, h, toJson_readBack]

end Entry

end TagLedger
