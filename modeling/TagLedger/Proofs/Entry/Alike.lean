import Mathlib.Data.List.Forall2
import Mathlib.Tactic.Common
import TagLedger.Call.Payload
import TagLedger.Entry.Degraded
import TagLedger.Entry.Element

/-!
Entries that are alike. They are the same but for their identifiers and times and the data of calls,
and where a parameter of one names an entry by its identifier, the parameter of the other names the
entry that corresponds. Entries that one element becomes are alike, and so is what stands in for
them.
-/

namespace TagLedger

/-- Values are the same, or the written forms of identifiers that correspond. -/
def Json.Names (ρ : Uuid → Uuid → Prop) (v w : Json) : Prop :=
  v = w ∨ ∃ a b, ρ a b ∧ v = a.toJson ∧ w = b.toJson

def Json.Members.Alike (ρ : Uuid → Uuid → Prop) : Json.Members → Json.Members → Prop :=
  List.Forall₂ fun m m' => m.1 = m'.1 ∧ m.2.Names ρ m'.2

namespace Entry

def reissued (id : Uuid) (now : Timestamp) (e : Entry) : Entry :=
  e.withHeader { e.header with id, timestamp := now }

def params : Entry → Json.Members
  | .input e => e.params
  | .output e => e.params
  | .call e => e.params
  | .event e => e.params
  | _ => []

/-- The entry without identifier, time and parameters, and without the data of a call. -/
def bare (e : Entry) : Entry :=
  let e' : Entry :=
    match e with
    | .input e => .input { e with params := [] }
    | .output e => .output { e with params := [] }
    | .call e => .call { e with params := [], data := none }
    | .event e => .event { e with params := [] }
    | e => e
  e'.reissued Uuid.nil default

/-- The same entries but for what `bare` leaves out, where parameters may name entries that
correspond. -/
structure Alike (ρ : Uuid → Uuid → Prop) (e e' : Entry) : Prop where
  bare : e.bare = e'.bare
  params : e.params.Alike ρ e'.params

end Entry

variable {ρ σ : Uuid → Uuid → Prop} {e e' : Entry} {a b id id' : Uuid} {t t' now : Timestamp}
  {v w : Json}

namespace Json

theorem Names.mono (hρ : ∀ a b, ρ a b → σ a b) (h : v.Names ρ w) : v.Names σ w := by
  rcases h with h | ⟨a, b, hab, hv, hw⟩
  · exact .inl h
  · exact .inr ⟨a, b, hρ a b hab, hv, hw⟩

/-- Identifiers that are the same or correspond. -/
theorem names_toJson (h : a = b ∨ ρ a b) : a.toJson.Names ρ b.toJson := by
  rcases h with rfl | h
  · exact .inl rfl
  · exact .inr ⟨a, b, h, rfl, rfl⟩

namespace Members

variable {ms ms' : Members}

theorem alike_refl (ms : Members) : ms.Alike ρ ms :=
  List.forall₂_same.mpr fun _ _ => ⟨rfl, .inl rfl⟩

theorem Alike.mono (hρ : ∀ a b, ρ a b → σ a b) (h : ms.Alike ρ ms') : ms.Alike σ ms' :=
  List.Forall₂.imp (fun _ _ h => ⟨h.1, h.2.mono hρ⟩) h

theorem Alike.insert (h : ms.Alike ρ ms') (key : String) (hv : v.Names ρ w) :
    (Members.insert ms key v).Alike ρ (Members.insert ms' key w) := by
  induction h with
  | nil => exact .cons ⟨rfl, hv⟩ .nil
  | @cons m m' ms ms' hm hms ih =>
    obtain ⟨k, x⟩ := m
    obtain ⟨k', x'⟩ := m'
    obtain ⟨rfl, hx⟩ := hm
    unfold Members.insert
    split
    · exact .cons ⟨rfl, hv⟩ hms
    · exact .cons ⟨rfl, hx⟩ ih

end Members

end Json

namespace Entry

theorem Alike.mono (hρ : ∀ a b, ρ a b → σ a b) (h : e.Alike ρ e') : e.Alike σ e' :=
  ⟨h.bare, h.params.mono hρ⟩

theorem alike_reissued (e : Entry) (id : Uuid) (now : Timestamp) :
    e.Alike ρ (e.reissued id now) := by
  refine ⟨?_, ?_⟩
  · cases e <;> rfl
  · cases e <;> exact Json.Members.alike_refl _

theorem reissued_self (e : Entry) : e.reissued e.id e.header.timestamp = e := by
  cases e <;> rfl

/-- The entry without the data of a call. -/
def withoutData : Entry → Entry
  | .call c => .call { c with data := none }
  | e => e

@[simp] theorem id_withoutData (e : Entry) : e.withoutData.id = e.id := by
  cases e <;> rfl

theorem alike_withoutData : e.withoutData.Alike ρ e'.withoutData ↔ e.Alike ρ e' := by
  have hbare (e : Entry) : e.withoutData.bare = e.bare := by cases e <;> rfl
  have hparams (e : Entry) : e.withoutData.params = e.params := by cases e <;> rfl
  constructor
  · rintro ⟨h, h'⟩
    rw [hbare, hbare] at h
    rw [hparams, hparams] at h'
    exact ⟨h, h'⟩
  · rintro ⟨h, h'⟩
    refine ⟨?_, ?_⟩
    · rwa [hbare, hbare]
    · rwa [hparams, hparams]

/-- The entry is one that the element becomes, under some identifier and at some time. -/
def OfElement (kind : EntryKind) (x : Markup.Element) (e : Entry) : Prop :=
  ∃ id now, e = (streaming kind id x.index now).withElement x

theorem attributeOr_attributeOr (as : Markup.Attributes) (name : Text) (before : String) :
    attributeOr as name (attributeOr as name before) = attributeOr as name before := by
  unfold attributeOr
  split <;> rfl

/-- What an element was earlier does not matter, as long as its attributes are the same. -/
theorem OfElement.withElement {kind : EntryKind} {x y : Markup.Element} (h : OfElement kind y e)
    (hindex : y.index = x.index) (hattrs : y.attributes = x.attributes) :
    OfElement kind x (e.withElement x) := by
  obtain ⟨id, now, rfl⟩ := h
  refine ⟨id, now, ?_⟩
  rw [hindex]
  cases kind <;>
    simp [Entry.withElement, fill, streaming, withHeader, header, hattrs, attributeOr_attributeOr]

/-- Two entries that one element becomes differ in identifier and time. -/
theorem OfElement.reissued {kind : EntryKind} {x : Markup.Element} (h : OfElement kind x e)
    (h' : OfElement kind x e') : ∃ id now, e' = e.reissued id now := by
  obtain ⟨id, now, rfl⟩ := h
  obtain ⟨id', now', rfl⟩ := h'
  exact ⟨id', now', by cases kind <;> rfl⟩

end Entry

namespace RunError

def reissued (id : Uuid) (now : Timestamp) : RunError → RunError
  | .unknown e => .unknown (e.reissued id now)
  | .malformed e m => .malformed (e.reissued id now) m
  | err => err

/-- The message tells kind and name of the entry, and nothing else of it. -/
theorem message_congr (hkind : e.kind = e'.kind) (hname : e.name? = e'.name?) (m : String) :
    (unknown e).message = (unknown e').message ∧
      (malformed e m).message = (malformed e' m).message := by
  delta message
  dsimp only
  rw [hkind, hname]
  exact ⟨rfl, rfl⟩

@[simp] theorem message_reissued (id : Uuid) (now : Timestamp) (err : RunError) :
    (err.reissued id now).message = err.message := by
  have hkind (e : Entry) : (e.reissued id now).kind = e.kind := by cases e <;> rfl
  have hname (e : Entry) : (e.reissued id now).name? = e.name? := by
    refine congrArg (fun n : String => if n.isEmpty then none else some n) ?_
    cases e <;> rfl
  cases err with
  | unknown e =>
    show (unknown (e.reissued id now)).message = _
    exact (message_congr (hkind e) (hname e) "").1
  | malformed e m =>
    show (malformed (e.reissued id now) m).message = _
    exact (message_congr (hkind e) (hname e) m).2
  | aborted => rfl
  | failure area m => rfl

@[simp] theorem isRecoverable_reissued (id : Uuid) (now : Timestamp) (err : RunError) :
    (err.reissued id now).isRecoverable = err.isRecoverable := by
  cases err <;> rfl

/-- Every error is one about its entry as it is. -/
theorem exists_reissued_eq (err : RunError) :
    ∃ id now, err.reissued id now = err ∧ ∀ e, err.entry? = some e → e.id = id := by
  cases err with
  | unknown e =>
    have hself : (unknown e).reissued e.id e.header.timestamp = unknown e :=
      congrArg unknown e.reissued_self
    exact ⟨_, _, hself, fun e' he' => congrArg Entry.id (Option.some.inj he').symm⟩
  | malformed e m =>
    have hself : (malformed e m).reissued e.id e.header.timestamp = malformed e m :=
      congrArg (malformed · m) e.reissued_self
    exact ⟨_, _, hself, fun e' he' => congrArg Entry.id (Option.some.inj he').symm⟩
  | aborted => exact ⟨Uuid.nil, default, rfl, fun _ h => by cases h⟩
  | failure area m => exact ⟨Uuid.nil, default, rfl, fun _ h => by cases h⟩

end RunError

def SamePlace (es es' : List Entry) (a b : Uuid) : Prop :=
  (a, b) ∈ (es.map Entry.id).zip (es'.map Entry.id)

namespace Entry

theorem bare_output (o : Output) (id : Uuid) (now : Timestamp) (params : Json.Members) :
    (output { o with id, timestamp := now, params }).bare = (output o).bare :=
  rfl

theorem bare_event (e : Event) (id : Uuid) (now : Timestamp) (params : Json.Members) :
    (event { e with id, timestamp := now, params }).bare = (event e).bare :=
  rfl

theorem reportEvent_alike (name : String) (data : Json) (param : String)
    (h : a = b ∨ ρ a b) :
    (reportEvent id t name data param a).Alike ρ (reportEvent id' t' name data param b) :=
  ⟨(bare_event { Event.final id t name data [] with processed := true } id t _).trans
    (bare_event { Event.final id t name data [] with processed := true } id' t' _).symm,
    .cons ⟨rfl, Json.names_toJson h⟩ .nil⟩

theorem degraded_alike (o : Output) (now : Timestamp) (reason : String)
    (h : o.id = id ∨ ρ o.id id) : (output (o.degraded reason)).Alike ρ
      (output (Output.degraded { o with id, timestamp := now } reason)) := by
  let final : Output := { o with done := true, processed := false }
  refine ⟨(bare_output final o.id o.timestamp _).trans (bare_output final id now _).symm, ?_⟩
  refine Json.Members.Alike.insert (Json.Members.Alike.insert ?_ "id" ?_) "error" (.inl rfl)
  · exact Json.Members.alike_refl _
  · exact Json.names_toJson h

theorem degradedOutput_alike (o : Output) (a b id : Uuid) (t t' now : Timestamp)
    (reason event : String) (data : Json) :
    List.Forall₂
      (Alike (SamePlace (degradedOutput a t o reason event data)
        (degradedOutput b t' { o with id, timestamp := now } reason event data)))
      (degradedOutput a t o reason event data)
      (degradedOutput b t' { o with id, timestamp := now } reason event data) := by
  have hself : SamePlace (degradedOutput a t o reason event data)
      (degradedOutput b t' { o with id, timestamp := now } reason event data) o.id id :=
    List.mem_cons_self
  exact .cons (degraded_alike o now reason (.inr hself))
    (.cons (reportEvent_alike event data "outputId" (.inr hself)) .nil)

/-- What stands in for an entry that an error is about does not depend on the identifier and the
time of the entry, but that an event about a call names it. -/
theorem ofError_alike (err : RunError)
    (hcall : ∀ c, err.entry? = some (.call c) → c.id = id ∨ ρ c.id id)
    (hplace : ∀ x y,
      SamePlace (ofError a t err) (ofError b t' (err.reissued id now)) x y → ρ x y) :
    List.Forall₂ (Alike ρ) (ofError a t err) (ofError b t' (err.reissued id now)) := by
  cases err with
  | aborted => exact .nil
  | failure area m => exact .nil
  | unknown e =>
    cases e with
    | output o => exact (degradedOutput_alike o _ _ _ _ _ _ _ _ _).imp fun _ _ h => h.mono hplace
    | call c => exact .cons (reportEvent_alike _ _ _ (hcall c rfl)) .nil
    | _ => exact .nil
  | malformed e m =>
    cases e with
    | output o => exact (degradedOutput_alike o _ _ _ _ _ _ _ _ _).imp fun _ _ h => h.mono hplace
    | call c => exact .cons (reportEvent_alike _ _ _ (hcall c rfl)) .nil
    | _ => exact .nil

end Entry

namespace PreparedCall

/-- Identifier and time of a call have no part in preparing it. -/
theorem ofCall_reissued (actions : List BoundAction) (c : Entry.Call) (id : Uuid)
    (now : Timestamp) : ofCall actions { c with id, timestamp := now } =
      (ofCall actions c).mapError (RunError.reissued id now) := by
  unfold ofCall
  cases actions.find? (·.name == c.name) with
  | none => rfl
  | some action =>
    dsimp only
    cases readPayload c.content <;> rfl

theorem validated_reissued (action : Action) (c : Entry.Call) (payload : Json) (id : Uuid)
    (now : Timestamp) : validated action { c with id, timestamp := now } payload =
      (validated action c payload).mapError (RunError.reissued id now) := by
  unfold validated
  cases action.schema with
  | none => rfl
  | some s =>
    dsimp only
    cases s.validate payload <;> rfl

end PreparedCall

end TagLedger
