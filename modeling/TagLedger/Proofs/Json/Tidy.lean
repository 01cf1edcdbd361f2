import TagLedger.Call.Payload
import TagLedger.Json.Reader
import TagLedger.Proofs.Json.Members

/-!
Values that name no member twice. Whatever is read from a text is of this kind, at every level.
-/

namespace TagLedger.Json

/-- No object in the value has two members of the same name. -/
inductive Tidy : Json → Prop where
  | null : Tidy .null
  | bool (b : Bool) : Tidy (.bool b)
  | num (n : Number) : Tidy (.num n)
  | str (s : String) : Tidy (.str s)
  | arr {xs : List Json} (h : ∀ x ∈ xs, x.Tidy) : Tidy (.arr xs)
  | obj {ms : Members} (hkeys : (ms.map Prod.fst).Nodup) (h : ∀ m ∈ ms, m.2.Tidy) : Tidy (.obj ms)

theorem tidy_obj_iff {ms : Members} :
    Tidy (.obj ms) ↔ (ms.map Prod.fst).Nodup ∧ ∀ m ∈ ms, m.2.Tidy := by
  constructor
  · rintro (_ | _ | _ | _ | _ | ⟨hkeys, h⟩)
    exact ⟨hkeys, h⟩
  · exact fun h => .obj h.1 h.2

namespace Members

theorem extend_tidy (ms : Members) {pairs : List (String × Json)}
    (hkeys : (ms.map Prod.fst).Nodup)
    (h : ∀ m ∈ ms, m.2.Tidy) (hpairs : ∀ m ∈ pairs, m.2.Tidy) :
    ((extend ms pairs).map Prod.fst).Nodup ∧ ∀ m ∈ extend ms pairs, m.2.Tidy := by
  induction pairs generalizing ms with
  | nil => exact ⟨hkeys, h⟩
  | cons p pairs ih =>
    refine ih _ (nodup_insert hkeys) (fun m hm => ?_) fun m hm =>
      hpairs m (List.mem_cons_of_mem p hm)
    rcases mem_insert hm with hm | rfl
    · exact h m hm
    · exact hpairs p List.mem_cons_self

end Members

theorem tidy_ofPairs {pairs : List (String × Json)} (h : ∀ m ∈ pairs, m.2.Tidy) :
    Tidy (.obj (Members.ofPairs pairs)) := by
  obtain ⟨hkeys, hvalues⟩ := Members.extend_tidy [] List.nodup_nil (by simp) h
  exact .obj hkeys hvalues

namespace Scan

variable {α β : Type} {P : α → Prop} {Q : β → Prop}

def Yields (P : α → Prop) (m : Scan α) : Prop := ∀ c a c', m c = .ok (a, c') → P a

theorem yields_pure {a : α} (h : P a) : Yields P (pure a : Scan α) := by
  intro c b c' hb
  cases hb
  exact h

theorem yields_failPeek (f : Fault) : Yields P (failPeek f) := nofun

theorem Yields.bind {m : Scan α} {f : α → Scan β} (hm : Yields P m)
    (hf : ∀ a, P a → Yields Q (f a)) : Yields Q (m >>= f) := by
  intro c b c' h
  change Scan.bind m f c = .ok (b, c') at h
  unfold Scan.bind at h
  split at h
  · rename_i a c'' heq
    exact hf a (hm c a c'' heq) c'' b c' h
  · cases h

/-- What comes first does not matter. -/
theorem yields_bind {m : Scan α} {f : α → Scan β} (hf : ∀ a, Yields Q (f a)) :
    Yields Q (m >>= f) :=
  Yields.bind (P := fun _ => True) (fun _ _ _ _ => trivial) fun a _ => hf a

theorem yields_closing {inside : Scan α} {close : Scan Unit} (h : Yields P inside) :
    Yields P (closing inside close) := by
  intro c a c' hc
  unfold closing at hc
  split at hc
  · rename_i a' c'' heq
    split at hc
    · cases hc
      exact h c _ c'' heq
    · cases hc
  · split at hc <;> cases hc
  · cases hc

theorem yields_items {item : Scan α} (h : Yields P item) (fuel : Nat) (first : Bool) :
    Yields (fun xs => ∀ x ∈ xs, P x) (items item fuel first) := by
  induction fuel generalizing first with
  | zero => exact yields_failPeek _
  | succ fuel ih =>
    rw [items]
    refine yields_bind fun more => ?_
    split
    · refine Yields.bind h fun a ha => Yields.bind (ih false) fun rest hrest => ?_
      exact yields_pure (List.forall_mem_cons.mpr ⟨ha, hrest⟩)
    · exact yields_pure (by simp)

theorem yields_members {member : Scan α} (h : Yields P member) (fuel : Nat) (first : Bool) :
    Yields (fun ms => ∀ m ∈ ms, P m.2) (members member fuel first) := by
  induction fuel generalizing first with
  | zero => exact yields_failPeek _
  | succ fuel ih =>
    rw [members]
    refine yields_bind fun key => ?_
    split
    · exact yields_pure (by simp)
    · refine yields_bind fun _ => Yields.bind h fun a ha =>
        Yields.bind (ih false) fun rest hrest => ?_
      exact yields_pure (List.forall_mem_cons.mpr ⟨ha, hrest⟩)

theorem yields_value (depth : Nat) : Yields Tidy (value depth) := by
  induction depth with
  | zero => exact yields_failPeek _
  | succ depth ih =>
    rw [value]
    refine yields_bind fun token => ?_
    split
    · exact yields_failPeek _
    · exact yields_bind fun _ => yields_bind fun _ => yields_pure .null
    · exact yields_bind fun _ => yields_bind fun _ => yields_pure (.bool true)
    · exact yields_bind fun _ => yields_bind fun _ => yields_pure (.bool false)
    · exact yields_bind fun _ => yields_bind fun s => yields_pure (.str s)
    · split
      · exact yields_failPeek _
      · refine yields_bind fun _ => yields_bind fun n => ?_
        exact Yields.bind (yields_closing (yields_items ih n true)) fun xs hxs =>
          yields_pure (.arr hxs)
    · split
      · exact yields_failPeek _
      · refine yields_bind fun _ => yields_bind fun n => ?_
        exact Yields.bind (yields_closing (yields_members ih n true)) fun ms hms =>
          yields_pure (tidy_ofPairs hms)
    · split
      · exact yields_bind fun n => yields_pure (.num n)
      · exact yields_failPeek _

theorem of_run {m : Scan α} {t : Text} {a : α} (h : Yields P m) (ha : run m t = .ok a) : P a := by
  unfold run at ha
  dsimp only at ha
  split at ha
  · rename_i heq
    cases ha
    refine Yields.bind h ?_ _ _ _ heq
    intro a ha
    refine yields_bind fun token => ?_
    split
    · exact yields_failPeek _
    · exact yields_pure ha
  · cases ha

end Scan

theorem tidy_of_parse {t : Text} {j : Json} (h : parse t = .ok j) : j.Tidy :=
  Scan.of_run (Scan.yields_value _) h

/-- The payload of a call names no member twice. -/
theorem tidy_of_readPayload {content : String} {j : Json}
    (h : PreparedCall.readPayload content = .ok j) : j.Tidy := by
  unfold PreparedCall.readPayload at h
  dsimp only at h
  split at h
  · cases h
    exact .obj List.nodup_nil (by simp)
  · exact tidy_of_parse h

end TagLedger.Json
