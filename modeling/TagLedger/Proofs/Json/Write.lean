import Mathlib.Data.List.Infix
import TagLedger.Proofs.Json.Members
import TagLedger.Template.Path

/-!
Writing at a path. A write is blocked by a value on the way that cannot have the child that comes
next, and by nothing else: what is missing or null is made into the container that is needed. A
blocked write has made nothing, and any other write is seen at its path and nowhere beside it. Where
there is a value already, nothing but that value is changed.
-/

namespace TagLedger

/-- Neither path leads through the end of the other. -/
def Path.Apart (p q : Path) : Prop := ¬ p <+: q ∧ ¬ q <+: p

theorem Path.Apart.symm {p q : Path} (h : p.Apart q) : q.Apart p := ⟨h.2, h.1⟩

theorem Path.Apart.of_cons {s : PathStep} {p q : Path} (h : Path.Apart (s :: p) (s :: q)) :
    p.Apart q :=
  ⟨fun hp => h.1 ((List.prefix_cons_inj s).mpr hp), fun hq => h.2 ((List.prefix_cons_inj s).mpr hq)⟩

namespace Json

variable {j c v w old : Json} {s : PathStep} {p q : Path}

theorem at?_append (j : Json) (p q : Path) : j.at? (p ++ q) = (j.at? p).bind fun c => c.at? q := by
  induction p generalizing j with
  | nil => rfl
  | cons s p ih =>
    rw [List.cons_append, at?, at?]
    cases j.child? s with
    | none => rfl
    | some c => exact ih c

theorem at?_null (hw : Json.null.at? q = some w) : q = [] := by
  cases q with
  | nil => rfl
  | cons s q => simp [at?, child?] at hw

theorem accepts_of_child? (h : j.child? s = some c) : j.accepts s = true := by
  cases j <;> cases s <;> first | rfl | cases h

/-- On the way of the path there is a value that is not the container which the next step needs:
the root, whatever it is, or another value that is not null. -/
def Obstructs (j : Json) (p : Path) : Prop :=
  ∃ q s r c, p = q ++ s :: r ∧ j.at? q = some c ∧ (q = [] ∨ c ≠ .null) ∧ c.accepts s = false

theorem not_obstructs_nil (j : Json) : ¬ j.Obstructs [] := by
  rintro ⟨q, s, r, c, hp, _⟩
  simp at hp

/-- Nothing is in the way to a value that is there. -/
theorem not_obstructs_of_at? (h : j.at? p = some old) : ¬ j.Obstructs p := by
  rintro ⟨q, s, r, c, rfl, hc, _, hs⟩
  rw [at?_append, hc, Option.bind_some] at h
  obtain ⟨d, hd, _⟩ := Option.bind_eq_some_iff.mp h
  simp [accepts_of_child? hd] at hs

/-- One step down on an unobstructed way. -/
theorem obstructs_cons (hs : j.accepts s = true) :
    j.Obstructs (s :: p) ↔ ∃ c, j.child? s = some c ∧ c ≠ .null ∧ c.Obstructs p := by
  constructor
  · rintro ⟨q, s', r, d, hp, hd, hnull, hs'⟩
    cases q with
    | nil =>
      obtain ⟨rfl, rfl⟩ : s = s' ∧ p = r := by simpa using hp
      obtain rfl : j = d := by simpa [at?] using hd
      simp [hs] at hs'
    | cons s'' q =>
      obtain ⟨rfl, rfl⟩ : s = s'' ∧ p = q ++ s' :: r := by simpa using hp
      obtain ⟨c, hc, hd⟩ := Option.bind_eq_some_iff.mp hd
      have hd' : d ≠ .null := by simpa using hnull
      refine ⟨c, hc, ?_, q, s', r, d, rfl, hd, .inr hd', hs'⟩
      rintro rfl
      obtain rfl := at?_null hd
      exact hd' (by simpa [at?] using hd.symm)
  · rintro ⟨c, hc, hnull, q, s', r, d, rfl, hd, hd', hs'⟩
    refine ⟨s :: q, s', r, d, rfl, by simpa [at?, hc] using hd, .inr ?_, hs'⟩
    rcases hd' with rfl | hd'
    · obtain rfl : c = d := by simpa [at?] using hd
      exact hnull
    · exact hd'

theorem accepts_emptyContainer (s : PathStep) : s.emptyContainer.accepts s = true := by
  cases s <;> rfl

theorem child?_emptyContainer (s s' : PathStep) : s.emptyContainer.child? s' = none := by
  cases s <;> cases s' <;> simp [PathStep.emptyContainer, child?]

/-- What is on the way is kept, unless there is nothing or null where a container is needed. -/
theorem prepared_of_ne_null (h : c ≠ .null) (p : Path) : prepared (some c) p = c := by
  cases p <;> simp [prepared, h]

/-- A child on the way to a value is not made anew. -/
theorem prepared_of_at? (h : c.at? p = some old) : prepared (some c) p = c := by
  by_cases hnull : c = .null
  · subst hnull
    rw [at?_null h]
    rfl
  · exact prepared_of_ne_null hnull p

theorem prepared_cons_of_absent {child : Option Json} (h : child.getD .null = .null) :
    prepared child (s :: p) = s.emptyContainer := by
  simp [prepared, h]

theorem write_blocked_of_not_accepts (hs : j.accepts s = false) (v : Json) (p : Path) :
    write v j (s :: p) = ⟨j, true⟩ := by
  simp [write, hs]

theorem write_blocked_cons (hs : j.accepts s = true) (v : Json) (p : Path) :
    (write v j (s :: p)).blocked = (write v (prepared (j.child? s) p) p).blocked := by
  simp [write, hs]

/-- Below what is made on the way, nothing is in the way. -/
theorem write_blocked_of_absent {child : Option Json} (h : child.getD .null = .null) (v : Json)
    (p : Path) : (write v (prepared child p) p).blocked = false := by
  -- what is made is empty, so there is nothing at the next step either
  induction p generalizing child with
  | nil => simp [write]
  | cons s p ih =>
    rw [prepared_cons_of_absent h, write_blocked_cons (accepts_emptyContainer s),
      child?_emptyContainer]
    exact ih rfl

/-- A write is blocked by what is on the way, and by nothing else. -/
theorem write_blocked_iff (j v : Json) (p : Path) :
    (write v j p).blocked = true ↔ j.Obstructs p := by
  induction p generalizing j with
  | nil => simp [write, not_obstructs_nil]
  | cons s p ih =>
    cases hs : j.accepts s with
    | false =>
      have hroot : j.Obstructs (s :: p) := ⟨[], s, p, j, rfl, rfl, .inl rfl, hs⟩
      simp [write_blocked_of_not_accepts hs, hroot]
    | true =>
      rw [write_blocked_cons hs, obstructs_cons hs]
      constructor
      · intro hblocked
        have hne : (j.child? s).getD .null ≠ .null := by
          intro habsent
          simp [write_blocked_of_absent habsent] at hblocked
        obtain ⟨c, hc⟩ : ∃ c, j.child? s = some c := by
          cases h : j.child? s with
          | none => simp [h] at hne
          | some c => exact ⟨c, rfl⟩
        have hnull : c ≠ .null := by simpa [hc] using hne
        rw [hc, prepared_of_ne_null hnull, ih] at hblocked
        exact ⟨c, hc, hnull, hblocked⟩
      · rintro ⟨c, hc, hnull, hobstructs⟩
        rwa [hc, prepared_of_ne_null hnull, ih]

/-- Putting a child where it is changes nothing. -/
theorem setChild?_child? (hc : j.child? s = some c) : j.setChild? s c = some j := by
  cases j with
  | obj ms =>
    cases s with
    | key k => simp [setChild?, Members.insert_of_get? (show Members.get? ms k = some c from hc)]
    | index i => simp [child?] at hc
  | arr xs =>
    cases s with
    | key k => simp [child?] at hc
    | index i =>
      obtain ⟨hlt, hget⟩ := List.getElem?_eq_some_iff.mp (show xs[i]? = some c from hc)
      have hnone : i + 1 - xs.length = 0 := by omega
      simp [setChild?, setItem, hnone, ← hget]
  | _ => simp [child?] at hc

/-- A blocked write leaves everything as it was. -/
theorem write_target_of_blocked (hblocked : (write v j p).blocked = true) :
    (write v j p).target = j := by
  induction p generalizing j with
  | nil => simp [write] at hblocked
  | cons s p ih =>
    cases hs : j.accepts s with
    | false => rw [write_blocked_of_not_accepts hs]
    | true =>
      obtain ⟨c, hc, hnull, _⟩ := (obstructs_cons hs).mp ((write_blocked_iff j v _).mp hblocked)
      rw [write_blocked_cons hs, hc, prepared_of_ne_null hnull] at hblocked
      simp only [write, hs, if_true, hc, prepared_of_ne_null hnull, ih hblocked,
        setChild?_child? hc, Option.getD_some]

theorem getElem?_setItem (xs : List Json) (i : Nat) (v : Json) : (setItem xs i v)[i]? = some v := by
  rw [setItem, List.getElem?_set_self]
  simp only [List.length_append, List.length_replicate]
  omega

theorem getElem?_setItem_of_ne {xs : List Json} {i n : Nat} (hn : n ≠ i) (v : Json) :
    (setItem xs i v)[n]? = xs[n]? ∨ xs[n]? = none ∧ xs[i]? = none := by
  rw [setItem, List.getElem?_set_ne hn.symm]
  by_cases hin : n < xs.length
  · exact .inl (List.getElem?_append_left hin)
  · by_cases hi : i < xs.length
    · have hnone : i + 1 - xs.length = 0 := by omega
      exact .inl (by rw [hnone, List.replicate_zero, List.append_nil])
    · exact .inr ⟨List.getElem?_eq_none (by omega), List.getElem?_eq_none (by omega)⟩

/-- A child that is put in place is found there. The others are as they were, or they are fill in
front of an item that is new. -/
theorem setChild?_of_accepts (hs : j.accepts s = true) (v : Json) :
    ∃ j', j.setChild? s v = some j' ∧ j'.child? s = some v ∧
      ∀ s', s' ≠ s → j'.child? s' = j.child? s' ∨ j.child? s' = none ∧ j.child? s = none := by
  cases j with
  | obj ms =>
    cases s with
    | key k =>
      refine ⟨_, rfl, Members.get?_insert_self ms k v, fun s' hs' => .inl ?_⟩
      cases s' with
      | key k' => exact Members.get?_insert_of_ne (by simpa using hs')
      | index i => rfl
    | index i => simp [accepts] at hs
  | arr xs =>
    cases s with
    | key k => simp [accepts] at hs
    | index i =>
      refine ⟨_, rfl, getElem?_setItem xs i v, fun s' hs' => ?_⟩
      cases s' with
      | key k => exact .inl rfl
      | index n => exact getElem?_setItem_of_ne (by simpa using hs') v
  | _ => cases s <;> simp [accepts] at hs

/-- One step of a write that goes on. -/
theorem write_cons_of_accepts (hs : j.accepts s = true) (v : Json) (p : Path) :
    (write v j (s :: p)).target.child? s = some (write v (prepared (j.child? s) p) p).target ∧
      ∀ s', s' ≠ s → (write v j (s :: p)).target.child? s' = j.child? s' ∨
        j.child? s' = none ∧ j.child? s = none := by
  obtain ⟨j', hset, hself, hothers⟩ :=
    setChild?_of_accepts hs (write v (prepared (j.child? s) p) p).target
  have htarget : (write v j (s :: p)).target = j' := by simp [write, hs, hset]
  rw [htarget]
  exact ⟨hself, hothers⟩

theorem accepts_of_not_blocked (h : (write v j (s :: p)).blocked = false) : j.accepts s = true := by
  by_contra hs
  simp [write_blocked_of_not_accepts (Bool.not_eq_true _ ▸ hs)] at h

/-- What was written is found at its path. -/
theorem at?_write_target (h : (write v j p).blocked = false) :
    (write v j p).target.at? p = some v := by
  induction p generalizing j with
  | nil => simp [write, at?]
  | cons s p ih =>
    have hs := accepts_of_not_blocked h
    rw [write_blocked_cons hs] at h
    rw [at?, (write_cons_of_accepts hs v p).1, Option.bind_some]
    exact ih h

/-- A write is not seen from any place that is neither above nor below it. -/
theorem at?_write_frame (h : (write v j p).blocked = false) (hq : j.at? q = some w)
    (hapart : p.Apart q) : (write v j p).target.at? q = some w := by
  induction p generalizing j q with
  | nil => exact absurd List.nil_prefix hapart.1
  | cons s p ih =>
    cases q with
    | nil => exact absurd List.nil_prefix hapart.2
    | cons s' q =>
      have hs := accepts_of_not_blocked h
      obtain ⟨hself, hothers⟩ := write_cons_of_accepts hs v p
      obtain ⟨c, hc, hq⟩ := Option.bind_eq_some_iff.mp hq
      rw [at?]
      by_cases hsteps : s' = s
      · subst hsteps
        have hapart := hapart.of_cons
        -- a null would be made into a container, but no path leads on from it
        have hnull : c ≠ .null := by
          rintro rfl
          obtain rfl := at?_null hq
          exact hapart.2 List.nil_prefix
        rw [write_blocked_cons hs, hc, prepared_of_ne_null hnull] at h
        rw [hself, hc, prepared_of_ne_null hnull, Option.bind_some]
        exact ih h hq hapart
      · rcases hothers s' hsteps with hsame | ⟨hnone, _⟩
        · rw [hsame, hc]
          exact hq
        · simp [hc] at hnone

/-- A value that is there can be replaced. -/
theorem at?_write_self (h : j.at? p = some old) (v : Json) :
    (write v j p).blocked = false ∧ (write v j p).target.at? p = some v := by
  have hfree : (write v j p).blocked = false :=
    Bool.eq_false_iff.mpr (mt (write_blocked_iff j v p).mp (not_obstructs_of_at? h))
  exact ⟨hfree, at?_write_target hfree⟩

/-- To replace a value makes no new ones beside it. -/
theorem at?_write_of_apart (h : j.at? p = some old) (hq : p.Apart q) (v : Json) :
    (write v j p).target.at? q = j.at? q := by
  induction p generalizing j q with
  | nil => exact absurd List.nil_prefix hq.1
  | cons s p ih =>
    cases q with
    | nil => exact absurd List.nil_prefix hq.2
    | cons s' q =>
      obtain ⟨c, hc, hbelow⟩ := Option.bind_eq_some_iff.mp h
      obtain ⟨hself, hothers⟩ := write_cons_of_accepts (accepts_of_child? hc) v p
      rw [at?, at?]
      by_cases hs : s' = s
      · subst hs
        rw [hself, hc, prepared_of_at? hbelow]
        exact ih hbelow hq.of_cons
      · rcases hothers s' hs with hsame | ⟨_, hnone⟩
        · rw [hsame]
        · simp [hc] at hnone

end Json

end TagLedger
