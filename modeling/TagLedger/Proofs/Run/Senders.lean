import Mathlib.Data.List.Induction
import Mathlib.Tactic.Common
import TagLedger.Proofs.Run.Deliveries

/-!
Tasks as senders. A task sends nothing after the end of its call, and ends no other call.
-/

namespace TagLedger

namespace Message

variable {m : Message} {id id' : Uuid}

theorem isEnd_of_ends (h : m.ends id = true) : m.isEnd = true := by
  cases m with
  | failed id' err => rfl
  | completed res => rfl
  | _ => cases h

theorem id_of_ends (h : m.ends id = true) (h' : m.ends id' = true) : id = id' := by
  cases m with
  | failed id'' err => exact (beq_iff_eq.mp h).symm.trans (beq_iff_eq.mp h')
  | completed res => exact (beq_iff_eq.mp h).symm.trans (beq_iff_eq.mp h')
  | _ => cases h

end Message

namespace Run

variable {i : Nat} {t t' : CallTask} {sent : List Message} {r r' : Run} {m : Move}
  {h : List (Run × Message)}

inductive EndsLast : Bool → List Message → Prop where
  | goesOn {xs : List Message} (h : ∀ x ∈ xs, x.isEnd = false) : EndsLast false xs
  | ended {xs : List Message} {x : Message} (h : ∀ x ∈ xs, x.isEnd = false) (hx : x.isEnd = true) :
    EndsLast true (xs ++ [x])

theorem EndsLast.progress {xs : List Message} (h : EndsLast t.isOver xs) (hover : t.isOver = false)
    (hp : t.Progress t' sent) : EndsLast t'.isOver (xs ++ sent) := by
  rw [hover] at h
  cases h with
  | goesOn hxs =>
    cases hp with
    | goesOn hover' _ hsent =>
      rw [hover']
      refine .goesOn fun x hx => ?_
      rcases List.mem_append.mp hx with hx | hx
      · exact hxs x hx
      · exact (hsent x hx).isEnd_eq
    | prepared data =>
      refine .goesOn fun x hx => ?_
      rcases List.mem_append.mp hx with hx | hx
      · exact hxs x hx
      · rw [List.mem_singleton.mp hx]
        rfl
    | rejected _ => exact .ended hxs rfl
    | completed _ => exact .ended hxs rfl

theorem EndsLast.eq_nil {isOver : Bool} {xs ys : List Message} {x : Message}
    (h : EndsLast isOver (xs ++ x :: ys)) (hx : x.isEnd = true) : ys = [] := by
  generalize hzs : xs ++ x :: ys = zs at h
  have hmem : x ∈ zs := hzs ▸ List.mem_append_right _ List.mem_cons_self
  cases h with
  | goesOn h => simp [h x hmem] at hx
  | ended h _ =>
    rcases List.eq_nil_or_concat ys with rfl | ⟨ys', y, rfl⟩
    · rfl
    · rw [List.concat_eq_append, ← List.cons_append, ← List.append_assoc] at hzs
      obtain ⟨rfl, _⟩ := List.append_inj' hzs rfl
      simp [h x (List.mem_append_right _ List.mem_cons_self)] at hx

theorem EndsLast.exists_isEnd {xs ys : List Message} (h : EndsLast true (xs ++ ys))
    (hys : ys ≠ []) : ∃ m ∈ ys, m.isEnd = true := by
  generalize hzs : xs ++ ys = zs at h
  cases h with
  | @ended zs m _ hm =>
    rcases List.eq_nil_or_concat ys with rfl | ⟨ys', y, rfl⟩
    · exact absurd rfl hys
    · rw [List.concat_eq_append, ← List.append_assoc] at hzs
      obtain ⟨_, hy⟩ := List.append_inj' hzs rfl
      cases hy
      exact ⟨m, by simp, hm⟩

/-- The tasks after moves of others: those there were, and new ones at their beginning. -/
theorem Reception.tasks_append {x : Message} (hx : Reception r x r') :
    ∃ new, r'.tasks = r.tasks ++ new ∧ ∀ t ∈ new, t.isOver = false := by
  cases hx.enlists with
  | same _ htasks => exact ⟨[], by rw [htasks, List.append_nil], by simp⟩
  | more _ _ htasks => exact ⟨_, htasks, by simp [CallTask.isOver]⟩

theorem Trace.tasks_append {S : Nat → Prop} (hS : ∀ i, ¬ S i) (ht : Trace S r h r') :
    ∃ new, r'.tasks = r.tasks ++ new ∧ ∀ t ∈ new, t.isOver = false := by
  have hmore {q q' : Run} (hq : ∃ new, q.tasks = r.tasks ++ new ∧ ∀ t ∈ new, t.isOver = false)
      (hq' : ∃ new, q'.tasks = q.tasks ++ new ∧ ∀ t ∈ new, t.isOver = false) :
      ∃ new, q'.tasks = r.tasks ++ new ∧ ∀ t ∈ new, t.isOver = false := by
    obtain ⟨xs, hxs, hx⟩ := hq
    obtain ⟨ys, hys, hy⟩ := hq'
    refine ⟨xs ++ ys, by rw [hys, hxs, List.append_assoc], fun t ht => ?_⟩
    rcases List.mem_append.mp ht with ht | ht
    · exact hx t ht
    · exact hy t ht
  induction ht with
  | refl => exact ⟨[], (List.append_nil _).symm, by simp⟩
  | calm _ hc ih => exact hc.tasks ▸ ih
  | tells _ e ih => exact hmore ih (receive_reception _ _).tasks_append
  | delivers _ hm ih => exact hmore ih (receive_reception _ _).tasks_append
  | steps _ hi _ _ => exact absurd hi (hS _)

theorem apply_tasks_append (htask : ∀ i, m ≠ .task i) (r : Run) :
    ∃ new, (r.apply m).tasks = r.tasks ++ new ∧ ∀ t ∈ new, t.isOver = false := by
  by_cases hstart : m = .start
  · subst hstart
    refine ⟨[], ?_, by simp⟩
    rcases r.apply_start with h | h
    · rw [h, start_tasks, List.append_nil]
    · rw [h, List.append_nil]
  · exact (apply_trace hstart r).tasks_append htask

structure Sent (xs : List (Nat × Message)) (r : Run) : Prop where
  senders : ∀ x ∈ xs, x.1 < r.tasks.length
  ends : ∀ (k : Nat) t, r.tasks[k]? = some t → EndsLast t.isOver (fromTask k xs)
  own : ∀ (k : Nat) t m, r.tasks[k]? = some t → m ∈ fromTask k xs → m.isEnd = true →
    m.ends t.call.id = true

namespace Sent

variable {xs : List (Nat × Message)}

/-- New tasks have sent nothing. -/
theorem enlists (hx : Sent xs r) {new : List CallTask} (ht : r'.tasks = r.tasks ++ new)
    (hnew : ∀ t ∈ new, t.isOver = false) : Sent xs r' where
  senders := fun x hmem => by
    rw [ht, List.length_append]
    exact Nat.lt_add_right _ (hx.senders x hmem)
  ends := fun k t hk => by
    rw [ht] at hk
    rcases Nat.lt_or_ge k r.tasks.length with hlt | hge
    · exact hx.ends k t (List.getElem?_append_left hlt ▸ hk)
    · rw [List.getElem?_append_right hge] at hk
      rw [hnew t (List.mem_of_getElem? hk)]
      exact .goesOn fun x hmem => absurd (hx.senders _ (mem_fromTask.mp hmem)) (Nat.not_lt.mpr hge)
  own := fun k t m hk hm hend => by
    have hlt := hx.senders _ (mem_fromTask.mp hm)
    rw [ht, List.getElem?_append_left hlt] at hk
    exact hx.own k t m hk hm hend

theorem advances (hx : Sent xs r) (hsteps : Steps i t t' sent r r') (hover : t.isOver = false)
    (hp : t.Progress t' sent) : Sent (xs ++ sent.map (i, ·)) r' where
  senders := fun x hmem => by
    rw [hsteps.length_eq]
    rcases List.mem_append.mp hmem with hmem | hmem
    · exact hx.senders x hmem
    · obtain ⟨y, _, rfl⟩ := List.mem_map.mp hmem
      exact (List.getElem?_eq_some_iff.mp hsteps.before).1
  ends := fun k u hu => by
    rw [fromTask_append]
    by_cases hk : k = i
    · subst hk
      obtain rfl : t' = u := Option.some.inj (hsteps.after.symm.trans hu)
      rw [fromTask_self]
      exact (hx.ends k t hsteps.before).progress hover hp
    · obtain ⟨v, hv, hkept⟩ := hsteps.exists_kept hk hu
      rw [fromTask_of_ne (Ne.symm hk), List.append_nil, hkept.isOver_eq.2]
      exact hx.ends k v hv
  own := fun k u m hu hm hend => by
    rw [fromTask_append] at hm
    by_cases hk : k = i
    · subst hk
      obtain rfl : t' = u := Option.some.inj (hsteps.after.symm.trans hu)
      rw [fromTask_self] at hm
      have hcall : t'.call.id = t.call.id := by cases hp <;> rfl
      rw [hcall]
      rcases List.mem_append.mp hm with hm | hm
      · exact hx.own k t m hsteps.before hm hend
      · cases hp with
        | goesOn _ _ hsent =>
          obtain ⟨e, rfl⟩ := hsent _ hm
          cases hend
        | prepared data =>
          rw [List.mem_singleton.mp hm] at hend
          cases hend
        | rejected _ => simp [List.mem_singleton.mp hm, Message.ends]
        | completed hid => simp [List.mem_singleton.mp hm, Message.ends, hid]
    · obtain ⟨v, hv, hkept⟩ := hsteps.exists_kept hk hu
      rw [fromTask_of_ne (Ne.symm hk), List.append_nil] at hm
      rw [hkept.isOver_eq.1]
      exact hx.own k v m hv hm hend

theorem apply (hx : Sent xs r) (hb : Bound r) (m : Move) :
    Sent (xs ++ r.sentBy m) (r.apply m) := by
  cases r.passes m with
  | @sends i t t' sent hm ht hstep hconduct hsent =>
    obtain ⟨u, u', sent', hsteps, hover, hp⟩ := hb.steps hstep
    have hsame : sent' = sent :=
      List.append_cancel_left (hsteps.inbox.symm.trans (hconduct.steps ht).inbox)
    subst hsame
    rw [hsent]
    exact hx.advances hsteps hover hp
  | takes hm hinbox htaken happly =>
    obtain ⟨new, hnew, hover⟩ := apply_tasks_append (m := m) (by simp [hm]) r
    have hnone : r.sentBy m = [] := hm ▸ rfl
    rw [hnone, List.append_nil]
    exact hx.enlists hnew hover
  | rests _ hsent _ _ hsame =>
    rw [hsent, List.append_nil]
    by_cases htask : ∃ i, m = .task i
    · rwa [hsame htask]
    · obtain ⟨new, hnew, hover⟩ := apply_tasks_append (fun i hm => htask ⟨i, hm⟩) r
      exact hx.enlists hnew hover

end Sent

theorem sent_applyAll_new (setup : Setup) (store : Store) (archive : Archive)
    (subscribers : Subscribers) (ms : List Move) :
    Sent (sentIn ms (new setup store archive subscribers))
      ((new setup store archive subscribers).applyAll ms) := by
  induction ms using List.reverseRecOn with
  | nil =>
    refine ⟨by simp [sentIn, gathered], fun k t hk => ?_, fun k t m hk => ?_⟩
    · cases hk
    · cases hk
  | append_singleton ms m ih =>
    rw [sentIn, gathered_concat, applyAll_concat]
    exact ih.apply (bound_applyAll_new setup store archive subscribers ms).1 m

end Run

end TagLedger
