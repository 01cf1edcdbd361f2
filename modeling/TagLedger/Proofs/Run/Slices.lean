import Mathlib.Data.List.Infix
import Mathlib.Tactic.Common
import TagLedger.Proofs.Run.Host
import TagLedger.Proofs.Run.Queue
import TagLedger.Proofs.Run.Settle

/-!
Updates of memory slices. A call works on the slice that it loaded and writes it back as a whole,
and nothing keeps two calls of one action from doing so at the same time; then the later write drops
what the earlier one added. What can be relied on is this: the values that were there first stay, at
least one update survives, and all of them do while at most one call holds the slice.
-/

namespace TagLedger

/-- Each execution adds one element to the array in the memory slice, and the hook after an error
leaves the slice alone. -/
structure Action.AppendsOne (a : Action) : Prop where
  execute : ∀ executions attempt data view vs,
    (a.execute executions attempt data view).Leaves (fun w => ∃ v, w = .arr (vs ++ [v])) (.arr vs)
  onError : ∀ err view v, (a.onError err view).Leaves (fun w => w = v) v

/-- An array that begins with `xs`. The number of further elements satisfies `p`. -/
def Json.Extends (xs : List Json) (p : Nat → Prop) (v : Json) : Prop :=
  ∃ ys, v = .arr (xs ++ ys) ∧ p ys.length

theorem Json.Extends.mono {xs : List Json} {p q : Nat → Prop} (hpq : ∀ l, p l → q l) {v : Json}
    (h : Json.Extends xs p v) : Json.Extends xs q v := by
  obtain ⟨ys, rfl, hp⟩ := h
  exact ⟨ys, rfl, hpq _ hp⟩

theorem Phase.carries_of_not_holdsSlice {P Q : Json → Prop} {p : Phase}
    (h : p.holdsSlice = false) : p.Carries P Q := by
  cases p with
  | working v job => cases h
  | recovering v script => cases h
  | concluding v outcome => cases h
  | _ => trivial

/-- Two different elements that satisfy `p` are counted twice. -/
theorem eq_of_countP_le_one {α : Type} {p : α → Bool} {xs : List α} (h : xs.countP p ≤ 1)
    {i j : Nat} {x y : α} (hi : xs[i]? = some x) (hx : p x = true) (hj : xs[j]? = some y)
    (hy : p y = true) : i = j := by
  by_contra hne
  obtain ⟨hlt, hget⟩ := List.getElem?_eq_some_iff.mp hi
  have hlt' : i < (xs.map p).length := by rwa [List.length_map]
  have hcount : (xs.map p).countP id = xs.countP p := by
    rw [List.countP_map]
    rfl
  have hother : ((xs.map p).set i false)[j]? = some true := by
    rw [List.getElem?_set_ne hne, List.getElem?_map, hj, Option.map_some, hy]
  have hpos : 0 < ((xs.map p).set i false).countP id :=
    List.countP_pos_iff.mpr ⟨true, List.mem_of_getElem? hother, rfl⟩
  rw [List.countP_set hlt', List.getElem_map, hget, hx, hcount] at hpos
  simp only [id, ↓reduceIte, Bool.false_eq_true] at hpos
  omega

namespace Store

theorem value?_write_self {s : Store} {key : String} (h : ∀ n, s.writeFault n key = none)
    (value : Json) : (s.write key value).2.value? key = some value := by
  unfold write
  rw [h]
  exact Json.Members.get?_insert_self _ _ _

end Store

namespace Run

variable {i k : Nat} {name : String} {t t' u : CallTask} {p : Phase} {r r' : Run}

theorem executionsOf_congr (h : r'.executions = r.executions) (name : String) :
    r'.executionsOf name = r.executionsOf name := by
  rw [executionsOf, executionsOf, h]

theorem executionsOf_of_count (h : r'.executions = (r.countExecution name).executions) :
    r'.executionsOf name = r.executionsOf name + 1 := by
  rw [executionsOf, h, countExecution, List.lookup_cons_self]
  rfl

theorem lookup_filter_of_ne {other : String} (h : other ≠ name) (xs : List (String × Nat)) :
    (xs.filter fun x => x.1 != name).lookup other = xs.lookup other := by
  induction xs with
  | nil => rfl
  | cons x xs ih =>
    obtain ⟨key, n⟩ := x
    by_cases hkey : key = name
    · have hother : (other == key) = false := beq_eq_false_iff_ne.mpr (hkey ▸ h)
      simp [hkey, List.lookup_cons, ih, beq_eq_false_iff_ne.mpr h]
    · simp [hkey, List.lookup_cons, ih]

theorem executionsOf_of_count_ne {other : String} (h : other ≠ name)
    (he : r'.executions = (r.countExecution name).executions) :
    r'.executionsOf other = r.executionsOf other := by
  have hother : (other == name) = false := beq_eq_false_iff_ne.mpr h
  simp only [executionsOf, he, countExecution, List.lookup_cons, hother, lookup_filter_of_ne h]

/-- The value that the memory of an action has in the store. -/
def kept (m : ActionMemory) (r : Run) : Json := (r.store.value? m.key).getD m.initial

theorem loaded_eq_kept {a : Action} {m : ActionMemory} (hm : a.memory = some m)
    (hread : ∀ n, r.store.readFault n m.key = none) : r.loaded a = r.kept m := by
  rw [loaded_of_memory hm, kept]
  simp only [Store.read, hread]
  cases r.store.value? m.key <;> rfl

theorem value?_keepSlice {a : Action} {m : ActionMemory} (hm : a.memory = some m)
    (hwrite : ∀ n, r.store.writeFault n m.key = none) (v : Json) :
    (r.keepSlice a v).store.value? m.key = some v := by
  unfold keepSlice
  rw [hm]
  exact Store.value?_write_self hwrite v

/-- A step changes neither which operations fail nor what others keep. -/
theorem Handling.store (h : Handling r t p r') :
    r'.store.readFault = r.store.readFault ∧ r'.store.writeFault = r.store.writeFault ∧
      ∀ key, (∀ m, t.action.action.memory = some m → m.key ≠ key) →
        r'.store.value? key = r.store.value? key := by
  have hidle (hi : Idle r r') : r'.store.readFault = r.store.readFault ∧
      r'.store.writeFault = r.store.writeFault ∧
        ∀ key, (∀ m, t.action.action.memory = some m → m.key ≠ key) →
          r'.store.value? key = r.store.value? key :=
    ⟨hi.readFault, hi.writeFault, fun key _ => hi.values key⟩
  cases h with
  | outside _ _ hi => exact hidle hi
  | loads _ _ hi => exact hidle hi
  | inside _ _ _ hi => exact hidle hi
  | begins _ _ hs => exact ⟨hs ▸ rfl, hs ▸ rfl, fun _ _ => hs ▸ rfl⟩
  | writes _ _ hs =>
    rw [hs]
    unfold keepSlice
    split
    · exact ⟨rfl, rfl, fun _ _ => rfl⟩
    · rename_i m hm
      exact ⟨Store.readFault_write _ _ _, Store.writeFault_write _ _ _,
        fun key hkey => Store.value?_write_of_ne _ _ (hkey m hm).symm⟩
  | breaks _ _ _ hi => exact hidle hi

theorem Handling.executionsOf_of_ne (h : Handling r t p r')
    (hname : name ≠ t.action.action.name) : r'.executionsOf name = r.executionsOf name := by
  cases h with
  | outside _ _ hi => exact executionsOf_congr hi.executions name
  | loads _ _ hi => exact executionsOf_congr hi.executions name
  | inside _ _ _ hi => exact executionsOf_congr hi.executions name
  | begins _ _ _ he => exact executionsOf_of_count_ne hname he
  | writes _ _ _ he => exact executionsOf_congr he name
  | breaks _ _ _ hi => exact executionsOf_congr hi.executions name

/-- Task `i` is a call of the action of that name and holds its slice. -/
def Holds (name : String) (r : Run) (i : Nat) : Prop :=
  ∃ t, r.tasks[i]? = some t ∧ t.action.name = name ∧ t.phase.holdsSlice = true

/-- How many calls of the action of that name hold their slice. -/
def holders (name : String) (r : Run) : Nat :=
  r.tasks.countP fun t => t.action.name == name && t.phase.holdsSlice

theorem Holds.eq_of_holders (hi : Holds name r i) (h : r.holders name ≤ 1) (hk : Holds name r k) :
    i = k := by
  obtain ⟨t, ht, hname, hholds⟩ := hi
  obtain ⟨u, hu, hname', hholds'⟩ := hk
  exact eq_of_countP_le_one h ht (by simp [hname, hholds]) hu (by simp [hname', hholds'])

theorem Neighbours.holds_iff (h : Neighbours i p r r') (hl : Lined r) (hk : k ≠ i) :
    Holds name r' k ↔ Holds name r k := by
  constructor
  · rintro ⟨u, hu, hname, hholds⟩
    obtain ⟨w, hw, hserved⟩ := h.exists_served hl hk hu
    exact ⟨w, hw, hserved.action_eq ▸ hname, hserved.holdsSlice_eq ▸ hholds⟩
  · rintro ⟨w, hw, hname, hholds⟩
    obtain ⟨u, hu, hserved⟩ := h.served_of_before hl hk hw
    exact ⟨u, hu, hserved.action_eq ▸ hname, hserved.holdsSlice_eq ▸ hholds⟩

structure Steady (setup : Setup) (key : String) (r : Run) : Prop where
  setup : r.setup = setup
  bound : Bound r
  counted : Counted r
  lined : Lined r
  readable : ∀ n, r.store.readFault n key = none
  writable : ∀ n, r.store.writeFault n key = none

theorem Steady.aside {setup : Setup} {key : String} (hs : Steady setup key r) (ha : Aside r r')
    (hb : Bound r') (hc : Counted r') : Steady setup key r' where
  setup := ha.setup.trans hs.setup
  bound := hb
  counted := hc
  lined := by
    obtain ⟨new, htasks, _⟩ := ha.tasks
    refine ⟨ha.permits ▸ hs.lined.nodup, fun j hj => ?_⟩
    obtain ⟨t, v, ht, hphase⟩ := hs.lined.waits j (ha.permits ▸ hj)
    obtain ⟨hlt, _⟩ := List.getElem?_eq_some_iff.mp ht
    exact ⟨t, v, by rw [htasks, List.getElem?_append_left hlt, ht], hphase⟩
  readable := ha.readFault ▸ hs.readable
  writable := ha.writeFault ▸ hs.writable

structure Turn (i : Nat) (t t' : CallTask) (r r' : Run) : Prop where
  before : r.tasks[i]? = some t
  after : r'.tasks[i]? = some t'
  action : t'.action = t.action
  handling : Handling r t t'.phase r'
  neighbours : Neighbours i t'.phase r r'

theorem Steady.turn {setup : Setup} {key : String} (hs : Steady setup key r)
    (h : r.stepTask? i = some r') (hcancel : r'.cancelled = false) :
    ∃ t t', Turn i t t' r r' ∧ Steady setup key r' := by
  obtain ⟨t, ht, p, hphase, hhandling, hneighbours⟩ := stepTask?_handles h hcancel
  have hadvances := hs.bound.steps h
  have hbound := hs.bound.advances hadvances
  have hcounted := hs.counted.advances hadvances
  obtain ⟨s, t', sent, hsteps, _, hprogress⟩ := hadvances
  obtain rfl : s = t := Option.some.inj (hsteps.before.symm.trans ht)
  obtain rfl : t'.phase = p := hphase t' hsteps.after
  have haction : t'.action = s.action := by cases hprogress <;> rfl
  obtain ⟨hread, hwrite, _⟩ := hhandling.store
  refine ⟨s, t', ⟨ht, hsteps.after, haction, hhandling, hneighbours⟩, ?_⟩
  exact ⟨hsteps.setup.trans hs.setup, hbound, hcounted,
    hneighbours.lined hs.lined (hs.lined.not_mem h) hsteps.after rfl,
    hread ▸ hs.readable, hwrite ▸ hs.writable⟩

structure Appender (setup : Setup) (a : Action) (m : ActionMemory) : Prop where
  owned : Catalog.Owned setup.catalog.actions
  mem : a ∈ setup.catalog.actions
  memory : a.memory = some m
  apart : m.key ≠ setup.config.workingMemoryKey setup.context.id
  appends : a.AppendsOne

variable {setup : Setup} {a : Action} {m : ActionMemory} {xs : List Json} {R : Nat → Nat → Prop}

/-- What slices look like after `n` executions, if `R l n` says how many elements `l` may have been
added: that of a call before its own first attempt, and that of a call after one. -/
def Grown (xs : List Json) (R : Nat → Nat → Prop) (n : Nat) : Json → Prop :=
  Json.Extends xs fun l => R l n

@[inherit_doc Grown]
def GrownBySelf (xs : List Json) (R : Nat → Nat → Prop) (n : Nat) : Json → Prop :=
  Json.Extends xs fun l => 0 < l ∧ R l n

theorem GrownBySelf.grown {n : Nat} (v : Json) (h : GrownBySelf xs R n v) : Grown xs R n v :=
  h.mono fun _ => And.right

/-- The updates of an action in the slices of its calls and in the store. While a call holds the
slice, the store may lag behind, unless `R` still allows that after further executions. -/
structure Slices (a : Action) (m : ActionMemory) (xs : List Json) (R : Nat → Nat → Prop) (r : Run) :
    Prop where
  held : ∀ (k : Nat) (t : CallTask), r.tasks[k]? = some t → t.action.name = a.name →
    t.phase.Carries (Grown xs R (r.executionsOf a.name)) (GrownBySelf xs R (r.executionsOf a.name))
  stored : (∀ l n, R l n → R l (n + 1)) ∨ (∀ k, ¬ Holds a.name r k) →
    Grown xs R (r.executionsOf a.name) (r.kept m)
  survives : 0 < r.executionsOf a.name → (∃ k, Holds a.name r k) ∨
    ∃ v, r.store.value? m.key = some v ∧ GrownBySelf xs R (r.executionsOf a.name) v

namespace Slices

theorem congr (hs : Slices a m xs R r) (hn : r'.executionsOf a.name = r.executionsOf a.name)
    (hvalue : r'.store.value? m.key = r.store.value? m.key)
    (hholds : ∀ k, Holds a.name r' k ↔ Holds a.name r k)
    (hheld : ∀ (k : Nat) (t : CallTask), r'.tasks[k]? = some t → t.action.name = a.name →
      t.phase.Carries (Grown xs R (r.executionsOf a.name))
        (GrownBySelf xs R (r.executionsOf a.name))) : Slices a m xs R r' where
  held := hn ▸ hheld
  stored := fun h => by
    rw [hn, kept, hvalue]
    exact hs.stored (h.imp_right fun h k hk => h k ((hholds k).mpr hk))
  survives := fun h => by
    rw [hn] at h ⊢
    rw [hvalue]
    exact (hs.survives h).imp_left fun ⟨k, hk⟩ => ⟨k, (hholds k).mpr hk⟩

theorem aside (ap : Appender setup a m) (hsteady : Steady setup m.key r) (hs : Slices a m xs R r)
    (ha : Aside r r') : Slices a m xs R r' := by
  obtain ⟨new, htasks, hnew⟩ := ha.tasks
  have hkey : m.key ≠ r.memoryKey := by
    unfold memoryKey
    rw [hsteady.setup]
    exact ap.apart
  have hcases (k : Nat) (t : CallTask) (ht : r'.tasks[k]? = some t) :
      r.tasks[k]? = some t ∨ t.phase.holdsSlice = false := by
    rw [htasks] at ht
    by_cases hk : k < r.tasks.length
    · exact .inl (List.getElem?_append_left hk ▸ ht)
    · rw [List.getElem?_append_right (Nat.le_of_not_lt hk)] at ht
      exact .inr (Phase.holdsSlice_of_isResolving (hnew t (List.mem_of_getElem? ht)))
  refine hs.congr (executionsOf_congr ha.executions _) (ha.cells _ hkey) (fun k => ?_)
    fun k t ht hname => ?_
  · constructor
    · rintro ⟨t, ht, hname, hholds⟩
      rcases hcases k t ht with ht | hnot
      · exact ⟨t, ht, hname, hholds⟩
      · rw [hnot] at hholds
        cases hholds
    · rintro ⟨t, ht, hname, hholds⟩
      obtain ⟨hlt, _⟩ := List.getElem?_eq_some_iff.mp ht
      exact ⟨t, by rw [htasks, List.getElem?_append_left hlt, ht], hname, hholds⟩
  · rcases hcases k t ht with ht | hnot
    · exact hs.held k t ht hname
    · exact Phase.carries_of_not_holdsSlice hnot

section

variable (hs : Slices a m xs R r) (hl : Lined r) (ht : Turn i t t' r r')
include hs hl ht

theorem held_of_ne (hk : k ≠ i) (hu : r'.tasks[k]? = some u) (hname : u.action.name = a.name) :
    u.phase.Carries (Grown xs R (r.executionsOf a.name))
      (GrownBySelf xs R (r.executionsOf a.name)) := by
  obtain ⟨w, hw, hserved⟩ := ht.neighbours.exists_served hl hk hu
  exact hserved.carries (hs.held k w hw (hserved.action_eq ▸ hname))

theorem held_of_step
    (hself : t'.action.name = a.name → t'.phase.Carries (Grown xs R (r.executionsOf a.name))
      (GrownBySelf xs R (r.executionsOf a.name))) (k : Nat) (u : CallTask)
    (hu : r'.tasks[k]? = some u) (hname : u.action.name = a.name) :
    u.phase.Carries (Grown xs R (r.executionsOf a.name))
      (GrownBySelf xs R (r.executionsOf a.name)) := by
  by_cases hk : k = i
  · subst hk
    obtain rfl : t' = u := Option.some.inj (ht.after.symm.trans hu)
    exact hself hname
  · exact hs.held_of_ne hl ht hk hu hname

end

theorem holds_iff_self (ht : r.tasks[i]? = some t) (hname : t.action.name = name) :
    Holds name r i ↔ t.phase.holdsSlice = true := by
  constructor
  · rintro ⟨u, hu, _, hholds⟩
    obtain rfl : t = u := Option.some.inj (ht.symm.trans hu)
    exact hholds
  · exact fun hholds => ⟨t, ht, hname, hholds⟩

theorem elsewhere (ap : Appender setup a m) (hsteady : Steady setup m.key r)
    (hs : Slices a m xs R r) (ht : Turn i t t' r r') (hname : t.action.name ≠ a.name) :
    Slices a m xs R r' := by
  have hmem : t.action.action ∈ setup.catalog.actions :=
    hsteady.setup ▸ hsteady.bound.tasks t (List.mem_of_getElem? ht.before)
  have hname' : t'.action.name ≠ a.name := ht.action ▸ hname
  have hkey (m' : ActionMemory) (hm' : t.action.action.memory = some m') : m'.key ≠ m.key := by
    intro hkey
    exact hname (congrArg Action.name (ap.owned.eq_of_key hmem ap.mem hm' ap.memory hkey))
  obtain ⟨_, _, hcells⟩ := ht.handling.store
  refine hs.congr (ht.handling.executionsOf_of_ne hname.symm) (hcells m.key hkey)
    (fun k => ?_) (hs.held_of_step hsteady.lined ht fun h => absurd h hname')
  by_cases hk : k = i
  · subst hk
    constructor
    · rintro ⟨u, hu, hname₀, _⟩
      obtain rfl : t' = u := Option.some.inj (ht.after.symm.trans hu)
      exact absurd hname₀ hname'
    · rintro ⟨u, hu, hname₀, _⟩
      obtain rfl : t = u := Option.some.inj (ht.before.symm.trans hu)
      exact absurd hname₀ hname
  · exact ht.neighbours.holds_iff hsteady.lined hk

section

variable (ap : Appender setup a m) (hsteady : Steady setup m.key r) (hs : Slices a m xs R r)
  (ht : Turn i t t' r r') (haction : t.action.action = a)
include hsteady hs ht haction

theorem here_outside (hbefore : t.phase.holdsSlice = false) (hafter : t'.phase.holdsSlice = false)
    (hi : Idle r r') : Slices a m xs R r' := by
  have hname : t.action.name = a.name := congrArg Action.name haction
  refine hs.congr (executionsOf_congr hi.executions _) (hi.values m.key) (fun k => ?_)
    (hs.held_of_step hsteady.lined ht fun _ => Phase.carries_of_not_holdsSlice hafter)
  by_cases hk : k = i
  · rw [hk, holds_iff_self ht.before hname, holds_iff_self ht.after (ht.action ▸ hname), hbefore,
      hafter]
  · exact ht.neighbours.holds_iff hsteady.lined hk

include ap

/-- Without leniency nobody else may hold the slice when a call loads it, so the store is up to
date. -/
theorem here_loads (hR : (∀ l n, R l n → R l (n + 1)) ∨ r'.holders a.name ≤ 1)
    (hload : t.phase = .loading) (hp : t'.phase = .working (r.loaded t.action.action) .asking)
    (hi : Idle r r') : Slices a m xs R r' := by
  have hname : t.action.name = a.name := congrArg Action.name haction
  have hn := executionsOf_congr hi.executions a.name
  have hnow : Holds a.name r' i := ⟨t', ht.after, ht.action ▸ hname, hp ▸ rfl⟩
  have hstored : Grown xs R (r.executionsOf a.name) (r.kept m) := by
    refine hs.stored (hR.imp_right fun hone k hk => ?_)
    have hne : k ≠ i := by
      rintro rfl
      have hholds := (holds_iff_self ht.before hname).mp hk
      rw [hload] at hholds
      cases hholds
    have hlater := (ht.neighbours.holds_iff hsteady.lined hne).mpr hk
    exact hne (hlater.eq_of_holders hone hnow)
  refine ⟨hn ▸ hs.held_of_step hsteady.lined ht fun _ => ?_, fun _ => ?_, fun _ => .inl ⟨i, hnow⟩⟩
  · rw [hp, haction, loaded_eq_kept ap.memory hsteady.readable]
    exact hstored
  · rw [hn, kept, hi.values]
    exact hstored

theorem here_inside (hp : t'.phase.holdsSlice = true)
    (hkeep : ∀ P Q : Json → Prop, (∀ v, Q v → P v) →
      (∀ err v, Q v → (t.action.action.onError err t.view).Leaves Q v) →
        t.phase.Carries P Q → t'.phase.Carries P Q)
    (hi : Idle r r') : Slices a m xs R r' := by
  have hname : t.action.name = a.name := congrArg Action.name haction
  have hn := executionsOf_congr hi.executions a.name
  have hnow : Holds a.name r' i := ⟨t', ht.after, ht.action ▸ hname, hp⟩
  refine ⟨hn ▸ hs.held_of_step hsteady.lined ht fun _ => ?_, fun h => ?_, fun _ => .inl ⟨i, hnow⟩⟩
  · refine hkeep _ _ GrownBySelf.grown (fun err v hv => ?_) (hs.held i t ht.before hname)
    rw [haction]
    exact (ap.appends.onError err t.view v).mono fun w hw => hw ▸ hv
  · rw [hn, kept, hi.values]
    exact hs.stored (h.imp_right fun h => absurd hnow (h i))

theorem here_begins (hsucc : ∀ l n, R l n → R (l + 1) (n + 1))
    (hR : (∀ l n, R l n → R l (n + 1)) ∨ r'.holders a.name ≤ 1) {v : Json} {n : Nat}
    (hbefore : t.phase = .working v (.admitted n))
    (hp : t'.phase = .working v (.attempting n (t.action.action.execute
      (r.executionsOf t.action.action.name) n (t.call.data.getD .null) t.view)))
    (hstore : r'.store = r.store)
    (he : r'.executions = (r.countExecution t.action.action.name).executions) :
    Slices a m xs R r' := by
  have hname : t.action.name = a.name := congrArg Action.name haction
  have hnow : Holds a.name r' i := ⟨t', ht.after, ht.action ▸ hname, hp ▸ rfl⟩
  have hcarries := hs.held i t ht.before hname
  rw [haction] at he hp
  have hn := executionsOf_of_count he
  rw [hbefore] at hcarries
  obtain ⟨ys, rfl, hlength⟩ := Phase.Carries.of_admitted GrownBySelf.grown hcarries
  refine ⟨fun k u hu hname₀ => ?_, fun h => ?_, fun _ => .inl ⟨i, hnow⟩⟩
  · rw [hn]
    by_cases hk : k = i
    · subst hk
      obtain rfl : t' = u := Option.some.inj (ht.after.symm.trans hu)
      rw [hp]
      refine (ap.appends.execute _ _ _ _ (xs ++ ys)).mono fun w hw => ?_
      obtain ⟨v, rfl⟩ := hw
      refine ⟨ys ++ [v], by rw [List.append_assoc], ?_⟩
      rw [List.length_append, List.length_singleton]
      exact ⟨Nat.succ_pos _, hsucc _ _ hlength⟩
    -- One more execution is counted for the others too, unless there are none that hold a slice.
    · rcases hR with hlenient | hone
      · exact (hs.held_of_ne hsteady.lined ht hk hu hname₀).mono
          (fun w hw => hw.mono fun l hl => hlenient l _ hl)
          fun w hw => hw.mono fun l hl => ⟨hl.1, hlenient l _ hl.2⟩
      · refine Phase.carries_of_not_holdsSlice (Bool.eq_false_iff.mpr fun hholds => hk ?_)
        exact Holds.eq_of_holders ⟨u, hu, hname₀, hholds⟩ hone hnow
  · rcases h with hlenient | hnone
    · rw [hn, kept, hstore]
      exact (hs.stored (.inl hlenient)).mono fun l hl => hlenient l _ hl
    · exact absurd hnow (hnone i)

theorem here_writes {v : Json} {outcome : Except RunError Json}
    (hbefore : t.phase = .concluding v outcome) (hp : t'.phase.holdsSlice = false)
    (hstore : r'.store = (r.keepSlice t.action.action v).store)
    (he : r'.executions = r.executions) : Slices a m xs R r' := by
  have hn := executionsOf_congr he a.name
  have hvalue : r'.store.value? m.key = some v := by
    rw [hstore]
    exact value?_keepSlice (haction ▸ ap.memory) hsteady.writable v
  have hgrown : GrownBySelf xs R (r.executionsOf a.name) v := by
    have hcarries := hs.held i t ht.before (congrArg Action.name haction)
    rw [hbefore] at hcarries
    exact hcarries
  refine ⟨hn ▸ hs.held_of_step hsteady.lined ht fun _ => ?_, fun _ => ?_, fun _ => .inr ?_⟩
  · exact Phase.carries_of_not_holdsSlice hp
  · rw [hn, kept, hvalue]
    exact hgrown.grown
  · rw [hn]
    exact ⟨v, hvalue, hgrown⟩

end

/-- A step of a call of the action itself. If `R` does not allow the store to lag behind, at most
one call may hold the slice. -/
theorem here (ap : Appender setup a m) (hsucc : ∀ l n, R l n → R (l + 1) (n + 1))
    (hsteady : Steady setup m.key r) (hs : Slices a m xs R r) (ht : Turn i t t' r r')
    (hname : t.action.name = a.name)
    (hR : (∀ l n, R l n → R l (n + 1)) ∨ r'.holders a.name ≤ 1) : Slices a m xs R r' := by
  have hmem : t.action.action ∈ setup.catalog.actions :=
    hsteady.setup ▸ hsteady.bound.tasks t (List.mem_of_getElem? ht.before)
  have haction : t.action.action = a := ap.owned.eq_of_name hmem ap.mem hname
  cases ht.handling with
  | outside hbefore hp hi => exact hs.here_outside hsteady ht haction hbefore hp hi
  | loads hload hp hi => exact hs.here_loads ap hsteady ht haction hR hload hp hi
  | inside _ hp hkeep hi => exact hs.here_inside ap hsteady ht haction hp hkeep hi
  | begins hbefore hp hstore he _ =>
    exact hs.here_begins ap hsteady ht haction hsucc hR hbefore hp hstore he
  | writes hbefore hp hstore he _ =>
    exact hs.here_writes ap hsteady ht haction hbefore hp hstore he
  | breaks _ _ hlost _ => exact absurd (hs.held i t ht.before hname) (hlost _ _)

theorem apply (ap : Appender setup a m) (hsucc : ∀ l n, R l n → R (l + 1) (n + 1))
    (hsteady : Steady setup m.key r) (hs : Slices a m xs R r) {move : Move}
    (hcancel : (r.apply move).cancelled = false)
    (hR : (∀ l n, R l n → R l (n + 1)) ∨ (r.apply move).holders a.name ≤ 1) :
    Steady setup m.key (r.apply move) ∧ Slices a m xs R (r.apply move) := by
  by_cases hm : ∃ i, move = .task i
  · obtain ⟨i, rfl⟩ := hm
    rw [Run.apply, stepTask] at hcancel hR ⊢
    cases h : r.stepTask? i with
    | none => exact ⟨hsteady, hs⟩
    | some r' =>
      rw [h] at hcancel hR
      obtain ⟨t, t', hturn, hsteady'⟩ := hsteady.turn h hcancel
      refine ⟨hsteady', ?_⟩
      by_cases hname : t.action.name = a.name
      · exact hs.here ap hsucc hsteady hturn hname hR
      · exact hs.elsewhere ap hsteady hturn hname
  · have haside : Aside r (r.apply move) := Aside.apply (fun i hi => hm ⟨i, hi⟩) r
    obtain ⟨hbound, hcounted⟩ := apply_bound hsteady.bound hsteady.counted move
    exact ⟨hsteady.aside haside hbound hcounted, hs.aside ap hsteady haside⟩

end Slices

theorem cancelled_of_apply {move : Move} (h : (r.apply move).cancelled = false) :
    r.cancelled = false := by
  by_cases hm : ∃ i, move = .task i
  · obtain ⟨i, rfl⟩ := hm
    rw [Run.apply, stepTask] at h
    cases hs : r.stepTask? i with
    | none =>
      rw [hs] at h
      exact h
    | some r' =>
      rw [hs] at h
      obtain ⟨t, _, p, _, hhandling, _⟩ := stepTask?_handles hs h
      exact hhandling.cancelled h
  · exact (Aside.apply (fun i hi => hm ⟨i, hi⟩) r).cancelled h

theorem Slices.applyAll (ap : Appender setup a m) (hsucc : ∀ l n, R l n → R (l + 1) (n + 1))
    (hsteady : Steady setup m.key r) (hs : Slices a m xs R r) {ms : List Move}
    (hcancel : (r.applyAll ms).cancelled = false)
    (hR : (∀ l n, R l n → R l (n + 1)) ∨
      ∀ ms', ms' <+: ms → (r.applyAll ms').holders a.name ≤ 1) :
    Steady setup m.key (r.applyAll ms) ∧ Slices a m xs R (r.applyAll ms) := by
  induction ms using List.reverseRecOn with
  | nil => exact ⟨hsteady, hs⟩
  | append_singleton ms move ih =>
    have happend : r.applyAll (ms ++ [move]) = (r.applyAll ms).apply move :=
      r.applyAll_append ms [move]
    rw [happend] at hcancel ⊢
    obtain ⟨hsteady', hs'⟩ := ih (cancelled_of_apply hcancel) <| hR.imp_right fun hone ms' hms' =>
      hone ms' (hms'.trans (List.prefix_append ms [move]))
    exact hs'.apply ap hsucc hsteady' hcancel <| hR.imp_right fun hone =>
      happend ▸ hone _ (List.prefix_refl _)

section

variable {store : Store} (archive : Archive) (subscribers : Subscribers)

theorem steady_new {key : String} (hread : ∀ n, store.readFault n key = none)
    (hwrite : ∀ n, store.writeFault n key = none) :
    Steady setup key (new setup store archive subscribers) where
  setup := rfl
  bound := ⟨by simp [TasksOwn, new], by simp [new, Ledger.empty], by simp [new]⟩
  counted := rfl
  lined := ⟨List.nodup_nil, by simp [new, Runner.Permits.new]⟩
  readable := hread
  writable := hwrite

theorem slices_new (hxs : (store.value? m.key).getD m.initial = .arr xs) (hzero : R 0 0) :
    Slices a m xs R (new setup store archive subscribers) where
  held := fun k t ht => by simp [new] at ht
  stored := fun _ => ⟨[], by rw [List.append_nil]; exact hxs, hzero⟩
  survives := fun h => absurd h (Nat.lt_irrefl 0)

/-- What an action has appended to the array in its memory, once no call is in flight, as at the end
of settling: at most one element for every execution, and at least one in all; one for every
execution if at no moment two calls of the action held the slice. -/
theorem kept_eq_append {actions : List Action} {outputs : List OutputHandler}
    {inputs : List InputHandler}
    (hcatalog : Catalog.ofLists actions outputs inputs = .ok setup.catalog)
    (hvalid : setup.catalog.validate = .ok ()) (ha : a ∈ setup.catalog.actions)
    (hm : a.memory = some m) (happends : a.AppendsOne)
    (hkey : m.key ≠ setup.config.workingMemoryKey setup.context.id)
    (hread : ∀ n, store.readFault n m.key = none) (hwrite : ∀ n, store.writeFault n m.key = none)
    (hxs : (store.value? m.key).getD m.initial = .arr xs) (ms : List Move) :
    let run := fun ms => (new setup store archive subscribers).applyAll ms
    let r := run ms
    r.cancelled = false → r.ledger.inFlight = 0 →
      ∃ ys, (r.store.value? m.key).getD m.initial = .arr (xs ++ ys) ∧
        ys.length ≤ r.executionsOf a.name ∧
        (0 < r.executionsOf a.name → 0 < ys.length ∧ (r.store.value? m.key).isSome) ∧
        ((∀ ms', ms' <+: ms → (run ms').holders a.name ≤ 1) →
          ys.length = r.executionsOf a.name) := by
  intro run r hcancel hflight
  have ap : Appender setup a m :=
    ⟨Catalog.owned_of_validate hcatalog hvalid, ha, hm, hkey, happends⟩
  have hsteady : Steady setup m.key (new setup store archive subscribers) :=
    steady_new archive subscribers hread hwrite
  -- The invariant is used twice: with `≤`, which stays true while others go on, and with `=`.
  have hsucc : ∀ l n : Nat, l ≤ n → l + 1 ≤ n + 1 := fun _ _ => Nat.succ_le_succ
  have hlenient : ∀ l n : Nat, l ≤ n → l ≤ n + 1 := fun _ _ => Nat.le_succ_of_le
  obtain ⟨hsteady', hatMost⟩ := (slices_new archive subscribers hxs (Nat.le_refl 0)).applyAll ap
    hsucc hsteady hcancel (.inl hlenient)
  have hnone (k : Nat) : ¬ Holds a.name r k := by
    rintro ⟨t, ht, _, hholds⟩
    have hover := hsteady'.counted.isOver_of_inFlight hflight (List.mem_of_getElem? ht)
    unfold CallTask.isOver at hover
    split at hover
    · rename_i hended
      rw [hended] at hholds
      cases hholds
    · cases hover
  obtain ⟨ys, hys, hle⟩ := hatMost.stored (.inl hlenient)
  have hunique {zs : List Json} (hzs : (r.store.value? m.key).getD m.initial = .arr (xs ++ zs)) :
      zs = ys := List.append_cancel_left (Json.arr.inj (hzs.symm.trans hys))
  refine ⟨ys, hys, hle, fun hpos => ?_, fun hone => ?_⟩
  · obtain ⟨k, hk⟩ | ⟨v, hv, zs, rfl, hlength, _⟩ := hatMost.survives hpos
    · exact absurd hk (hnone k)
    · rw [← hunique (by rw [hv]; rfl), hv]
      exact ⟨hlength, rfl⟩
  · have hsucc : ∀ l n : Nat, l = n → l + 1 = n + 1 := fun _ _ => congrArg (· + 1)
    obtain ⟨_, hexact⟩ := (slices_new archive subscribers hxs (Eq.refl 0)).applyAll ap hsucc
      hsteady hcancel (.inr hone)
    obtain ⟨zs, hzs, hlength⟩ := hexact.stored (.inr hnone)
    rw [← hunique hzs]
    exact hlength

open Sample

theorem noteAction_appendsOne : noteAction.AppendsOne where
  execute := fun _ _ data _ _ => ⟨data, rfl⟩
  onError := fun _ _ _ => rfl

theorem noteSetup_validate : noteSetup.catalog.validate = .ok () := by decide +kernel

/-- Two calls that load their slices before either writes, with one permit for both: each is
executed, and the later write drops what the earlier one added. And one call of an action whose key
is that of working memory: its update is overwritten when its result is committed. -/
theorem kept_eq_append_fails :
    let setup := { noteSetup with config := { noteSetup.config with maxConcurrentTasks := 1 } }
    let ms : List Move :=
      [.start, .push (noteCall 1), .push (noteCall 2), .task 0, .task 1, .task 0, .task 1] ++
        List.replicate 7 (.task 0) ++ List.replicate 7 (.task 1) ++ List.replicate 4 .deliver
    let r := (new setup Store.empty Archive.empty Subscribers.empty).applyAll ms
    let key := noteSetup.config.workingMemoryKey noteSetup.context.id
    let action := { noteAction with memory := some ⟨key, .arr []⟩ }
    let setup' := { noteSetup with catalog := ⟨[action], [], []⟩ }
    let ms' : List Move :=
      [.start, .push (noteCall 1)] ++ List.replicate 9 (.task 0) ++ List.replicate 2 .deliver
    let r' := (new setup' Store.empty Archive.empty Subscribers.empty).applyAll ms'
    (Catalog.ofLists [noteAction] [] [] = .ok setup.catalog ∧ setup.catalog.validate = .ok () ∧
      noteAction.AppendsOne ∧ noteAction.memory = some ⟨"notes", .arr []⟩ ∧
      r.cancelled = false ∧ r.ledger.inFlight = 0 ∧ r.executionsOf "note" = 2 ∧
      r.store.value? "notes" = some (.arr [.obj []])) ∧
    Catalog.ofLists [action] [] [] = .ok setup'.catalog ∧ setup'.catalog.validate = .ok () ∧
      action.AppendsOne ∧ r'.cancelled = false ∧ r'.ledger.inFlight = 0 ∧
      r'.executionsOf "note" = 1 ∧ r'.store.value? key = some r'.ledger.memory.toJson := by
  intro setup ms r key action setup' ms' r'
  have happends : action.AppendsOne :=
    ⟨noteAction_appendsOne.execute, noteAction_appendsOne.onError⟩
  refine ⟨⟨rfl, noteSetup_validate, noteAction_appendsOne, rfl, ?_⟩, rfl, ?_, happends, ?_⟩
  · decide +kernel
  · decide +kernel
  · decide +kernel

/-- Two calls, one after the other. -/
theorem kept_eq_append_two_calls :
    let ms : List Move := [.start, .push (noteCall 1), .push (noteCall 2)] ++
      List.replicate 9 (.task 0) ++ List.replicate 9 (.task 1) ++ List.replicate 4 .deliver
    let r := noteRun.applyAll ms
    ∃ ys, (r.store.value? "notes").getD (.arr []) = .arr ([] ++ ys) ∧
      ys.length = r.executionsOf "note" ∧ r.executionsOf "note" = 2 := by
  intro ms r
  have hcatalog : Catalog.ofLists [noteAction] [] [] = .ok noteSetup.catalog := rfl
  have hxs : (Store.empty.value? "notes").getD (.arr []) = .arr [] := rfl
  have hone : ∀ ms', ms' <+: ms → (noteRun.applyAll ms').holders "note" ≤ 1 := by
    have htake : ∀ k < 26, (noteRun.applyAll (ms.take k)).holders "note" ≤ 1 := by decide +kernel
    intro ms' hms'
    rw [List.prefix_iff_eq_take.mp hms']
    exact htake _ (Nat.lt_succ_of_le hms'.length_le)
  obtain ⟨ys, hys, _, _, hexact⟩ := kept_eq_append Archive.empty Subscribers.empty hcatalog
    noteSetup_validate (List.mem_singleton.mpr rfl) rfl noteAction_appendsOne (by decide)
    (fun _ => rfl) (fun _ => rfl) hxs ms (by decide +kernel) (by decide +kernel)
  exact ⟨ys, hys, hexact hone, by decide +kernel⟩

end

end Run

end TagLedger
