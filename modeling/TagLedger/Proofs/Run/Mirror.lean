import Mathlib.Tactic.Common
import TagLedger.Proofs.Run.Settle
import TagLedger.Proofs.Run.Writes

/-!
Mirrors of the log. A subscriber that keeps what it is told can tell the chain from the committed
entries among it, whatever becomes of the other subscribers, as long as no two entries of the chain
have the same identifier.
-/

namespace TagLedger

/-- A log with an entry that is told of: it replaces the one of its identifier, or is new and comes
last. -/
def mirrorStep (log : List Entry) (e : Entry) : List Entry :=
  if log.any fun x => x.id == e.id then log.map fun x => if x.id == e.id then e else x
  else log ++ [e]

def mirror (told : List Entry) : List Entry := told.foldl mirrorStep []

theorem mirror_concat (es : List Entry) (e : Entry) :
    mirror (es ++ [e]) = mirrorStep (mirror es) e := by
  simp [mirror]

theorem mirrorStep_of_new {log : List Entry} {e : Entry}
    (h : ((log ++ [e]).map Entry.id).Nodup) : mirrorStep log e = log ++ [e] := by
  rw [List.map_append, List.nodup_append'] at h
  have hnew : log.any (fun x => x.id == e.id) = false := by
    simpa using fun x hx hid => h.2.2 (List.mem_map_of_mem hx) (hid ▸ List.mem_singleton_self _)
  rw [mirrorStep, hnew]
  rfl

/-- Among distinct identifiers, replacing the first entry of one is replacing every such entry. -/
theorem mirrorStep_of_noted {log : List Entry} {c : Entry.Call} {id : Uuid}
    (hids : (log.map Entry.id).Nodup) (hc : Run.chainCall? id log = some c) (data : Json) :
    mirrorStep log (.call { c with data := some data }) =
      Run.replaceFirst id (.call { c with data := some data }) log := by
  obtain ⟨hmem, rfl⟩ := Run.mem_of_chainCall? hc
  have hthere : log.any (fun x => x.id == c.id) = true :=
    List.any_eq_true.mpr ⟨.call c, hmem, beq_self_eq_true c.id⟩
  have hone : log.countP (fun x => x.id == c.id) ≤ 1 := by
    have h := List.nodup_iff_count_le_one.mp hids c.id
    rwa [List.count, List.countP_map] at h
  rw [Run.replaceFirst, WorkingMemory.updateFirst_eq_map _ hone]
  exact if_pos hthere

/-- A change keeps the identifiers of the chain. -/
theorem Change.ids {chain chain' : List Entry} {e : Entry} (h : Change chain e chain') :
    chain.map Entry.id <+: chain'.map Entry.id := by
  cases h with
  | added _ => exact ⟨[e.id], by simp⟩
  | noted hc data => exact Run.ids_replaceFirst hc data ▸ List.prefix_refl _

theorem Change.mirrorStep_eq {chain chain' : List Entry} {e : Entry} (h : Change chain e chain')
    (hids : (chain'.map Entry.id).Nodup) : mirrorStep chain e = chain' := by
  have hbefore := hids.sublist h.ids.sublist
  cases h with
  | added _ => exact mirrorStep_of_new hids
  | noted hc data => exact mirrorStep_of_noted hbefore hc data

/-- Changes from the beginning can be told from the entries that were told of. -/
theorem Changes.mirror_eq {es chain : List Entry} (h : Changes [] es chain)
    (hids : (chain.map Entry.id).Nodup) : mirror es = chain := by
  induction h with
  | refl => rfl
  | concat _ hc ih =>
    rw [mirror_concat, ih (hids.sublist hc.ids.sublist), hc.mirrorStep_eq hids]

namespace Subscribers

variable {k : Nat} {seen : List Notification}

/-- A recorder is told whatever becomes of the subscribers before it. -/
theorem getElem?_tell {ss : List Subscriber} (h : ss[k]? = some (.recorder seen))
    (n : Notification) (c : Channel) :
    (tell n c ss).1[k]? = some (.recorder (seen ++ [n])) := by
  induction ss generalizing k c with
  | nil => cases h
  | cons s ss ih =>
    cases k with
    | zero =>
      obtain rfl := Option.some.inj h
      rfl
    | succ k => exact ih h _

theorem recorder_foldl_notify {s : Subscribers} (h : s.members[k]? = some (.recorder seen))
    (ns : List Notification) :
    (ns.foldl notify s).members[k]? = some (.recorder (seen ++ ns)) := by
  induction ns generalizing s seen with
  | nil => rwa [List.append_nil]
  | cons n ns ih =>
    have htold : (s.notify n).members[k]? = some (.recorder (seen ++ [n])) :=
      getElem?_tell h n s.channel
    have hnext := ih htold
    rwa [List.append_assoc] at hnext

end Subscribers

/-- Whatever other subscribers there are, and whatever the schedule, what a recorder was told of
committed entries makes up the chain. -/
theorem Run.mirror_recorded (setup : Setup) (store : Store) (archive : Archive)
    (subscribers : Subscribers) {k : Nat} (hk : subscribers.members[k]? = some (.recorder []))
    (ms : List Move)
    (hids : (((new setup store archive subscribers).applyAll ms).ledger.chain.map
      Entry.id).Nodup) :
    let r := (new setup store archive subscribers).applyAll ms
    ∃ seen, r.ledger.subscribers.members[k]? = some (.recorder seen) ∧
      mirror (committedEntries seen) = r.ledger.chain := by
  intro r
  have hwrites : Writes (new setup store archive subscribers) r :=
    .applyAll (.new setup store archive subscribers) ms
  obtain ⟨ns, hns, hchanges⟩ := hwrites.told
  refine ⟨ns, ?_, hchanges.mirror_eq hids⟩
  rw [hns]
  exact Subscribers.recorder_foldl_notify hk ns

namespace Sample

/-- A recorder between a subscriber that fails and one that breaks down. -/
def faultySubscribers : Subscribers :=
  { Subscribers.empty with
    members := [.other (fun _ _ => .failed .aborted) 0, .recorder [],
      .other (fun _ _ => .crashed) 0] }

end Sample

open Sample in
/-- A call is told of once when it is committed and again when its data is there. -/
theorem Run.mirror_recorded_faulty :
    let r := (new noteSetup Store.empty Archive.empty faultySubscribers).applyAll
      ([.start, .push (noteCall 1)] ++ List.replicate 9 (.task 0) ++ [.deliver, .deliver])
    (r.ledger.chain.map Entry.id).Nodup ∧ ∃ seen,
      r.ledger.subscribers.members[1]? = some (.recorder seen) ∧
        (committedEntries seen).length = 5 ∧ r.ledger.chain.length = 4 ∧
        mirror (committedEntries seen) = r.ledger.chain := by
  intro r
  have hids : (r.ledger.chain.map Entry.id).Nodup := by decide +kernel
  obtain ⟨seen, hseen, hmirror⟩ :=
    mirror_recorded noteSetup Store.empty Archive.empty faultySubscribers (k := 1) rfl _ hids
  have hlength : r.ledger.chain.length = 4 := by decide +kernel
  have htold : r.ledger.subscribers.members[1]?.map (fun s => (committedEntries s.seen).length) =
      some 5 := by decide +kernel
  rw [hseen] at htold
  exact ⟨hids, seen, hseen, Option.some.inj htold, hlength, hmirror⟩

end TagLedger
