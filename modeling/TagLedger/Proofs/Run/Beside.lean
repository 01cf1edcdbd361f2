import Mathlib.Tactic.Common
import TagLedger.Proofs.Run.Bare
import TagLedger.Proofs.Run.Deeds
import TagLedger.Proofs.Run.Writes

/-!
What happens beside the stream. Moves that take in no piece of it leave the open entries alone and
tell subscribers of final entries only; identifiers may be given out, but none a second time.
-/

namespace TagLedger

def draftEntries (ns : List Notification) : List Entry :=
  (ns.filter fun n => !n.done).map (·.entry)

theorem draftEntries_append (ns ns' : List Notification) :
    draftEntries (ns ++ ns') = draftEntries ns ++ draftEntries ns' := by
  simp [draftEntries]

namespace Run

variable {r r' r'' : Run} {m : Move}

/-- Subscribers were told of these entries while they were being written, and of final ones. -/
def Tells (drafts : List Entry) (r r' : Run) : Prop :=
  ∃ ns : List Notification,
    r'.ledger.subscribers = ns.foldl Subscribers.notify r.ledger.subscribers ∧
      draftEntries ns = drafts

theorem Tells.of_eq (h : r'.ledger.subscribers = r.ledger.subscribers) : Tells [] r r' :=
  ⟨[], h, rfl⟩

theorem Tells.trans {drafts drafts' : List Entry} (h : Tells drafts r r')
    (h' : Tells drafts' r' r'') : Tells (drafts ++ drafts') r r'' := by
  obtain ⟨ns, hns, hdrafts⟩ := h
  obtain ⟨ns', hns', hdrafts'⟩ := h'
  refine ⟨ns ++ ns', ?_, ?_⟩
  · rw [hns', hns, List.foldl_append]
  · rw [draftEntries_append, hdrafts, hdrafts']

structure Beside (r r' : Run) : Prop where
  setup : r'.setup = r.setup
  openEntries : r'.ledger.openEntries = r.ledger.openEntries
  drawn : r.drawn ≤ r'.drawn
  told : Tells [] r r'

namespace Beside

theorem trans (h : Beside r r') (h' : Beside r' r'') : Beside r r'' where
  setup := h'.setup.trans h.setup
  openEntries := h'.openEntries.trans h.openEntries
  drawn := h.drawn.trans h'.drawn
  told := h.told.trans h'.told

theorem of_ledger (hs : r'.setup = r.setup) (hl : r'.ledger = r.ledger)
    (hd : r.drawn ≤ r'.drawn) : Beside r r' where
  setup := hs
  openEntries := by rw [hl]
  drawn := hd
  told := .of_eq (by rw [hl])

theorem refl (r : Run) : Beside r r := .of_ledger rfl rfl (Nat.le_refl _)

theorem commit (e : Entry) (r : Run) : Beside r (r.commit e) where
  setup := (Framed.commit e r).setup
  openEntries := (Framed.commit e r).openEntries
  drawn := by
    have hepisode (q : Run) : q.drawn ≤ (q.recordResult e).drawn := by
      unfold recordResult
      split
      · unfold recordEpisode
        split
        · exact Nat.le_succ _
        · exact Nat.le_refl _
      · exact Nat.le_refl _
    exact hepisode (r.append e)
  told :=
    ⟨[⟨e, true⟩], congrArg (·.notify ⟨e, true⟩) (subscribers_recordResult e (r.append e)), rfl⟩

theorem deed (h : Deed r r') : Beside r r' := by
  cases h with
  | commits e => exact commit e r
  | draws count => exact .of_ledger rfl rfl (Nat.le_add_right _ _)
  | _ => exact ⟨rfl, rfl, Nat.le_refl _, .of_eq rfl⟩

theorem deeds (h : Deeds r r') : Beside r r' :=
  h.keep refl (fun _ _ _ => trans) (fun _ _ => deed)

theorem route (e : Entry) (r : Run) : Beside r (r.route e) := by
  by_cases hkind : e.kind = .input
  · cases e with
    | input e =>
      have hrecalled : Beside r (r.recalled e) := ⟨rfl, rfl, Nat.le_refl _, .of_eq rfl⟩
      exact hrecalled.trans (deeds (routeInput_deeds e r))
    | _ => cases hkind
  · exact deeds (.route hkind r)

theorem patchCall (id : Uuid) (data : Json) (r : Run) : Beside r (r.patchCall id data) := by
  unfold Run.patchCall
  split
  · exact ⟨rfl, rfl, Nat.le_refl _, .of_eq rfl⟩
  · exact ⟨rfl, rfl, Nat.le_refl _, ⟨[⟨_, true⟩], rfl, rfl⟩⟩

theorem receive (m : Message) (r : Run) : Beside r (receive m r) := by
  cases m with
  | push e => exact route e.finished r
  | prepared id data => exact patchCall id data r
  | failed id err => exact deeds (.failed id err r)
  | completed res => exact deeds (.completed res r)

theorem start (r : Run) : Beside r r.start.2 := by
  unfold Run.start
  split
  · exact .of_ledger rfl rfl (Nat.le_refl _)
  · rename_i m store _
    have hbound : Beside r (bindCatalog m { r with store }) :=
      ⟨rfl, rfl, Nat.le_refl _, .of_eq rfl⟩
    exact hbound.trans (deeds ((Deeds.openRun _).trans (Deeds.nextStep _)))

end Beside

theorem drawn_absorb (s : Scene) (r : Run) : r.drawn ≤ (r.absorb s).drawn := by
  have hposts (posts : List Post) (q : Run) :
      q.drawn ≤ (posts.foldl (fun r p => r.sendPost p) q).drawn := by
    induction posts generalizing q with
    | nil => exact Nat.le_refl _
    | cons p posts ih =>
      refine Nat.le_trans ?_ (ih (q.sendPost p))
      cases p with
      | entry e => exact Nat.le_refl _
      | event name data => exact Nat.le_succ _
  exact hposts s.posts { r with cancelled := r.cancelled || s.cancelled }

theorem drawn_giveBack (r : Run) : r.giveBack.drawn = r.drawn := by
  rw [giveBack_frame]

/-- Steps of tasks give out identifiers and take none back. -/
theorem Conduct.drawn {i : Nat} {t t' : CallTask} {sent : List Message}
    (h : Conduct i r t t' sent r') : r.drawn ≤ r'.drawn := by
  have hkeep (a : Action) (slice : Json) : ((r.draw 1).keepSlice a slice).drawn = r.drawn + 1 := by
    rw [keepSlice_frame]
    rfl
  cases h with
  | works _ _ _ _ => exact drawn_absorb _ _
  | succeeds _ _ => exact (drawn_giveBack r).ge
  | fails _ _ => exact (drawn_giveBack r).ge
  | crashes _ _ _ => exact Nat.le_succ_of_le (drawn_giveBack r).ge
  | recovers _ _ _ _ => exact drawn_absorb _ _
  | concludes _ _ _ => exact Nat.le_trans (Nat.le_succ _) (hkeep _ _).ge
  | concludesError _ _ _ => exact Nat.le_trans (Nat.le_succ _) (hkeep _ _).ge
  | follows _ _ _ _ => exact drawn_absorb _ _
  | recoveryBreaks _ _ _ => exact Nat.le_succ _
  | followBreaks _ _ _ => exact Nat.le_succ _
  | _ => exact Nat.le_refl _

theorem Beside.steps {i : Nat} (hs : r.stepTask? i = some r') : Beside r r' := by
  obtain ⟨t, t', sent, ht, hconduct⟩ := stepTask?_conduct hs
  have hsteps := hconduct.steps ht
  exact .of_ledger hsteps.setup hsteps.ledger hconduct.drawn

/-- Every move that takes in no piece of a stream. -/
theorem Beside.apply (hm : m.isPiece = false) (r : Run) : Beside r (r.apply m) := by
  have hsame {r' : Run} (hs : r'.setup = r.setup) (hl : r'.ledger = r.ledger)
      (hd : r'.drawn = r.drawn) : Beside r r' := .of_ledger hs hl hd.ge
  have hmove := r.apply_happens m
  generalize r.taken m = taken, r.apply m = r' at hmove ⊢
  cases hmove with
  | nothing => exact .refl r
  | start _ => exact .start r
  | nextStep _ => exact .deeds (.nextStep r)
  | push e _ => exact .route e.finished r
  | feed _ _ _ | closeStream _ _ => cases hm
  | @deliver m rest _ =>
    have htaken : Beside r { r with inbox := rest } := hsame rfl rfl rfl
    exact htaken.trans (.receive _ _)
  | task hs => exact .steps hs
  | _ => exact hsame rfl rfl rfl

end Run

end TagLedger
