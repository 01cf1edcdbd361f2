import TagLedger.Proofs.Template.Detection

/-!
Where templates stand. In a payload that names no member twice, every template that is found stands
at a path of its own, and none of these paths leads through another; so when all are replaced, each
has its value in its place, and everything else is as it was.
-/

namespace TagLedger.Template

variable {j : Json}

/-- Every template of a payload stands in it, and their paths lead apart. -/
theorem detect_stands (h : j.Tidy) :
    (∀ t ∈ detect j, j.at? t.path = some (.str t.text)) ∧
      (detect j).Pairwise fun t t' => t.path.Apart t'.path :=
  ⟨fun _ ht => ((mem_detect_iff h).mp ht).1, (detect_pairwise h).imp fun hpq => hpq.apart h⟩

/-- Templates that stand apart from each other are all replaced if there is a value for each. What
stands apart from them stays. -/
theorem resolve_places {source : String → String → Answer} {value : Template → Json}
    {payload : Json} {ts : List Template}
    (hplace : ∀ t ∈ ts, ∃ old, payload.at? t.path = some old)
    (hapart : ts.Pairwise fun t t' => t.path.Apart t'.path)
    (hvalue : ∀ t ∈ ts, ∃ key path, t.request? = some (key, path) ∧
      source key path = .ok (some (value t))) :
    (resolve source payload ts).fault = none ∧
      (∀ t ∈ ts, (resolve source payload ts).payload.at? t.path = some (value t)) ∧
      ∀ p : Path, (∀ t ∈ ts, t.path.Apart p) →
        (resolve source payload ts).payload.at? p = payload.at? p := by
  induction ts generalizing payload with
  | nil => exact ⟨rfl, by simp, fun _ _ => rfl⟩
  | cons t ts ih =>
    obtain ⟨hfirst, hapart⟩ := List.pairwise_cons.mp hapart
    obtain ⟨⟨old, hold⟩, hplace⟩ := List.forall_mem_cons.mp hplace
    obtain ⟨⟨key, path, hkey, hsource⟩, hvalue⟩ := List.forall_mem_cons.mp hvalue
    obtain ⟨hblocked, hself⟩ := Json.at?_write_self hold (value t)
    have hfill : t.fill payload (.ok (some (value t))) =
        ((Json.write (value t) payload t.path).target, none) := by
      rw [fill, substitute, hblocked]
      rfl
    have hresolve : (resolve source payload (t :: ts)).fault =
          (resolve source (Json.write (value t) payload t.path).target ts).fault ∧
        (resolve source payload (t :: ts)).payload =
          (resolve source (Json.write (value t) payload t.path).target ts).payload := by
      rw [resolve_cons, hkey]
      dsimp only
      rw [hsource, hfill]
      exact ⟨rfl, rfl⟩
    have hstill : ∀ t' ∈ ts, ∃ old,
        (Json.write (value t) payload t.path).target.at? t'.path = some old := by
      intro t' ht'
      rw [Json.at?_write_of_apart hold (hfirst t' ht')]
      exact hplace t' ht'
    obtain ⟨hfault, hvalues, hothers⟩ := ih hstill hapart hvalue
    rw [hresolve.1, hresolve.2]
    refine ⟨hfault, fun t' ht' => ?_, fun p hp => ?_⟩
    · rcases List.mem_cons.mp ht' with rfl | ht'
      · rw [hothers t'.path fun t'' ht'' => (hfirst t'' ht'').symm]
        exact hself
      · exact hvalues t' ht'
    · obtain ⟨hself', hp⟩ := List.forall_mem_cons.mp hp
      rw [hothers p hp, Json.at?_write_of_apart hold hself']

/-- What is replaced depends only on what the templates ask for. -/
theorem resolve_congr {source source' : String → String → Answer} {payload : Json}
    {ts : List Template} (h : ∀ t ∈ ts, ∀ key path, t.request? = some (key, path) →
      source key path = source' key path) :
    resolve source payload ts = resolve source' payload ts := by
  induction ts generalizing payload with
  | nil => rfl
  | cons t ts ih =>
    obtain ⟨hfirst, hrest⟩ := List.forall_mem_cons.mp h
    rw [resolve_cons, resolve_cons]
    split
    · rfl
    · rename_i key path hkey
      rw [hfirst key path hkey]
      split
      · rfl
      · rw [ih hrest]

end TagLedger.Template
