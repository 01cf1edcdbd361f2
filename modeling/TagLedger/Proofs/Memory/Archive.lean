import Mathlib.Data.List.Induction
import TagLedger.Proofs.Json.Same
import TagLedger.Proofs.Memory.Ranking

/-!
The documents of an archive. A document with an `id` stands where the `id` was first inserted and is
the one last inserted with it; documents without an `id` are all kept. What is inserted into one
context is in no other.
-/

namespace TagLedger.Archive

variable {docs inserted : List Json} {d e f : Json}

/-- Whether both documents have an `id`, and the same. -/
def sameId (d e : Json) : Bool :=
  match d.get? "id" with
  | some id => hasId id e
  | none => false

theorem hasId_iff {id : Json} :
    hasId id e = true ↔ ∃ j, e.get? "id" = some j ∧ j.sameValue id = true := by
  cases he : e.get? "id" <;> simp [hasId, he]

theorem sameId_iff : sameId d e = true ↔
    ∃ i j, d.get? "id" = some i ∧ e.get? "id" = some j ∧ j.sameValue i = true := by
  cases hd : d.get? "id" <;> cases he : e.get? "id" <;> simp [sameId, hasId, hd, he]

theorem sameId_self (hd : d.Tidy) (hid : d.get? "id" ≠ none) : sameId d d = true := by
  obtain ⟨i, hi⟩ := Option.ne_none_iff_exists'.mp hid
  exact sameId_iff.mpr ⟨i, i, hi, hi, (hd.get? hi).sameValue_refl⟩

theorem sameId_symm (hd : d.Tidy) (he : e.Tidy) (h : sameId d e = true) : sameId e d = true := by
  obtain ⟨i, j, hi, hj, hsame⟩ := sameId_iff.mp h
  exact sameId_iff.mpr ⟨j, i, hj, hi, (he.get? hj).sameValue_symm (hd.get? hi) hsame⟩

theorem hasId_trans {id : Json} (he : e.Tidy) (h : hasId id d = true) (h' : sameId d e = true) :
    hasId id e = true := by
  obtain ⟨j, hj, hsame⟩ := hasId_iff.mp h
  obtain ⟨j', k, hj', hk, hsame'⟩ := sameId_iff.mp h'
  obtain rfl : j = j' := Option.some.inj (hj.symm.trans hj')
  exact hasId_iff.mpr ⟨k, hk, (he.get? hk).sameValue_trans hsame' hsame⟩

theorem sameId_trans (hf : f.Tidy) (h : sameId d e = true) (h' : sameId e f = true) :
    sameId d f = true := by
  obtain ⟨i, j, hi, hj, hsame⟩ := sameId_iff.mp h
  have hid : hasId i f = true := hasId_trans hf (hasId_iff.mpr ⟨j, hj, hsame⟩) h'
  simpa [sameId, hi] using hid

/-! ### One insertion -/

@[simp] theorem place_nil (d : Json) : place [] d = [d] := by
  cases hd : d.get? "id" <;> simp [place, hd]

theorem place_cons (x : Json) (docs : List Json) (d : Json) :
    place (x :: docs) d = if sameId d x then d :: docs else x :: place docs d := by
  cases hd : d.get? "id" with
  | none => simp [place, sameId, hd]
  | some i =>
    simp only [place, sameId, hd, Option.bind_some, List.findIdx?_cons]
    cases hx : hasId i x with
    | true => simp
    | false => cases hfound : docs.findIdx? (hasId i) <;> simp

theorem mem_place (h : e ∈ place docs d) : e = d ∨ e ∈ docs := by
  induction docs with
  | nil => simpa using h
  | cons x docs ih =>
    rw [place_cons] at h
    split at h <;> simp only [List.mem_cons] at h ⊢ <;> tauto

/-- Two documents with one `id` have the same. -/
theorem sameId_of_hasId {id : Json} (hid : id.Tidy) (hd : d.Tidy) (he : e.Tidy)
    (h : hasId id d = true) (h' : hasId id e = true) : sameId d e = true := by
  obtain ⟨i, hi, hsame⟩ := hasId_iff.mp h
  obtain ⟨j, hj, hsame'⟩ := hasId_iff.mp h'
  have hback := (hd.get? hi).sameValue_symm hid hsame
  exact sameId_iff.mpr ⟨i, j, hi, hj, (he.get? hj).sameValue_trans hsame' hback⟩

theorem find?_place {id : Json} (hid : id.Tidy) (hdocs : ∀ e ∈ docs, e.Tidy) (hd : d.Tidy) :
    (place docs d).find? (hasId id) =
      if hasId id d then some d else docs.find? (hasId id) := by
  induction docs with
  | nil => cases h : hasId id d <;> simp [h]
  | cons x docs ih =>
    obtain ⟨hx, hdocs⟩ := List.forall_mem_cons.mp hdocs
    rw [place_cons]
    by_cases hsame : sameId d x = true
    · -- The replaced document and the new one have the same `id`.
      have hiff : hasId id x = hasId id d := Bool.eq_iff_iff.mpr
        ⟨fun h => hasId_trans hd h (sameId_symm hd hx hsame), fun h => hasId_trans hx h hsame⟩
      cases h : hasId id d <;> simp [hsame, hiff, h]
    · cases h : hasId id x with
      | false => simp [hsame, h, ih hdocs]
      | true =>
        have hnot : ¬hasId id d = true := fun hin => hsame (sameId_of_hasId hid hd hx hin h)
        simp [hsame, h, hnot]

/-- Documents without an `id` are added, and none of them is replaced. -/
theorem filter_place (docs : List Json) (d : Json) :
    (place docs d).filter (fun e => (e.get? "id").isNone) =
      (docs ++ [d]).filter fun e => (e.get? "id").isNone := by
  induction docs with
  | nil => simp
  | cons x docs ih =>
    rw [place_cons]
    split
    · rename_i hsame
      obtain ⟨i, j, hi, hj, _⟩ := sameId_iff.mp hsame
      simp [hi, hj]
    · rw [List.cons_append, List.filter_cons, List.filter_cons, ih]

theorem pairwise_place (hdocs : ∀ e ∈ docs, e.Tidy) (hd : d.Tidy)
    (h : docs.Pairwise fun e f => ¬sameId e f = true) :
    (place docs d).Pairwise fun e f => ¬sameId e f = true := by
  induction docs with
  | nil => simp
  | cons x docs ih =>
    obtain ⟨hx, hdocs⟩ := List.forall_mem_cons.mp hdocs
    obtain ⟨hnot, h⟩ := List.pairwise_cons.mp h
    rw [place_cons]
    split
    · rename_i hsame
      refine List.pairwise_cons.mpr ⟨fun e he hde => hnot e he ?_, h⟩
      exact sameId_trans (hdocs e he) (sameId_symm hd hx hsame) hde
    · rename_i hsame
      refine List.pairwise_cons.mpr ⟨fun e he hxe => ?_, ih hdocs h⟩
      rcases mem_place he with rfl | he
      · exact hsame (sameId_symm hx hd hxe)
      · exact hnot e he hxe

/-! ### All insertions -/

/-- The documents with an `id` that was not inserted before, and those without one. -/
def firsts (inserted : List Json) : List Json := inserted.eraseDupsBy sameId

/-- The document that was last inserted with the `id` of the given one. -/
def latest (inserted : List Json) (d : Json) : Json := (inserted.reverse.find? (sameId d)).getD d

theorem eraseDupsBy_loop_concat {α : Type} (r : α → α → Bool) (xs seen : List α) (x : α) :
    List.eraseDupsBy.loop r (xs ++ [x]) seen =
      if (List.eraseDupsBy.loop r xs seen).any (r x) then List.eraseDupsBy.loop r xs seen
      else List.eraseDupsBy.loop r xs seen ++ [x] := by
  induction xs generalizing seen with
  | nil => cases h : seen.any (r x) <;> simp [List.eraseDupsBy.loop, h]
  | cons y xs ih => cases h : seen.any (r y) <;> simp [List.eraseDupsBy.loop, h, ih]

theorem firsts_concat (inserted : List Json) (d : Json) : firsts (inserted ++ [d]) =
    if (firsts inserted).any (sameId d) then firsts inserted else firsts inserted ++ [d] :=
  eraseDupsBy_loop_concat sameId inserted [] d

theorem mem_of_mem_firsts (h : d ∈ firsts inserted) : d ∈ inserted := by
  induction inserted using List.reverseRecOn with
  | nil => exact h
  | append_singleton inserted x ih =>
    rw [firsts_concat] at h
    split at h <;> simp only [List.mem_append] at h ⊢ <;> tauto

theorem pairwise_firsts (h : ∀ d ∈ inserted, d.Tidy) :
    (firsts inserted).Pairwise fun e f => ¬sameId e f = true := by
  induction inserted using List.reverseRecOn with
  | nil => exact .nil
  | append_singleton inserted x ih =>
    obtain ⟨hinserted, hx⟩ := List.forall_mem_append.mp h
    rw [firsts_concat]
    split
    · exact ih hinserted
    · rename_i hnone
      refine List.pairwise_append.mpr ⟨ih hinserted, List.pairwise_singleton _ _, fun e he f hf => ?_⟩
      obtain rfl := List.mem_singleton.mp hf
      refine fun hef => hnone (List.any_eq_true.mpr ⟨e, he, ?_⟩)
      exact sameId_symm (hinserted e (mem_of_mem_firsts he)) (hx f hf) hef

theorem latest_concat (inserted : List Json) (d f : Json) :
    latest (inserted ++ [d]) f = if sameId f d then d else latest inserted f := by
  cases h : sameId f d <;> simp [latest, h]

theorem latest_concat_self (hd : d.Tidy) : latest (inserted ++ [d]) d = d := by
  by_cases hid : d.get? "id" = none
  · have hnone : ∀ e, sameId d e = false := fun e => by simp [sameId, hid]
    simp [latest, List.find?_eq_none.mpr, hnone]
  · simp [latest, sameId_self hd hid]

theorem latest_eq (inserted : List Json) (d : Json) :
    latest inserted d = d ∨ latest inserted d ∈ inserted ∧ sameId d (latest inserted d) = true := by
  cases h : inserted.reverse.find? (sameId d) with
  | none => exact .inl (by simp [latest, h])
  | some e =>
    have hlatest : latest inserted d = e := by simp [latest, h]
    rw [hlatest]
    exact .inr ⟨List.mem_reverse.mp (List.mem_of_find?_eq_some h), List.find?_some h⟩

/-- The latest document with an `id` has that `id`. -/
theorem sameId_latest (hinserted : ∀ e ∈ inserted, e.Tidy) (hf : f.Tidy) :
    sameId d (latest inserted f) = sameId d f := by
  rcases latest_eq inserted f with heq | ⟨hmem, hsame⟩
  · rw [heq]
  · have hlatest := hinserted _ hmem
    exact Bool.eq_iff_iff.mpr ⟨fun h => sameId_trans hf h (sameId_symm hf hlatest hsame),
      fun h => sameId_trans hlatest h hsame⟩

/-- One more document is put in place of the one with its `id`. -/
theorem place_map_latest {heads : List Json} (hinserted : ∀ e ∈ inserted, e.Tidy) (hd : d.Tidy)
    (hheads : ∀ e ∈ heads, e.Tidy) (hapart : heads.Pairwise fun e f => ¬sameId e f = true) :
    place (heads.map (latest inserted)) d =
      (if heads.any (sameId d) then heads else heads ++ [d]).map (latest (inserted ++ [d])) := by
  induction heads with
  | nil => simp [latest_concat_self hd]
  | cons f heads ih =>
    obtain ⟨hf, hheads⟩ := List.forall_mem_cons.mp hheads
    obtain ⟨hnot, hapart⟩ := List.pairwise_cons.mp hapart
    rw [List.map_cons, place_cons, sameId_latest hinserted hf]
    by_cases hsame : sameId d f = true
    · have hback := sameId_symm hd hf hsame
      have hothers : heads.map (latest (inserted ++ [d])) = heads.map (latest inserted) := by
        refine List.map_congr_left fun e he => ?_
        rw [latest_concat, if_neg]
        intro hed
        exact hnot e he (sameId_trans (hheads e he) hback (sameId_symm (hheads e he) hd hed))
      simp [hsame, hothers, latest_concat, hback]
    · have hback : ¬sameId f d = true := fun h => hsame (sameId_symm hf hd h)
      rw [if_neg hsame, ih hheads hapart]
      cases hany : heads.any (sameId d) <;> simp [hsame, hany, latest_concat, hback]

/-- What is kept of the documents inserted into a context: each `id` at the place of its first
insertion with its last document, and every document without an `id`. -/
structure Keeps (inserted kept : List Json) : Prop where
  places : kept = (firsts inserted).map (latest inserted)
  distinct : kept.Pairwise fun d e => ¬sameId d e = true
  last : ∀ id : Json, id.Tidy → kept.find? (hasId id) = inserted.reverse.find? (hasId id)
  nameless : kept.filter (fun d => (d.get? "id").isNone) =
    inserted.filter fun d => (d.get? "id").isNone

theorem keeps_foldl_place (h : ∀ d ∈ inserted, d.Tidy) :
    Keeps inserted (inserted.foldl place []) ∧ ∀ d ∈ inserted.foldl place [], d.Tidy := by
  induction inserted using List.reverseRecOn with
  | nil => exact ⟨⟨rfl, .nil, fun _ _ => rfl, rfl⟩, by simp⟩
  | append_singleton inserted d ih =>
    obtain ⟨hinserted, hd⟩ := List.forall_mem_append.mp h
    have hd := hd d (List.mem_singleton_self d)
    obtain ⟨hkeeps, htidy⟩ := ih hinserted
    rw [List.foldl_concat]
    refine ⟨⟨?_, pairwise_place htidy hd hkeeps.distinct, fun id hid => ?_, ?_⟩, fun e he => ?_⟩
    · rw [hkeeps.places, firsts_concat]
      exact place_map_latest hinserted hd (fun e he => hinserted e (mem_of_mem_firsts he))
        (pairwise_firsts hinserted)
    · rw [find?_place hid htidy hd, hkeeps.last id hid, List.reverse_concat, List.find?_cons]
      cases hasId id d <;> rfl
    · rw [filter_place, List.filter_append, hkeeps.nameless, List.filter_append]
    · rcases mem_place he with rfl | he
      · exact hd
      · exact htidy e he

/-! ### Contexts -/

variable {context other : String} {r : Archive}

theorem lookup_cons_ite {α : Type} (b : String × α) (buckets : List (String × α)) (key : String) :
    (b :: buckets).lookup key = if key = b.1 then some b.2 else buckets.lookup key := by
  rw [List.lookup_cons]
  cases h : key == b.1 <;> simp_all

theorem lookup_setBucket (context other : String) (docs : List Json)
    (buckets : List (String × List Json)) : (setBucket context docs buckets).lookup other =
      if other = context then some docs else buckets.lookup other := by
  induction buckets with
  | nil => rw [setBucket, lookup_cons_ite]
  | cons b buckets ih =>
    by_cases hb : b.1 = context
    · simp only [setBucket, hb, if_true, lookup_cons_ite]
      split <;> rfl
    · simp only [setBucket, hb, if_false, lookup_cons_ite, ih]
      split <;> split <;> simp_all

/-- What an insertion without a fault does to each context. -/
theorem bucket_upsert (h : r.upsertFault r.operations context = none) (docs : List Json)
    (other : String) : (r.upsert context docs).2.bucket other =
      if other = context then docs.foldl place (r.bucket context) else r.bucket other := by
  simp only [upsert, h, bucket, lookup_setBucket]
  split <;> rfl

theorem bucket_upsert_of_ne (r : Archive) (docs : List Json) (h : other ≠ context) :
    (r.upsert context docs).2.bucket other = r.bucket other := by
  cases hfault : r.upsertFault r.operations context with
  | none => rw [bucket_upsert hfault, if_neg h]
  | some e => simp [upsert, hfault, bucket, counted]

def upsertAll (upserts : List (String × List Json)) (r : Archive) : Archive :=
  upserts.foldl (fun r u => (r.upsert u.1 u.2).2) r

/-- The documents inserted into a context, in their order. -/
def insertedInto (context : String) (upserts : List (String × List Json)) : List Json :=
  (upserts.filter fun u => context = u.1).flatMap (·.2)

theorem upsert_faults (r : Archive) (context : String) (docs : List Json) :
    (r.upsert context docs).2.upsertFault = r.upsertFault ∧
      (r.upsert context docs).2.queryFault = r.queryFault := by
  cases hfault : r.upsertFault r.operations context <;> simp [upsert, hfault, counted]

theorem upsertAll_faults (upserts : List (String × List Json)) (r : Archive) :
    (upsertAll upserts r).upsertFault = r.upsertFault ∧
      (upsertAll upserts r).queryFault = r.queryFault := by
  induction upserts generalizing r with
  | nil => exact ⟨rfl, rfl⟩
  | cons u upserts ih =>
    obtain ⟨hupsert, hquery⟩ := upsert_faults r u.1 u.2
    exact ⟨(ih _).1.trans hupsert, (ih _).2.trans hquery⟩

theorem bucket_upsertAll (upserts : List (String × List Json)) (h : r.upsertFault = FaultPlan.none)
    (context : String) : (upsertAll upserts r).bucket context =
      (insertedInto context upserts).foldl place (r.bucket context) := by
  induction upserts generalizing r with
  | nil => rfl
  | cons u upserts ih =>
    have hstep := ih ((upsert_faults r u.1 u.2).1.trans h)
    rw [bucket_upsert (by rw [h]; rfl)] at hstep
    rw [show upsertAll (u :: upserts) r = upsertAll upserts (r.upsert u.1 u.2).2 from rfl, hstep]
    by_cases hu : context = u.1 <;> simp [insertedInto, hu]

structure Serves (upserts : List (String × List Json)) (r : Archive) : Prop where
  keeps : ∀ context, Keeps (insertedInto context upserts) (r.bucket context)
  upsert : ∀ context docs, (r.upsert context docs).1 = none
  apart : ∀ context docs other, other ≠ context →
    (r.upsert context docs).2.bucket other = r.bucket other
  answers : ∀ context text, ∃ hs, (r.query context text).1 = .ok (hs.map (·.doc)) ∧
    Answers (words text) (r.bucket context) hs

/-- After any insertions each context has the latest document of each `id` where the `id` was first
inserted, and a query is answered by the best of them. -/
theorem serves_upsertAll {upserts : List (String × List Json)}
    (h : ∀ u ∈ upserts, ∀ d ∈ u.2, d.Tidy) : Serves upserts (upsertAll upserts empty) := by
  obtain ⟨hupsert, hquery⟩ := upsertAll_faults upserts empty
  refine ⟨fun context => ?_, fun context docs => ?_, fun context docs other hne =>
    bucket_upsert_of_ne _ docs hne, fun context text => ⟨_, ?_, answers_ranking _ _⟩⟩
  · rw [bucket_upsertAll upserts rfl context]
    refine (keeps_foldl_place fun d hd => ?_).1
    obtain ⟨u, hu, hdu⟩ := List.mem_flatMap.mp hd
    exact h u (List.mem_of_mem_filter hu) d hdu
  · rw [Archive.upsert, hupsert]
    rfl
  · rw [query, hquery]
    rfl

namespace Sample

/-- Documents with a repeated `id`, a null `id`, an object as `id` and none. -/
def deskUpserts : List (String × List Json) :=
  [("desk", [.obj [("id", .ofNat 1), ("note", .str "btc up")], .str "btc",
      .obj [("id", .null), ("note", .str "eth")], .obj [("note", .str "btc down"), ("id", .ofNat 1)]]),
    ("lab", [.obj [("id", .ofNat 1), ("note", .str "btc")]]),
    ("desk", [.obj [("id", .obj [("a", .ofNat 1), ("b", .null)])], .str "btc",
      .obj [("id", .null), ("note", .str "btc btc")],
      .obj [("id", .obj [("b", .null), ("a", .ofNat 1)]), ("note", .str "DOWN")]])]

end Sample

/-- `serves_upsertAll` for these documents. -/
theorem serves_deskUpserts : (∀ u ∈ Sample.deskUpserts, ∀ d ∈ u.2, d.Tidy) ∧
    Serves Sample.deskUpserts (upsertAll Sample.deskUpserts empty) ∧
    (upsertAll Sample.deskUpserts empty).bucket "desk" =
      [.obj [("note", .str "btc down"), ("id", .ofNat 1)], .str "btc",
        .obj [("id", .null), ("note", .str "btc btc")],
        .obj [("id", .obj [("b", .null), ("a", .ofNat 1)]), ("note", .str "DOWN")], .str "btc"] := by
  have htidy : ∀ u ∈ Sample.deskUpserts, ∀ d ∈ u.2, d.Tidy := by
    simp [Sample.deskUpserts, Json.tidy_obj_iff, Json.Tidy.str, Json.Tidy.null, Json.Tidy.num,
      Json.ofNat]
  exact ⟨htidy, serves_upsertAll htidy, by decide +kernel⟩

end TagLedger.Archive
