import Mathlib.Data.List.Pairwise
import Mathlib.Tactic.Common
import TagLedger.Memory.Archive

/-!
The best documents for a query: those with the highest scores, of two with the same score the later
one first, as many as fit among the documents that share a word with the query.
-/

namespace TagLedger.Archive

variable {wanted : List Text} {docs : List Json}

/-- One hit ranks above another: it has the higher score, or the same and a later place. -/
def Hit.Above (a b : Hit) : Prop := b.score < a.score ∨ a.score = b.score ∧ b.position < a.position

theorem Hit.precedes_iff {a b : Hit} : a.precedes b = true ↔
    a.Above b ∨ a.score = b.score ∧ a.position = b.position := by
  simp only [precedes, Above, Bool.or_eq_true, Bool.and_eq_true, decide_eq_true_eq, beq_iff_eq]
  omega

theorem Hit.precedes_trans (a b c : Hit) (h : a.precedes b = true) (h' : b.precedes c = true) :
    a.precedes c = true := by
  rw [precedes_iff] at h h' ⊢
  simp only [Above] at h h' ⊢
  omega

theorem Hit.precedes_total (a b : Hit) : (a.precedes b || b.precedes a) = true := by
  rw [Bool.or_eq_true, precedes_iff, precedes_iff]
  simp only [Above]
  omega

/-- The hit of a document in its place. -/
def hitAt (wanted : List Text) (i : Nat) (doc : Json) : Hit := ⟨score wanted doc, i, doc⟩

theorem mem_hits {h : Hit} : h ∈ hits wanted docs ↔
    docs[h.position]? = some h.doc ∧ h.score = score wanted h.doc ∧ 0 < h.score := by
  simp only [hits, List.mem_filter, List.mem_map, List.mem_zipIdx_iff_getElem?, decide_eq_true_eq]
  constructor
  · rintro ⟨⟨d, hd, rfl⟩, hpos⟩
    exact ⟨hd, rfl, hpos⟩
  · rintro ⟨hd, hscore, hpos⟩
    exact ⟨⟨(h.doc, h.position), hd, by rw [← hscore]⟩, hpos⟩

theorem length_hits (wanted : List Text) (docs : List Json) :
    (hits wanted docs).length = docs.countP fun d => 0 < score wanted d := by
  have hfst := List.zipIdx_map_fst 0 docs
  rw [hits, ← List.countP_eq_length_filter, List.countP_map]
  conv_rhs => rw [← hfst, List.countP_map]
  rfl

theorem hits_pairwise (wanted : List Text) (docs : List Json) :
    (hits wanted docs).Pairwise fun a b => a.position ≠ b.position := by
  refine List.Pairwise.filter _ (List.pairwise_map.mpr ?_)
  have hplaces : (docs.zipIdx.map Prod.snd).Pairwise (· < ·) := by
    rw [List.zipIdx_map_snd]
    exact List.pairwise_lt_range'
  exact (List.pairwise_map.mp hplaces).imp Nat.ne_of_lt

def ranking (wanted : List Text) (docs : List Json) : List Hit :=
  (hits wanted docs).mergeSort Hit.precedes

theorem ranking_perm (wanted : List Text) (docs : List Json) :
    (ranking wanted docs).Perm (hits wanted docs) := List.mergeSort_perm _ _

theorem ranking_pairwise (wanted : List Text) (docs : List Json) :
    (ranking wanted docs).Pairwise Hit.Above := by
  have hsorted : (ranking wanted docs).Pairwise fun a b => a.precedes b = true :=
    List.pairwise_mergeSort Hit.precedes_trans Hit.precedes_total _
  have hapart : (ranking wanted docs).Pairwise fun a b => a.position ≠ b.position :=
    (ranking_perm wanted docs).symm.pairwise (hits_pairwise wanted docs) fun h => Ne.symm h
  exact hsorted.imp₂ (fun a b h hne =>
    (Hit.precedes_iff.mp h).resolve_right fun hsame => hne hsame.2) hapart

/-- The answer to a query, with the hits that it consists of: as many as there are, but at most
five, best first, and none of the others above one of them. -/
structure Answers (wanted : List Text) (docs : List Json) (hs : List Hit) : Prop where
  hit : ∀ h ∈ hs, docs[h.position]? = some h.doc ∧ h.score = score wanted h.doc ∧ 0 < h.score
  sorted : hs.Pairwise Hit.Above
  length : hs.length = min 5 (docs.countP fun d => 0 < score wanted d)
  omitted : ∀ (i : Nat) d, docs[i]? = some d → 0 < score wanted d →
    hitAt wanted i d ∈ hs ∨ hs.length = 5 ∧ ∀ h ∈ hs, h.Above (hitAt wanted i d)

theorem answers_ranking (wanted : List Text) (docs : List Json) :
    Answers wanted docs ((ranking wanted docs).take topCount) := by
  have hmem (h : Hit) : h ∈ ranking wanted docs ↔ h ∈ hits wanted docs :=
    (ranking_perm wanted docs).mem_iff
  have hsorted := ranking_pairwise wanted docs
  refine ⟨fun h hh => mem_hits.mp ((hmem h).mp (List.mem_of_mem_take hh)),
    hsorted.sublist (List.take_sublist _ _), ?_, fun i d hd hpos => ?_⟩
  · rw [List.length_take, (ranking_perm wanted docs).length_eq, length_hits, topCount]
  · have hin : hitAt wanted i d ∈ ranking wanted docs := (hmem _).mpr (mem_hits.mpr ⟨hd, rfl, hpos⟩)
    rw [← List.take_append_drop topCount (ranking wanted docs)] at hin hsorted
    refine (List.mem_append.mp hin).imp_right fun hrest => ⟨?_, fun h hh => ?_⟩
    · have hmore := List.length_pos_of_mem hrest
      rw [List.length_drop] at hmore
      rw [List.length_take, topCount] at *
      omega
    · exact (List.pairwise_append.mp hsorted).2.2 h hh _ hrest

/-- What a query is answered. -/
theorem best_eq (query : Text) (docs : List Json) :
    best query docs = ((ranking (words query) docs).take topCount).map (·.doc) := rfl

end TagLedger.Archive
