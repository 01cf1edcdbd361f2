import Mathlib.Data.List.TakeWhile
import TagLedger.Proofs.Json.Children
import TagLedger.Template.Basic

/-!
Which templates are found, and in what order. A template is found at every position of a payload
that holds a text in double braces, and nowhere else; the templates are listed depth first in
document order. Each asks for what its expression says: an identifier, and a path after it.
-/

namespace TagLedger

namespace Json

/-- One path comes before the other in document order: where they part, its step leads to the
earlier child. -/
inductive Precedes : Json → Path → Path → Prop where
  | parts {j : Json} {s s' : PathStep} {p q : Path} (h : [s, s'].Sublist j.steps) :
    Precedes j (s :: p) (s' :: q)
  | inside {j c : Json} {s : PathStep} {p q : Path} (hc : j.child? s = some c)
    (h : Precedes c p q) : Precedes j (s :: p) (s :: q)

/-- Paths of which one comes before the other lead apart. -/
theorem Precedes.apart {j : Json} {p q : Path} (hpq : j.Precedes p q) (h : j.Tidy) :
    p.Apart q := by
  induction hpq with
  | @parts j s s' p q hsteps =>
    have hne : s ≠ s' := by
      rintro rfl
      exact List.nodup_iff_sublist.mp h.nodup_steps s hsteps
    constructor <;> simp [List.cons_prefix_cons, hne, Ne.symm hne]
  | inside hc _ ih =>
    obtain ⟨hp, hq⟩ := ih (h.child hc)
    constructor <;> simpa [List.cons_prefix_cons]

end Json

namespace Template

open Json (Tidy Precedes)

variable {j : Json} {base : Path} {t : Template} {s : String}

/-- A template is written as a text in double braces without a line feed. Its expression is what
stands inside, without blanks at the ends, and its key the identifier that the expression begins
with, if there is one. -/
def Spelled (t : Template) : Prop :=
  ∃ inner, t.text.toList = '\x7b' :: '\x7b' :: (inner ++ ['\x7d', '\x7d']) ∧ '\n' ∉ inner ∧
    t.expression = Text.trim inner ∧ t.primaryKey = leadingIdentifier? t.expression

theorem inside?_eq_some_iff {inner : Text} :
    inside? s = some inner ↔
      s.toList = '\x7b' :: '\x7b' :: (inner ++ ['\x7d', '\x7d']) ∧ '\n' ∉ inner := by
  unfold inside?
  constructor
  · intro h
    split at h
    · rename_i rest hopen
      split at h
      · rename_i back hclose
        split at h
        · simp at h
        · rename_i hfeed
          obtain rfl := Option.some.inj h
          have hrest : rest = back.reverse ++ ['\x7d', '\x7d'] := by
            rw [← List.reverse_reverse rest, hclose]
            simp
          exact ⟨by rw [hopen, hrest], by simpa using hfeed⟩
      · simp at h
    · simp at h
  · rintro ⟨htext, hfeed⟩
    simp [htext, hfeed]

theorem ofString?_eq_some_iff {path : Path} :
    ofString? path s = some t ↔ t.path = path ∧ t.text = s ∧ t.Spelled := by
  unfold ofString? Spelled
  constructor
  · intro h
    obtain ⟨inner, hinner, rfl⟩ := Option.map_eq_some_iff.mp h
    obtain ⟨htext, hfeed⟩ := inside?_eq_some_iff.mp hinner
    exact ⟨rfl, rfl, inner, htext, hfeed, rfl, rfl⟩
  · rintro ⟨rfl, rfl, inner, htext, hfeed, hexpression, hkey⟩
    refine Option.map_eq_some_iff.mpr ⟨inner, inside?_eq_some_iff.mpr ⟨htext, hfeed⟩, ?_⟩
    obtain ⟨path, text, expression, key⟩ := t
    simp_all

theorem detectItems_eq (base : Path) (i : Nat) (xs : List Json) :
    detectItems base i xs =
      (xs.mapIdx fun k x => (PathStep.index (i + k), x)).flatMap fun x =>
        detectAt (base ++ [x.1]) x.2 := by
  induction xs generalizing i with
  | nil => rfl
  | cons x xs ih =>
    have hshift : (fun k (y : Json) => (PathStep.index (i + 1 + k), y)) =
        fun k y => (PathStep.index (i + (k + 1)), y) := by
      funext k y
      rw [Nat.add_assoc, Nat.add_comm 1 k]
    simp [detectItems, ih, List.mapIdx_cons, hshift]

theorem detectMembers_eq (base : Path) (ms : Json.Members) :
    detectMembers base ms =
      (ms.map fun m => (PathStep.key m.1, m.2)).flatMap fun x => detectAt (base ++ [x.1]) x.2 := by
  induction ms with
  | nil => rfl
  | cons m ms ih => simp [detectMembers, ih]

/-- Text apart, the templates of a value are those of its children. -/
theorem detectAt_eq_flatMap (hj : ∀ s, j ≠ .str s) (base : Path) :
    detectAt base j = j.children.flatMap fun x => detectAt (base ++ [x.1]) x.2 := by
  cases j with
  | str s => exact absurd rfl (hj s)
  | arr xs => simp [detectAt, detectItems_eq, Json.children]
  | obj ms => simp [detectAt, detectMembers_eq, Json.children]
  | _ => rfl

/-- The templates below a path are found where they stand, and wherever one stands it is found. -/
theorem mem_detectAt_iff (h : j.Tidy) :
    t ∈ detectAt base j ↔ ∃ p, t.path = base ++ p ∧ j.at? p = some (.str t.text) ∧ t.Spelled := by
  refine h.induct (P := fun j => ∀ base, t ∈ detectAt base j ↔ ∃ p, t.path = base ++ p ∧
    j.at? p = some (.str t.text) ∧ t.Spelled) (fun j hj ih base => ?_) base
  by_cases hstr : ∃ s, j = .str s
  · obtain ⟨s, rfl⟩ := hstr
    rw [detectAt, Option.mem_toList, ofString?_eq_some_iff]
    constructor
    · rintro ⟨hpath, rfl, hspelled⟩
      exact ⟨[], by simpa using hpath, rfl, hspelled⟩
    · rintro ⟨p, hpath, hat, hspelled⟩
      cases p with
      | nil =>
        obtain rfl : s = t.text := by simpa [Json.at?] using hat
        exact ⟨by simpa using hpath, rfl, hspelled⟩
      | cons s' p => simp [Json.at?, Json.child?] at hat
  · have hne : ∀ s, j ≠ .str s := fun s hs => hstr ⟨s, hs⟩
    rw [detectAt_eq_flatMap hne, List.mem_flatMap]
    constructor
    · rintro ⟨⟨s, c⟩, hmem, ht⟩
      obtain ⟨p, hpath, hat, hspelled⟩ := (ih _ hmem _).mp ht
      have hc := (Json.mem_children_iff hj.nodup_steps).mp hmem
      exact ⟨s :: p, by simpa using hpath, by simpa [Json.at?, hc] using hat, hspelled⟩
    · rintro ⟨p, hpath, hat, hspelled⟩
      cases p with
      | nil =>
        have hself : j = .str t.text := by simpa [Json.at?] using hat
        exact absurd hself (hne _)
      | cons s p =>
        obtain ⟨c, hc, hat⟩ := Option.bind_eq_some_iff.mp hat
        have hmem := (Json.mem_children_iff hj.nodup_steps).mpr hc
        exact ⟨(s, c), hmem, (ih _ hmem _).mpr ⟨p, by simpa using hpath, hat, hspelled⟩⟩

theorem mem_detect_iff (h : j.Tidy) :
    t ∈ detect j ↔ j.at? t.path = some (.str t.text) ∧ t.Spelled := by
  simp [detect, mem_detectAt_iff h]

theorem detectAt_pairwise (h : j.Tidy) (base : Path) :
    (detectAt base j).Pairwise fun t t' =>
      ∃ p q, t.path = base ++ p ∧ t'.path = base ++ q ∧ j.Precedes p q := by
  refine h.induct (P := fun j => ∀ base, (detectAt base j).Pairwise fun t t' =>
    ∃ p q, t.path = base ++ p ∧ t'.path = base ++ q ∧ j.Precedes p q) (fun j hj ih base => ?_) base
  by_cases hstr : ∃ s, j = .str s
  · obtain ⟨s, rfl⟩ := hstr
    rw [detectAt]
    cases ofString? base s <;> simp
  · have hne : ∀ s, j ≠ .str s := fun s hs => hstr ⟨s, hs⟩
    have hchild : ∀ x ∈ j.children, x.2.Tidy := fun x hx =>
      hj.child ((Json.mem_children_iff hj.nodup_steps).mp hx)
    rw [detectAt_eq_flatMap hne, List.pairwise_flatMap]
    constructor
    · intro x hx
      refine (ih x hx (base ++ [x.1])).imp ?_
      rintro t t' ⟨p, q, hp, hq, hpq⟩
      have hc := (Json.mem_children_iff hj.nodup_steps).mp hx
      exact ⟨x.1 :: p, x.1 :: q, by simpa using hp, by simpa using hq, .inside hc hpq⟩
    · -- Templates of two children: their paths part at the steps to the children.
      refine List.pairwise_iff_forall_sublist.mpr fun {x y} hxy t ht t' ht' => ?_
      have hx := hchild x (hxy.subset (by simp))
      have hy := hchild y (hxy.subset (by simp))
      obtain ⟨p, hp, -⟩ := (mem_detectAt_iff hx).mp ht
      obtain ⟨q, hq, -⟩ := (mem_detectAt_iff hy).mp ht'
      have hsteps : [x.1, y.1].Sublist j.steps := hxy.map Prod.fst
      exact ⟨x.1 :: p, y.1 :: q, by simpa using hp, by simpa using hq, .parts hsteps⟩

/-- Templates are listed in document order. -/
theorem detect_pairwise (h : j.Tidy) :
    (detect j).Pairwise fun t t' => j.Precedes t.path t'.path := by
  refine (detectAt_pairwise h []).imp ?_
  rintro t t' ⟨p, q, hp, hq, hpq⟩
  simpa [hp, hq] using hpq

/-- A letter or an underscore, and then letters, digits and underscores. -/
def IsIdentifier (k : Text) : Prop :=
  ∃ c t, k = c :: t ∧ isIdentifierStart c = true ∧ ∀ d ∈ t, isIdentifierRest d = true

/-- An expression asks for a key and a path: it begins with the key, which is as long as an
identifier can be, and goes on with the path, before which one point does not count. -/
inductive Asks : Text → Text → Text → Prop where
  | bare {key path : Text} (hkey : IsIdentifier key)
    (hend : ∀ c ∈ path.head?, isIdentifierRest c = false ∧ c ≠ '.') : Asks (key ++ path) key path
  | pointed {key path : Text} (hkey : IsIdentifier key) : Asks (key ++ '.' :: path) key path

theorem leadingIdentifier?_eq_some_iff {e k : Text} :
    leadingIdentifier? e = some k ↔
      ∃ rest, e = k ++ rest ∧ IsIdentifier k ∧ ∀ c ∈ rest.head?, isIdentifierRest c = false := by
  constructor
  · intro h
    cases e with
    | nil => simp [leadingIdentifier?] at h
    | cons c e =>
      simp only [leadingIdentifier?, Option.ite_none_right_eq_some, Option.some.injEq] at h
      obtain ⟨hc, rfl⟩ := h
      refine ⟨e.dropWhile isIdentifierRest, by simp [List.takeWhile_append_dropWhile],
        ⟨c, _, rfl, hc, fun d hd => List.mem_takeWhile_imp hd⟩, fun d hd => ?_⟩
      have := List.head?_dropWhile_not isIdentifierRest e
      simpa [Option.mem_def.mp hd] using this
  · rintro ⟨rest, rfl, ⟨c, t, rfl, hc, ht⟩, hend⟩
    have hstop : rest.takeWhile isIdentifierRest = [] := by
      cases rest with
      | nil => rfl
      | cons d rest => simp [hend d rfl]
    simp [leadingIdentifier?, hc, List.takeWhile_append_of_pos ht, hstop]

theorem asks_of_request? {key path : String}
    (hkey : t.primaryKey = leadingIdentifier? t.expression) (h : t.request? = some (key, path)) :
    Asks t.expression key.toList path.toList := by
  cases hlead : t.primaryKey with
  | none => simp [request?, hlead] at h
  | some k =>
    obtain ⟨rest, hsplit, hid, hend⟩ := leadingIdentifier?_eq_some_iff.mp (hkey ▸ hlead)
    have hdrop : t.expression.drop k.length = rest := by simp [hsplit]
    simp only [request?, valuePath?, hlead, Option.map_some, hdrop, Option.some.injEq,
      Prod.mk.injEq] at h
    obtain ⟨rfl, rfl⟩ := h
    rw [String.toList_ofList, String.toList_ofList, hsplit]
    split
    · exact .pointed hid
    · rename_i hno
      refine .bare hid fun c hc => ⟨hend c hc, ?_⟩
      rintro rfl
      obtain ⟨rest, rfl⟩ := List.head?_eq_some_iff.mp hc
      exact hno rest rfl

theorem request?_of_asks {key path : Text}
    (hkey : t.primaryKey = leadingIdentifier? t.expression) (h : Asks t.expression key path) :
    t.request? = some (String.ofList key, String.ofList path) := by
  generalize he : t.expression = e at h
  cases h with
  | bare hid hend =>
    have hlead := leadingIdentifier?_eq_some_iff.mpr ⟨path, rfl, hid, fun c hc => (hend c hc).1⟩
    have hno : ∀ rest, path ≠ '.' :: rest := by
      rintro rest rfl
      simpa using hend '.'
    rw [he, hlead] at hkey
    simp [request?, valuePath?, hkey, he]
  | pointed hid =>
    have hpoint : isIdentifierRest '.' = false := by decide
    have hlead := leadingIdentifier?_eq_some_iff.mpr ⟨'.' :: path, rfl, hid, by simp [hpoint]⟩
    rw [he, hlead] at hkey
    simp [request?, valuePath?, hkey, he]

/-- A template that is spelled as it should asks for what its expression says. -/
theorem request?_eq_some_iff {key path : String} (h : t.Spelled) :
    t.request? = some (key, path) ↔ Asks t.expression key.toList path.toList := by
  obtain ⟨_, _, _, _, hkey⟩ := h
  constructor
  · exact asks_of_request? hkey
  · intro hasks
    simpa using request?_of_asks hkey hasks

end Template

end TagLedger
