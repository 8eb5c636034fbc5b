import Mathlib.Data.List.Basic
import Mathlib.Data.List.Pairwise
import Mathlib.Order.RelClasses

/-!
# Ordered maps

The maps of the C++ standard library: entries sorted by a strict weak order `<` on the keys, where
two keys are the same entry exactly when neither is less than the other. `emplace` leaves an
existing entry alone. An iterator is the key of its element; it can be read and advanced only as
long as that element is in the map.
-/

namespace EzServer.Core

universe u v
variable {κ : Type u} {ν : Type v} [LT κ]

/-- Neither key is less than the other. -/
def Equivalent (a b : κ) : Prop := ¬ a < b ∧ ¬ b < a

instance Equivalent.decidable [DecidableLT κ] (a b : κ) : Decidable (Equivalent a b) :=
  inferInstanceAs (Decidable (¬ a < b ∧ ¬ b < a))

lemma Equivalent.symm {a b : κ} (h : Equivalent a b) : Equivalent b a := ⟨h.2, h.1⟩

/-- A map as its list of entries in ascending order. -/
structure OrderedMap (κ : Type u) (ν : Type v) [LT κ] where
  entries : List (κ × ν)
  sorted : entries.Pairwise fun a b => a.1 < b.1

/-- A position in a map. -/
inductive Iterator (κ : Type u) where
  | atKey (key : κ)
  | pastEnd
  deriving DecidableEq, Repr

namespace OrderedMap

def empty : OrderedMap κ ν := ⟨[], List.Pairwise.nil⟩

def keys (m : OrderedMap κ ν) : List κ := m.entries.map Prod.fst

def values (m : OrderedMap κ ν) : List ν := m.entries.map Prod.snd

@[ext] lemma ext {m m' : OrderedMap κ ν} (h : m.entries = m'.entries) : m = m' := by
  cases m; cases m'; cases h; rfl

lemma mem_keys {m : OrderedMap κ ν} {k : κ} : k ∈ m.keys ↔ ∃ v, (k, v) ∈ m.entries := by
  simp [keys]

/-! ### Strict weak orders -/

section Order

variable [@Std.Asymm κ (· < ·)] [IsOrderConnected κ (· < ·)] {a b k : κ}

omit [IsOrderConnected κ (· < ·)] in
lemma Equivalent.refl (a : κ) : Equivalent a a :=
  ⟨fun h => (asymm h h : False), fun h => (asymm h h : False)⟩

omit [@Std.Asymm κ (· < ·)] in
lemma lt_of_lt_of_equivalent (hab : a < b) (hb : Equivalent k b) : a < k :=
  (IsOrderConnected.conn a k b hab).resolve_right hb.1

lemma key_lt_trans (hab : a < b) (hbk : b < k) : a < k :=
  (IsOrderConnected.conn a k b hab).resolve_right fun h => (asymm hbk h : False)

end Order

/-! ### Insertion -/

section Insert

variable [DecidableLT κ]

/-- Insert an entry at its place, unless there is an equivalent one. -/
def insertEntry (k : κ) (v : ν) : List (κ × ν) → List (κ × ν)
  | [] => [(k, v)]
  | e :: es =>
    if e.1 < k then e :: insertEntry k v es
    else if k < e.1 then (k, v) :: e :: es
    else e :: es

variable [@Std.Asymm κ (· < ·)] [IsOrderConnected κ (· < ·)] {k : κ} {v : ν}

omit [@Std.Asymm κ (· < ·)] [IsOrderConnected κ (· < ·)] in
/-- Without an equivalent entry the new one is added. -/
lemma insertEntry_perm {es : List (κ × ν)} (hk : ∀ e ∈ es, ¬ Equivalent k e.1) :
    (insertEntry k v es).Perm ((k, v) :: es) := by
  induction es with
  | nil => exact List.Perm.refl _
  | cons e es ih =>
    have hrest : ∀ d ∈ es, ¬ Equivalent k d.1 := fun d hd => hk d (List.mem_cons_of_mem _ hd)
    rw [insertEntry]
    split_ifs with hlt hgt
    · exact ((ih hrest).cons e).trans (List.Perm.swap _ _ _)
    · exact List.Perm.refl _
    · exact absurd ⟨hgt, hlt⟩ (hk e List.mem_cons_self)

omit [@Std.Asymm κ (· < ·)] in
/-- An equivalent entry stays as it is. -/
lemma insertEntry_eq_self {es : List (κ × ν)} (hes : es.Pairwise fun a b => a.1 < b.1)
    (hk : ∃ e ∈ es, Equivalent k e.1) : insertEntry k v es = es := by
  induction es with
  | nil => simp at hk
  | cons e es ih =>
    obtain ⟨hhead, htail⟩ := List.pairwise_cons.mp hes
    obtain ⟨d, hd, heq⟩ := hk
    rw [insertEntry]
    split_ifs with hlt hgt
    · rcases List.mem_cons.mp hd with rfl | hd
      · exact absurd hlt heq.2
      · rw [ih htail ⟨d, hd, heq⟩]
    · rcases List.mem_cons.mp hd with rfl | hd
      · exact absurd hgt heq.1
      · exact absurd (lt_of_lt_of_equivalent (hhead d hd) heq) hlt
    · rfl

lemma insertEntry_sorted {es : List (κ × ν)} (hes : es.Pairwise fun a b => a.1 < b.1) :
    (insertEntry k v es).Pairwise fun a b => a.1 < b.1 := by
  induction es with
  | nil => simp [insertEntry]
  | cons e es ih =>
    obtain ⟨hhead, htail⟩ := List.pairwise_cons.mp hes
    rw [insertEntry]
    split_ifs with hlt hgt
    · refine List.pairwise_cons.mpr ⟨fun d hd => ?_, ih htail⟩
      by_cases hfresh : ∃ d ∈ es, Equivalent k d.1
      · exact hhead d (insertEntry_eq_self htail hfresh ▸ hd)
      · have hperm := insertEntry_perm (v := v) fun d hd hk => hfresh ⟨d, hd, hk⟩
        rcases List.mem_cons.mp (hperm.mem_iff.mp hd) with rfl | hd
        · exact hlt
        · exact hhead d hd
    · refine List.pairwise_cons.mpr ⟨fun d hd => ?_, hes⟩
      rcases List.mem_cons.mp hd with rfl | hd
      · exact hgt
      · exact key_lt_trans hgt (hhead d hd)
    · exact hes

def emplace (m : OrderedMap κ ν) (k : κ) (v : ν) : OrderedMap κ ν :=
  ⟨insertEntry k v m.entries, insertEntry_sorted m.sorted⟩

lemma emplace_of_fresh {m : OrderedMap κ ν} (hk : ∀ a ∈ m.keys, ¬ Equivalent k a) :
    (m.emplace k v).entries.Perm ((k, v) :: m.entries) :=
  insertEntry_perm fun _ he => hk _ (List.mem_map_of_mem he)

lemma emplace_of_equivalent {m : OrderedMap κ ν} {a : κ} (ha : a ∈ m.keys)
    (hk : Equivalent k a) : m.emplace k v = m := by
  obtain ⟨w, hw⟩ := mem_keys.mp ha
  exact ext (insertEntry_eq_self m.sorted ⟨(a, w), hw, hk⟩)

/-- Where equivalent keys are equal, `emplace` adds its key. -/
lemma mem_keys_emplace {m : OrderedMap κ ν} {a : κ} (heq : ∀ a b : κ, Equivalent a b → a = b) :
    a ∈ (m.emplace k v).keys ↔ a = k ∨ a ∈ m.keys := by
  by_cases hk : k ∈ m.keys
  · rw [emplace_of_equivalent hk (Equivalent.refl k)]
    exact ⟨Or.inr, fun h => h.elim (fun hak => hak ▸ hk) id⟩
  · have hfresh : ∀ b ∈ m.keys, ¬ Equivalent k b := fun b hb he => hk (heq k b he ▸ hb)
    rw [keys, ((emplace_of_fresh (v := v) hfresh).map Prod.fst).mem_iff]
    simp [keys]

end Insert

/-! ### Many insertions -/

section EmplaceAll

variable [DecidableLT κ] [@Std.Asymm κ (· < ·)] [IsOrderConnected κ (· < ·)]

/-- Insert the entries one after the other. -/
def emplaceAll (m : OrderedMap κ ν) (es : List (κ × ν)) : OrderedMap κ ν :=
  es.foldl (fun m e => m.emplace e.1 e.2) m

lemma emplaceAll_cons (m : OrderedMap κ ν) (e : κ × ν) (es : List (κ × ν)) :
    m.emplaceAll (e :: es) = (m.emplace e.1 e.2).emplaceAll es := rfl

/-- Nothing equivalent is among the entries or in the map. -/
def Fresh (m : OrderedMap κ ν) (es : List (κ × ν)) : Prop :=
  (es.Pairwise fun a b => ¬ Equivalent b.1 a.1) ∧ ∀ e ∈ es, ∀ k ∈ m.keys, ¬ Equivalent e.1 k

omit [DecidableLT κ] [@Std.Asymm κ (· < ·)] [IsOrderConnected κ (· < ·)] in
lemma fresh_empty {es : List (κ × ν)} :
    Fresh empty es ↔ es.Pairwise fun a b => ¬ Equivalent b.1 a.1 := by
  simp [Fresh, empty, keys]

lemma mem_keys_emplace_of_fresh {m : OrderedMap κ ν} {k a : κ} {v : ν}
    (hk : ∀ b ∈ m.keys, ¬ Equivalent k b) : a ∈ (m.emplace k v).keys ↔ a = k ∨ a ∈ m.keys := by
  rw [keys, ((emplace_of_fresh (v := v) hk).map Prod.fst).mem_iff]
  simp [keys]

lemma fresh_cons {m : OrderedMap κ ν} {e : κ × ν} {es : List (κ × ν)} :
    Fresh m (e :: es) ↔
      (∀ k ∈ m.keys, ¬ Equivalent e.1 k) ∧ Fresh (m.emplace e.1 e.2) es := by
  by_cases he : ∀ k ∈ m.keys, ¬ Equivalent e.1 k
  · simp only [Fresh, List.pairwise_cons, List.mem_cons, forall_eq_or_imp,
      mem_keys_emplace_of_fresh he]
    constructor
    · rintro ⟨⟨h1, h2⟩, h3, h4⟩
      exact ⟨h3, h2, fun d hd => ⟨h1 d hd, h4 d hd⟩⟩
    · rintro ⟨h3, h2, h⟩
      exact ⟨⟨fun d hd => (h d hd).1, h2⟩, h3, fun d hd => (h d hd).2⟩
  · exact iff_of_false (fun h => he (h.2 e List.mem_cons_self)) fun h => he h.1

/-- Fresh entries are all there in the end, with what was there before. -/
lemma emplaceAll_perm {m : OrderedMap κ ν} {es : List (κ × ν)} (h : Fresh m es) :
    (m.emplaceAll es).entries.Perm (es ++ m.entries) := by
  induction es generalizing m with
  | nil => exact List.Perm.refl _
  | cons e es ih =>
    obtain ⟨he, hes⟩ := fresh_cons.mp h
    rw [emplaceAll_cons]
    refine (ih hes).trans (((emplace_of_fresh he).append_left es).trans ?_)
    exact List.perm_middle

omit [DecidableLT κ] [IsOrderConnected κ (· < ·)] in
/-- The entries of a map are in one order only. -/
lemma eq_of_perm {m m' : OrderedMap κ ν} (h : m.entries.Perm m'.entries) : m = m' :=
  ext (h.eq_of_pairwise (fun _ _ _ _ hab hba => absurd hba (asymm hab)) m.sorted m'.sorted)

omit [DecidableLT κ] [@Std.Asymm κ (· < ·)] [IsOrderConnected κ (· < ·)] in
lemma Fresh.of_perm {m : OrderedMap κ ν} {es es' : List (κ × ν)} (h : Fresh m es)
    (hperm : es.Perm es') : Fresh m es' :=
  ⟨hperm.pairwise h.1 fun hba hab => hba hab.symm,
    fun e he => h.2 e (hperm.mem_iff.mpr he)⟩

/-- Fresh entries may be inserted in any order. -/
lemma emplaceAll_eq_of_perm {m : OrderedMap κ ν} {es es' : List (κ × ν)} (h : Fresh m es)
    (hperm : es.Perm es') : m.emplaceAll es = m.emplaceAll es' :=
  eq_of_perm (((emplaceAll_perm h).trans (hperm.append_right _)).trans
    (emplaceAll_perm (h.of_perm hperm)).symm)

lemma mem_emplace {m : OrderedMap κ ν} {k : κ} {v : ν} {e : κ × ν}
    (he : e ∈ (m.emplace k v).entries) : e = (k, v) ∨ e ∈ m.entries := by
  by_cases hk : ∃ a ∈ m.keys, Equivalent k a
  · obtain ⟨a, ha, hka⟩ := hk
    rw [emplace_of_equivalent ha hka] at he
    exact Or.inr he
  · have hperm := emplace_of_fresh (v := v) fun a ha hka => hk ⟨a, ha, hka⟩
    exact List.mem_cons.mp (hperm.mem_iff.mp he)

/-- Nothing else is there in the end. -/
lemma mem_emplaceAll {m : OrderedMap κ ν} {es : List (κ × ν)} {e : κ × ν}
    (he : e ∈ (m.emplaceAll es).entries) : e ∈ es ∨ e ∈ m.entries := by
  induction es generalizing m with
  | nil => exact Or.inr he
  | cons d es ih =>
    rcases ih he with he | he
    · exact Or.inl (List.mem_cons_of_mem _ he)
    · rcases mem_emplace he with rfl | he
      · exact Or.inl List.mem_cons_self
      · exact Or.inr he

lemma length_emplace_le (m : OrderedMap κ ν) (k : κ) (v : ν) :
    (m.emplace k v).entries.length ≤ m.entries.length + 1 := by
  by_cases hk : ∃ a ∈ m.keys, Equivalent k a
  · obtain ⟨a, ha, hka⟩ := hk
    rw [emplace_of_equivalent ha hka]
    omega
  · rw [(emplace_of_fresh (v := v) fun a ha he => hk ⟨a, ha, he⟩).length_eq]
    exact Nat.le_refl _

lemma length_emplaceAll_le (m : OrderedMap κ ν) (es : List (κ × ν)) :
    (m.emplaceAll es).entries.length ≤ m.entries.length + es.length := by
  induction es generalizing m with
  | nil => exact Nat.le_refl _
  | cons e es ih =>
    have h1 := ih (m.emplace e.1 e.2)
    have h2 := length_emplace_le m e.1 e.2
    rw [emplaceAll_cons, List.length_cons]
    omega

/-- An insertion loses its entry exactly if something equivalent is there. -/
lemma length_emplaceAll_eq_iff {m : OrderedMap κ ν} {es : List (κ × ν)} :
    (m.emplaceAll es).entries.length = m.entries.length + es.length ↔ Fresh m es := by
  constructor
  · intro h
    induction es generalizing m with
    | nil => exact ⟨List.Pairwise.nil, by simp⟩
    | cons e es ih =>
      rw [emplaceAll_cons, List.length_cons] at h
      have h1 := length_emplaceAll_le (m.emplace e.1 e.2) es
      have h2 := length_emplace_le m e.1 e.2
      refine fresh_cons.mpr ⟨fun k hk he => ?_, ih (by omega)⟩
      rw [emplace_of_equivalent hk he] at h h1
      omega
  · intro h
    rw [(emplaceAll_perm h).length_eq, List.length_append]
    omega

end EmplaceAll

/-! ### Removal -/

section Erase

variable [DecidableLT κ] {k : κ}

def erase (m : OrderedMap κ ν) (k : κ) : OrderedMap κ ν :=
  ⟨m.entries.filter fun e => ¬ Equivalent k e.1, m.sorted.filter _⟩

lemma mem_keys_erase {m : OrderedMap κ ν} {a : κ} :
    a ∈ (m.erase k).keys ↔ a ∈ m.keys ∧ ¬ Equivalent k a := by
  simp [mem_keys, erase]

end Erase

/-! ### Iterators -/

section Iterators

/-- The position of the first of the entries. -/
def position : List (κ × ν) → Iterator κ
  | [] => .pastEnd
  | e :: _ => .atKey e.1

def begin (m : OrderedMap κ ν) : Iterator κ := position m.entries

variable [DecidableLT κ]

/-- The element of an iterator, if there still is one. -/
def deref (m : OrderedMap κ ν) : Iterator κ → Option (κ × ν)
  | .atKey k => m.entries.find? fun e => Equivalent k e.1
  | .pastEnd => none

/-- `++`, where the iterator still has its element. -/
def next (m : OrderedMap κ ν) : Iterator κ → Option (Iterator κ)
  | .atKey k =>
    if m.entries.any fun e => Equivalent k e.1 then
      some (position (m.entries.filter fun e => k < e.1))
    else none
  | .pastEnd => none

lemma deref_erase (m : OrderedMap κ ν) (k : κ) : (m.erase k).deref (.atKey k) = none := by
  simp [deref, erase]

lemma next_erase (m : OrderedMap κ ν) (k : κ) : (m.erase k).next (.atKey k) = none := by
  simp [next, erase]

variable [@Std.Asymm κ (· < ·)] {m : OrderedMap κ ν} {l r : List (κ × ν)} {e : κ × ν}

lemma deref_of_split (h : m.entries = l ++ e :: r) : m.deref (.atKey e.1) = some e := by
  have hsorted := m.sorted
  rw [h] at hsorted
  have hl : ∀ d ∈ l, ¬ Equivalent e.1 d.1 := fun d hd heq =>
    heq.2 ((List.pairwise_append.mp hsorted).2.2 d hd e List.mem_cons_self)
  rw [deref, h, List.find?_append, List.find?_eq_none.mpr (by simpa using hl)]
  simp [Equivalent.refl]

lemma next_of_split (h : m.entries = l ++ e :: r) :
    m.next (.atKey e.1) = some (position r) := by
  have hsorted := m.sorted
  rw [h] at hsorted
  obtain ⟨-, her, hle⟩ := List.pairwise_append.mp hsorted
  have hl : (l.filter fun d => e.1 < d.1) = [] :=
    List.filter_eq_nil_iff.mpr fun d hd => by
      simpa using fun hlt => (asymm (hle d hd e List.mem_cons_self) hlt : False)
  have hr : (r.filter fun d => e.1 < d.1) = r :=
    List.filter_eq_self.mpr fun d hd => by simpa using (List.pairwise_cons.mp her).1 d hd
  have hirrefl : ¬ e.1 < e.1 := (Equivalent.refl e.1).1
  rw [next, if_pos (by simp [h, Equivalent.refl]), h, List.filter_append, hl,
    List.filter_cons_of_neg (by simpa using hirrefl), hr, List.nil_append]

end Iterators

end OrderedMap

end EzServer.Core
