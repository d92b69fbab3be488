/-
  Coppice.Lib.OrdMap

  Ordered finite maps: association lists with strictly increasing keys, so that
  equal lookups mean equal maps (`OrdMap.ext_get?`) and every operation evaluates in
  the kernel.  The `get?_*` and `sumBy_*` families say what each update does to
  every lookup and to a sum over the map.
-/

import Mathlib.Algebra.Order.Ring.Nat
import Mathlib.Algebra.Order.BigOperators.Group.List

namespace Coppice.Lib

open List Option

/-! ## Raw association lists -/

namespace Assoc

variable {K V : Type*} [LinearOrder K] {k j : K} {v : V} {l : List (K × V)} {e : K × V}

/-- The keys of the list are strictly increasing. -/
def Sorted (l : List (K × V)) : Prop := l.Pairwise (fun a b => a.1 < b.1)

/-- First value stored under `k`. -/
def lookup (k : K) : List (K × V) → Option V
  | [] => none
  | e :: rest => if e.1 = k then some e.2 else lookup k rest

/-- Insert or overwrite, keeping the order. -/
def insert (k : K) (v : V) : List (K × V) → List (K × V)
  | [] => [(k, v)]
  | e :: rest =>
    if k < e.1 then (k, v) :: e :: rest
    else if e.1 = k then (k, v) :: rest
    else e :: insert k v rest

/-- Drop the binding of `k`. -/
def erase (k : K) : List (K × V) → List (K × V)
  | [] => []
  | e :: rest => if e.1 = k then rest else e :: erase k rest

theorem mem_insert (h : e ∈ insert k v l) : e = (k, v) ∨ e ∈ l := by
  induction l with
  | nil => simpa [insert] using h
  | cons a rest ih =>
    simp only [insert] at h
    split_ifs at h
    · simpa using h
    · rcases mem_cons.mp h with h | h
      · exact .inl h
      · exact .inr (mem_cons_of_mem _ h)
    · rcases mem_cons.mp h with h | h
      · exact .inr (by simp [h])
      · exact (ih h).imp id (mem_cons_of_mem _)

theorem mem_of_mem_erase (h : e ∈ erase k l) : e ∈ l := by
  induction l with
  | nil => simp [erase] at h
  | cons a rest ih =>
    simp only [erase] at h
    split_ifs at h
    · exact mem_cons_of_mem _ h
    · rcases mem_cons.mp h with h | h
      · simp [h]
      · exact mem_cons_of_mem _ (ih h)

theorem Sorted.insert (hl : Sorted l) : Sorted (insert k v l) := by
  induction l with
  | nil => simp [Sorted, Assoc.insert]
  | cons a rest ih =>
    obtain ⟨hhead, htail⟩ := pairwise_cons.mp hl
    simp only [Assoc.insert]
    split_ifs with hlt heq
    · refine pairwise_cons.mpr ⟨?_, hl⟩
      intro b hb
      rcases mem_cons.mp hb with rfl | hb
      · exact hlt
      · exact lt_trans hlt (hhead b hb)
    · exact pairwise_cons.mpr ⟨fun b hb => heq ▸ hhead b hb, htail⟩
    · refine pairwise_cons.mpr ⟨?_, ih htail⟩
      intro b hb
      rcases mem_insert hb with rfl | hb
      · exact lt_of_le_of_ne (not_lt.mp hlt) heq
      · exact hhead b hb

theorem Sorted.erase (hl : Sorted l) : Sorted (erase k l) := by
  induction l with
  | nil => simp [Sorted, Assoc.erase]
  | cons a rest ih =>
    obtain ⟨hhead, htail⟩ := pairwise_cons.mp hl
    simp only [Assoc.erase]
    split_ifs
    · exact htail
    · exact pairwise_cons.mpr ⟨fun b hb => hhead b (mem_of_mem_erase hb), ih htail⟩

theorem lookup_eq_none (h : ∀ e ∈ l, e.1 ≠ k) : lookup k l = none := by
  induction l with
  | nil => rfl
  | cons a rest ih =>
    simp only [lookup]
    rw [if_neg (h a (by simp)), ih fun e he => h e (mem_cons_of_mem _ he)]

theorem mem_of_lookup (h : lookup k l = some v) : (k, v) ∈ l := by
  induction l with
  | nil => simp [lookup] at h
  | cons a rest ih =>
    simp only [lookup] at h
    split_ifs at h with heq
    · cases h
      simp [← heq]
    · exact mem_cons_of_mem _ (ih h)

theorem Sorted.lookup_of_mem (hl : Sorted l) (h : (k, v) ∈ l) : lookup k l = some v := by
  induction l with
  | nil => simp at h
  | cons a rest ih =>
    obtain ⟨hhead, htail⟩ := pairwise_cons.mp hl
    simp only [lookup]
    rcases mem_cons.mp h with rfl | h
    · simp
    · rw [if_neg (ne_of_lt (hhead _ h)), ih htail h]

theorem lookup_insert : lookup j (insert k v l) = if k = j then some v else lookup j l := by
  induction l with
  | nil => simp [insert, lookup]
  | cons a rest ih =>
    simp only [insert]
    by_cases hlt : k < a.1
    · simp [if_pos hlt, lookup]
    · by_cases heq : a.1 = k
      · rw [if_neg hlt, if_pos heq]
        simp only [lookup, heq]
        split_ifs <;> rfl
      · simp only [if_neg hlt, if_neg heq, lookup, ih]
        split_ifs with haj hkj
        · exact absurd (haj.trans hkj.symm) heq
        all_goals rfl

theorem Sorted.lookup_erase (hl : Sorted l) :
    lookup j (Assoc.erase k l) = if k = j then none else lookup j l := by
  induction l with
  | nil => simp [Assoc.erase, lookup]
  | cons a rest ih =>
    obtain ⟨hhead, htail⟩ := pairwise_cons.mp hl
    simp only [Assoc.erase]
    split_ifs with heq hkj hkj
    · -- the erased head was the only binding of its key
      exact lookup_eq_none fun e he => hkj ▸ heq ▸ (ne_of_gt (hhead e he))
    · simp only [lookup]
      rw [if_neg (heq ▸ hkj)]
    · simp only [lookup, ih htail, if_pos hkj]
      rw [if_neg (hkj ▸ heq)]
    · simp [lookup, ih htail, if_neg hkj]

/-- Sorted lists are determined by their members. -/
theorem Sorted.eq_of_mem_iff {l1 l2 : List (K × V)} (h1 : Sorted l1) (h2 : Sorted l2)
    (h : ∀ e, e ∈ l1 ↔ e ∈ l2) : l1 = l2 := by
  have hnd : ∀ {l : List (K × V)}, Sorted l → l.Nodup := fun hs =>
    hs.imp fun hab heq => absurd hab (by simp [heq])
  have hperm : l1.Perm l2 := (perm_ext_iff_of_nodup (hnd h1) (hnd h2)).mpr h
  exact hperm.eq_of_pairwise
    (fun a b _ _ hab hba => absurd hab (lt_asymm hba)) h1 h2

end Assoc

/-! ## Ordered maps -/

/-- A finite map with ordered keys; the list of entries carries the proof that
    its keys are strictly increasing. -/
structure OrdMap (K : Type*) (V : Type*) [LinearOrder K] where
  entries : List (K × V)
  sorted : Assoc.Sorted entries

namespace OrdMap

variable {K V W : Type*} [LinearOrder K] {m' : OrdMap K V} {w : V} {n : K}

instance [DecidableEq V] : DecidableEq (OrdMap K V) := fun m₁ m₂ =>
  match decEq m₁.entries m₂.entries with
  | isTrue h => isTrue (by cases m₁; cases m₂; cases h; rfl)
  | isFalse h => isFalse (fun heq => h (heq ▸ rfl))

def empty : OrdMap K V := ⟨[], List.Pairwise.nil⟩

instance : Inhabited (OrdMap K V) := ⟨empty⟩

def get? (m : OrdMap K V) (k : K) : Option V := Assoc.lookup k m.entries

def contains (m : OrdMap K V) (k : K) : Bool := (m.get? k).isSome

def insert (m : OrdMap K V) (k : K) (v : V) : OrdMap K V :=
  ⟨Assoc.insert k v m.entries, m.sorted.insert⟩

def erase (m : OrdMap K V) (k : K) : OrdMap K V := ⟨Assoc.erase k m.entries, m.sorted.erase⟩

/-- Update the value under `k`, when there is one. -/
def modify (m : OrdMap K V) (k : K) (f : V → V) : OrdMap K V :=
  match m.get? k with
  | some v => m.insert k (f v)
  | none => m

/-- Keep the entries that satisfy `p`. -/
def filter (m : OrdMap K V) (p : K → V → Bool) : OrdMap K V :=
  ⟨m.entries.filter (fun e => p e.1 e.2), m.sorted.sublist filter_sublist⟩

/-- Map the values. -/
def mapVal (m : OrdMap K V) (f : K → V → W) : OrdMap K W :=
  ⟨m.entries.map (fun e => (e.1, f e.1 e.2)), by
    simpa [Assoc.Sorted, pairwise_map] using m.sorted⟩

def filterMap (m : OrdMap K V) (f : K → V → Option W) : OrdMap K W :=
  ⟨m.entries.filterMap fun e => (f e.1 e.2).map fun w => (e.1, w), by
    refine List.Pairwise.filterMap _ (fun a b hab c hc d hd => ?_) m.sorted
    obtain ⟨w, -, rfl⟩ := map_eq_some_iff.mp hc
    obtain ⟨x, -, rfl⟩ := map_eq_some_iff.mp hd
    exact hab⟩

def keys (m : OrdMap K V) : List K := m.entries.map Prod.fst

def values (m : OrdMap K V) : List V := m.entries.map Prod.snd

/-- Build a map from a list of bindings; a later binding overwrites. -/
def ofList (l : List (K × V)) : OrdMap K V := l.foldl (fun m e => m.insert e.1 e.2) empty

/-- Append to the list stored at `k`. -/
def push (m : OrdMap K (List V)) (k : K) (v : V) : OrdMap K (List V) :=
  m.insert k ((m.get? k).getD [] ++ [v])

/-- Push the value of every item that has one to the list of its key. -/
def groupBy {α : Type*} (key : α → K) (val : α → Option V) (l : List α) : OrdMap K (List V) :=
  l.foldl (fun m a => match val a with
    | none => m
    | some v => m.push (key a) v) empty

/-- Sum of `f` over all bindings. -/
def sumBy {M : Type*} [AddCommMonoid M] (m : OrdMap K V) (f : K → V → M) : M :=
  (m.entries.map (fun e => f e.1 e.2)).sum

/-! ### Lookups -/

variable {m : OrdMap K V} {k : K} {v : V}

theorem mem_entries : (k, v) ∈ m.entries ↔ m.get? k = some v :=
  ⟨m.sorted.lookup_of_mem, Assoc.mem_of_lookup⟩

theorem mem_keys : k ∈ m.keys ↔ ∃ v, m.get? k = some v := by
  simp [keys, mem_entries]

theorem mem_values : v ∈ m.values ↔ ∃ k, m.get? k = some v := by
  simp [values, mem_entries]

theorem keys_nodup (m : OrdMap K V) : m.keys.Nodup :=
  pairwise_map.mpr (m.sorted.imp fun h => ne_of_lt h)

theorem ext_get? {m1 m2 : OrdMap K V} (h : ∀ k, m1.get? k = m2.get? k) : m1 = m2 := by
  have hent : m1.entries = m2.entries := by
    refine m1.sorted.eq_of_mem_iff m2.sorted ?_
    rintro ⟨k, v⟩
    rw [mem_entries, mem_entries, h k]
  cases m1
  cases m2
  cases hent
  rfl

@[simp] theorem get?_empty (k : K) : (empty : OrdMap K V).get? k = none := rfl

theorem get?_insert (m : OrdMap K V) (k j : K) (v : V) :
    (m.insert k v).get? j = if k = j then some v else m.get? j :=
  Assoc.lookup_insert

@[simp] theorem get?_insert_self (m : OrdMap K V) (k : K) (v : V) :
    (m.insert k v).get? k = some v := by
  simp [get?_insert]

variable {j : K}

theorem get?_insert_of_ne (m : OrdMap K V) (v : V) (h : k ≠ j) :
    (m.insert k v).get? j = m.get? j := by
  simp [get?_insert, h]

/-- A lookup in an updated map hits the updated entry or an old one. -/
theorem updated_cases (hm : ∀ j, m'.get? j = if k = j then some v else m.get? j)
    (h : m'.get? j = some w) : (j = k ∧ w = v) ∨ (j ≠ k ∧ m.get? j = some w) := by
  rw [hm] at h
  split_ifs at h with e
  · exact .inl ⟨e.symm, (Option.some.inj h).symm⟩
  · exact .inr ⟨Ne.symm e, h⟩

/-- What holds of the updated entry and of the old ones. -/
theorem forall_updated {P : K → V → Prop} (hm : ∀ j, m'.get? j = if k = j then some v else m.get? j)
    (hnew : P k v) (hold : ∀ {j w}, m.get? j = some w → P j w) (h : m'.get? j = some w) :
    P j w := by
  rcases updated_cases hm h with ⟨rfl, rfl⟩ | ⟨-, h⟩
  · exact hnew
  · exact hold h

/-- Where entries have only gone, what is there was there. -/
theorem get?_of_gone (h : m'.get? k = m.get? k ∨ m'.get? k = none) (hv : m'.get? k = some v) :
    m.get? k = some v := by
  rcases h with e | e
  · exact e.symm.trans hv
  · cases e.symm.trans hv

theorem ne_of_get? (hk : m.get? k = none) (hj : m.get? j = some v) : k ≠ j := by
  rintro rfl
  rw [hk] at hj
  cases hj

theorem get?_insert_fresh (hk : m.get? k = none) (h : m.get? j = some w) :
    (m.insert k v).get? j = some w := by
  rw [get?_insert_of_ne _ _ (ne_of_get? hk h), h]

theorem get?_erase (m : OrdMap K V) (k j : K) :
    (m.erase k).get? j = if k = j then none else m.get? j :=
  m.sorted.lookup_erase

theorem get?_erase_of_ne (m : OrdMap K V) (h : k ≠ j) : (m.erase k).get? j = m.get? j := by
  simp [get?_erase, h]

theorem of_get?_erase (h : (m.erase k).get? j = some w) : j ≠ k ∧ m.get? j = some w := by
  rw [get?_erase] at h
  split_ifs at h with e
  exact ⟨Ne.symm e, h⟩

theorem modify_of_some (f : V → V) (h : m.get? k = some v) : m.modify k f = m.insert k (f v) := by
  simp [modify, h]

theorem modify_of_none (f : V → V) (h : m.get? k = none) : m.modify k f = m := by
  simp [modify, h]

theorem get?_modify (m : OrdMap K V) (k j : K) (f : V → V) :
    (m.modify k f).get? j = if k = j then (m.get? j).map f else m.get? j := by
  cases h : m.get? k with
  | none =>
    rw [modify_of_none f h]
    split_ifs with hkj
    · subst hkj
      simp [h]
    · rfl
  | some v =>
    rw [modify_of_some f h, get?_insert]
    split_ifs with hkj
    · subst hkj
      simp [h]
    · rfl

@[simp] theorem get?_modify_self (m : OrdMap K V) (k : K) (f : V → V) :
    (m.modify k f).get? k = (m.get? k).map f := by
  simp [get?_modify]

theorem get?_modify_of_ne (m : OrdMap K V) (f : V → V) (h : k ≠ j) :
    (m.modify k f).get? j = m.get? j := by
  simp [get?_modify, h]

/-- A map that binds every listed key to one value. -/
theorem get?_ofList_const (ks : List K) (v : V) (j : K) :
    (ofList (ks.map fun k => (k, v))).get? j = if j ∈ ks then some v else none := by
  have hfold : ∀ m : OrdMap K V,
      ((ks.map fun k => (k, v)).foldl (fun m e => m.insert e.1 e.2) m).get? j =
        if j ∈ ks then some v else m.get? j := by
    induction ks with
    | nil => simp
    | cons k ks ih =>
      intro m
      rw [map_cons, foldl_cons, ih]
      by_cases hjk : j = k
      · subst hjk
        simp
      · have hkj : k ≠ j := fun h => hjk h.symm
        simp [hjk, get?_insert_of_ne _ _ hkj]
  exact hfold empty

variable {l : List (K × V)}

/-- Bindings with distinct keys are all in the map built from them. -/
theorem get?_foldl_insert (hl : (l.map Prod.fst).Nodup) (m : OrdMap K V) (j : K) :
    (l.foldl (fun m e => m.insert e.1 e.2) m).get? j = ((Assoc.lookup j l).or (m.get? j)) := by
  induction l generalizing m with
  | nil => rfl
  | cons e rest ih =>
    rw [map_cons, nodup_cons] at hl
    rw [foldl_cons, ih hl.2, Assoc.lookup]
    by_cases hj : e.1 = j
    · have hrest : Assoc.lookup j rest = none := Assoc.lookup_eq_none fun x hx hxj =>
        hl.1 (mem_map.mpr ⟨x, hx, hxj.trans hj.symm⟩)
      rw [if_pos hj, hrest, ← hj, get?_insert_self]
      rfl
    · rw [if_neg hj, get?_insert_of_ne _ _ hj]

/-- A key that is only ever written with one value holds it. -/
theorem get?_foldl_insert_of_forall {x : V} (hall : ∀ e ∈ l, e.1 = j → e.2 = x) (m : OrdMap K V)
    (h : m.get? j = some x ∨ ∃ e ∈ l, e.1 = j) :
    (l.foldl (fun m e => m.insert e.1 e.2) m).get? j = some x := by
  induction l generalizing m with
  | nil =>
    rcases h with h | ⟨e, he, -⟩
    · exact h
    · cases he
  | cons e rest ih =>
    rw [foldl_cons]
    refine ih (fun e' he' => hall e' (mem_cons_of_mem e he')) _ ?_
    by_cases hj : e.1 = j
    · left
      rw [hj, get?_insert_self, hall e (by simp) hj]
    · rw [get?_insert_of_ne _ _ hj]
      rcases h with h | ⟨e', he', hj'⟩
      · exact .inl h
      · rcases mem_cons.mp he' with rfl | he'
        · exact absurd hj' hj
        · exact .inr ⟨e', he', hj'⟩

theorem getD_push (m : OrdMap K (List V)) (k j : K) (v : V) :
    ((m.push k v).get? j).getD [] = (m.get? j).getD [] ++ if k = j then [v] else [] := by
  unfold push
  rw [get?_insert]
  split_ifs with h
  · subst h
    rfl
  · simp

/-- Each group holds the values of its key, in order. -/
theorem getD_groupBy {α : Type*} (key : α → K) (val : α → Option V) (l : List α) (j : K) :
    ((groupBy key val l).get? j).getD [] = (l.filter fun a => key a = j).filterMap val := by
  have hfold : ∀ m : OrdMap K (List V),
      ((l.foldl (fun m a => match val a with
          | none => m
          | some v => m.push (key a) v) m).get? j).getD [] =
        (m.get? j).getD [] ++ (l.filter fun a => key a = j).filterMap val := by
    induction l with
    | nil => simp
    | cons a rest ih =>
      intro m
      rw [foldl_cons, ih]
      cases hv : val a with
      | none =>
        by_cases hk : key a = j
        · simp [hk, hv]
        · simp [hk]
      | some v =>
        by_cases hk : key a = j
        · simp [hk, hv, getD_push]
        · simp [hk, getD_push]
  exact (hfold empty).trans (by simp)

/-- A map is what its bindings build. -/
theorem ofList_entries (m : OrdMap K V) : ofList m.entries = m := by
  refine ext_get? fun k => ?_
  rw [ofList, get?_foldl_insert m.keys_nodup, get?_empty, or_none]
  rfl

/-- Writing back what is there changes nothing. -/
theorem insert_eq_self (h : m.get? k = some v) : m.insert k v = m := by
  apply ext_get?
  intro j
  rw [get?_insert]
  split_ifs with hj
  · rw [← hj, h]
  · rfl

theorem erase_eq_self (h : m.get? k = none) : m.erase k = m := by
  apply ext_get?
  intro j
  rw [get?_erase]
  split_ifs with hj
  · rw [← hj, h]
  · rfl

theorem modify_eq_self {f : V → V} (h : ∀ v, m.get? k = some v → f v = v) : m.modify k f = m := by
  cases hv : m.get? k with
  | none => exact modify_of_none f hv
  | some v => rw [modify_of_some f hv, h v hv, insert_eq_self hv]

theorem modify_modify (m : OrdMap K V) (k : K) (f g : V → V) :
    (m.modify k f).modify k g = m.modify k (g ∘ f) := by
  apply ext_get?
  intro j
  simp only [get?_modify]
  split_ifs
  · simp
  · rfl

theorem get?_filter (m : OrdMap K V) (p : K → V → Bool) (k : K) :
    (m.filter p).get? k = (m.get? k).filter (p k) := by
  cases h : m.get? k with
  | none =>
    apply Assoc.lookup_eq_none
    rintro ⟨k', v⟩ he rfl
    have hmem := mem_entries.mp (mem_of_mem_filter he)
    rw [h] at hmem
    cases hmem
  | some v =>
    cases hp : p k v with
    | true =>
      rw [filter_some, if_pos hp]
      exact mem_entries.mp (mem_filter.mpr ⟨mem_entries.mpr h, hp⟩)
    | false =>
      rw [filter_some, if_neg (by simp [hp])]
      apply Assoc.lookup_eq_none
      rintro ⟨k', w⟩ he rfl
      obtain ⟨hmem, hw⟩ := mem_filter.mp he
      rw [mem_entries, h] at hmem
      cases hmem
      simp [hp] at hw

theorem get?_mapVal (m : OrdMap K V) (f : K → V → W) (k : K) :
    (m.mapVal f).get? k = (m.get? k).map (f k) := by
  cases h : m.get? k with
  | none =>
    apply Assoc.lookup_eq_none
    intro e he heq
    obtain ⟨a, ha, rfl⟩ := mem_map.mp he
    have hmem : m.get? a.1 = some a.2 := mem_entries.mp ha
    rw [show a.1 = k from heq, h] at hmem
    cases hmem
  | some v =>
    exact mem_entries.mp (mem_map.mpr ⟨(k, v), mem_entries.mpr h, rfl⟩)

theorem get?_filterMap (m : OrdMap K V) (f : K → V → Option W) (k : K) :
    (m.filterMap f).get? k = (m.get? k).bind (f k) := by
  apply Option.ext
  intro w
  rw [← mem_entries]
  simp only [filterMap, mem_filterMap, map_eq_some_iff, Prod.mk.injEq, bind_eq_some_iff]
  constructor
  · rintro ⟨⟨k', v⟩, hmem, w', hw, rfl, rfl⟩
    exact ⟨v, mem_entries.mp hmem, hw⟩
  · rintro ⟨v, hv, hw⟩
    exact ⟨(k, v), mem_entries.mpr hv, w, hw, rfl, rfl⟩

theorem contains_iff : m.contains k = true ↔ ∃ v, m.get? k = some v := by
  simp [contains, isSome_iff_exists]

theorem contains_insert : (m.insert k v).contains n = true ↔ k = n ∨ m.contains n = true := by
  rw [contains, get?_insert]
  split_ifs with h
  · simp [h]
  · simp [h, contains]

theorem contains_erase : (m.erase k).contains n = true ↔ k ≠ n ∧ m.contains n = true := by
  rw [contains, get?_erase]
  split_ifs with h
  · simp [h]
  · simp [h, contains]

theorem contains_eq_false_iff : m.contains k = false ↔ m.get? k = none := by
  simp [contains]

/-! ### Sums -/

section Sums

variable {M : Type*} [AddCommMonoid M] {v0 : V} {f g : K → V → M}

@[simp] theorem sumBy_empty (f : K → V → M) : (empty : OrdMap K V).sumBy f = 0 := rfl

theorem sumBy_insert_of_none (v : V) (f : K → V → M) (h : m.get? k = none) :
    (m.insert k v).sumBy f = f k v + m.sumBy f := by
  obtain ⟨l, hl⟩ := m
  simp only [get?, sumBy, insert] at h ⊢
  clear hl
  induction l with
  | nil => simp [Assoc.insert]
  | cons a rest ih =>
    simp only [Assoc.lookup] at h
    split_ifs at h with heq
    simp only [Assoc.insert]
    split_ifs with hlt
    · simp
    · simp only [map_cons, sum_cons, ih h]
      exact add_left_comm _ _ _

/-- Overwriting a binding exchanges its summand. -/
theorem sumBy_insert_of_some (v : V) (f : K → V → M) (h : m.get? k = some v0) :
    f k v0 + (m.insert k v).sumBy f = f k v + m.sumBy f := by
  obtain ⟨l, hl⟩ := m
  simp only [get?, sumBy, insert] at h ⊢
  induction l with
  | nil => simp [Assoc.lookup] at h
  | cons a rest ih =>
    obtain ⟨hhead, htail⟩ := pairwise_cons.mp hl
    simp only [Assoc.lookup] at h
    split_ifs at h with heq
    · cases h
      subst heq
      simp only [Assoc.insert, lt_irrefl, if_false, if_true, map_cons, sum_cons]
      exact add_left_comm _ _ _
    · -- the binding is below the head, so `k` is not smaller than the head
      have hgt : a.1 < k := hhead _ (Assoc.mem_of_lookup h)
      simp only [Assoc.insert, if_neg (not_lt_of_gt hgt), if_neg heq, map_cons, sum_cons]
      rw [add_left_comm, ih htail h, add_left_comm]

theorem sumBy_erase_of_some (f : K → V → M) (h : m.get? k = some v0) :
    f k v0 + (m.erase k).sumBy f = m.sumBy f := by
  obtain ⟨l, hl⟩ := m
  simp only [get?, sumBy, erase] at h ⊢
  clear hl
  induction l with
  | nil => simp [Assoc.lookup] at h
  | cons a rest ih =>
    simp only [Assoc.lookup] at h
    split_ifs at h with heq
    · cases h
      subst heq
      simp [Assoc.erase]
    · simp only [Assoc.erase, if_neg heq, map_cons, sum_cons]
      rw [add_left_comm, ih h]

theorem sumBy_congr (h : ∀ k v, m.get? k = some v → f k v = g k v) : m.sumBy f = m.sumBy g := by
  simp only [sumBy]
  congr 1
  exact map_congr_left fun e he => h e.1 e.2 (mem_entries.mp he)

theorem sumBy_eq_zero (h : ∀ k v, m.get? k = some v → f k v = 0) : m.sumBy f = 0 := by
  rw [sumBy_congr (g := fun _ _ => 0) h]
  simp [sumBy]

theorem sumBy_add (m : OrdMap K V) (f g : K → V → M) :
    m.sumBy (fun k v => f k v + g k v) = m.sumBy f + m.sumBy g :=
  sum_map_add

/-- A sum over the map is the sum over any distinct keys that have all the keys
    that count. -/
theorem sumBy_eq_sum_map {l : List K} (hnd : l.Nodup)
    (h : ∀ k v, m.get? k = some v → f k v ≠ 0 → k ∈ l) :
    m.sumBy f = (l.map fun k => (m.get? k).elim 0 (f k)).sum := by
  induction l generalizing m with
  | nil =>
    refine sumBy_eq_zero fun k v hv => ?_
    by_contra hne
    exact absurd (h k v hv hne) not_mem_nil
  | cons k rest ih =>
    obtain ⟨hnot, hnd'⟩ := nodup_cons.mp hnd
    rw [map_cons, sum_cons]
    cases hk : m.get? k with
    | none =>
      rw [ih hnd' fun j v hv hne => ?_, elim_none, zero_add]
      refine (mem_cons.mp (h j v hv hne)).resolve_left ?_
      rintro rfl
      rw [hk] at hv
      cases hv
    | some v =>
      have herase : ∀ j, j ≠ k → (m.erase k).get? j = m.get? j :=
        fun j hj => by rw [get?_erase, if_neg (Ne.symm hj)]
      rw [← sumBy_erase_of_some f hk, ih hnd' fun j w hw hne => ?_, elim_some]
      · congr 2
        refine map_congr_left fun j hj => ?_
        rw [herase j fun e => hnot (e ▸ hj)]
      · rw [get?_erase] at hw
        split_ifs at hw with hjk
        exact (mem_cons.mp (h j w hw hne)).resolve_left (Ne.symm hjk)

/-- Maps with the same keys and the same summands have the same sum. -/
theorem sumBy_congr_of_keys (hkeys : ∀ k, m.get? k = none ↔ m'.get? k = none)
    (h : ∀ k v v', m.get? k = some v → m'.get? k = some v' → f k v = g k v') :
    m.sumBy f = m'.sumBy g := by
  rw [sumBy_eq_sum_map m.keys_nodup fun k v hv _ => mem_keys.mpr ⟨v, hv⟩,
    sumBy_eq_sum_map m.keys_nodup fun k v hv _ => ?_]
  · congr 1
    refine map_congr_left fun k _ => ?_
    cases hk : m.get? k with
    | none => simp only [(hkeys k).mp hk, elim_none]
    | some v =>
      cases hk' : m'.get? k with
      | none =>
        rw [(hkeys k).mpr hk'] at hk
        cases hk
      | some v' => exact h k v v' hk hk'
  · cases hk : m.get? k with
    | none =>
      rw [(hkeys k).mp hk] at hv
      cases hv
    | some w => exact mem_keys.mpr ⟨w, hk⟩

end Sums

/-! ## Related maps -/

/-- The maps have the same keys, with related values. -/
def Rel (R : V → V → Prop) (m m' : OrdMap K V) : Prop :=
  ∀ k, (m.get? k = none ∧ m'.get? k = none) ∨
    ∃ v v', m.get? k = some v ∧ m'.get? k = some v' ∧ R v v'

namespace Rel

variable {R : V → V → Prop} {m'' : OrdMap K V}

theorem refl (hR : ∀ v, R v v) (m : OrdMap K V) : Rel R m m := by
  intro k
  cases h : m.get? k with
  | none => exact .inl ⟨rfl, rfl⟩
  | some v => exact .inr ⟨v, v, rfl, rfl, hR v⟩

theorem of_eq (hR : ∀ v, R v v) (h : m' = m) : Rel R m m' := h ▸ refl hR m

theorem trans (hR : ∀ {a b c}, R a b → R b c → R a c) (h : Rel R m m') (h' : Rel R m' m'') :
    Rel R m m'' := by
  intro k
  rcases h k with ⟨hk, hk'⟩ | ⟨a, b, ha, hb, hab⟩ <;>
    rcases h' k with ⟨gk, gk'⟩ | ⟨c, d, hc, hd, hcd⟩
  · exact .inl ⟨hk, gk'⟩
  · simp [hk'] at hc
  · simp [hb] at gk
  · rw [hb] at hc
    cases hc
    exact .inr ⟨a, d, ha, hd, hR hab hcd⟩

theorem mono {S : V → V → Prop} (hRS : ∀ {a b}, R a b → S a b) (h : Rel R m m') : Rel S m m' := by
  intro k
  rcases h k with hk | ⟨a, b, ha, hb, hab⟩
  · exact .inl hk
  · exact .inr ⟨a, b, ha, hb, hRS hab⟩

theorem some (h : Rel R m m') (hv : m.get? k = some v) :
    ∃ v', m'.get? k = Option.some v' ∧ R v v' := by
  rcases h k with ⟨hk, -⟩ | ⟨a, b, ha, hb, hab⟩
  · simp [hk] at hv
  · rw [ha] at hv
    cases hv
    exact ⟨b, hb, hab⟩

theorem back {v' : V} (h : Rel R m m') (hv : m'.get? k = Option.some v') :
    ∃ v, m.get? k = Option.some v ∧ R v v' := by
  rcases h k with ⟨-, hk⟩ | ⟨a, b, ha, hb, hab⟩
  · simp [hk] at hv
  · rw [hb] at hv
    cases hv
    exact ⟨a, ha, hab⟩

theorem none_iff (h : Rel R m m') : m'.get? k = none ↔ m.get? k = none := by
  rcases h k with ⟨hk, hk'⟩ | ⟨a, b, ha, hb, -⟩
  · simp [hk, hk']
  · simp [ha, hb]

theorem of_modify (hR : ∀ v, R v v) (f : V → V) (hf : ∀ v, m.get? k = Option.some v → R v (f v)) :
    Rel R m (m.modify k f) := by
  intro j
  rw [get?_modify]
  cases hj : m.get? j with
  | none => simp
  | some v =>
    right
    split_ifs with hk
    · exact ⟨v, f v, rfl, rfl, hf v (hk ▸ hj)⟩
    · exact ⟨v, v, rfl, rfl, hR v⟩

theorem of_insert (hR : ∀ v, R v v) {v : V} (hv : m.get? k = Option.some v) (hw : R v w) :
    Rel R m (m.insert k w) := by
  have h := of_modify (m := m) (k := k) hR (fun _ => w) (fun v' hv' => by
    rw [hv] at hv'
    cases hv'
    exact hw)
  rwa [modify_of_some _ hv] at h

end Rel

end OrdMap

end Coppice.Lib
