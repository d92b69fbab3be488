/-
  Coppice.Lib.Serve

  Demands in several dimensions, served one after the other from one pool per key.
  More in the pools never turns a met demand into an unmet one (`serve_mono`), on a
  single key the verdicts are those of `fill` (`mem_serve_of_fill`), and keys do not
  interfere (`mem_serve_flatMap`).
-/

import Coppice.Lib.Pour
import Mathlib.Data.Fintype.Defs

namespace Coppice.Lib

open List

namespace Serve

open Pour

variable {K D α : Type*} [DecidableEq K] (key : α → K) (need : α → D → Nat) {k : K}
  {pool pool' : K → D → Nat} {b : Bool} {ks : List K}

/-- The pools after one demand. -/
def draw (pool : K → D → Nat) (x : α) : K → D → Nat :=
  fun k d => if k = key x then pool k d - need x d else pool k d

variable {key need}

variable (key need) in
theorem draw_self (pool : K → D → Nat) (x : α) (d : D) :
    draw key need pool x (key x) d = pool (key x) d - need x d := if_pos rfl

theorem draw_of_ne (pool : K → D → Nat) {x : α} (h : k ≠ key x) (d : D) :
    draw key need pool x k d = pool k d := if_neg h

/-- What a list of demands leaves in a pool. -/
theorem foldl_draw (pool : K → D → Nat) (l : List α) (k : K) (d : D) :
    l.foldl (draw key need) pool k d =
      pool k d - ((l.filter fun x => key x = k).map fun x => need x d).sum := by
  induction l generalizing pool with
  | nil => simp
  | cons x l ih =>
    rw [foldl_cons, ih]
    by_cases hx : key x = k
    · subst hx
      rw [draw_self]
      simp only [decide_true, filter_cons_of_pos, map_cons, sum_cons]
      omega
    · rw [draw_of_ne pool (Ne.symm hx), filter_cons_of_neg (by simpa using hx)]

theorem draw_mono (h : ∀ k d, pool k d ≤ pool' k d) (x : α) (k : K) (d : D) :
    draw key need pool x k d ≤ draw key need pool' x k d := by
  simp only [draw]
  split_ifs
  · exact Nat.sub_le_sub_right (h k d) _
  · exact h k d

/-- The demands of a key have no other. -/
theorem filter_key {f : K → List α} (hkey : ∀ k, ∀ x ∈ f k, key x = k) (m k : K) :
    (f m).filter (fun x => key x = k) = if m = k then f m else [] := by
  split_ifs with h
  · exact filter_eq_self.mpr fun x hx => by simpa [hkey m x hx] using h
  · exact filter_eq_nil_iff.mpr fun x hx => by simpa [hkey m x hx] using h

/-- The pool of a key does not know of the demands of others. -/
theorem foldl_draw_flatMap (pool : K → D → Nat) {f : K → List α} (hnd : ks.Nodup)
    (hkey : ∀ k, ∀ x ∈ f k, key x = k) (hk : k ∈ ks) (d : D) :
    (ks.flatMap f).foldl (draw key need) pool k d = (f k).foldl (draw key need) pool k d := by
  rw [foldl_draw, foldl_draw, filter_key hkey, if_pos rfl, filter_flatMap]
  simp only [filter_key hkey]
  suffices h : ks.flatMap (fun m => if m = k then f m else []) = f k by rw [h]
  induction ks with
  | nil => simp at hk
  | cons k' ks ih =>
    obtain ⟨hk', hnd'⟩ := nodup_cons.mp hnd
    rw [flatMap_cons]
    split_ifs with he
    · subst he
      have hrest : ks.flatMap (fun m => if m = k' then f m else []) = [] :=
        flatMap_eq_nil_iff.mpr fun m hm => if_neg fun e : m = k' => hk' (e ▸ hm)
      rw [hrest, append_nil]
    · exact ih hnd' ((mem_cons.mp hk).resolve_left (Ne.symm he))

variable [Fintype D]

variable (key need) in
/-- The demands with their verdicts. -/
def serve (pool : K → D → Nat) : List α → List (α × Bool)
  | [] => []
  | x :: l => (x, decide (∀ d, need x d ≤ pool (key x) d)) :: serve (draw key need pool x) l

@[simp] theorem serve_nil (pool : K → D → Nat) : serve key need pool [] = [] := rfl

theorem serve_append (pool : K → D → Nat) (l l' : List α) :
    serve key need pool (l ++ l') =
      serve key need pool l ++ serve key need (l.foldl (draw key need) pool) l' := by
  induction l generalizing pool with
  | nil => rfl
  | cons x l ih => simp [serve, ih]

variable (key need) in
theorem map_fst_serve (pool : K → D → Nat) (l : List α) :
    (serve key need pool l).map Prod.fst = l := by
  induction l generalizing pool with
  | nil => rfl
  | cons x l ih => simp [serve, ih]

theorem mem_of_mem_serve {l : List α} {x : α} (h : (x, b) ∈ serve key need pool l) : x ∈ l := by
  rw [← map_fst_serve key need pool l]
  exact mem_map_of_mem h

/-- Every demand gets a verdict. -/
theorem exists_mem_serve (pool : K → D → Nat) {l : List α} {x : α} (h : x ∈ l) :
    ∃ b, (x, b) ∈ serve key need pool l := by
  rw [← map_fst_serve key need pool l] at h
  obtain ⟨⟨y, b⟩, hy, rfl⟩ := mem_map.mp h
  exact ⟨b, hy⟩

/-- A demand that occurs once has one verdict. -/
theorem serve_unique {l : List α} (hnd : l.Nodup) {x : α} {b' : Bool}
    (h : (x, b) ∈ serve key need pool l) (h' : (x, b') ∈ serve key need pool l) : b = b' := by
  rw [← map_fst_serve key need pool l] at hnd
  exact congrArg Prod.snd (inj_on_of_nodup_map hnd h h' rfl)

/-- Only the pools of the keys that occur matter. -/
theorem serve_congr {l : List α} (h : ∀ x ∈ l, ∀ d, pool (key x) d = pool' (key x) d) :
    serve key need pool l = serve key need pool' l := by
  induction l generalizing pool pool' with
  | nil => rfl
  | cons x l ih =>
    have hhead := h x (by simp)
    have hrest : serve key need (draw key need pool x) l =
        serve key need (draw key need pool' x) l := by
      refine ih fun y hy d => ?_
      simp [draw, h y (mem_cons_of_mem x hy) d]
    simp [serve, hhead, hrest]

/-- What the larger pools leave unmet, the smaller do. -/
theorem unmet_mono (h : ∀ k d, pool k d ≤ pool' k d) {l : List α} {x : α}
    (hx : (x, false) ∈ serve key need pool' l) : (x, false) ∈ serve key need pool l := by
  induction l generalizing pool pool' with
  | nil => exact hx
  | cons y l ih =>
    rw [serve, mem_cons, Prod.mk.injEq] at hx ⊢
    rcases hx with ⟨hxy, hunmet⟩ | hx
    · refine .inl ⟨hxy, Eq.symm (decide_eq_false fun hmet => ?_)⟩
      have hmore : ∀ d, need y d ≤ pool' (key y) d := fun d => (hmet d).trans (h _ d)
      rw [decide_eq_true hmore] at hunmet
      cases hunmet
    · exact .inr (ih (draw_mono h y) hx)

/-- Distinct demands are served alike when the smaller pools leave no more unmet. -/
theorem serve_eq_of_unmet (h : ∀ k d, pool k d ≤ pool' k d) {l : List α} (hnd : l.Nodup)
    (hunmet : ∀ x, (x, false) ∈ serve key need pool l → (x, false) ∈ serve key need pool' l) :
    serve key need pool l = serve key need pool' l := by
  induction l generalizing pool pool' with
  | nil => rfl
  | cons x l ih =>
    obtain ⟨hx, hnd'⟩ := nodup_cons.mp hnd
    have hrest : serve key need (draw key need pool x) l =
        serve key need (draw key need pool' x) l := by
      refine ih (draw_mono h x) hnd' fun y hy => ?_
      rcases mem_cons.mp (hunmet y (mem_cons_of_mem _ hy)) with he | he
      · rw [Prod.mk.injEq] at he
        exact absurd (he.1 ▸ mem_of_mem_serve hy) hx
      · exact he
    rw [serve, serve, hrest, List.cons.injEq, Prod.mk.injEq]
    refine ⟨⟨rfl, decide_eq_decide.mpr ⟨fun hmet d => (hmet d).trans (h _ d), fun hmet => ?_⟩⟩, rfl⟩
    by_contra hlack
    have hhead : (x, false) ∈ serve key need pool (x :: l) := by
      rw [serve, decide_eq_false hlack]
      exact mem_cons_self
    rcases mem_cons.mp (hunmet x hhead) with he | he
    · rw [decide_eq_true hmet] at he
      cases he
    · exact hx (mem_of_mem_serve he)

/-- On one key the unmet demands are those that `fill` leaves short somewhere. -/
theorem mem_serve_of_fill {l : List α} {lack : α → D → Nat} (hkey : ∀ x ∈ l, key x = k)
    (hfill : ∀ d, (l.map fun x => lack x d) = fill (l.map fun x => need x d) (pool k d)) {x : α}
    (b : Bool) : (x, b) ∈ serve key need pool l ↔ x ∈ l ∧ b = decide (∀ d, lack x d = 0) := by
  induction l generalizing pool with
  | nil => simp
  | cons y l ih =>
    have hy := hkey y (by simp)
    simp only [map_cons, fill_cons, List.cons.injEq] at hfill
    have hrest : (x, b) ∈ serve key need (draw key need pool y) l ↔
        x ∈ l ∧ b = decide (∀ d, lack x d = 0) := by
      refine ih (fun z hz => hkey z (mem_cons_of_mem y hz)) fun d => ?_
      rw [← hy, draw_self, hy]
      exact (hfill d).2
    have hverdict : decide (∀ d, need y d ≤ pool (key y) d) = decide (∀ d, lack y d = 0) := by
      refine decide_eq_decide.mpr (forall_congr' fun d => ?_)
      have := (hfill d).1
      rw [hy]
      omega
    rw [serve, mem_cons, hrest, hverdict, Prod.mk.injEq, mem_cons]
    constructor
    · rintro (⟨rfl, rfl⟩ | ⟨hx, hb⟩)
      · exact ⟨.inl rfl, rfl⟩
      · exact ⟨.inr hx, hb⟩
    · rintro ⟨rfl | hx, hb⟩
      · exact .inl ⟨rfl, hb⟩
      · exact .inr ⟨hx, hb⟩

/-- The demands of different keys do not interfere. -/
theorem mem_serve_flatMap (pool : K → D → Nat) {f : K → List α} (hnd : ks.Nodup)
    (hkey : ∀ k, ∀ x ∈ f k, key x = k) {e : α × Bool} :
    e ∈ serve key need pool (ks.flatMap f) ↔ ∃ k ∈ ks, e ∈ serve key need pool (f k) := by
  induction ks generalizing pool with
  | nil => simp
  | cons k ks ih =>
    obtain ⟨hk, hnd'⟩ := nodup_cons.mp hnd
    rw [flatMap_cons, serve_append, mem_append, ih _ hnd']
    have hsame : ∀ k' ∈ ks, serve key need ((f k).foldl (draw key need) pool) (f k') =
        serve key need pool (f k') := by
      intro k' hk'
      refine serve_congr fun x hx d => ?_
      have hne : k ≠ k' := fun e => hk (e ▸ hk')
      rw [foldl_draw, filter_key hkey, hkey k' x hx, if_neg hne, map_nil, sum_nil, Nat.sub_zero]
    constructor
    · rintro (h | ⟨k', hk', h⟩)
      · exact ⟨k, by simp, h⟩
      · rw [hsame k' hk'] at h
        exact ⟨k', mem_cons_of_mem k hk', h⟩
    · rintro ⟨k', hk', h⟩
      rcases mem_cons.mp hk' with rfl | hk'
      · exact .inl h
      · exact .inr ⟨k', hk', by rwa [hsame k' hk']⟩

end Serve

end Coppice.Lib
