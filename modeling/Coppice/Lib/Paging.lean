/-
  Coppice.Lib.Paging

  Reading a list page by page: a page serves a first part of the items above its
  cursor and names the last when it stops early.  Following the cursors ends, and
  the pages joined are all the items above the first.
-/

import Mathlib.Algebra.Order.Ring.Nat
import Mathlib.Data.List.Basic

namespace Coppice.Lib

open List

variable {κ α β : Type}

/-- A page is what a first part of `items` yields; it ends with them, or names the last one it
    took, which is `last` if it took none. -/
def PageOf (key : α → κ) (f : α → Option β) (items : List α) (last : Option κ)
    (page : List β × Option κ) : Prop :=
  ∃ served rest, items = served ++ rest ∧ page.1 = served.filterMap f ∧ match page.2 with
    | none => rest = []
    | some k => (served.getLast?.map key).or last = some k

namespace PageOf

variable {key : α → κ} {f : α → Option β} {items : List α} {last : Option κ}

theorem done : PageOf key f [] last ([], none) := ⟨[], [], rfl, rfl, rfl⟩

theorem stop (h : last ≠ none) : PageOf key f items last ([], last) := by
  refine ⟨[], items, rfl, rfl, ?_⟩
  cases last with
  | none => exact absurd rfl h
  | some k => rfl

theorem take {x : α} {out : List β} {next : Option κ}
    (h : PageOf key f items (some (key x)) (out, next)) :
    PageOf key f (x :: items) last ((f x).toList ++ out, next) := by
  obtain ⟨served, rest, rfl, hout, hnext⟩ := h
  refine ⟨x :: served, rest, rfl, ?_, ?_⟩
  · rw [filterMap_cons, show out = _ from hout]
    cases f x <;> rfl
  · cases next with
    | none => exact hnext
    | some k =>
      simp only [getLast?_cons] at hnext ⊢
      rw [← hnext]
      cases served.getLast? <;> rfl

end PageOf

/-- The pages joined, if the last is reached within `n` of them. -/
def follow (page : Option κ → List β × Option κ) : Nat → Option κ → Option (List β)
  | 0, _ => none
  | n + 1, c =>
    match (page c).2 with
    | none => some (page c).1
    | some k => (follow page n (some k)).map ((page c).1 ++ ·)

variable [LinearOrder κ]

/-- The items above a cursor. -/
def above (key : α → κ) (c : Option κ) (xs : List α) : List α :=
  xs.filter fun x => c.all (· < key x)

/-- Skipping to the first item above a key. -/
theorem dropWhile_eq_above (key : α → κ) {xs : List α} (k : κ)
    (hsorted : xs.Pairwise fun x y => key x < key y) :
    xs.dropWhile (fun x => key x ≤ k) = above key (some k) xs := by
  induction xs with
  | nil => rfl
  | cons x xs ih =>
    obtain ⟨hx, hxs⟩ := pairwise_cons.mp hsorted
    unfold above at ih ⊢
    by_cases hk : key x ≤ k
    · rw [dropWhile_cons_of_pos (by simpa using hk), filter_cons_of_neg (by simpa using hk), ih hxs]
    · rw [dropWhile_cons_of_neg (by simpa using hk), filter_eq_self.mpr]
      intro y hy
      have hxk := lt_of_not_ge hk
      rcases mem_cons.mp hy with rfl | hy
      · simpa using hxk
      · simpa using hxk.trans (hx y hy)

/-- What is above the last item served is what was left. -/
theorem above_served {key : α → κ} {xs front rest : List α} {c : Option κ} {x : α}
    (hsorted : xs.Pairwise fun x y => key x < key y)
    (hsplit : above key c xs = front ++ x :: rest) : above key (some (key x)) xs = rest := by
  have hsub : (front ++ x :: rest).Pairwise fun x y => key x < key y := hsplit ▸ hsorted.filter _
  obtain ⟨-, hrest, hfront⟩ := pairwise_append.mp hsub
  have hc : c.all (· < key x) = true := by
    have hmem : x ∈ above key c xs := by rw [hsplit]; simp
    exact (mem_filter.mp hmem).2
  have hagain : above key (some (key x)) xs = above key (some (key x)) (above key c xs) := by
    unfold above
    rw [filter_filter]
    refine filter_congr fun y _ => ?_
    cases c with
    | none => simp
    | some k =>
      have hk : k < key x := by simpa using hc
      simpa using fun h : key x < key y => hk.trans h
  -- nothing served is above the last item served
  have hnone : above key (some (key x)) front = [] := by
    refine filter_eq_nil_iff.mpr fun y hy => ?_
    simpa using (hfront y hy x (by simp)).le
  have hall : above key (some (key x)) rest = rest :=
    filter_eq_self.mpr fun y hy => by simpa using (pairwise_cons.mp hrest).1 y hy
  rw [hagain, hsplit]
  unfold above at hnone hall ⊢
  rw [filter_append, hnone, nil_append, filter_cons_of_neg (by simp), hall]

/-- Exact pages: following them ends, and joins to everything above the cursor. -/
theorem exists_follow {key : α → κ} {f : α → Option β} {xs : List α}
    {page : Option κ → List β × Option κ} {c0 : Option κ}
    (hsorted : xs.Pairwise fun x y => key x < key y)
    (hpage : ∀ c, c = c0 ∨ c.isSome = true → PageOf key f (above key c xs) none (page c)) :
    ∃ n, follow page n c0 = some ((above key c0 xs).filterMap f) := by
  suffices h : ∀ m c, (above key c xs).length = m → c = c0 ∨ c.isSome = true →
      ∃ n, follow page n c = some ((above key c xs).filterMap f) from h _ c0 rfl (.inl rfl)
  intro m
  induction m using Nat.strongRecOn with
  | ind m ih =>
    intro c hm hc
    obtain ⟨served, rest, hsplit, hout, hnext⟩ := hpage c hc
    cases hk : (page c).2 with
    | none =>
      rw [hk] at hnext
      refine ⟨1, ?_⟩
      rw [follow, hk, hout, hsplit, show rest = [] from hnext, append_nil]
    | some k =>
      rw [hk] at hnext
      obtain ⟨x, hlast, rfl⟩ := Option.map_eq_some_iff.mp ((Option.or_none).symm.trans hnext)
      obtain ⟨front, rfl⟩ := getLast?_eq_some_iff.mp hlast
      rw [append_assoc, singleton_append] at hsplit
      have hrest := above_served hsorted hsplit
      have hshort : (above key (some (key x)) xs).length < m := by
        rw [hrest, ← hm, hsplit]
        simp only [length_append, length_cons]
        omega
      obtain ⟨n, hn⟩ := ih _ hshort (some (key x)) rfl (.inr rfl)
      refine ⟨n + 1, ?_⟩
      rw [follow, hk]
      simp only [hn, Option.map_some]
      rw [hout, hrest, hsplit, ← filterMap_append, append_assoc, singleton_append]

end Coppice.Lib
