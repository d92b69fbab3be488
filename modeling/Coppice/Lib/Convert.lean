/-
  Coppice.Lib.Convert

  Readers that may refuse: an optional or a repeated value is read item by item and
  the first refusal is the answer; a map is read from its entries in any order, each
  key once.
-/

import Coppice.Lib.OrdMap

namespace Coppice.Lib

open List OrdMap

variable {ε W D : Type} {read : W → Except ε D} {write : D → W}

theorem bind_eq_ok {α β : Type} {x : Except ε α} {f : α → Except ε β} {b : β} :
    (x >>= f) = .ok b ↔ ∃ a, x = .ok a ∧ f a = .ok b := by
  cases x with
  | error e =>
    constructor
    · intro h
      cases h
    · rintro ⟨_, h, _⟩
      cases h
  | ok a =>
    constructor
    · exact fun h => ⟨a, rfl, h⟩
    · rintro ⟨_, ha, h⟩
      cases ha
      exact h

theorem map_eq_ok {α β : Type} {x : Except ε α} {f : α → β} {b : β} :
    f <$> x = .ok b ↔ ∃ a, x = .ok a ∧ f a = b := by
  cases x with
  | error e =>
    constructor
    · intro h
      cases h
    · rintro ⟨_, h, _⟩
      cases h
  | ok a =>
    constructor
    · intro h
      exact ⟨a, rfl, Except.ok.inj h⟩
    · rintro ⟨_, ha, rfl⟩
      cases ha
      rfl

theorem map_ok {α β : Type} {x : Except ε α} {f : α → β} {a : α} (h : x = .ok a) :
    f <$> x = .ok (f a) :=
  map_eq_ok.mpr ⟨a, h, rfl⟩

/-! ## Optional and repeated values -/

/-- An absent value stays absent. -/
def readOption (read : W → Except ε D) : Option W → Except ε (Option D)
  | none => .ok none
  | some w =>
    match read w with
    | .ok d => .ok (some d)
    | .error e => .error e

/-- The items in order, or the first refusal. -/
def readList (read : W → Except ε D) : List W → Except ε (List D)
  | [] => .ok []
  | w :: rest =>
    match read w with
    | .error e => .error e
    | .ok d =>
      match readList read rest with
      | .error e => .error e
      | .ok ds => .ok (d :: ds)

theorem readOption_map {o : Option D} (h : ∀ d ∈ o, read (write d) = .ok d) :
    readOption read (o.map write) = .ok o := by
  cases o with
  | none => rfl
  | some d =>
    show (match read (write d) with | .ok d => Except.ok (some d) | .error e => .error e) = _
    rw [h d rfl]

theorem readOption_some {o : Option W} {d : D} (h : readOption read o = .ok (some d)) :
    ∃ w, o = some w ∧ read w = .ok d := by
  cases o with
  | none => cases h
  | some w =>
    rw [readOption] at h
    cases hw : read w with
    | error e => simp only [hw, reduceCtorEq] at h
    | ok d' =>
      simp only [hw, Except.ok.injEq, Option.some.injEq] at h
      exact ⟨w, rfl, h ▸ hw⟩

theorem readList_map {l : List D} (h : ∀ d ∈ l, read (write d) = .ok d) :
    readList read (l.map write) = .ok l := by
  induction l with
  | nil => rfl
  | cons d rest ih =>
    have hd := h d mem_cons_self
    have hrest := ih fun x hx => h x (mem_cons_of_mem _ hx)
    simp [readList, hd, hrest]

theorem mem_readList {ws : List W} {ds : List D} (h : readList read ws = .ok ds) :
    ∀ d ∈ ds, ∃ w, read w = .ok d := by
  induction ws generalizing ds with
  | nil =>
    cases h
    exact fun _ hd => nomatch hd
  | cons w rest ih =>
    unfold readList at h
    split at h
    next => cases h
    next d hd =>
      split at h
      next => cases h
      next ds' hrest =>
        cases h
        intro x hx
        rcases mem_cons.mp hx with rfl | hx
        · exact ⟨w, hd⟩
        · exact ih hrest x hx

/-! ## Maps -/

variable {K V : Type} [LinearOrder K]

/-- Insert the entries one by one; each key passes `check` and comes once. -/
def readMapInto (check : K → Except ε Unit) (duplicate : ε) (m : OrdMap K V) :
    List (K × V) → Except ε (OrdMap K V)
  | [] => .ok m
  | e :: rest =>
    match check e.1 with
    | .error err => .error err
    | .ok () =>
      if m.contains e.1 then .error duplicate
      else readMapInto check duplicate (m.insert e.1 e.2) rest

def readMap (check : K → Except ε Unit) (duplicate : ε) (l : List (K × V)) :
    Except ε (OrdMap K V) :=
  readMapInto check duplicate .empty l

variable {check : K → Except ε Unit} {duplicate : ε} {l : List (K × V)} {m : OrdMap K V}

/-- Entries with different keys, none of them in the map, are all inserted. -/
theorem readMapInto_eq (hnodup : (l.map Prod.fst).Nodup) (hcheck : ∀ e ∈ l, check e.1 = .ok ())
    (hnew : ∀ e ∈ l, m.get? e.1 = none) :
    readMapInto check duplicate m l = .ok (l.foldl (fun m e => m.insert e.1 e.2) m) := by
  induction l generalizing m with
  | nil => rfl
  | cons e rest ih =>
    have hne : m.contains e.1 = false := contains_eq_false_iff.mpr (hnew e mem_cons_self)
    simp only [readMapInto, hcheck e mem_cons_self, hne, foldl_cons]
    rw [map_cons, nodup_cons] at hnodup
    refine ih hnodup.2 (fun x hx => hcheck x (mem_cons_of_mem _ hx)) fun x hx => ?_
    have hkey : e.1 ≠ x.1 := fun h => hnodup.1 (h ▸ mem_map_of_mem hx)
    rw [get?_insert_of_ne _ _ hkey]
    exact hnew x (mem_cons_of_mem _ hx)

theorem readMap_entries (hcheck : ∀ k ∈ m.keys, check k = .ok ()) :
    readMap check duplicate m.entries = .ok m := by
  have hinto : readMap check duplicate m.entries =
      .ok (m.entries.foldl (fun m e => m.insert e.1 e.2) .empty) :=
    readMapInto_eq m.keys_nodup (fun e he => hcheck e.1 (mem_map_of_mem he)) fun _ _ => rfl
  rw [hinto]
  exact congrArg Except.ok (ofList_entries m)

theorem readMapInto_checked {m' : OrdMap K V} (h : readMapInto check duplicate m l = .ok m')
    (hm : ∀ k ∈ m.keys, check k = .ok ()) : ∀ k ∈ m'.keys, check k = .ok () := by
  induction l generalizing m with
  | nil =>
    cases h
    exact hm
  | cons e rest ih =>
    unfold readMapInto at h
    split at h
    next => cases h
    next hok =>
      split at h
      next => cases h
      next =>
        refine ih h fun k hk => ?_
        obtain ⟨v, hv⟩ := mem_keys.mp hk
        rw [get?_insert] at hv
        split at hv
        next heq => exact heq ▸ hok
        next => exact hm k (mem_keys.mpr ⟨v, hv⟩)

theorem readMap_checked (h : readMap check duplicate l = .ok m) : ∀ k ∈ m.keys, check k = .ok () :=
  readMapInto_checked h fun _ hk => nomatch hk

end Coppice.Lib
