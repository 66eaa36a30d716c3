import Mathlib.Data.List.Basic

/-!
# Loops that may raise

`foldlM_ok` is the rule for a `for` loop over a list whose body may raise: an invariant relating the
items done so far to the accumulator, kept by every iteration, shows both that the loop raises
nothing and what it computes. `mapM_ok` is the rule for a comprehension.
-/

namespace Lib

theorem bind_eq_ok {α β ε : Type} {x : Except ε α} {f : α → Except ε β} {b : β} :
    x >>= f = .ok b ↔ ∃ a, x = .ok a ∧ f a = .ok b := by
  cases x <;> simp [bind, Except.bind]

theorem bind_eq_error {α β ε : Type} {x : Except ε α} {f : α → Except ε β} {e : ε} :
    x >>= f = .error e ↔ x = .error e ∨ ∃ a, x = .ok a ∧ f a = .error e := by
  cases x <;> simp [bind, Except.bind]

theorem foldlM_ok {α β ε : Type} {f : β → α → Except ε β} {l : List α} (I : List α → β → Prop)
    (hstep : ∀ done a rest b, l = done ++ a :: rest → I done b →
      ∃ b', f b a = .ok b' ∧ I (done ++ [a]) b')
    {b : β} (h0 : I [] b) : ∃ b', l.foldlM f b = .ok b' ∧ I l b' := by
  suffices h : ∀ rest done b, l = done ++ rest → I done b →
      ∃ b', rest.foldlM f b = .ok b' ∧ I l b' from h l [] b rfl h0
  intro rest
  induction rest with
  | nil => rintro done b rfl hI; exact ⟨b, rfl, by simpa using hI⟩
  | cons a rest ih =>
    intro done b hl hI
    obtain ⟨b', hf, hI'⟩ := hstep done a rest b hl hI
    obtain ⟨b'', hr, hI''⟩ := ih (done ++ [a]) b' (by simpa using hl) hI'
    exact ⟨b'', by rw [List.foldlM_cons, hf]; exact hr, hI''⟩

/-- What every iteration keeps, a loop that ends well keeps. -/
theorem foldlM_inv {α β ε : Type} {f : β → α → Except ε β} (I : β → Prop) (hstep : ∀ b a b', I b → f b a = .ok b' → I b') :
    ∀ {l : List α} {b r : β}, I b → l.foldlM f b = .ok r → I r
  | [], b, r, hb, h => by
    obtain rfl := Except.ok.inj h
    exact hb
  | a :: l, b, r, hb, h => by
    rw [List.foldlM_cons] at h
    cases ha : f b a with
    | error e =>
      rw [ha] at h
      cases h
    | ok b' =>
      rw [ha] at h
      exact foldlM_inv I hstep (hstep b a b' hb ha) h

/-- A comprehension whose items raise nothing. -/
theorem mapM_ok {α β ε : Type} {f : α → Except ε β} {g : α → β} : ∀ {l : List α}, (∀ a ∈ l, f a = .ok (g a)) →
    l.mapM f = .ok (l.map g)
  | [], _ => rfl
  | a :: l, h => by
    rw [List.mapM_cons, h a List.mem_cons_self, mapM_ok fun b hb => h b (List.mem_cons_of_mem a hb)]
    rfl

/-- The items that a comprehension returns are those of its body. -/
theorem mapM_ok_iff {α β ε : Type} {f : α → Except ε β} {g : α → β} : ∀ {l : List α},
    l.mapM f = .ok (l.map g) ↔ ∀ a ∈ l, f a = .ok (g a)
  | [] => by simp [pure, Except.pure]
  | a :: l => by
    refine ⟨fun h => ?_, mapM_ok⟩
    rw [List.mapM_cons] at h
    obtain ⟨b, hf, h⟩ := bind_eq_ok.1 h
    obtain ⟨bs, hl, h⟩ := bind_eq_ok.1 h
    obtain ⟨rfl, rfl⟩ := List.cons.inj (Except.ok.inj h)
    exact List.forall_mem_cons.2 ⟨hf, mapM_ok_iff.1 hl⟩

/-- A comprehension raises what its body raises for one of the items. -/
theorem exists_of_mapM_error {α β ε : Type} {f : α → Except ε β} {e : ε} : ∀ {l : List α}, l.mapM f = .error e →
    ∃ a ∈ l, f a = .error e
  | [], h => by cases h
  | a :: l, h => by
    rw [List.mapM_cons] at h
    rcases bind_eq_error.1 h with hf | ⟨b, -, h⟩
    · exact ⟨a, List.mem_cons_self, hf⟩
    · rcases bind_eq_error.1 h with hl | ⟨bs, -, h⟩
      · obtain ⟨a', ha', hf⟩ := exists_of_mapM_error hl
        exact ⟨a', List.mem_cons_of_mem a ha', hf⟩
      · cases h

/-- The items that a body returns, if it does. -/
def okItems {β ε : Type} : Except ε (List β) → List β
  | .ok b => b
  | .error _ => []

/-- A comprehension whose items are lists, and what it returns put together. -/
theorem mapM_flatten_ok_iff {α β ε : Type} {f : α → Except ε (List β)} : ∀ {l : List α} {r : List β},
    (l.mapM f).map List.flatten = .ok r ↔ (∀ a ∈ l, f a = .ok (okItems (f a))) ∧ l.flatMap (fun a => okItems (f a)) = r
  | [], r => by simp [pure, Except.pure, Except.map, eq_comm]
  | a :: l, r => by
    constructor
    · intro h
      rw [List.mapM_cons] at h
      cases hf : f a with
      | error e =>
        rw [hf] at h
        cases h
      | ok b =>
        cases hl : l.mapM f with
        | error e =>
          rw [hf, hl] at h
          cases h
        | ok bs =>
          rw [hf, hl] at h
          obtain rfl := Except.ok.inj h
          obtain ⟨hall, hflat⟩ := mapM_flatten_ok_iff.1 (by rw [hl]; rfl : (l.mapM f).map List.flatten = .ok bs.flatten)
          refine ⟨?_, ?_⟩
          · rw [List.forall_mem_cons]
            exact ⟨by rw [hf]; rfl, hall⟩
          · rw [List.flatMap_cons, hflat, hf]
            rfl
    · rintro ⟨hall, rfl⟩
      rw [mapM_ok hall, List.flatMap_def]
      rfl

theorem length_flatMap_le {α β : Type} (e x : α → List β) : ∀ l : List α,
    (l.flatMap e).length ≤ (l.flatMap fun a => e a ++ x a).length
  | [] => Nat.le_refl 0
  | a :: l => by
    have ih := length_flatMap_le e x l
    simp only [List.flatMap_cons, List.length_append]
    omega

/-- Parts that are no more than they are to be. -/
theorem eq_nil_of_flatMap_eq {α β : Type} {e x : α → List β} : ∀ {l : List α},
    l.flatMap (fun a => e a ++ x a) = l.flatMap e → ∀ a ∈ l, x a = []
  | [], _, _, ha => absurd ha List.not_mem_nil
  | a :: l, h, b, hb => by
    have hle := length_flatMap_le e x l
    rw [List.flatMap_cons, List.flatMap_cons, List.append_assoc] at h
    have htail := List.append_cancel_left h
    have hlen := congrArg List.length htail
    rw [List.length_append] at hlen
    have hnil : x a = [] := List.eq_nil_of_length_eq_zero (by omega)
    rw [hnil, List.nil_append] at htail
    rcases List.mem_cons.1 hb with rfl | hb
    · exact hnil
    · exact eq_nil_of_flatMap_eq htail b hb

/-- A loop that appends what its body returns is a comprehension. -/
theorem foldlM_append {α β γ ε : Type} {f : α → Except ε β} {step : List β × γ → α → Except ε (List β × γ)} {c : γ} :
    ∀ {l : List α}, (∀ a ∈ l, ∀ done, step (done, c) a = (f a).map fun b => (done ++ [b], c)) → ∀ done,
    l.foldlM step (done, c) = (l.mapM f).map fun bs => (done ++ bs, c)
  | [], _, done => by simp [pure, Except.pure, Except.map]
  | a :: l, h, done => by
    have ih := @foldlM_append α β γ ε f step c l fun b hb => h b (List.mem_cons_of_mem a hb)
    rw [List.foldlM_cons, List.mapM_cons, h a List.mem_cons_self]
    cases f a with
    | error e => rfl
    | ok b =>
      change l.foldlM step (done ++ [b], c) = _
      rw [ih]
      cases l.mapM f with
      | error e => rfl
      | ok bs => simp [Except.map, bind, Except.bind, pure, Except.pure]

/-- What is listed for an item. -/
theorem exists_of_forall₂ {α β : Type} {R : α → β → Prop} {l : List α} {l' : List β} (h : List.Forall₂ R l l') {a : α}
    (ha : a ∈ l) : ∃ b ∈ l', R a b := by
  induction h with
  | nil => cases ha
  | cons hab _ ih =>
    rcases List.mem_cons.1 ha with rfl | ha
    · exact ⟨_, List.mem_cons_self, hab⟩
    · obtain ⟨b, hb, hr⟩ := ih ha
      exact ⟨b, List.mem_cons_of_mem _ hb, hr⟩

end Lib
