import Mathlib.Data.List.Basic

/-!
# Outcomes of fallible code

Code that returns a result and may also abort is modelled by one monad.  An
{lit}`Outcome` is either a value, an error that the code returns to its caller,
or a panic: an out-of-bounds index, a failed {lit}`expect`, or another abort
that no caller can observe as an ordinary error.

Main results:

- Theorem {lit}`bind_eq_ok`: a sequence succeeds exactly when each part does.
- Theorem {lit}`modifyAt_eq_ok`: an update in place changes one element.
- Theorem {lit}`foldlM_invariant`: what one iteration of a fallible loop
  preserves, a successful loop preserves.
- Theorem {lit}`exists_foldlM`: a loop succeeds when what is required of the elements ahead
  lets the next iteration succeed.
- Theorem {lit}`FailsWith.bind`: the faults of a sequence are those of its parts.
-/

namespace Foundations

/-- Why a computation did not produce a value. -/
inductive Fault (ε : Type) where
  | error (e : ε)
  | panic
deriving DecidableEq

instance instDecidableEqExcept {ε α : Type} [DecidableEq ε] [DecidableEq α] :
    DecidableEq (Except ε α)
  | .ok a, .ok b => decidable_of_iff (a = b) (by simp)
  | .error a, .error b => decidable_of_iff (a = b) (by simp)
  | .ok _, .error _ => isFalse (by simp)
  | .error _, .ok _ => isFalse (by simp)

/-- A computation that returns a value, returns an error, or panics. -/
abbrev Outcome (ε α : Type) := Except (Fault ε) α

namespace Outcome

variable {ε ε' α β σ : Type}

/-- The guard clause {lit}`if c { return Err(e) }`. -/
def rejectIf (c : Prop) [Decidable c] (e : ε) : Outcome ε Unit :=
  if c then .error (.error e) else .ok ()

/-- {lit}`Option::ok_or`. -/
def okOr (x : Option α) (e : ε) : Outcome ε α :=
  match x with
  | some a => .ok a
  | none => .error (.error e)

/-- {lit}`Option::expect`, and indexing, which panics out of bounds. -/
def expect (x : Option α) : Outcome ε α :=
  match x with
  | some a => .ok a
  | none => .error .panic

/-- Convert the returned error and keep a panic a panic. -/
def mapError (f : ε → ε') (x : Outcome ε α) : Outcome ε' α :=
  match x with
  | .ok a => .ok a
  | .error (.error e) => .error (.error (f e))
  | .error .panic => .error .panic

/-- Update one element of a vector in place; an index out of bounds panics. -/
def modifyAt (l : List α) (index : Nat) (f : α → Outcome ε α) : Outcome ε (List α) := do
  let a ← expect l[index]?
  let a' ← f a
  .ok (l.set index a')

/-- {lit}`Vec::insert`, which panics behind the end. -/
def insertAt (l : List α) (index : Nat) (a : α) : Outcome ε (List α) :=
  if index ≤ l.length then .ok (l.insertIdx index a) else .error .panic

/-- A guard lets the computation continue exactly when its condition is false. -/
@[simp]
theorem rejectIf_eq_ok {c : Prop} [Decidable c] {e : ε} {u : Unit} :
    rejectIf c e = .ok u ↔ ¬ c := by
  by_cases h : c <;> simp [rejectIf, h]

@[simp]
theorem okOr_eq_ok {x : Option α} {e : ε} {a : α} :
    okOr x e = .ok a ↔ x = some a := by
  cases x <;> simp [okOr]

@[simp]
theorem expect_eq_ok {x : Option α} {a : α} :
    (expect x : Outcome ε α) = .ok a ↔ x = some a := by
  cases x <;> simp [expect]

@[simp]
theorem expect_some (a : α) : (expect (some a) : Outcome ε α) = .ok a := rfl

@[simp]
theorem mapError_eq_ok {f : ε → ε'} {x : Outcome ε α} {a : α} :
    mapError f x = .ok a ↔ x = .ok a := by
  rcases x with (_ | _) | _ <;> simp [mapError]

/-- A sequence of two computations succeeds exactly when both succeed. -/
theorem bind_eq_ok {x : Outcome ε α} {f : α → Outcome ε β} {b : β} :
    x >>= f = .ok b ↔ ∃ a, x = .ok a ∧ f a = .ok b := by
  cases x with
  | error e => simp [bind, Except.bind]
  | ok a => simp [bind, Except.bind]

@[simp]
theorem ok_bind (a : α) (f : α → Outcome ε β) :
    ((.ok a : Outcome ε α) >>= f) = f a := rfl

@[simp]
theorem pure_eq_ok {a b : α} : (pure a : Outcome ε α) = .ok b ↔ a = b := by
  simp [pure, Except.pure]

/-- An update in place replaces one element and keeps the others. -/
theorem modifyAt_eq_ok {l l' : List α} {index : Nat} {f : α → Outcome ε α} :
    modifyAt l index f = .ok l' ↔
      ∃ xs a ys a', l = xs ++ a :: ys ∧ xs.length = index ∧ f a = .ok a' ∧
        l' = xs ++ a' :: ys := by
  simp only [modifyAt, bind_eq_ok, expect_eq_ok, Except.ok.injEq]
  constructor
  · rintro ⟨a, ha, a', ha', rfl⟩
    rcases List.getElem?_eq_some_iff.mp ha with ⟨hlt, rfl⟩
    refine ⟨l.take index, l[index], l.drop (index + 1), a', ?_, ?_, ha', ?_⟩
    · rw [← List.drop_eq_getElem_cons hlt, List.take_append_drop]
    · rw [List.length_take]
      omega
    · rw [List.set_eq_take_append_cons_drop, if_pos hlt]
  · rintro ⟨xs, a, ys, a', rfl, rfl, ha', rfl⟩
    exact ⟨a, by simp, a', ha', by simp⟩

/-- An update in place keeps the length. -/
theorem length_modifyAt {l l' : List α} {index : Nat} {f : α → Outcome ε α}
    (h : modifyAt l index f = .ok l') : l'.length = l.length := by
  rcases modifyAt_eq_ok.mp h with ⟨xs, a, ys, a', rfl, _, _, rfl⟩
  simp

/-- What every iteration of a loop preserves, a successful loop preserves. -/
theorem foldlM_invariant {f : σ → α → Outcome ε σ} {P : σ → Prop} {l : List α}
    (hstep : ∀ s a s', a ∈ l → P s → f s a = .ok s' → P s')
    {s s' : σ} (hs : P s) (h : l.foldlM f s = .ok s') : P s' := by
  induction l generalizing s with
  | nil =>
      simp only [List.foldlM_nil, pure_eq_ok] at h
      exact h ▸ hs
  | cons a l ih =>
      rw [List.foldlM_cons, bind_eq_ok] at h
      rcases h with ⟨t, ht, hrest⟩
      have hP : P t := hstep s a t (by simp) hs ht
      exact ih (fun s b s' hb => hstep s b s' (by simp [hb])) hP hrest

/-- A loop succeeds when what is required of the elements ahead lets the next iteration succeed
and is required of the rest behind it. -/
theorem exists_foldlM {f : σ → α → Outcome ε σ} {P : List α → σ → Prop}
    (hstep : ∀ a ahead s, P (a :: ahead) s → ∃ s', f s a = .ok s' ∧ P ahead s')
    {l : List α} {s : σ} (hs : P l s) : ∃ s', l.foldlM f s = .ok s' ∧ P [] s' := by
  induction l generalizing s with
  | nil => exact ⟨s, rfl, hs⟩
  | cons a ahead ih =>
      obtain ⟨mid, hmid, hP⟩ := hstep a ahead s hs
      obtain ⟨s', hs', hend⟩ := ih hP
      rw [List.foldlM_cons, hmid, ok_bind]
      exact ⟨s', hs', hend⟩

theorem exists_of_isOk {x : Outcome ε α} (h : x.isOk = true) : ∃ a, x = .ok a := by
  cases x with
  | error e => cases h
  | ok a => exact ⟨a, rfl⟩

/-- A loop that only checks succeeds exactly when every check does. -/
theorem forM_eq_ok {f : α → Outcome ε Unit} {l : List α} {u : Unit} :
    forM l f = .ok u ↔ ∀ a ∈ l, f a = .ok () := by
  induction l with
  | nil => simp
  | cons a l ih =>
      rw [List.forM_cons, bind_eq_ok]
      simp only [List.mem_cons, forall_eq_or_imp]
      constructor
      · rintro ⟨_, ha, hl⟩
        exact ⟨ha, ih.mp hl⟩
      · rintro ⟨ha, hl⟩
        exact ⟨(), ha, ih.mpr hl⟩

/-- What every successful iteration says about its element, a successful loop says about
all elements. -/
theorem foldlM_forall {f : σ → α → Outcome ε σ} {P : α → Prop}
    (hstep : ∀ s a s', f s a = .ok s' → P a) {l : List α} {s s' : σ}
    (h : l.foldlM f s = .ok s') : ∀ a ∈ l, P a := by
  induction l generalizing s with
  | nil => simp
  | cons a l ih =>
      rw [List.foldlM_cons, bind_eq_ok] at h
      rcases h with ⟨t, ht, hrest⟩
      simp only [List.mem_cons, forall_eq_or_imp]
      exact ⟨hstep s a t ht, ih hrest⟩

/-- A mapping loop succeeds when each element is mapped. -/
theorem mapM_eq_ok {f : α → Outcome ε β} {l : List α} {m : List β} :
    l.mapM f = .ok m ↔ List.Forall₂ (fun a b => f a = .ok b) l m := by
  induction l generalizing m with
  | nil =>
      rw [List.mapM_nil, pure_eq_ok]
      constructor
      · rintro rfl
        exact List.Forall₂.nil
      · intro h
        cases h
        rfl
  | cons a l ih =>
      simp only [List.mapM_cons, bind_eq_ok, pure_eq_ok]
      constructor
      · rintro ⟨b, hb, m', hm', rfl⟩
        exact List.Forall₂.cons hb (ih.mp hm')
      · intro h
        cases h with
        | cons hb hm => exact ⟨_, hb, _, ih.mpr hm, rfl⟩

/-- A loop over computations that all succeed. -/
theorem exists_mapM {f : α → Outcome ε β} {l : List α} (h : ∀ a ∈ l, ∃ b, f a = .ok b) :
    ∃ m, l.mapM f = .ok m := by
  induction l with
  | nil => exact ⟨[], mapM_eq_ok.mpr List.Forall₂.nil⟩
  | cons a l ih =>
      rcases h a (by simp) with ⟨b, hb⟩
      rcases ih fun a ha => h a (List.mem_cons_of_mem _ ha) with ⟨m, hm⟩
      exact ⟨b :: m, mapM_eq_ok.mpr (List.Forall₂.cons hb (mapM_eq_ok.mp hm))⟩

/-- Every element of the result comes from one of the computations. -/
theorem exists_of_mem_mapM {f : α → Outcome ε β} {l : List α} {m : List β} (h : l.mapM f = .ok m)
    {b : β} (hb : b ∈ m) : ∃ a ∈ l, f a = .ok b := by
  have hforall := mapM_eq_ok.mp h
  clear h
  induction hforall with
  | nil => cases hb
  | @cons a c l m hac _ ih =>
      rcases List.mem_cons.mp hb with rfl | hb
      · exact ⟨a, by simp, hac⟩
      · rcases ih hb with ⟨a', ha', hab⟩
        exact ⟨a', List.mem_cons_of_mem _ ha', hab⟩

/-! ## Kinds of faults -/

/-- A computation that does not succeed fails with a fault of one kind. -/
def FailsWith (allowed : Fault ε → Prop) (x : Outcome ε α) : Prop :=
  ∀ fault, x = .error fault → allowed fault

variable {allowed : Fault ε → Prop}

theorem failsWith_ok (a : α) : FailsWith allowed (.ok a : Outcome ε α) := by
  intro fault h
  cases h

/-- A sequence fails with faults of one kind when its parts do. -/
theorem FailsWith.bind {x : Outcome ε α} {f : α → Outcome ε β} (hx : FailsWith allowed x)
    (hf : ∀ a, x = .ok a → FailsWith allowed (f a)) : FailsWith allowed (x >>= f) := by
  cases x with
  | error fault =>
      intro fault' h
      cases h
      exact hx fault rfl
  | ok a => exact hf a rfl

/-- A computation that succeeds whenever it is reached. -/
theorem failsWith_of_ok {x : Outcome ε α} {a : α} (h : x = .ok a) : FailsWith allowed x :=
  h ▸ failsWith_ok a

theorem failsWith_mapError {f : ε' → ε} {x : Outcome ε' α} (hpanic : allowed .panic)
    (hf : ∀ e, allowed (.error (f e))) : FailsWith allowed (mapError f x) := by
  intro fault h
  rcases x with (e | _) | a
  · cases h
    exact hf e
  · cases h
    exact hpanic
  · cases h

theorem failsWith_rejectIf {c : Prop} [Decidable c] {e : ε} (he : allowed (.error e)) :
    FailsWith allowed (rejectIf c e) := by
  intro fault h
  unfold rejectIf at h
  split at h
  · cases h
    exact he
  · cases h

/-- A guard whose condition is false never fails. -/
theorem failsWith_rejectIf_of_not {c : Prop} [Decidable c] {e : ε} (h : ¬ c) :
    FailsWith allowed (rejectIf c e) :=
  failsWith_of_ok (a := ()) (rejectIf_eq_ok.mpr h)

theorem failsWith_okOr {x : Option α} {e : ε} (he : allowed (.error e)) :
    FailsWith allowed (okOr x e) := by
  intro fault h
  cases x with
  | none =>
      cases h
      exact he
  | some a => cases h

theorem failsWith_expect {x : Option α} (hpanic : allowed .panic) :
    FailsWith allowed (expect x : Outcome ε α) := by
  intro fault h
  cases x with
  | none =>
      cases h
      exact hpanic
  | some a => cases h

theorem failsWith_expect_of_isSome {x : Option α} (h : x.isSome = true) :
    FailsWith allowed (expect x : Outcome ε α) := by
  rcases Option.isSome_iff_exists.mp h with ⟨a, rfl⟩
  exact failsWith_ok a

/-- An insertion at a position of the list or right behind it never fails. -/
theorem failsWith_insertAt {l : List α} {index : Nat} {a : α} (h : index ≤ l.length) :
    FailsWith allowed (insertAt l index a : Outcome ε (List α)) := by
  rw [insertAt, if_pos h]
  exact failsWith_ok _

/-- An update at a position of the list fails as the function that computes the new element
does. -/
theorem failsWith_modifyAt_of_lt {l : List α} {index : Nat} {f : α → Outcome ε α}
    (h : index < l.length) (hf : ∀ a, FailsWith allowed (f a)) :
    FailsWith allowed (modifyAt l index f) := by
  unfold modifyAt
  refine FailsWith.bind (failsWith_expect_of_isSome (by simp [h])) ?_
  intro a _
  apply (hf a).bind
  intro a' _
  exact failsWith_ok _

/-- An update in place fails as the function that computes the new element does. -/
theorem failsWith_modifyAt {l : List α} {index : Nat} {f : α → Outcome ε α}
    (hpanic : allowed .panic)
    (hf : ∀ a, FailsWith allowed (f a)) : FailsWith allowed (modifyAt l index f) := by
  apply (failsWith_expect hpanic).bind
  intro a _
  apply (hf a).bind
  intro a' _
  exact failsWith_ok _

/-- A loop over checks fails as one of them does. -/
theorem failsWith_forM {f : α → Outcome ε Unit} {l : List α}
    (hf : ∀ a ∈ l, FailsWith allowed (f a)) :
    FailsWith allowed (forM l f) := by
  induction l with
  | nil => exact failsWith_ok ()
  | cons a l ih =>
      rw [List.forM_cons]
      apply (hf a (by simp)).bind
      intro _ _
      exact ih fun b hb => hf b (List.mem_cons_of_mem _ hb)

theorem failsWith_mapM {f : α → Outcome ε β} {l : List α} (hf : ∀ a ∈ l, FailsWith allowed (f a)) :
    FailsWith allowed (l.mapM f) := by
  induction l with
  | nil => exact failsWith_ok []
  | cons a l ih =>
      rw [List.mapM_cons]
      apply (hf a (by simp)).bind
      intro b _
      apply (ih fun c hc => hf c (List.mem_cons_of_mem _ hc)).bind
      intro m _
      exact failsWith_ok _

/-- A loop that keeps an invariant fails as one of its steps does. -/
theorem failsWith_foldlM {f : σ → α → Outcome ε σ} {P : σ → Prop} {l : List α} {s : σ}
    (hkeep : ∀ s a s', a ∈ l → P s → f s a = .ok s' → P s')
    (hf : ∀ s a, a ∈ l → P s → FailsWith allowed (f s a)) (hs : P s) :
    FailsWith allowed (l.foldlM f s) := by
  induction l generalizing s with
  | nil => exact failsWith_ok s
  | cons a l ih =>
      rw [List.foldlM_cons]
      apply (hf s a (by simp) hs).bind
      intro s' hs'
      exact ih (fun s b s' hb => hkeep s b s' (List.mem_cons_of_mem _ hb))
        (fun s b hb => hf s b (List.mem_cons_of_mem _ hb)) (hkeep s a s' (by simp) hs hs')

/-! ## Panics -/

/-- A computation that returns a value or an error. -/
def NeverPanics (x : Outcome ε α) : Prop :=
  FailsWith (· ≠ .panic) x

theorem neverPanics_iff {x : Outcome ε α} :
    NeverPanics x ↔ (∃ a, x = .ok a) ∨ ∃ e, x = .error (.error e) := by
  constructor
  · intro h
    rcases x with (e | _) | a
    · exact Or.inr ⟨e, rfl⟩
    · exact absurd rfl (h .panic rfl)
    · exact Or.inl ⟨a, rfl⟩
  · rintro (⟨a, rfl⟩ | ⟨e, rfl⟩)
    · exact failsWith_ok a
    · intro fault hfault
      cases hfault
      exact fun hpanic => nomatch hpanic

theorem neverPanics_error (e : ε) : NeverPanics (.error (.error e) : Outcome ε α) :=
  neverPanics_iff.mpr (Or.inr ⟨e, rfl⟩)

theorem neverPanics_rejectIf {c : Prop} [Decidable c] {e : ε} : NeverPanics (rejectIf c e) :=
  failsWith_rejectIf fun hpanic => nomatch hpanic

theorem neverPanics_okOr {x : Option α} {e : ε} : NeverPanics (okOr x e) :=
  failsWith_okOr fun hpanic => nomatch hpanic

theorem neverPanics_mapError {f : ε' → ε} {x : Outcome ε' α} (h : NeverPanics x) :
    NeverPanics (mapError f x) := by
  rcases neverPanics_iff.mp h with ⟨a, rfl⟩ | ⟨e, rfl⟩
  · exact failsWith_ok a
  · exact neverPanics_error (f e)

end Outcome

end Foundations
