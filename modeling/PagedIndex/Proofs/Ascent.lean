import Mathlib
import PagedIndex.Ascent
import PagedIndex.Failure

/-!
# Invariants of ascents

A loop that keeps an invariant from one number to the next comes to its end with it.
-/

namespace PagedIndex

theorem bind_of_ok {α β : Type} {first : Outcome α} {value : α} (rest : α → Outcome β)
    (done : first = .ok value) : (first >>= rest) = rest value := by
  rw [done]
  rfl

theorem ok_of_bind {α β : Type} {first : Outcome α} {rest : α → Outcome β} {answer : β}
    (done : (first >>= rest) = .ok answer) : ∃ value, first = .ok value ∧ rest value = .ok answer := by
  cases first with
  | ok value => exact ⟨value, rfl, done⟩
  | error failure => cases done

theorem foldUp_ok {α : Type} {step : Nat → α → Outcome α} (Inv : Nat → α → Prop) {count start : Nat} {value : α}
    (first : Inv start value)
    (each : ∀ i value, start ≤ i → i < start + count → Inv i value →
      ∃ next, step i value = .ok next ∧ Inv (i + 1) next) :
    ∃ last, foldUp step count start value = .ok last ∧ Inv (start + count) last := by
  induction count generalizing start value with
  | zero => exact ⟨value, rfl, first⟩
  | succ count ih =>
    obtain ⟨next, done, kept⟩ := each start value (Nat.le_refl _) (by omega) first
    obtain ⟨last, rest, ends⟩ := ih kept fun i value above small =>
      each i value (by omega) (by omega)
    refine ⟨last, ?_, by rwa [show start + (count + 1) = start + 1 + count by omega]⟩
    rw [foldUp, bind_of_ok _ done, rest]

/-- What every step does to its value, the whole ascent does to the first one. -/
theorem foldUp_related {α : Type} {step : Nat → α → Outcome α} {Related : α → α → Prop}
    (refl : ∀ value, Related value value)
    (trans : ∀ {first middle last}, Related first middle → Related middle last → Related first last)
    {count start : Nat} {value last : α}
    (each : ∀ i value next, start ≤ i → i < start + count → step i value = .ok next → Related value next)
    (done : foldUp step count start value = .ok last) : Related value last := by
  induction count generalizing start value with
  | zero =>
    cases done
    exact refl _
  | succ count ih =>
    rw [foldUp] at done
    obtain ⟨next, first, rest⟩ := ok_of_bind done
    apply trans (each start value next (Nat.le_refl _) (by omega) first)
    apply ih _ rest
    intro i value next above small
    exact each i value next (by omega) (by omega)

theorem allUp_ok {test : Nat → Outcome Bool} (answer : Nat → Bool) {count start : Nat}
    (each : ∀ i, start ≤ i → i < start + count → test i = .ok (answer i)) :
    ∃ all, allUp test count start = .ok all ∧
      (all = true ↔ ∀ i, start ≤ i → i < start + count → answer i = true) := by
  induction count generalizing start with
  | zero => exact ⟨true, rfl, by simp; omega⟩
  | succ count ih =>
    rw [allUp, bind_of_ok _ (each start (Nat.le_refl _) (by omega))]
    cases here : answer start with
    | false =>
      refine ⟨false, rfl, by simp, fun all => ?_⟩
      rw [all start (Nat.le_refl _) (by omega)] at here
      cases here
    | true =>
      obtain ⟨all, done, holds⟩ := @ih (start + 1) fun i above small => each i (by omega) (by omega)
      refine ⟨all, done, holds.trans ⟨fun rest i above small => ?_, fun whole i above small => ?_⟩⟩
      · rcases Nat.eq_or_lt_of_le above with rfl | later
        · exact here
        · exact rest i later (by omega)
      · exact whole i (by omega) (by omega)

/-! ### Answers or errors -/

/-- An answer with some property, or an error for which there is a reason; nothing is violated. -/
inductive Settles {α : Type} (refusal : Error → Prop) (holds : α → Prop) : Outcome α → Prop where
  | ok {value : α} (right : holds value) : Settles refusal holds (.ok value)
  | error {error : Error} (reason : refusal error) : Settles refusal holds (.error (.error error))

section Settles

variable {α β : Type} {refusal reason : Error → Prop} {holds weaker : α → Prop} {ends : β → Prop} {outcome : Outcome α}

theorem Settles.mono (settles : Settles refusal holds outcome) (why : ∀ error, refusal error → reason error)
    (right : ∀ value, holds value → weaker value) : Settles reason weaker outcome := by
  cases settles with
  | ok holds => exact .ok (right _ holds)
  | error refused => exact .error (why _ refused)

theorem Settles.bind {rest : α → Outcome β} (first : Settles refusal holds outcome)
    (second : ∀ value, holds value → Settles refusal ends (rest value)) : Settles refusal ends (outcome >>= rest) := by
  cases first with
  | ok right => exact second _ right
  | error refused => exact .error refused

theorem Settles.foldUp {step : Nat → α → Outcome α} (Inv : Nat → α → Prop) {count start : Nat} {value : α}
    (first : Inv start value)
    (each : ∀ i value, start ≤ i → i < start + count → Inv i value → Settles refusal (Inv (i + 1)) (step i value)) :
    Settles refusal (Inv (start + count)) (foldUp step count start value) := by
  induction count generalizing start value with
  | zero => exact .ok first
  | succ count ih =>
    refine (each start value (Nat.le_refl _) (by omega) first).bind fun next kept => ?_
    rw [show start + (count + 1) = start + 1 + count by omega]
    exact ih kept fun i value above small => each i value (by omega) (by omega)

theorem Settles.forM {items : List α} {check : α → Outcome Unit}
    (each : ∀ item ∈ items, Settles refusal (fun _ => holds item) (check item)) :
    Settles refusal (fun _ => ∀ item ∈ items, holds item) (items.forM check) := by
  induction items with
  | nil => exact .ok (List.forall_mem_nil _)
  | cons first rest ih =>
    refine Settles.bind (each first List.mem_cons_self) fun _ here => ?_
    refine (ih fun item member => each item (List.mem_cons_of_mem _ member)).mono (fun _ => id) fun _ later => ?_
    exact List.forall_mem_cons.mpr ⟨here, later⟩

end Settles

end PagedIndex
