import Mathlib

/-!
# Event traces

The part of a trace since an event of some kind last happened: a component that starts over at
such an event is described by the trace since then. And what holds of every event at the moment it
happens, that is, together with the events before it.
-/

namespace Rsurl.Library.Trace

variable {ε : Type*}

/-- The events after the last one that satisfies `p`; all of them if none does. -/
def since (p : ε → Bool) (trace : List ε) : List ε :=
  (trace.reverse.takeWhile fun e => !p e).reverse

@[simp] theorem since_nil (p : ε → Bool) : since p [] = [] := rfl

/-- Events of other kinds are added at the end. -/
theorem since_append {p : ε → Bool} {trace more : List ε} (h : ∀ e ∈ more, p e = false) :
    since p (trace ++ more) = since p trace ++ more := by
  have hall : ∀ e ∈ more.reverse, (!p e) = true := by
    intro e he
    simp [h e (List.mem_reverse.mp he)]
  unfold since
  rw [List.reverse_append, List.takeWhile_append_of_pos hall, List.reverse_append,
    List.reverse_reverse]

/-- The event itself starts the trace over. -/
theorem since_append_self {p : ε → Bool} {e : ε} (h : p e = true) (trace : List ε) :
    since p (trace ++ [e]) = [] := by
  simp [since, h]

theorem since_append_cons {p : ε → Bool} {e : ε} (h : p e = true) {trace more : List ε}
    (hmore : ∀ e' ∈ more, p e' = false) : since p (trace ++ e :: more) = more := by
  have hsplit : trace ++ e :: more = (trace ++ [e]) ++ more := by simp
  rw [hsplit, since_append hmore, since_append_self h, List.nil_append]

/-- Every event satisfies `P` together with the events before it. -/
def Each (P : List ε → ε → Prop) (trace : List ε) : Prop :=
  ∀ before e after, trace = before ++ e :: after → P before e

theorem each_nil (P : List ε → ε → Prop) : Each P [] := by
  intro before e after h
  simp at h

theorem each_concat {P : List ε → ε → Prop} {trace : List ε} {e : ε} :
    Each P (trace ++ [e]) ↔ Each P trace ∧ P trace e := by
  refine ⟨fun h => ⟨fun before x after heq => ?_, h trace e [] rfl⟩, fun ⟨h, he⟩ => ?_⟩
  · exact h before x (after ++ [e]) (by simp [heq])
  · intro before x after heq
    obtain rfl | ⟨more, y, rfl⟩ := List.eq_nil_or_concat' after
    · obtain ⟨rfl, hlast⟩ := List.append_inj' heq rfl
      rwa [← (List.cons.inj hlast).1]
    · rw [← List.cons_append, ← List.append_assoc] at heq
      obtain ⟨rfl, -⟩ := List.append_inj' heq rfl
      exact h before x more rfl

end Rsurl.Library.Trace

/-!
## Changes of a value

A value is set again and again, and someone is told whenever it differs from what it was.
-/

namespace Rsurl.Library.Changes

variable {α : Type*} {cur : α} {vs : List α}

/-- The value after all of them. -/
def lastOf (cur : α) (vs : List α) : α := vs.getLast?.getD cur

@[simp] theorem lastOf_nil (cur : α) : lastOf cur [] = cur := rfl

@[simp] theorem lastOf_cons (cur v : α) (vs : List α) : lastOf cur (v :: vs) = lastOf v vs := by
  cases vs with
  | nil => rfl
  | cons w vs =>
    rw [lastOf, lastOf, List.getLast?_cons_cons, List.getLast?_eq_some_getLast (List.cons_ne_nil w vs)]
    rfl

theorem lastOf_congr (cur' : α) (h : vs ≠ []) : lastOf cur vs = lastOf cur' vs := by
  rw [lastOf, lastOf, List.getLast?_eq_some_getLast h, Option.getD_some, Option.getD_some]

theorem lastOf_mem (h : vs ≠ []) : lastOf cur vs ∈ vs := by
  rw [lastOf, List.getLast?_eq_some_getLast h, Option.getD_some]
  exact List.getLast_mem h

variable [DecidableEq α]

/-- The values that differ from the one before them, the first being compared with `cur`. -/
def changes (cur : α) : List α → List α
  | [] => []
  | v :: vs => if v = cur then changes cur vs else v :: changes v vs

theorem lastOf_changes (cur : α) (vs : List α) : lastOf cur (changes cur vs) = lastOf cur vs := by
  induction vs generalizing cur with
  | nil => rfl
  | cons v vs ih =>
    rw [changes]
    split
    · rename_i heq
      rw [ih, lastOf_cons, heq]
    · rw [lastOf_cons, lastOf_cons, ih]

theorem changes_ne_nil (h : lastOf cur vs ≠ cur) : changes cur vs ≠ [] := by
  intro hnil
  have hlast := lastOf_changes cur vs
  rw [hnil] at hlast
  exact h hlast.symm

end Rsurl.Library.Changes
