import Mathlib.Data.List.Forall2

/-!
# Lists member by member

What relates two lists member by member, and what it says about a walk over a list that can fail.

**Input.** A relation of members, or a function that may fail on a member.

**Algorithm.** Induction over the list.

**Results.**
* `exists_forall₂_iff`, `exists_of_forall₂`: related lists and related members.
* `mapM_eq_some_iff`, `mapM_eq_ok_iff`: a walk succeeds if and only if it succeeds at every member, and
  then it gives what it gives there.
* `foldlM_eq_error`, `exists_of_foldlM_append`: a walk with a state fails where a step fails.
* `foldlM_keeps`: what the steps of such a walk keep, the walk keeps.
-/

namespace Montage

variable {α β ε : Type} {R : α → β → Prop} {as : List α} {bs : List β}

/-- A list is related to some list if and only if every member of it is related to something. -/
theorem exists_forall₂_iff : (∃ bs, List.Forall₂ R as bs) ↔ ∀ a ∈ as, ∃ b, R a b := by
  induction as with
  | nil => simp
  | cons a as ih =>
      rw [List.forall_mem_cons, ← ih]
      constructor
      · rintro ⟨_, h⟩
        cases h with
        | cons hfirst hothers => exact ⟨⟨_, hfirst⟩, _, hothers⟩
      · rintro ⟨⟨b, hfirst⟩, bs, hothers⟩
        exact ⟨b :: bs, .cons hfirst hothers⟩

/-- A member of a list is related to a member of a related list. -/
theorem exists_of_forall₂ (h : List.Forall₂ R as bs) {a : α} (ha : a ∈ as) : ∃ b ∈ bs, R a b := by
  induction h with
  | nil => exact absurd ha List.not_mem_nil
  | cons hfirst hothers ih =>
      rcases List.mem_cons.1 ha with rfl | ha
      · exact ⟨_, List.mem_cons_self, hfirst⟩
      · obtain ⟨b, hb, hab⟩ := ih ha
        exact ⟨b, List.mem_cons_of_mem _ hb, hab⟩

theorem forall₂_append_left {as' : List α} (h : List.Forall₂ R (as ++ as') bs) :
    ∃ cs cs', bs = cs ++ cs' ∧ List.Forall₂ R as cs ∧ List.Forall₂ R as' cs' := by
  have h : List.Forall₂ (flip R) bs (as ++ as') := List.Forall₂.flip h
  have hfront := List.forall₂_take_append bs as as' h
  have hback := List.forall₂_drop_append bs as as' h
  exact ⟨_, _, (List.take_append_drop as.length bs).symm, hfront.flip, hback.flip⟩

theorem mapM_eq_some_iff {f : α → Option β} :
    as.mapM f = some bs ↔ List.Forall₂ (fun a b => f a = some b) as bs := by
  induction as generalizing bs with
  | nil => simp [eq_comm]
  | cons a as ih =>
      rw [List.mapM_cons, List.forall₂_cons_left_iff]
      cases ha : f a with
      | none => simp
      | some b => cases has : as.mapM f <;> simp [← ih, has, eq_comm]

theorem mapM_eq_ok_iff {f : α → Except ε β} :
    as.mapM f = .ok bs ↔ List.Forall₂ (fun a b => f a = .ok b) as bs := by
  induction as generalizing bs with
  | nil => simp [eq_comm, pure, Except.pure]
  | cons a as ih =>
      rw [List.mapM_cons, List.forall₂_cons_left_iff]
      cases ha : f a with
      | error e => simp [bind, Except.bind]
      | ok b => cases has : as.mapM f <;> simp [← ih, has, eq_comm, bind, Except.bind, pure, Except.pure]

/-- A walk that fails does so at a member, and the members before it succeed. -/
theorem foldlM_eq_error {f : β → α → Except ε β} {b : β} {e : ε} (h : as.foldlM f b = .error e) :
    ∃ front a back c, as = front ++ a :: back ∧ front.foldlM f b = .ok c ∧ f c a = .error e := by
  induction as generalizing b with
  | nil => cases h
  | cons a as ih =>
      rw [List.foldlM_cons] at h
      cases ha : f b a with
      | error e' =>
          rw [ha] at h
          obtain rfl := Except.error.inj h
          exact ⟨[], a, as, b, rfl, rfl, ha⟩
      | ok b' =>
          rw [ha] at h
          obtain ⟨front, a', back, c, rfl, hfront, hfail⟩ := ih h
          refine ⟨a :: front, a', back, c, rfl, ?_, hfail⟩
          rw [List.foldlM_cons, ha]
          exact hfront

/-- A walk that succeeds does so at every member. -/
theorem exists_of_foldlM_append {f : β → α → Except ε β} {front back : List α} {a : α} {b d : β}
    (h : (front ++ a :: back).foldlM f b = .ok d) :
    ∃ c c', front.foldlM f b = .ok c ∧ f c a = .ok c' := by
  rw [List.foldlM_append] at h
  cases hfront : front.foldlM f b with
  | error e =>
      rw [hfront] at h
      cases h
  | ok c =>
      rw [hfront] at h
      have h : (a :: back).foldlM f c = .ok d := h
      rw [List.foldlM_cons] at h
      cases ha : f c a with
      | error e =>
          rw [ha] at h
          cases h
      | ok c' => exact ⟨c, c', rfl, ha⟩

/-- What every step keeps, with the members that are done, is kept by a walk. -/
theorem foldlM_keeps {f : β → α → Except ε β} {P : List α → β → Prop}
    (hstep : ∀ {done : List α} {a : α} {b c : β}, P done b → f b a = .ok c → P (done ++ [a]) c)
    {done : List α} {b c : β} (hb : P done b) (h : as.foldlM f b = .ok c) : P (done ++ as) c := by
  induction as generalizing done b with
  | nil =>
      obtain rfl := Except.ok.inj h
      rwa [List.append_nil]
  | cons a as ih =>
      rw [List.foldlM_cons] at h
      cases ha : f b a with
      | error e =>
          rw [ha] at h
          cases h
      | ok b' =>
          rw [ha] at h
          rw [List.append_cons]
          exact ih (hstep hb ha) h

end Montage
