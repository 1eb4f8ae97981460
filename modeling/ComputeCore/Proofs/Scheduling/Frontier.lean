import Mathlib.Data.List.Nodup
import ComputeCore.Proofs.Scheduling.JobRun
/-!
# Frontiers

A dispatch has to invoke the kernel in the order of moments, and a moment comes exactly if it is
due: in the first pass over a group every work-item of it, in every later pass those that stood at
a barrier in the pass before. `Frontier` says this of the invocations that have ended, up to the
moment the scheduler has come to. What a barrier promises follows from it: nobody goes on past a
barrier before everybody else of the group has come to it or is finished.
-/

namespace ComputeCore

/-! ## Moments -/

namespace Moment

theorem Before.trans {a b c : Moment} (hab : a.Before b) (hbc : b.Before c) : a.Before c := by
  unfold Before at *; omega

theorem Before.irrefl (a : Moment) : ¬ a.Before a := by
  unfold Before; omega

/-- Nothing lies between a moment and that of the next work-item. -/
theorem before_succ_iff {m : Moment} {group pass index : Nat} :
    m.Before ⟨group, pass, index + 1⟩ ↔ m.Before ⟨group, pass, index⟩ ∨ m = ⟨group, pass, index⟩ := by
  obtain ⟨g, p, i⟩ := m
  simp only [Before, Moment.mk.injEq]
  omega

end Moment

/-! ## What is due -/

/-- The moments at which a dispatch has to invoke the kernel, given what has ended so far. -/
def Due (perGroup totalGroups : Nat) (past : List (Call × Answer)) : Moment → Prop
  | ⟨group, 0, index⟩ => group < totalGroups ∧ index < perGroup
  | ⟨group, pass + 1, index⟩ => ∃ e ∈ past, e.1.moment = ⟨group, pass, index⟩ ∧ e.2.IsBarrier

/-- The frame a work-item comes to a moment with: a fresh one in the first pass, later the one it left
at its last barrier, with the point at which to resume. -/
def Kept (past : List (Call × Answer)) : Moment → Frame → Prop
  | ⟨_, 0, _⟩, frame => frame = {}
  | ⟨group, pass + 1, index⟩, frame => ∃ e ∈ past, e.1.moment = ⟨group, pass, index⟩ ∧
      ∃ resumeAt left, e.2 = .returned (.barrier resumeAt) left ∧
        frame = { left with resume := resumeAt }

/-- What has ended before `front`, a moment the scheduler has come to. -/
structure Frontier (perGroup totalGroups : Nat) (past : List (Call × Answer)) (front : Moment) :
    Prop where
  ordered : past.Pairwise fun a b => a.1.moment.Before b.1.moment
  behind : ∀ e ∈ past, e.1.moment.Before front
  due : ∀ e ∈ past, Due perGroup totalGroups past e.1.moment
  complete : ∀ m : Moment, m.Before front → Due perGroup totalGroups past m →
    ∃ e ∈ past, e.1.moment = m
  going : ∀ e ∈ past, e.2.GoesOn

section Histories
variable {perGroup totalGroups : Nat} {past : List (Call × Answer)} {front : Moment}

theorem due_append {e : Call × Answer} {m : Moment} :
    Due perGroup totalGroups (past ++ [e]) m ↔ Due perGroup totalGroups past m ∨
      (e.2.IsBarrier ∧ m = ⟨e.1.moment.group, e.1.moment.pass + 1, e.1.moment.index⟩) := by
  obtain ⟨group, pass, index⟩ := m
  cases pass with
  | zero => simp [Due]
  | succ pass =>
    simp only [Due, List.mem_append, List.mem_singleton, Moment.mk.injEq, Nat.add_right_cancel_iff]
    constructor
    · rintro ⟨x, hx | rfl, hm, hbar⟩
      · exact .inl ⟨x, hx, hm, hbar⟩
      · exact .inr ⟨hbar, by simp [hm]⟩
    · rintro (⟨x, hx, hm, hbar⟩ | ⟨hbar, rfl, rfl, rfl⟩)
      · exact ⟨x, .inl hx, hm, hbar⟩
      · exact ⟨e, .inr rfl, rfl, hbar⟩

/-- An answer that is not a barrier makes nothing due. -/
theorem due_append_of_not_barrier {e : Call × Answer} (h : ¬ e.2.IsBarrier) {m : Moment} :
    Due perGroup totalGroups (past ++ [e]) m ↔ Due perGroup totalGroups past m := by
  simp [due_append, h]

theorem Kept.append {m : Moment} {frame : Frame} (h : Kept past m frame)
    (more : List (Call × Answer)) : Kept (past ++ more) m frame := by
  obtain ⟨group, pass, index⟩ := m
  cases pass with
  | zero => exact h
  | succ pass =>
    obtain ⟨e, he, hm, hframe⟩ := h
    exact ⟨e, List.mem_append_left _ he, hm, hframe⟩

/-- There is a pass that no invocation of a history has come to. -/
theorem exists_pass_bound (past : List (Call × Answer)) :
    ∃ bound, ∀ e ∈ past, e.1.moment.pass < bound := by
  induction past with
  | nil => exact ⟨0, by simp⟩
  | cons e past ih =>
    obtain ⟨bound, hbound⟩ := ih
    refine ⟨max bound (e.1.moment.pass + 1), fun x hx => ?_⟩
    rcases List.mem_cons.1 hx with rfl | hx
    · omega
    · have := hbound x hx
      omega

namespace Frontier

/-- Only work-items of the index space are ever due. -/
theorem due_bounds (h : Frontier perGroup totalGroups past front) {m : Moment}
    (hdue : Due perGroup totalGroups past m) : m.group < totalGroups ∧ m.index < perGroup := by
  obtain ⟨group, pass, index⟩ := m
  induction pass with
  | zero => exact hdue
  | succ pass ih =>
    obtain ⟨e, he, hm, -⟩ := hdue
    exact ih (hm ▸ h.due e he)

/-- Nothing past the frontier but the next pass over what has come to a barrier is due. -/
theorem not_due_later (h : Frontier perGroup totalGroups past front) {m : Moment} (hpass : 0 < m.pass)
    (hlater : ¬ Moment.Before ⟨m.group, m.pass - 1, m.index⟩ front) :
    ¬ Due perGroup totalGroups past m := by
  obtain ⟨group, pass, index⟩ := m
  obtain ⟨pass, rfl⟩ : ∃ k, pass = k + 1 := ⟨pass - 1, by simp at hpass; omega⟩
  rintro ⟨e, he, hm, -⟩
  exact hlater (by simpa [hm] using h.behind e he)

theorem start : Frontier perGroup totalGroups [] ⟨0, 0, 0⟩ where
  ordered := .nil
  behind := by simp
  due := by simp
  complete m hm _ := by simp [Moment.Before] at hm
  going := by simp

/-- The scheduler may go on to a later moment if nothing up to it is due. -/
theorem skip (h : Frontier perGroup totalGroups past front) {front' : Moment}
    (hle : front.Before front')
    (hnone : ∀ m : Moment, ¬ m.Before front → m.Before front' → ¬ Due perGroup totalGroups past m) :
    Frontier perGroup totalGroups past front' where
  ordered := h.ordered
  behind e he := (h.behind e he).trans hle
  due := h.due
  complete m hm hdue := by
    by_cases hb : m.Before front
    · exact h.complete m hb hdue
    · exact absurd hdue (hnone m hb hm)
  going := h.going

/-- The scheduler may go on to the next work-item once the due invocation of this one has ended. -/
theorem invoke {group pass index : Nat} (h : Frontier perGroup totalGroups past ⟨group, pass, index⟩)
    (hdue : Due perGroup totalGroups past ⟨group, pass, index⟩) {e : Call × Answer}
    (hm : e.1.moment = ⟨group, pass, index⟩) (hgoing : e.2.GoesOn) :
    Frontier perGroup totalGroups (past ++ [e]) ⟨group, pass, index + 1⟩ where
  ordered := by
    refine List.pairwise_append.2 ⟨h.ordered, by simp, fun a ha b hb => ?_⟩
    obtain rfl := List.mem_singleton.1 hb
    exact hm ▸ h.behind a ha
  behind a ha := by
    rcases List.mem_append.1 ha with ha | ha
    · exact Moment.before_succ_iff.2 (.inl (h.behind a ha))
    · obtain rfl := List.mem_singleton.1 ha
      exact Moment.before_succ_iff.2 (.inr hm)
  due a ha := by
    rcases List.mem_append.1 ha with ha | ha
    · exact due_append.2 (.inl (h.due a ha))
    · obtain rfl := List.mem_singleton.1 ha
      exact due_append.2 (.inl (hm ▸ hdue))
  complete m hbefore hm' := by
    rcases Moment.before_succ_iff.1 hbefore with hb | rfl
    · rcases due_append.1 hm' with hd | ⟨-, rfl⟩
      · obtain ⟨a, ha, hma⟩ := h.complete m hb hd
        exact ⟨a, by simp [ha], hma⟩
      · -- What this answer makes due is in the next pass, and so not behind the frontier.
        simp only [hm, Moment.Before] at hb
        omega
    · exact ⟨e, by simp, hm⟩
  going a ha := by
    rcases List.mem_append.1 ha with ha | ha
    · exact h.going a ha
    · obtain rfl := List.mem_singleton.1 ha
      exact hgoing

theorem unique (h : Frontier perGroup totalGroups past front) {a b : Call × Answer} (ha : a ∈ past)
    (hb : b ∈ past) (hm : a.1.moment = b.1.moment) : a = b := by
  have hpair : past.Pairwise fun x y => x.1.moment ≠ y.1.moment := by
    refine h.ordered.imp ?_
    intro x y hxy heq
    exact Moment.Before.irrefl _ (heq ▸ hxy)
  exact List.inj_on_of_nodup_map (List.pairwise_map.2 hpair) ha hb hm

/-! ### What a barrier promises -/

/-- Up to the frontier every work-item of a group has come to its barrier of each pass, or has
finished by then. By induction on the pass: an item at the barrier of one pass is due in the next,
and so has been invoked, and has answered. -/
theorem barrier_or_done (h : Frontier perGroup totalGroups past front) {group pass index : Nat}
    (hgroup : group < totalGroups) (hindex : index < perGroup)
    (hbefore : Moment.Before ⟨group, pass, index⟩ front) :
    (∃ e ∈ past, e.1.moment = ⟨group, pass, index⟩ ∧ e.2.IsBarrier) ∨
      ∃ e ∈ past, e.1.moment.group = group ∧ e.1.moment.pass ≤ pass ∧ e.1.moment.index = index ∧
        e.2.IsDone := by
  have answered : ∀ pass, Moment.Before ⟨group, pass, index⟩ front →
      Due perGroup totalGroups past ⟨group, pass, index⟩ →
      (∃ e ∈ past, e.1.moment = ⟨group, pass, index⟩ ∧ e.2.IsBarrier) ∨
        ∃ e ∈ past, e.1.moment.group = group ∧ e.1.moment.pass ≤ pass ∧ e.1.moment.index = index ∧
          e.2.IsDone := by
    intro pass hb hdue
    obtain ⟨e, he, hm⟩ := h.complete _ hb hdue
    rcases h.going e he with hdone | hbar
    · exact .inr ⟨e, he, by simp [hm], by simp [hm], by simp [hm], hdone⟩
    · exact .inl ⟨e, he, hm, hbar⟩
  induction pass with
  | zero => exact answered 0 hbefore ⟨hgroup, hindex⟩
  | succ pass ih =>
    have hprev : Moment.Before ⟨group, pass, index⟩ front :=
      Moment.Before.trans (by simp [Moment.Before]) hbefore
    rcases ih hprev with hbar | ⟨e, he, hg, hp, hi, hdone⟩
    · exact answered (pass + 1) hbefore hbar
    · exact .inr ⟨e, he, hg, by omega, hi, hdone⟩

/-- Once a work-item is done, no later turn of it is due. By induction on the later pass: it would
have to be due because of a barrier in the pass before. -/
theorem not_due_after_done (h : Frontier perGroup totalGroups past front) {e : Call × Answer}
    (he : e ∈ past) (hdone : e.2.IsDone) {pass : Nat} (hpass : e.1.moment.pass < pass) :
    ¬ Due perGroup totalGroups past ⟨e.1.moment.group, pass, e.1.moment.index⟩ := by
  induction pass with
  | zero => omega
  | succ pass ih =>
    rintro ⟨b, hb, hm, hbar⟩
    by_cases hlast : e.1.moment.pass = pass
    · obtain rfl : e = b := h.unique he hb (by rw [hm, ← hlast])
      obtain ⟨f, hf⟩ := hdone
      obtain ⟨r, f', hf'⟩ := hbar
      simp [hf] at hf'
    · exact ih (by omega) (hm ▸ h.due b hb)

/-- Every work-item of a group the frontier has left behind is done: otherwise it would have come to
a barrier in every pass. -/
theorem group_done (h : Frontier perGroup totalGroups past front) {group index : Nat}
    (hgroup : group < totalGroups) (hindex : index < perGroup)
    (hbefore : ∀ pass, Moment.Before ⟨group, pass, index⟩ front) :
    ∃ e ∈ past, e.1.moment.group = group ∧ e.1.moment.index = index ∧ e.2.IsDone := by
  obtain ⟨bound, hbound⟩ := exists_pass_bound past
  rcases h.barrier_or_done hgroup hindex (hbefore bound) with
    ⟨e, he, hm, -⟩ | ⟨e, he, hg, -, hi, hdone⟩
  · have := hbound e he
    simp [hm] at this
  · exact ⟨e, he, hg, hi, hdone⟩

end Frontier

end Histories

end ComputeCore
