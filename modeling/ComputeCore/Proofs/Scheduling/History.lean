import ComputeCore.Proofs.Scheduling.Host
/-!
# What a history says

The history of a host grows at its end. What it says of one command is whether that was carried out,
whether its status was recorded before anybody could notice, and which status stands, that is, was
recorded and not asked for since (`standing_eq_some`). If every question was answered with what stood,
a status that was recorded once is taken once at most (`taken_le_recorded`).
-/

namespace ComputeCore

namespace Happening

/-- The command this is the end of, or the record of its status. -/
def ended? : Happening → Option CommandId
  | .finished command _ | .recorded command _ => some command
  | _ => none

/-- The command whose status this records. -/
def recorded? : Happening → Option CommandId
  | .recorded command _ => some command
  | _ => none

/-- The command whose status this takes. -/
def taken? : Happening → Option CommandId
  | .asked command (some _) => some command
  | _ => none

/-- The status that stands for a command after this, if `before` stood. -/
def standing (command : CommandId) (before : Option Status) : Happening → Option Status
  | .recorded other status => if other = command then some status else before
  | .asked other _ => if other = command then none else before
  | _ => before

end Happening

namespace History

/-- What stands for a command: the status that was recorded last, if nobody has asked since. -/
def standing (log : List Happening) (command : CommandId) : Option Status :=
  log.foldl (Happening.standing command) none

/-- Nothing says that the command is over. -/
def Untold (log : List Happening) (command : CommandId) : Prop :=
  ∀ happening ∈ log, happening.ended? ≠ some command

/-- The command is over, and if it ended with a status this is recorded. -/
def Settled (log : List Happening) (command : CommandId) : Prop :=
  ∃ ending, .finished command ending ∈ log ∧
    ∀ status, ending = .exit status → .recorded command status ∈ log

/-- Each command ends once, and only the status it ended with is recorded, once. -/
structure Sound (log : List Happening) : Prop where
  single : ∀ command ending other, .finished command ending ∈ log → .finished command other ∈ log →
    ending = other
  backed : ∀ command status, .recorded command status ∈ log → .finished command (.exit status) ∈ log
  once : (log.filterMap Happening.recorded?).Nodup

/-- Since the command was accepted, a wait for its event has come back. -/
def Waited (log : List Happening) (command : CommandId) (event : Event) : Prop :=
  ∃ before after, log = before ++ .accepted command event :: after ∧ .returned event ∈ after

/-- Whatever happened stands in this relation to what had happened before. -/
def Throughout (p : List Happening → Happening → Prop) (log : List Happening) : Prop :=
  ∀ before happening after, log = before ++ happening :: after → p before happening

/-- Whoever asks for a status is given what stands. -/
def Answered (before : List Happening) (happening : Happening) : Prop :=
  ∀ command answer, happening = .asked command answer → answer = standing before command

/-- Whoever has waited for an event of a command finds the command settled. -/
def Timely (before : List Happening) (happening : Happening) : Prop :=
  ∀ command event, happening = .returned event → .accepted command event ∈ before →
    Settled before command

section Logs
variable {log more : List Happening} {command : CommandId} {happening : Happening} {event : Event}
  {status : Status}

/-! ## Longer histories -/

/-- What is in a longer history is its last happening, or was there before. -/
theorem split_last {last : Happening} {before after : List Happening}
    (h : log ++ [last] = before ++ happening :: after) :
    (log = before ∧ last = happening ∧ after = []) ∨
      ∃ earlier, after = earlier ++ [last] ∧ log = before ++ happening :: earlier := by
  rcases List.eq_nil_or_concat after with rfl | ⟨earlier, other, rfl⟩
  · obtain ⟨hlog, hlast⟩ := List.append_inj' h rfl
    exact .inl ⟨hlog, List.singleton_inj.1 hlast, rfl⟩
  · rw [List.concat_eq_append] at h ⊢
    rw [← List.cons_append, ← List.append_assoc] at h
    obtain ⟨hlog, hlast⟩ := List.append_inj' h rfl
    exact .inr ⟨earlier, by rw [List.singleton_inj.1 hlast], hlog⟩

theorem throughout_nil (p : List Happening → Happening → Prop) : Throughout p [] := by
  intro before happening after h
  simp at h

theorem Throughout.append {p : List Happening → Happening → Prop} (h : Throughout p log)
    (more : Option Happening) (hnew : ∀ happening ∈ more, p log happening) :
    Throughout p (log ++ more.toList) := by
  intro before happening after heq
  cases more with
  | none => exact h before happening after (by simpa using heq)
  | some last =>
    obtain ⟨rfl, rfl, -⟩ | ⟨earlier, -, hlog⟩ := split_last heq
    · exact hnew last rfl
    · exact h before happening earlier hlog

theorem Throughout.init {p : List Happening → Happening → Prop} (h : Throughout p (log ++ more)) :
    Throughout p log :=
  fun before happening after heq => h before happening (after ++ more) (by simp [heq])

theorem Untold.append (h : Untold log command) (hmore : Untold more command) :
    Untold (log ++ more) command :=
  fun happening hmem => (List.mem_append.1 hmem).elim (h happening) (hmore happening)

theorem Settled.append (h : Settled log command) (more : List Happening) :
    Settled (log ++ more) command := by
  obtain ⟨ending, hfinished, hrecorded⟩ := h
  exact ⟨ending, List.mem_append_left _ hfinished, fun status hstatus =>
    List.mem_append_left _ (hrecorded status hstatus)⟩

theorem Waited.accepted (h : Waited log command event) : .accepted command event ∈ log := by
  obtain ⟨before, after, rfl, -⟩ := h
  simp

theorem Waited.of_append (more : Option Happening) (h : Waited (log ++ more.toList) command event) :
    Waited log command event ∨ (more = some (.returned event) ∧ .accepted command event ∈ log) := by
  obtain ⟨before, after, heq, hmem⟩ := h
  cases more with
  | none => exact .inl ⟨before, after, by simpa using heq, hmem⟩
  | some last =>
    obtain ⟨-, -, rfl⟩ | ⟨earlier, rfl, rfl⟩ := split_last heq
    · exact absurd hmem List.not_mem_nil
    · rcases List.mem_append.1 hmem with hold | hnew
      · exact .inl ⟨before, earlier, rfl, hold⟩
      · exact .inr ⟨by rw [List.mem_singleton.1 hnew], by simp⟩

theorem standing_append (log more : List Happening) (command : CommandId) :
    standing (log ++ more) command = more.foldl (Happening.standing command) (standing log command) :=
  List.foldl_append ..

theorem mem_of_quiet (hmore : ∀ happening ∈ more, happening.ended? = none)
    (hended : happening.ended? ≠ none) (h : happening ∈ log ++ more) : happening ∈ log :=
  (List.mem_append.1 h).resolve_right fun hmem => hended (hmore happening hmem)

theorem Sound.quiet (h : Sound log) (hmore : ∀ happening ∈ more, happening.ended? = none) :
    Sound (log ++ more) := by
  refine ⟨fun command ending other hending hother => ?_, fun command status hrecorded => ?_, ?_⟩
  · exact h.single command ending other (mem_of_quiet hmore (by simp [Happening.ended?]) hending)
      (mem_of_quiet hmore (by simp [Happening.ended?]) hother)
  · have hbefore := mem_of_quiet hmore (by simp [Happening.ended?]) hrecorded
    exact List.mem_append_left _ (h.backed command status hbefore)
  · have hnone : more.filterMap Happening.recorded? = [] := by
      refine List.filterMap_eq_nil_iff.2 fun happening hmem => ?_
      have hquiet := hmore happening hmem
      cases happening <;> simp_all [Happening.ended?, Happening.recorded?]
    rw [List.filterMap_append, hnone, List.append_nil]
    exact h.once

theorem Sound.finished (h : Sound log) (huntold : Untold log command) (ending : Ending) :
    Sound (log ++ [.finished command ending]) := by
  have hnew : ∀ other, .finished command other ∉ log := fun other hmem => huntold _ hmem rfl
  refine ⟨fun other first second hfirst hsecond => ?_, fun other status hrecorded => ?_, ?_⟩
  · simp only [List.mem_append, List.mem_singleton, Happening.finished.injEq] at hfirst hsecond
    obtain hfirst | ⟨rfl, rfl⟩ := hfirst <;> obtain hsecond | ⟨heq, rfl⟩ := hsecond
    · exact h.single other first second hfirst hsecond
    · exact absurd (heq ▸ hfirst) (hnew first)
    · exact absurd hsecond (hnew second)
    · rfl
  · exact List.mem_append_left _ (h.backed other status (by simpa using hrecorded))
  · rw [List.filterMap_append, List.filterMap_cons]
    simpa [Happening.recorded?] using h.once

theorem Sound.recorded (h : Sound log) (hfinished : .finished command (.exit status) ∈ log)
    (hfirst : ∀ status, .recorded command status ∉ log) :
    Sound (log ++ [.recorded command status]) := by
  refine ⟨fun other first second hfirst hsecond => ?_, fun other newer hrecorded => ?_, ?_⟩
  · exact h.single other first second (by simpa using hfirst) (by simpa using hsecond)
  · simp only [List.mem_append, List.mem_singleton, Happening.recorded.injEq] at hrecorded
    obtain hold | ⟨rfl, rfl⟩ := hrecorded
    · exact List.mem_append_left _ (h.backed other newer hold)
    · exact List.mem_append_left _ hfinished
  · rw [List.filterMap_append]
    refine List.nodup_append.2
      ⟨h.once, by simp [Happening.recorded?], fun other hother newer hnewer => ?_⟩
    obtain rfl : newer = command := by simpa [Happening.recorded?] using hnewer
    obtain ⟨happening, hmem, heq⟩ := List.mem_filterMap.1 hother
    rintro rfl
    cases happening <;> simp [Happening.recorded?] at heq
    exact hfirst _ (heq ▸ hmem)

theorem Sound.untold (h : Sound log) (hfinished : ∀ ending, .finished command ending ∉ log) :
    Untold log command := by
  intro happening hmem hended
  cases happening <;> simp [Happening.ended?] at hended
  · exact hfinished _ (hended ▸ hmem)
  · exact hfinished _ (h.backed _ _ (hended ▸ hmem))

theorem Sound.recorded_once {before after : List Happening}
    (h : Sound (before ++ .recorded command status :: after)) (other : Status) :
    .recorded command other ∉ after := by
  have honce := h.once
  rw [List.filterMap_append, List.filterMap_cons] at honce
  have hnew := (List.nodup_cons.1 (List.nodup_append.1 honce).2.1).1
  exact fun hmem => hnew (List.mem_filterMap.2 ⟨_, hmem, rfl⟩)

/-! ## What stands -/

/-- A status stands that was recorded and not asked for since. -/
theorem standing_eq_some (h : standing log command = some status) :
    ∃ before after, log = before ++ .recorded command status :: after ∧
      ∀ answer, .asked command answer ∉ after := by
  induction log using List.reverseRecOn with
  | nil => simp [standing] at h
  | append_singleton log last ih =>
    rw [standing_append, List.foldl_cons, List.foldl_nil] at h
    -- What the last happening has nothing to do with stood before it.
    have hearlier : standing log command = some status → (∀ answer, last ≠ .asked command answer) →
        ∃ before after, log ++ [last] = before ++ .recorded command status :: after ∧
          ∀ answer, .asked command answer ∉ after := by
      intro hstood hlast
      obtain ⟨before, after, rfl, hasked⟩ := ih hstood
      refine ⟨before, after ++ [last], by simp, fun answer hmem => ?_⟩
      rcases List.mem_append.1 hmem with hold | hnew
      · exact hasked answer hold
      · exact hlast answer (List.mem_singleton.1 hnew).symm
    cases last with
    | recorded other newer =>
      simp only [Happening.standing] at h
      split at h
      · next heq =>
        obtain rfl := heq
        obtain rfl := Option.some.inj h
        exact ⟨log, [], rfl, by simp⟩
      · exact hearlier h (by simp)
    | asked other answer =>
      simp only [Happening.standing] at h
      split at h
      · cases h
      · next hne => exact hearlier h (by simp [hne])
    | _ => exact hearlier h (by simp)

/-- What was recorded stands as long as nobody asks and nothing else is recorded. -/
theorem standing_of_recorded {before after : List Happening}
    (honce : ∀ other, .recorded command other ∉ after)
    (hasked : ∀ answer, .asked command answer ∉ after) :
    standing (before ++ .recorded command status :: after) command = some status := by
  induction after using List.reverseRecOn with
  | nil => simp [standing_append, Happening.standing]
  | append_singleton after last ih =>
    have ih := ih (fun other hmem => honce other (List.mem_append_left _ hmem))
      fun answer hmem => hasked answer (List.mem_append_left _ hmem)
    rw [← List.cons_append, ← List.append_assoc, standing_append, ih]
    cases last with
    | recorded other newer =>
      have hne : other ≠ command := by
        rintro rfl
        exact honce newer (by simp)
      simp [Happening.standing, hne]
    | asked other answer =>
      have hne : other ≠ command := by
        rintro rfl
        exact hasked answer (by simp)
      simp [Happening.standing, hne]
    | accepted | finished | returned => rfl

theorem standing_eq_none (h : ∀ status, .recorded command status ∉ log) :
    standing log command = none := by
  cases hstanding : standing log command with
  | none => rfl
  | some status =>
    obtain ⟨before, after, rfl, -⟩ := standing_eq_some hstanding
    exact absurd (by simp) (h status)

/-- Nobody is given a status that was not recorded. -/
theorem recorded_of_asked (h : Throughout Answered log) (hasked : .asked command (some status) ∈ log) :
    .recorded command status ∈ log := by
  obtain ⟨before, after, rfl⟩ := List.append_of_mem hasked
  have hanswer := h before _ after rfl command (some status) rfl
  obtain ⟨earlier, later, rfl, -⟩ := standing_eq_some hanswer.symm
  simp

/-- If every question was answered with what stood, no status was taken that was not recorded. -/
theorem taken_le_recorded (h : Throughout Answered log) (command : CommandId) :
    (log.filterMap Happening.taken?).count command + (standing log command).toList.length ≤
      (log.filterMap Happening.recorded?).count command := by
  induction log using List.reverseRecOn with
  | nil => simp [standing]
  | append_singleton log last ih =>
    have ih := ih h.init
    rw [standing_append, List.filterMap_append, List.filterMap_append, List.count_append,
      List.count_append, List.filterMap_cons, List.filterMap_cons]
    cases last with
    | recorded other newer =>
      by_cases heq : other = command
      · -- It may replace a status that nobody has taken, so the two sides need not be equal.
        simp [Happening.standing, Happening.taken?, Happening.recorded?, heq]
        omega
      · simpa [Happening.standing, Happening.taken?, Happening.recorded?, heq] using ih
    | asked other answer =>
      by_cases heq : other = command
      · -- Whoever asks gets what stands, and leaves nothing.
        subst heq
        obtain rfl := h log _ [] rfl other answer rfl
        cases hstanding : standing log other <;>
          simpa [Happening.standing, Happening.taken?, Happening.recorded?, hstanding] using ih
      · cases answer <;>
          simpa [Happening.standing, Happening.taken?, Happening.recorded?, heq] using ih
    | accepted | finished | returned =>
      simpa [Happening.standing, Happening.taken?, Happening.recorded?] using ih

end Logs

end History

end ComputeCore
